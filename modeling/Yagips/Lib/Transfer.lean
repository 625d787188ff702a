import Mathlib.Data.Set.Insert
import Mathlib.Logic.Relation

/-!
# Reliable transfer

One direction of a link over a network that loses, repeats and reorders messages. The sender numbers
what it sends and keeps it until it hears that the receiver has it; the receiver takes numbers in any
order and hands out what it has without a gap. Messages carry facts about both ends that stay true, so
that it does not matter when one arrives, or how often.
-/
namespace Yagips.Lib

/-- What is numbered so far, which numbers are kept to be sent again, and what the receiver has: all
numbers below `next`, and `early` ones. -/
structure Transfer (α : Type) where
  log : List α
  kept : Set Nat
  next : Nat
  early : Set Nat

namespace Transfer

variable {α : Type}

def start : Transfer α where
  log := []
  kept := ∅
  next := 0
  early := ∅

/-- The receiver has a number. -/
def Has (t : Transfer α) (i : Nat) : Prop := i < t.next ∨ i ∈ t.early

inductive Step : Transfer α → Transfer α → Prop where
  | number (t : Transfer α) (as : List α) : Step t { t with
      log := t.log ++ as
      kept := t.kept ∪ {i | t.log.length ≤ i ∧ i < t.log.length + as.length} }
  | release (t : Transfer α) {gone : Set Nat} (h : ∀ i ∈ gone, t.Has i) :
      Step t { t with kept := t.kept \ gone }
  | accept (t : Transfer α) {i : Nat} (h : i < t.log.length) : Step t { t with early := insert i t.early }
  | advance (t : Transfer α) {m : Nat} (hle : t.next ≤ m) (h : ∀ i, t.next ≤ i → i < m → i ∈ t.early) :
      Step t { t with next := m }

/-- Any number of steps. -/
abbrev Steps : Transfer α → Transfer α → Prop := Relation.ReflTransGen Step

/-! ## What stays true -/

/-- Nothing numbered changes, and the receiver gives nothing back. -/
structure Leads (t t' : Transfer α) : Prop where
  log : t.log <+: t'.log
  next : t.next ≤ t'.next
  has : ∀ i, t.Has i → t'.Has i

theorem Leads.refl (t : Transfer α) : Leads t t := ⟨List.prefix_rfl, le_rfl, fun _ h => h⟩

theorem Leads.trans {t t' t'' : Transfer α} (h : Leads t t') (h' : Leads t' t'') : Leads t t'' where
  log := h.log.trans h'.log
  next := h.next.trans h'.next
  has i hi := h'.has i (h.has i hi)

theorem Step.leads {t t' : Transfer α} (h : Step t t') : Leads t t' := by
  cases h with
  | number as => exact ⟨List.prefix_append _ _, le_rfl, fun _ h => h⟩
  | release h => exact ⟨List.prefix_rfl, le_rfl, fun _ h => h⟩
  | accept h => exact ⟨List.prefix_rfl, le_rfl, fun _ h => h.imp_right (Set.mem_insert_of_mem _)⟩
  | advance hle h =>
    refine ⟨List.prefix_rfl, hle, fun i hi => ?_⟩
    rcases hi with hi | hi
    · exact .inl (Nat.lt_of_lt_of_le hi hle)
    · exact .inr hi

theorem Steps.leads {t t' : Transfer α} (h : Steps t t') : Leads t t' := by
  induction h with
  | refl => exact Leads.refl t
  | tail _ hstep ih => exact ih.trans hstep.leads

/-- What messages say: what has a number, that a number was received, or all below one. -/
inductive Msg (α : Type) where
  | data (i : Nat) (a : α)
  | ack (i : Nat)
  | upTo (u : Nat)

def Msg.Holds (t : Transfer α) : Msg α → Prop
  | .data i a => t.log[i]? = some a
  | .ack i => t.Has i
  | .upTo u => u ≤ t.next

theorem Msg.Holds.later {t t' : Transfer α} (h : Leads t t') {m : Msg α} (hm : m.Holds t) : m.Holds t' := by
  cases m with
  | data i a =>
    obtain ⟨rest, hlog⟩ := h.log
    have hlt : i < t.log.length := (List.getElem?_eq_some_iff.mp hm).1
    rw [Holds, ← hlog, List.getElem?_append_left hlt]
    exact hm
  | ack i => exact h.has i hm
  | upTo u => exact Nat.le_trans hm h.next

/-! ## Nothing is lost -/

/-- Only what was numbered is received, and what is not received is kept. -/
structure Sound (t : Transfer α) : Prop where
  numbered : ∀ i, t.Has i → i < t.log.length
  safe : ∀ i < t.log.length, i ∈ t.kept ∨ t.Has i

theorem sound_start : Sound (start : Transfer α) where
  numbered i hi := by
    rcases hi with hi | hi
    · exact absurd hi (Nat.not_lt_zero i)
    · exact absurd hi (Set.notMem_empty i)
  safe i hi := absurd hi (Nat.not_lt_zero i)

theorem Step.sound {t t' : Transfer α} (hs : Sound t) (h : Step t t') : Sound t' := by
  cases h with
  | number as =>
    refine ⟨fun i hi => ?_, fun i hi => ?_⟩
    · rw [List.length_append]
      exact Nat.lt_add_right _ (hs.numbered i hi)
    · rw [List.length_append] at hi
      rcases Nat.lt_or_ge i t.log.length with hold | hnew
      · exact (hs.safe i hold).imp_left (Set.mem_union_left _)
      · exact .inl (Set.mem_union_right _ ⟨hnew, hi⟩)
  | release h =>
    rename_i gone
    refine ⟨hs.numbered, fun i hi => ?_⟩
    rcases hs.safe i hi with hkept | hhas
    · by_cases hgone : i ∈ gone
      · exact .inr (h i hgone)
      · exact .inl ⟨hkept, hgone⟩
    · exact .inr hhas
  | accept h =>
    rename_i i₀
    refine ⟨fun i hi => ?_, fun i hi => (hs.safe i hi).imp_right (Or.imp_right (Set.mem_insert_of_mem _))⟩
    rcases hi with hi | rfl | hi
    · exact hs.numbered i (.inl hi)
    · exact h
    · exact hs.numbered i (.inr hi)
  | advance hle h =>
    rename_i m
    refine ⟨fun i hi => ?_, fun i hi => (hs.safe i hi).imp_right ?_⟩
    · rcases hi with hi | hi
      · rcases Nat.lt_or_ge i t.next with hold | hnew
        · exact hs.numbered i (.inl hold)
        · exact hs.numbered i (.inr (h i hnew hi))
      · exact hs.numbered i (.inr hi)
    · exact Or.imp_left fun hi => Nat.lt_of_lt_of_le hi hle

theorem Steps.sound {t t' : Transfer α} (h : Steps t t') (hs : Sound t) : Sound t' := by
  induction h with
  | refl => exact hs
  | tail _ hstep ih => exact hstep.sound ih

theorem Sound.next_le {t : Transfer α} (h : Sound t) : t.next ≤ t.log.length := by
  rcases Nat.eq_zero_or_pos t.next with hzero | hpos
  · omega
  · have hlast := h.numbered (t.next - 1) (.inl (by omega))
    omega

/-- A sender that keeps nothing has sent nothing in vain. -/
theorem Sound.all_has {t : Transfer α} (h : Sound t) (hkept : t.kept = ∅) :
    ∀ i < t.log.length, t.Has i := by
  intro i hi
  rcases h.safe i hi with hmem | hhas
  · rw [hkept] at hmem
    exact absurd hmem (Set.notMem_empty i)
  · exact hhas

end Transfer

end Yagips.Lib
