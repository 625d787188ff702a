import Mathlib.Data.List.Basic

/-!
# Ordered stores

A map kept as the list of its entries in strictly increasing key order, so that an
iteration over it visits every key once and in that order.
-/
namespace Yagips.Lib

variable {K V : Type} [Ord K]

structure OrderedStore (K V : Type) [Ord K] where
  entries : List (K × V)
  sorted : entries.Pairwise fun a b => compare a.1 b.1 = .lt
  deriving DecidableEq

namespace OrderedStore

def empty : OrderedStore K V where
  entries := []
  sorted := List.Pairwise.nil

def lookupIn (k : K) : List (K × V) → Option V
  | [] => none
  | (k', v) :: rest =>
    match compare k k' with
    | .eq => some v
    | _ => lookupIn k rest

def insertIn (k : K) (v : V) : List (K × V) → List (K × V)
  | [] => [(k, v)]
  | (k', v') :: rest =>
    match compare k k' with
    | .lt => (k, v) :: (k', v') :: rest
    | .eq => (k, v) :: rest
    | .gt => (k', v') :: insertIn k v rest

def get (s : OrderedStore K V) (k : K) : Option V := lookupIn k s.entries

/-- Every value replaced, under the same keys. -/
def mapValues (f : K → V → V) (s : OrderedStore K V) : OrderedStore K V where
  entries := s.entries.map fun e => (e.1, f e.1 e.2)
  sorted := List.pairwise_map.mpr s.sorted

def erase (s : OrderedStore K V) (k : K) : OrderedStore K V where
  entries := s.entries.filter fun e => compare k e.1 ≠ .eq
  sorted := s.sorted.filter _

/-- The entries of a store are a store again. -/
theorem of_entries (s : OrderedStore K V) :
    (if h : s.entries.Pairwise fun a b => compare a.1 b.1 = .lt then
      some (⟨s.entries, h⟩ : OrderedStore K V) else none) = some s :=
  dif_pos s.sorted

theorem mem_insertIn {k : K} {v : V} {l : List (K × V)} {e : K × V} (h : e ∈ insertIn k v l) :
    e = (k, v) ∨ e ∈ l := by
  induction l with
  | nil => exact Or.inl (List.mem_singleton.mp h)
  | cons hd tl ih =>
    unfold insertIn at h
    split at h
    · exact (List.mem_cons.mp h).imp_right id
    · rcases List.mem_cons.mp h with h | h
      · exact Or.inl h
      · exact Or.inr (List.mem_cons_of_mem _ h)
    · rcases List.mem_cons.mp h with h | h
      · exact Or.inr (h ▸ List.mem_cons_self)
      · exact (ih h).imp_right (List.mem_cons_of_mem _)

theorem get_erase_self (s : OrderedStore K V) (k : K) : (s.erase k).get k = none := by
  show lookupIn k (s.entries.filter fun e => compare k e.1 ≠ .eq) = none
  induction s.entries with
  | nil => rfl
  | cons hd tl ih =>
    cases hc : compare k hd.1 with
    | eq => simpa [List.filter_cons, hc] using ih
    | lt => simpa [List.filter_cons, lookupIn, hc] using ih
    | gt => simpa [List.filter_cons, lookupIn, hc] using ih

variable [Std.LawfulEqOrd K]

theorem lookupIn_insertIn_self (k : K) (v : V) (l : List (K × V)) :
    lookupIn k (insertIn k v l) = some v := by
  induction l with
  | nil => simp [insertIn, lookupIn]
  | cons hd tl ih =>
    unfold insertIn
    split
    case h_1 => simp [lookupIn]
    case h_2 => simp [lookupIn]
    case h_3 hgt => simp [lookupIn, hgt, ih]

theorem lookupIn_insertIn_ne {k k' : K} (h : k' ≠ k) (v : V) (l : List (K × V)) :
    lookupIn k' (insertIn k v l) = lookupIn k' l := by
  induction l with
  | nil => simp [insertIn, lookupIn, h]
  | cons hd tl ih =>
    unfold insertIn
    split
    case h_1 => simp [lookupIn, h]
    case h_2 heq =>
      have hk : k = hd.1 := Std.LawfulEqCmp.eq_of_compare heq
      simp [lookupIn, ← hk, h]
    case h_3 => simp only [lookupIn, ih]

theorem lookupIn_eq_some {k : K} {v : V} {l : List (K × V)}
    (hl : l.Pairwise fun a b => compare a.1 b.1 = .lt) : lookupIn k l = some v ↔ (k, v) ∈ l := by
  induction l with
  | nil => simp [lookupIn]
  | cons hd tl ih =>
    obtain ⟨hhd, htl⟩ := List.pairwise_cons.mp hl
    unfold lookupIn
    split
    case h_1 heq =>
      have hk : k = hd.1 := Std.LawfulEqCmp.eq_of_compare heq
      have hnot : (k, v) ∉ tl := by
        intro hmem
        have hlt := hhd _ hmem
        have heq : compare hd.1 k = .eq := hk ▸ Std.ReflCmp.compare_self
        exact absurd (heq.symm.trans hlt) (by decide)
      rw [List.mem_cons, or_iff_left hnot, Option.some.injEq, hk]
      constructor
      · intro hv
        rw [← hv]
      · intro hv
        rw [← hv]
    case h_2 hne =>
      have hnot : (k, v) ≠ hd := by
        intro he
        apply hne
        rw [← he]
        exact Std.ReflCmp.compare_self
      rw [ih htl, List.mem_cons, or_iff_right hnot]

/-- Iterating visits exactly what can be looked up. -/
theorem mem_entries_iff (s : OrderedStore K V) {k : K} {v : V} :
    (k, v) ∈ s.entries ↔ s.get k = some v := (lookupIn_eq_some s.sorted).symm

theorem get_mapValues (f : K → V → V) (s : OrderedStore K V) (k : K) :
    (s.mapValues f).get k = (s.get k).map (f k) := by
  show lookupIn k (s.entries.map fun e => (e.1, f e.1 e.2)) = (lookupIn k s.entries).map (f k)
  induction s.entries with
  | nil => rfl
  | cons hd tl ih =>
    cases hc : compare k hd.1 with
    | eq =>
      have hk : k = hd.1 := Std.LawfulEqCmp.eq_of_compare hc
      simp [lookupIn, hk]
    | lt => simp [lookupIn, hc, ih]
    | gt => simp [lookupIn, hc, ih]

theorem get_erase_ne (s : OrderedStore K V) {k k' : K} (h : k' ≠ k) :
    (s.erase k).get k' = s.get k' := by
  show lookupIn k' (s.entries.filter fun e => compare k e.1 ≠ .eq) = lookupIn k' s.entries
  induction s.entries with
  | nil => rfl
  | cons hd tl ih =>
    cases hc : compare k hd.1 with
    | eq =>
      have hk : k = hd.1 := Std.LawfulEqCmp.eq_of_compare hc
      have hne : compare k' hd.1 ≠ .eq := fun he => h (hk ▸ Std.LawfulEqCmp.eq_of_compare he)
      simp only [List.filter_cons, hc, ne_eq, not_true, decide_false, Bool.false_eq_true, if_false, ih,
        lookupIn]
    | lt => simp only [List.filter_cons, hc, ne_eq, reduceCtorEq, not_false_iff, decide_true, if_true,
        lookupIn, ih]
    | gt => simp only [List.filter_cons, hc, ne_eq, reduceCtorEq, not_false_iff, decide_true, if_true,
        lookupIn, ih]

variable [Std.TransOrd K]

theorem sorted_insertIn (k : K) (v : V) {l : List (K × V)}
    (h : l.Pairwise fun a b => compare a.1 b.1 = .lt) :
    (insertIn k v l).Pairwise fun a b => compare a.1 b.1 = .lt := by
  induction l with
  | nil => exact List.pairwise_singleton _ _
  | cons hd tl ih =>
    obtain ⟨hhd, htl⟩ := List.pairwise_cons.mp h
    unfold insertIn
    split
    case h_1 hlt =>
      refine List.pairwise_cons.mpr ⟨fun e he => ?_, h⟩
      rcases List.mem_cons.mp he with rfl | he
      · exact hlt
      · exact Std.TransCmp.lt_trans hlt (hhd e he)
    case h_2 heq =>
      have hk : k = hd.1 := Std.LawfulEqCmp.eq_of_compare heq
      refine List.pairwise_cons.mpr ⟨fun e he => ?_, htl⟩
      rw [hk]
      exact hhd e he
    case h_3 hgt =>
      refine List.pairwise_cons.mpr ⟨fun e he => ?_, ih htl⟩
      rcases mem_insertIn he with rfl | he
      · exact Std.OrientedCmp.gt_iff_lt.mp hgt
      · exact hhd e he

def put (s : OrderedStore K V) (k : K) (v : V) : OrderedStore K V where
  entries := insertIn k v s.entries
  sorted := sorted_insertIn k v s.sorted

theorem get_put_self (s : OrderedStore K V) (k : K) (v : V) : (s.put k v).get k = some v :=
  lookupIn_insertIn_self k v s.entries

theorem get_put_ne (s : OrderedStore K V) {k k' : K} (h : k' ≠ k) (v : V) :
    (s.put k v).get k' = s.get k' := lookupIn_insertIn_ne h v s.entries

/-- A store is what can be looked up in it. -/
theorem ext_get {s t : OrderedStore K V} (h : ∀ k, s.get k = t.get k) : s = t := by
  have hnodup : ∀ u : OrderedStore K V, u.entries.Nodup := by
    intro u
    refine u.sorted.imp ?_
    intro a b hlt hab
    have heq : compare a.1 b.1 = .eq := hab ▸ Std.ReflCmp.compare_self
    cases heq.symm.trans hlt
  have hperm : s.entries.Perm t.entries := by
    refine (List.perm_ext_iff_of_nodup (hnodup s) (hnodup t)).mpr fun e => ?_
    show (e.1, e.2) ∈ s.entries ↔ (e.1, e.2) ∈ t.entries
    rw [mem_entries_iff, mem_entries_iff, h]
  have hasymm : ∀ a b : K × V, a ∈ s.entries → b ∈ t.entries → compare a.1 b.1 = .lt →
      compare b.1 a.1 = .lt → a = b := by
    intro a b _ _ hab hba
    cases (Std.OrientedCmp.gt_iff_lt.mpr hba).symm.trans hab
  have heq := hperm.eq_of_pairwise hasymm s.sorted t.sorted
  cases s
  cases t
  cases heq
  rfl

end OrderedStore

end Yagips.Lib
