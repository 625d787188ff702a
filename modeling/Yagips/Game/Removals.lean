import Mathlib.Data.List.Nodup
import Yagips.Game.Players
import Yagips.Lib.Run

/-!
# Removing a permission or an open state

Both loops erase the node they stand at and then advance the iterator they have erased. The walk
goes on here as if that node still held its link, and remembers that it was read.
-/
namespace Yagips.Game.Removals

open Yagips.Lib
open Yagips.Lib.Run
open Yagips.Game.Players (setOpenstate)

/-! ## Erasing in a walk -/

section Walk

variable {α : Type} [DecidableEq α]

/-- What a walk leaves, and whether it advanced an iterator it had erased. -/
structure Walked (α : Type) where
  left : List α
  stale : Bool

def eraseWalk (x : α) : List α → Walked α
  | [] => { left := [], stale := false }
  | y :: rest =>
    let next := eraseWalk x rest
    if y = x then { next with stale := true } else { next with left := y :: next.left }

def contains (l : List α) (x : α) : UInt32 := if x ∈ l then 1 else 0

theorem eraseWalk_left (x : α) (l : List α) : (eraseWalk x l).left = l.filter (· ≠ x) := by
  induction l with
  | nil => rfl
  | cons y rest ih =>
    rw [eraseWalk]
    by_cases h : y = x
    · rw [if_pos h, List.filter_cons_of_neg (by simpa using h)]
      exact ih
    · rw [if_neg h, List.filter_cons_of_pos (by simpa using h)]
      exact congrArg (y :: ·) ih

theorem eraseWalk_stale_iff (x : α) (l : List α) : (eraseWalk x l).stale = true ↔ x ∈ l := by
  induction l with
  | nil => simp [eraseWalk]
  | cons y rest ih =>
    rw [eraseWalk, List.mem_cons]
    by_cases h : y = x
    · rw [if_pos h]
      exact iff_of_true rfl (Or.inl h.symm)
    · rw [if_neg h, or_iff_right fun he => h he.symm]
      exact ih

theorem contains_eq_one_iff (l : List α) (x : α) : contains l x = 1 ↔ x ∈ l := by
  rw [contains]
  by_cases h : x ∈ l
  · rw [if_pos h]
    exact iff_of_true rfl h
  · rw [if_neg h]
    exact iff_of_false (by decide) h

end Walk

/-! ## Permissions -/

def removePermission (permissions : List UInt32) (p : UInt32) : Walked UInt32 := eraseWalk p permissions

def hasPermission (permissions : List UInt32) (p : UInt32) : UInt32 := contains permissions p

/-! ## Open states -/

/-- `clearOpenstate` without its notification. -/
def clearOpenstate (openstates : List UInt32) (state : UInt32) : Walked UInt32 :=
  eraseWalk state openstates

def getOpenstate (openstates : List UInt32) (state : UInt32) : UInt32 := contains openstates state

inductive Call where
  | setOpenstate (state : UInt32)
  | clearOpenstate (state : UInt32)
  deriving DecidableEq

def Call.state : Call → UInt32
  | .setOpenstate state => state
  | .clearOpenstate state => state

/-- A walk that reads an erased node does not go on. -/
def step (openstates : List UInt32) : Call → Except Fault (List UInt32)
  | .setOpenstate state => return setOpenstate openstates state
  | .clearOpenstate state =>
    let walked := clearOpenstate openstates state
    if walked.stale then .error .pointer else return walked.left

/-! ## What is asked of a removal -/

/-- Exactly what is not equal to the argument is left, in order, and no erased node was read. -/
structure RemovesAll (remove : List UInt32 → UInt32 → Walked UInt32)
    (has : List UInt32 → UInt32 → UInt32) (l : List UInt32) (x : UInt32) : Prop where
  left : (remove l x).left = l.filter (· ≠ x)
  gone : has (remove l x).left x = 0
  valid : (remove l x).stale = false

/-- The last call on a state has set it. -/
def LastSet (calls : List Call) (state : UInt32) : Prop :=
  calls.reverse.find? (·.state = state) = some (.setOpenstate state)

/-- The list holds, once each, the states that were last set. -/
structure Tracks (openstates : List UInt32) (calls : List Call) : Prop where
  nodup : openstates.Nodup
  last : ∀ state, getOpenstate openstates state = 1 ↔ LastSet calls state

/-- A sequence of calls on an empty list ends, with what was last set. -/
def Follows (calls : List Call) : Prop :=
  ∃ openstates, run step [] calls = .ok openstates ∧ Tracks openstates calls

/-- Every state that is cleared was not set, or was cleared since. -/
def ClearsUnset (calls : List Call) : Prop :=
  ∀ done state rest, calls = done ++ .clearOpenstate state :: rest → ¬ LastSet done state

/-! ## One removal -/

theorem eraseWalk_removes_iff (l : List UInt32) (x : UInt32) :
    RemovesAll (fun l x => eraseWalk x l) contains l x ↔ x ∉ l := by
  constructor
  · intro h hx
    rw [← eraseWalk_stale_iff, h.valid] at hx
    cases hx
  · intro hx
    refine ⟨eraseWalk_left x l, ?_, ?_⟩
    · rw [contains, eraseWalk_left, if_neg (by simp)]
    · rwa [← Bool.not_eq_true, eraseWalk_stale_iff]

/-! ## Sequences of calls -/

theorem lastSet_append_self (calls : List Call) (call : Call) :
    LastSet (calls ++ [call]) call.state ↔ call = .setOpenstate call.state := by
  rw [LastSet, List.reverse_append, List.reverse_singleton, List.singleton_append,
    List.find?_cons_of_pos (by simp), Option.some.injEq]

theorem lastSet_append_other {calls : List Call} {call : Call} {state : UInt32} (h : call.state ≠ state) :
    LastSet (calls ++ [call]) state ↔ LastSet calls state := by
  rw [LastSet, List.reverse_append, List.reverse_singleton, List.singleton_append,
    List.find?_cons_of_neg (by simpa using h), LastSet]

theorem Tracks.mem_iff {openstates : List UInt32} {calls : List Call} (h : Tracks openstates calls)
    (state : UInt32) : state ∈ openstates ↔ LastSet calls state :=
  (contains_eq_one_iff openstates state).symm.trans (h.last state)

theorem tracks_of_mem {openstates : List UInt32} {calls : List Call} (hnodup : openstates.Nodup)
    (hlast : ∀ state, state ∈ openstates ↔ LastSet calls state) : Tracks openstates calls :=
  ⟨hnodup, fun state => (contains_eq_one_iff openstates state).trans (hlast state)⟩

theorem tracks_set {openstates : List UInt32} {calls : List Call} (h : Tracks openstates calls)
    (state : UInt32) :
    Tracks (setOpenstate openstates state) (calls ++ [.setOpenstate state]) := by
  have hmem (s : UInt32) : s ∈ setOpenstate openstates state ↔ s ∈ openstates ∨ s = state := by
    rw [setOpenstate]
    by_cases hs : state ∈ openstates
    · rw [if_pos hs]
      exact ⟨Or.inl, fun h => h.elim id fun he => he ▸ hs⟩
    · rw [if_neg hs, List.mem_append, List.mem_singleton]
  refine tracks_of_mem ?_ fun s => ?_
  · rw [setOpenstate]
    by_cases hs : state ∈ openstates
    · rw [if_pos hs]
      exact h.nodup
    · rw [if_neg hs, ← List.concat_eq_append]
      exact h.nodup.concat hs
  · rw [hmem]
    by_cases hs : s = state
    · subst hs
      exact iff_of_true (Or.inr rfl) ((lastSet_append_self calls (.setOpenstate s)).2 rfl)
    · have hother : (Call.setOpenstate state).state ≠ s := fun he => hs he.symm
      rw [lastSet_append_other hother, or_iff_left hs, h.mem_iff]

theorem tracks_clear {openstates : List UInt32} {calls : List Call} (h : Tracks openstates calls)
    (state : UInt32) :
    Tracks (clearOpenstate openstates state).left (calls ++ [.clearOpenstate state]) := by
  rw [clearOpenstate, eraseWalk_left]
  refine tracks_of_mem (h.nodup.filter _) fun s => ?_
  by_cases hs : s = state
  · subst hs
    refine iff_of_false (by simp) fun hlast => ?_
    cases (lastSet_append_self calls (.clearOpenstate s)).1 hlast
  · have hother : (Call.clearOpenstate state).state ≠ s := fun he => hs he.symm
    rw [lastSet_append_other hother, List.mem_filter, h.mem_iff]
    simp [hs]

/-- What is asked of the calls that are left. -/
def ClearsUnsetAfter (done calls : List Call) : Prop :=
  ∀ pre state rest, calls = pre ++ .clearOpenstate state :: rest → ¬ LastSet (done ++ pre) state

theorem clearsUnsetAfter_nil (done : List Call) : ClearsUnsetAfter done [] := by
  intro pre state rest he
  cases pre <;> cases he

theorem clearsUnsetAfter_cons (done : List Call) (call : Call) (calls : List Call) :
    ClearsUnsetAfter done (call :: calls) ↔
      (∀ state, call = .clearOpenstate state → ¬ LastSet done state) ∧
        ClearsUnsetAfter (done ++ [call]) calls := by
  have hshift (pre : List Call) : done ++ [call] ++ pre = done ++ call :: pre := List.append_cons _ _ _ |>.symm
  constructor
  · intro hall
    refine ⟨fun state he => ?_, fun pre state rest he => ?_⟩
    · have hfirst := hall [] state calls (by rw [he, List.nil_append])
      rwa [List.append_nil] at hfirst
    · rw [hshift]
      exact hall (call :: pre) state rest (by rw [he, List.cons_append])
  · intro ⟨hfirst, hlater⟩ pre state rest he
    cases pre with
    | nil =>
      cases he
      rw [List.append_nil]
      exact hfirst state rfl
    | cons c pre =>
      cases he
      rw [← hshift]
      exact hlater pre state rest rfl

/-- Induction on the calls that are left: a clear goes on just where its state is not in the list. -/
theorem run_tracks_iff {openstates : List UInt32} {done : List Call} (h : Tracks openstates done)
    (calls : List Call) :
    (∃ l, run step openstates calls = .ok l ∧ Tracks l (done ++ calls)) ↔ ClearsUnsetAfter done calls := by
  induction calls generalizing openstates done with
  | nil => exact iff_of_true ⟨openstates, rfl, by rwa [List.append_nil]⟩ (clearsUnsetAfter_nil done)
  | cons call calls ih =>
    rw [clearsUnsetAfter_cons]
    cases call with
    | setOpenstate state =>
      rw [and_iff_right (fun _ he => nomatch he), ← ih (tracks_set h state), List.append_assoc]
      rfl
    | clearOpenstate state =>
      by_cases hs : state ∈ openstates
      · refine iff_of_false ?_ fun hall => hall.1 state rfl ((h.mem_iff state).1 hs)
        intro ⟨l, hrun, _⟩
        have hstale := (eraseWalk_stale_iff state openstates).2 hs
        simp only [run, step, clearOpenstate, hstale, if_true] at hrun
        cases hrun
      · have hvalid : (clearOpenstate openstates state).stale = false := by
          rwa [← Bool.not_eq_true, clearOpenstate, eraseWalk_stale_iff]
        have hunset : ∀ s, Call.clearOpenstate state = .clearOpenstate s → ¬ LastSet done s := by
          intro s he
          cases he
          rwa [← h.mem_iff]
        rw [and_iff_right hunset, ← ih (tracks_clear h state), List.append_assoc]
        simp only [run, step, hvalid, Bool.false_eq_true, if_false]
        rfl

theorem tracks_empty : Tracks [] [] := tracks_of_mem List.nodup_nil fun _ => by simp [LastSet]

/-- A removal is right just where there is nothing to remove, and a sequence of calls where every
state it clears is not set. -/
theorem removals_iff (permissions : List UInt32) (p : UInt32) (openstates : List UInt32) (state : UInt32)
    (calls : List Call) :
    (RemovesAll removePermission hasPermission permissions p ↔ p ∉ permissions) ∧
    (RemovesAll clearOpenstate getOpenstate openstates state ↔ state ∉ openstates) ∧
    (Follows calls ↔ ClearsUnset calls) := by
  refine ⟨eraseWalk_removes_iff permissions p, eraseWalk_removes_iff openstates state, ?_⟩
  exact run_tracks_iff tracks_empty calls

/-- The only permission of an account is removed. -/
theorem permission_erased : ¬ RemovesAll removePermission hasPermission [1] 1 := by
  intro h
  cases h.valid

end Yagips.Game.Removals
