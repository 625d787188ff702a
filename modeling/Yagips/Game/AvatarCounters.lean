import Yagips.Game.Avatars
import Yagips.Lib.Run

/-!
# The counters of an avatar

Six counters are added to with one body, but for one of them, which sets another counter to 0 where
its own would be negative.
-/
namespace Yagips.Game.AvatarCounters

open Yagips.Lib.Run
open Yagips.Game.Avatars

structure Call where
  counter : Counter
  delta : Int32

def add (a : Avatar) (call : Call) : Avatar × UInt32 :=
  match call.counter with
  | .exp => a.addExp call.delta
  | .friendshipExp => a.addFriendshipExp call.delta
  | .curHp => a.addCurHp call.delta
  | .full => a.addFullness call.delta
  | .fullCd => a.addFullnessCd call.delta
  | .energy => a.addEnergy call.delta

def step (a : Avatar) (call : Call) : Except Empty Avatar := .ok (add a call).1

/-! ## What is asked of a call -/

/-- Every counter reads as an `int` that is not negative. -/
def Below (a : Avatar) : Prop := ∀ k, (a.get k).toNat < 2 ^ 31

/-- The counter and what is added to it, without a bound. -/
def exact (a : Avatar) (call : Call) : Int := (a.get call.counter).toNat + call.delta.toInt

def Fits (a : Avatar) (call : Call) : Prop := -2 ^ 31 ≤ exact a call ∧ exact a call < 2 ^ 31

instance (a : Avatar) (call : Call) : Decidable (Fits a call) :=
  inferInstanceAs (Decidable (-2 ^ 31 ≤ exact a call ∧ exact a call < 2 ^ 31))

/-- A call sets its counter to the exact sum, or to 0 in place of a negative one, returns it, and
leaves the others. -/
structure Right (a : Avatar) (call : Call) : Prop where
  own : (((add a call).1.get call.counter).toNat : Int) = max 0 (exact a call)
  ret : ((add a call).2.toNat : Int) = max 0 (exact a call)
  others : ∀ k ≠ call.counter, (add a call).1.get k = a.get k
  below : Below (add a call).1

/-- A sum of friendship experience is not negative. -/
def Nonneg (a : Avatar) (call : Call) : Prop := call.counter = .friendshipExp → 0 ≤ exact a call

/-! ## Sums of words -/

theorem toNat_toUInt32 (d : Int32) : (d.toUInt32.toNat : Int) = d.toInt % 2 ^ 32 := by
  show (d.toBitVec.toNat : Int) = d.toBitVec.toInt % 2 ^ 32
  rw [BitVec.toInt_eq_toNat_cond]
  have hlt := d.toBitVec.isLt
  split <;> omega

theorem negative_iff (w : UInt32) : w.toInt32 < 0 ↔ 2 ^ 31 ≤ w.toNat := by
  rw [Int32.lt_iff_toInt_lt]
  show w.toBitVec.toInt < 0 ↔ 2 ^ 31 ≤ w.toBitVec.toNat
  rw [BitVec.toInt_eq_toNat_cond]
  have hlt := w.toBitVec.isLt
  split <;> omega

theorem toNat_sum (x : UInt32) (d : Int32) :
    ((x + d.toUInt32).toNat : Int) = (x.toNat + d.toInt) % 2 ^ 32 := by
  have hd := toNat_toUInt32 d
  rw [UInt32.toNat_add]
  omega

/-! ## Calls -/

theorem get_set (a : Avatar) (x : UInt32) (k : Counter) : (a.set x k).get k = x := by
  cases k <;> rfl

theorem get_set_ne (a : Avatar) (x : UInt32) {k k' : Counter} (h : k' ≠ k) : (a.set x k).get k' = a.get k' := by
  cases k <;> cases k' <;> first | rfl | exact absurd rfl h

/-- What five of the functions return. -/
theorem addTo_value {a : Avatar} {c : Counter} {d : Int32} (hbelow : (a.get c).toNat < 2 ^ 31)
    (hfit : (a.get c).toNat + d.toInt < 2 ^ 31) :
    ((a.addTo c d).2.toNat : Int) = max 0 ((a.get c).toNat + d.toInt) := by
  have hsum := toNat_sum (a.get c) d
  have hd := d.le_toInt
  have hnegative := negative_iff (a.get c + d.toUInt32)
  change ((if (a.get c + d.toUInt32).toInt32 < 0 then 0 else a.get c + d.toUInt32 : UInt32).toNat : Int) = _
  by_cases hneg : (a.get c).toNat + d.toInt < 0
  · rw [if_pos (hnegative.mpr (by omega)), max_eq_left hneg.le]
    rfl
  · rw [if_neg fun h => absurd (hnegative.mp h) (by omega), max_eq_right (not_lt.mp hneg), hsum]
    exact Int.emod_eq_of_lt (not_lt.mp hneg) (by omega)

theorem right_addTo {a : Avatar} (ha : Below a) {call : Call} (hfit : Fits a call)
    (hadd : add a call = a.addTo call.counter call.delta) : Right a call := by
  have hvalue := addTo_value (ha call.counter) hfit.2
  have hown : (add a call).1.get call.counter = (add a call).2 := by
    rw [hadd]
    exact get_set _ _ _
  have hothers : ∀ k ≠ call.counter, (add a call).1.get k = a.get k := by
    intro k hk
    rw [hadd]
    exact get_set_ne _ _ hk
  refine ⟨?_, ?_, hothers, fun k => ?_⟩
  · rw [hown, hadd, hvalue]
    rfl
  · rw [hadd, hvalue]
    rfl
  · by_cases hk : k = call.counter
    · rw [hk, hown, hadd]
      have hlt : exact a call < 2 ^ 31 := hfit.2
      have hexact : exact a call = (a.get call.counter).toNat + call.delta.toInt := rfl
      omega
    · rw [hothers k hk]
      exact ha k

/-- Where its sum is not negative, the sixth function is like the others. -/
theorem addFriendshipExp_eq {a : Avatar} {d : Int32}
    (hpos : 0 ≤ (a.friendshipExp.toNat : Int) + d.toInt)
    (hfit : (a.friendshipExp.toNat : Int) + d.toInt < 2 ^ 31) :
    a.addFriendshipExp d = a.addTo .friendshipExp d := by
  have hsum := toNat_sum a.friendshipExp d
  have hnot : ¬ (a.friendshipExp + d.toUInt32).toInt32 < 0 := by
    rw [negative_iff]
    omega
  have hget : a.get .friendshipExp = a.friendshipExp := rfl
  simp only [Avatar.addFriendshipExp, Avatar.addTo, hget, if_neg hnot, Avatar.set]

/-- Otherwise it returns the negative sum. -/
theorem addFriendshipExp_wrong {a : Avatar} {call : Call} (hfit : Fits a call)
    (hcounter : call.counter = .friendshipExp) (hneg : exact a call < 0) : ¬ Right a call := by
  intro h
  have hret := h.ret
  rw [max_eq_left hneg.le] at hret
  have hsum := toNat_sum a.friendshipExp call.delta
  obtain ⟨counter, delta⟩ := call
  cases hcounter
  have hvalue : ((a.friendshipExp + delta.toUInt32).toNat : Int) = 0 := hret
  have hexact : exact a ⟨.friendshipExp, delta⟩ = a.friendshipExp.toNat + delta.toInt := rfl
  have hlow := hfit.1
  have hbelow := a.friendshipExp.toNat_lt
  change ((a.friendshipExp + delta.toUInt32).toNat : Int) = (a.friendshipExp.toNat + delta.toInt) % 2 ^ 32 at hsum
  omega

theorem right_iff {a : Avatar} (ha : Below a) {call : Call} (hfit : Fits a call) :
    Right a call ↔ Nonneg a call := by
  obtain ⟨counter, delta⟩ := call
  cases counter with
  | friendshipExp =>
    constructor
    · intro hright _
      by_contra hneg
      exact addFriendshipExp_wrong hfit rfl (not_le.mp hneg) hright
    · intro hnonneg
      exact right_addTo ha hfit (addFriendshipExp_eq (hnonneg rfl) hfit.2)
  | exp => exact iff_of_true (right_addTo ha hfit rfl) nofun
  | curHp => exact iff_of_true (right_addTo ha hfit rfl) nofun
  | full => exact iff_of_true (right_addTo ha hfit rfl) nofun
  | fullCd => exact iff_of_true (right_addTo ha hfit rfl) nofun
  | energy => exact iff_of_true (right_addTo ha hfit rfl) nofun

/-! ## Runs -/

/-- Over a run of sums that fit in an `int`, every call is right exactly where no sum of friendship
experience is negative. -/
theorem counters_right_iff {a : Avatar} (ha : Below a) {calls : List Call}
    (hfit : Along step Fits a calls) : Along step Right a calls ↔ Along step Nonneg a calls := by
  have hkeep : ∀ s e s', Below s → Fits s e ∧ Right s e → step s e = .ok s' → Below s' := by
    intro s e s' _ hc hstep
    cases hstep
    exact hc.2.below
  have hboth : Along step (fun s e => Fits s e ∧ Right s e) a calls ↔
      Along step (fun s e => Fits s e ∧ Nonneg s e) a calls :=
    along_congr Below hkeep (fun s e hs => and_congr_right fun he => right_iff hs he) ha
  rw [along_and, along_and] at hboth
  exact ⟨fun h => (hboth.mp ⟨hfit, h⟩).2, fun h => (hboth.mpr ⟨hfit, h⟩).2⟩

/-- A new avatar, in memory that was zero. -/
def newAvatar : Avatar := Avatar.new 0 (zeros .null)

theorem newAvatar_below : Below newAvatar := by
  intro k
  cases k <;> decide

theorem newAvatar_counters :
    Along step Right newAvatar [⟨.exp, 100⟩, ⟨.friendshipExp, 20⟩, ⟨.exp, -200⟩] ↔
      Along step Nonneg newAvatar [⟨.exp, 100⟩, ⟨.friendshipExp, 20⟩, ⟨.exp, -200⟩] := by
  refine counters_right_iff newAvatar_below ?_
  refine ⟨by decide, fun s h => ?_⟩
  cases h
  refine ⟨by decide, fun s h => ?_⟩
  cases h
  exact ⟨by decide, fun s h => trivial⟩

/-- Taking one from a friendship experience of 0 leaves 2^32 - 1. -/
theorem friendship_wraps : ¬ ∀ a, Below a → ∀ calls, Along step Fits a calls → Along step Right a calls := by
  intro h
  have hrun := h newAvatar newAvatar_below [⟨.friendshipExp, -1⟩] ⟨by decide, fun _ _ => trivial⟩
  have hret : (4294967295 : Int) = max 0 (-1) := hrun.1.ret
  exact absurd hret (by decide)

end Yagips.Game.AvatarCounters
