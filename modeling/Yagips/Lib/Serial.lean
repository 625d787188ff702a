import Mathlib.Data.BitVec

/-!
# Serial numbers

Numbers of a fixed width that start over. Two of them are compared by the sign of their
difference, which is the order of the numbers they stand for as long as those are less than half
of the range apart.
-/
namespace Yagips.Lib.Serial

variable {w : Nat}

/-- How far the first number is past the second, in the shorter direction. -/
def diff (later earlier : BitVec (w + 1)) : Int := (later - earlier).toInt

/-- How far a number is past the start of a window, going up. -/
def offset (base x : BitVec (w + 1)) : Nat := (x - base).toNat

theorem bmod_double {half : Nat} {n : Int} (hle : -(half : Int) ≤ n) (hlt : n < half) :
    n.bmod (half * 2) = n := by
  apply Int.bmod_eq_of_le
  · push_cast
    omega
  · push_cast
    omega

/-- Numbers at most half of the range apart are compared as they are. -/
theorem diff_ofNat {a b : Nat} (hab : a < b + 2 ^ w) (hba : b ≤ a + 2 ^ w) :
    diff (BitVec.ofNat (w + 1) a) (BitVec.ofNat (w + 1) b) = (a : Int) - b := by
  rw [diff, BitVec.toInt_sub, BitVec.toInt_ofNat', BitVec.toInt_ofNat', Int.sub_bmod_bmod,
    Int.bmod_sub_bmod, Nat.pow_succ]
  generalize 2 ^ w = half at hab hba
  exact bmod_double (by omega) (by omega)

theorem eq_of_mod_eq {a b n : Nat} (hle : a ≤ b) (hlt : b < a + n) (h : a % n = b % n) : a = b := by
  have hzero := Nat.sub_mod_eq_zero_of_mod_eq h.symm
  rw [Nat.mod_eq_of_lt (by omega)] at hzero
  omega

/-- Numbers less than the range apart are told apart. -/
theorem ofNat_inj {a b : Nat} (hab : a < b + 2 ^ (w + 1)) (hba : b < a + 2 ^ (w + 1)) :
    BitVec.ofNat (w + 1) a = BitVec.ofNat (w + 1) b ↔ a = b := by
  refine ⟨fun h => ?_, congrArg _⟩
  have hmod : a % 2 ^ (w + 1) = b % 2 ^ (w + 1) := by
    rw [← BitVec.toNat_ofNat, h, BitVec.toNat_ofNat]
  rcases le_total a b with hle | hle
  · exact eq_of_mod_eq hle hba hmod
  · exact (eq_of_mod_eq hle hab hmod.symm).symm

/-- The other way round, except where the numbers are half of the range apart. -/
theorem diff_comm {a b : BitVec (w + 1)} (h : diff a b ≠ -2 ^ w) : diff b a = -diff a b := by
  rw [diff, ← neg_sub a b, BitVec.toInt_neg_of_ne_intMin, diff]
  intro hmin
  apply h
  rw [diff, hmin, BitVec.toInt_intMin_of_pos (Nat.succ_pos w)]
  push_cast
  rfl

/-! ## Windows -/

section Window

variable {base x y : BitVec (w + 1)}

theorem offset_self (base : BitVec (w + 1)) : offset base base = 0 := by
  rw [offset, sub_self]
  rfl

theorem offset_inj : offset base x = offset base y ↔ x = y := by
  refine ⟨fun h => ?_, congrArg _⟩
  have hsub : x - base = y - base := BitVec.eq_of_toNat_eq h
  exact sub_left_injective hsub

theorem offset_eq_zero_iff : offset base x = 0 ↔ x = base := by
  rw [← offset_self base, offset_inj]

theorem toInt_of_lt {x : BitVec (w + 1)} (h : x.toNat < 2 ^ w) : x.toInt = x.toNat := by
  rw [BitVec.toInt_eq_toNat_cond, Nat.pow_succ, if_pos (by omega)]

/-- In the half of the range that a window starts numbers are compared by their offsets. -/
theorem diff_eq_offset (hx : offset base x < 2 ^ w) (hy : offset base y < 2 ^ w) :
    diff x y = (offset base x : Int) - offset base y := by
  rw [diff, ← sub_sub_sub_cancel_right x y base, BitVec.toInt_sub, toInt_of_lt hx, toInt_of_lt hy,
    Nat.pow_succ]
  unfold offset at hx hy ⊢
  generalize 2 ^ w = half at hx hy
  exact bmod_double (by omega) (by omega)

theorem diff_base_neg_iff : diff x base < 0 ↔ 2 ^ w ≤ offset base x := by
  have hlt := (x - base).isLt
  rw [Nat.pow_succ] at hlt
  rw [diff, offset, BitVec.toInt_eq_toNat_cond, Nat.pow_succ]
  generalize 2 ^ w = half at hlt
  split <;> omega

theorem offset_add (base : BitVec (w + 1)) {n : Nat} (h : n < 2 ^ (w + 1)) : offset base (base + BitVec.ofNat (w + 1) n) = n := by
  rw [offset, add_sub_cancel_left, BitVec.toNat_ofNat, Nat.mod_eq_of_lt h]

/-- A window that starts later. -/
theorem offset_of_le (h : offset base x ≤ offset base y) : offset x y = offset base y - offset base x := by
  rw [offset, ← sub_sub_sub_cancel_right y x base]
  exact BitVec.toNat_sub_of_le h

/-- The two comparisons with the ends of a window tell what is in it. -/
theorem outside_iff (base x : BitVec (w + 1)) {n : Nat} (hn : n < 2 ^ w) :
    0 ≤ diff x (base + BitVec.ofNat (w + 1) n) ∨ diff x base < 0 ↔ n ≤ offset base x := by
  have hend : offset base (base + BitVec.ofNat (w + 1) n) = n :=
    offset_add base (hn.trans (Nat.pow_lt_pow_succ Nat.one_lt_two))
  rw [diff_base_neg_iff]
  rcases Nat.lt_or_ge (offset base x) (2 ^ w) with hx | hx
  · rw [diff_eq_offset hx (hend.symm ▸ hn), hend]
    omega
  · exact iff_of_true (.inr hx) (by omega)

end Window

end Yagips.Lib.Serial
