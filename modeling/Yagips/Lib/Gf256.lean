import Yagips.Lib.Bytes

/-!
# Additive maps of bytes

The bytes as the field of 256 elements with the AES polynomial: addition is XOR, and
multiplication by a constant is a sum of iterated multiplications by `x`. All such maps
are additive, so an identity between their sums is checked on one byte at a time.
-/
namespace Yagips.Lib.Gf256

/-- Multiplication by `x`. -/
def xtime (b : UInt8) : UInt8 := b <<< 1 ^^^ (b >>> 7) * (0x1b : UInt8)

def Additive (f : UInt8 → UInt8) : Prop := ∀ a b, f (a ^^^ b) = f a ^^^ f b

theorem additive_id : Additive id := fun _ _ => rfl

theorem Additive.comp {f g : UInt8 → UInt8} (hf : Additive f) (hg : Additive g) :
    Additive fun b => f (g b) := by
  intro a b
  show f (g (a ^^^ b)) = f (g a) ^^^ f (g b)
  rw [hg, hf]

theorem Additive.xor {f g : UInt8 → UInt8} (hf : Additive f) (hg : Additive g) :
    Additive fun b => f b ^^^ g b := by
  intro a b
  show f (a ^^^ b) ^^^ g (a ^^^ b) = f a ^^^ g a ^^^ (f b ^^^ g b)
  rw [hf, hg]
  ac_rfl

theorem additive_xtime : Additive xtime := by
  intro a b
  have htop : ∀ c : UInt8, c >>> 7 = 0 ∨ c >>> 7 = 1 := by
    apply forall_byte
    decide +kernel
  have hmul : (a >>> 7 ^^^ b >>> 7) * (0x1b : UInt8) =
      (a >>> 7) * (0x1b : UInt8) ^^^ (b >>> 7) * (0x1b : UInt8) := by
    rcases htop a with ha | ha
    · rcases htop b with hb | hb
      · rw [ha, hb]; rfl
      · rw [ha, hb]; rfl
    · rcases htop b with hb | hb
      · rw [ha, hb]; rfl
      · rw [ha, hb]; rfl
  unfold xtime
  rw [UInt8.shiftLeft_xor, UInt8.shiftRight_xor, hmul]
  ac_rfl

/-! ## The rows of MixColumns and of its inverse -/

def mul2 (b : UInt8) : UInt8 := xtime b
def mul3 (b : UInt8) : UInt8 := xtime b ^^^ b
def mul9 (b : UInt8) : UInt8 := xtime (xtime (xtime b)) ^^^ b
def mul11 (b : UInt8) : UInt8 := xtime (xtime (xtime b)) ^^^ xtime b ^^^ b
def mul13 (b : UInt8) : UInt8 := xtime (xtime (xtime b)) ^^^ xtime (xtime b) ^^^ b
def mul14 (b : UInt8) : UInt8 := xtime (xtime (xtime b)) ^^^ xtime (xtime b) ^^^ xtime b

/-- The first byte of a column after MixColumns. The others are this of the column rotated. -/
def mixRow (a0 a1 a2 a3 : UInt8) : UInt8 := mul2 a0 ^^^ mul3 a1 ^^^ a2 ^^^ a3

def unmixRow (a0 a1 a2 a3 : UInt8) : UInt8 := mul14 a0 ^^^ mul9 a3 ^^^ mul13 a2 ^^^ mul11 a1

theorem additive_cube : Additive fun b => xtime (xtime (xtime b)) :=
  .comp additive_xtime (.comp additive_xtime additive_xtime)

theorem additive_mul2 : Additive mul2 := additive_xtime

theorem additive_mul3 : Additive mul3 := .xor additive_xtime additive_id

theorem additive_mul9 : Additive mul9 := .xor additive_cube additive_id

theorem additive_mul11 : Additive mul11 := .xor (.xor additive_cube additive_xtime) additive_id

theorem additive_mul13 : Additive mul13 :=
  .xor (.xor additive_cube (.comp additive_xtime additive_xtime)) additive_id

theorem additive_mul14 : Additive mul14 :=
  .xor (.xor additive_cube (.comp additive_xtime additive_xtime)) additive_xtime

theorem additive_four {f : UInt8 → UInt8} (hf : Additive f) (a b c d : UInt8) :
    f (a ^^^ b ^^^ c ^^^ d) = f a ^^^ f b ^^^ f c ^^^ f d := by
  rw [hf, hf, hf]

theorem xor_left_comm (a b c : UInt8) : a ^^^ (b ^^^ c) = b ^^^ (a ^^^ c) := by ac_rfl

theorem xor_cancel_left (a b : UInt8) : a ^^^ (a ^^^ b) = b := by
  rw [← UInt8.xor_assoc, UInt8.xor_self, UInt8.zero_xor]

/-- What a byte contributes to each of the four places it is mixed into, and back. -/
theorem unmix_mix (a : UInt8) :
    mul14 (mul2 a) ^^^ mul9 (mul3 a) ^^^ mul13 a ^^^ mul11 a = a ∧
    mul14 (mul3 a) ^^^ mul9 a ^^^ mul13 a ^^^ mul11 (mul2 a) = 0 ∧
    mul14 a ^^^ mul9 a ^^^ mul13 (mul2 a) ^^^ mul11 (mul3 a) = 0 ∧
    mul14 a ^^^ mul9 (mul2 a) ^^^ mul13 (mul3 a) ^^^ mul11 a = 0 := by
  simp only [mul2, mul3, mul9, mul11, mul13, mul14, additive_xtime _ _, UInt8.xor_assoc,
    UInt8.xor_comm, xor_left_comm, xor_cancel_left, UInt8.xor_self, UInt8.xor_zero, and_self]

theorem unmixRow_mixRow (a0 a1 a2 a3 : UInt8) :
    unmixRow (mixRow a0 a1 a2 a3) (mixRow a1 a2 a3 a0) (mixRow a2 a3 a0 a1)
      (mixRow a3 a0 a1 a2) = a0 := by
  unfold unmixRow mixRow
  rw [additive_four additive_mul14, additive_four additive_mul9, additive_four additive_mul13,
    additive_four additive_mul11]
  calc _ = (mul14 (mul2 a0) ^^^ mul9 (mul3 a0) ^^^ mul13 a0 ^^^ mul11 a0) ^^^
        (mul14 (mul3 a1) ^^^ mul9 a1 ^^^ mul13 a1 ^^^ mul11 (mul2 a1)) ^^^
        (mul14 a2 ^^^ mul9 a2 ^^^ mul13 (mul2 a2) ^^^ mul11 (mul3 a2)) ^^^
        (mul14 a3 ^^^ mul9 (mul2 a3) ^^^ mul13 (mul3 a3) ^^^ mul11 a3) := by ac_rfl
    _ = a0 := by
      simp only [unmix_mix, UInt8.xor_zero]

section
variable (a : UInt8)

theorem mul2_comm : mul2 (mul14 a) = mul14 (mul2 a) ∧ mul2 (mul13 a) = mul13 (mul2 a) ∧
    mul2 (mul11 a) = mul11 (mul2 a) ∧ mul2 (mul9 a) = mul9 (mul2 a) := by
  simp only [mul2, mul9, mul11, mul13, mul14, additive_xtime _ _, and_self]

theorem mul3_comm : mul3 (mul14 a) = mul14 (mul3 a) ∧ mul3 (mul13 a) = mul13 (mul3 a) ∧
    mul3 (mul11 a) = mul11 (mul3 a) ∧ mul3 (mul9 a) = mul9 (mul3 a) := by
  simp only [mul3, mul9, mul11, mul13, mul14, additive_xtime _ _, UInt8.xor_assoc,
    UInt8.xor_comm, xor_left_comm, and_self]

end

/-- The maps commute, so the contributions are the same the other way around. -/
theorem mixRow_unmixRow (a0 a1 a2 a3 : UInt8) :
    mixRow (unmixRow a0 a1 a2 a3) (unmixRow a1 a2 a3 a0) (unmixRow a2 a3 a0 a1)
      (unmixRow a3 a0 a1 a2) = a0 := by
  unfold unmixRow mixRow
  rw [additive_four additive_mul2, additive_four additive_mul3]
  simp only [mul2_comm, mul3_comm]
  calc _ = (mul14 (mul2 a0) ^^^ mul9 (mul3 a0) ^^^ mul13 a0 ^^^ mul11 a0) ^^^
        (mul14 (mul3 a1) ^^^ mul9 a1 ^^^ mul13 a1 ^^^ mul11 (mul2 a1)) ^^^
        (mul14 a2 ^^^ mul9 a2 ^^^ mul13 (mul2 a2) ^^^ mul11 (mul3 a2)) ^^^
        (mul14 a3 ^^^ mul9 (mul2 a3) ^^^ mul13 (mul3 a3) ^^^ mul11 a3) := by ac_rfl
    _ = a0 := by
      simp only [unmix_mix, UInt8.xor_zero]

end Yagips.Lib.Gf256
