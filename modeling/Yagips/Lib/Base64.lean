import Mathlib.Tactic.Ring
import Yagips.Lib.Bytes

/-!
# The base64 encoding

Three bytes are one 24-bit group, written as four digits of six bits, most
significant first. A last group of one or two bytes is filled with zero bits and
ends in padding.
-/
namespace Yagips.Lib.Base64

/-- The character of a six-bit value. -/
def digit (v : Nat) : UInt8 :=
  if v < 26 then UInt8.ofNat (v + 65)
  else if v < 52 then UInt8.ofNat (v - 26 + 97)
  else if v < 62 then UInt8.ofNat (v - 52 + 48)
  else if v = 62 then 43
  else 47

/-- The padding character `=`. -/
def pad : UInt8 := 61

/-- The 24 bits of a group. -/
def group (a b c : UInt8) : Nat := a.toNat * 2 ^ 16 + b.toNat * 2 ^ 8 + c.toNat

/-- Digit `k` of a group, counted from the most significant. -/
def sextet (g k : Nat) : Nat := g / 2 ^ (6 * (3 - k)) % 2 ^ 6

def encode : Bytes → Bytes
  | [] => []
  | [a] => [digit (sextet (group a 0 0) 0), digit (sextet (group a 0 0) 1), pad, pad]
  | [a, b] => [digit (sextet (group a b 0) 0), digit (sextet (group a b 0) 1),
      digit (sextet (group a b 0) 2), pad]
  | a :: b :: c :: rest => digit (sextet (group a b c) 0) :: digit (sextet (group a b c) 1) ::
      digit (sextet (group a b c) 2) :: digit (sextet (group a b c) 3) :: encode rest

theorem sextet_lt (g k : Nat) : sextet g k < 64 := Nat.mod_lt _ (by decide)

/-! The digits of a group in terms of its bytes. -/

theorem sextet_group_zero (a b c : UInt8) : sextet (group a b c) 0 = a.toNat / 4 := by
  have ha := a.toNat_lt
  have hb := b.toNat_lt
  have hc := c.toNat_lt
  simp only [sextet, group]
  omega

theorem sextet_group_one (a b c : UInt8) :
    sextet (group a b c) 1 = a.toNat % 4 * 16 + b.toNat / 16 := by
  have hb := b.toNat_lt
  have hc := c.toNat_lt
  simp only [sextet, group]
  omega

theorem sextet_group_two (a b c : UInt8) :
    sextet (group a b c) 2 = b.toNat % 16 * 4 + c.toNat / 64 := by
  have hc := c.toNat_lt
  simp only [sextet, group]
  omega

theorem sextet_group_three (a b c : UInt8) : sextet (group a b c) 3 = c.toNat % 64 := by
  simp only [sextet, group]
  omega

/-! ## Shape -/

theorem encode_length (s : Bytes) : (encode s).length = 4 * ((s.length + 2) / 3) := by
  induction s using encode.induct with
  | case1 => rfl
  | case2 a => simp [encode]
  | case3 a b => simp [encode]
  | case4 a b c rest ih =>
    simp only [encode, List.length_cons, ih]
    omega

/-- Whole groups are encoded on their own. -/
theorem encode_append {s : Bytes} (h : 3 ∣ s.length) (t : Bytes) :
    encode (s ++ t) = encode s ++ encode t := by
  induction s using encode.induct with
  | case1 => rfl
  | case2 a => simp at h
  | case3 a b => simp at h
  | case4 a b c rest ih =>
    have hrest : 3 ∣ rest.length := by
      simp only [List.length_cons] at h
      omega
    simp only [List.cons_append, encode, ih hrest]

/-- The first groups of a string give the first digits of its encoding. -/
theorem encode_take {s : Bytes} {k : Nat} (h : 3 * k ≤ s.length) :
    encode (s.take (3 * k)) = (encode s).take (4 * k) := by
  have hlen : (s.take (3 * k)).length = 3 * k := by
    simp only [List.length_take]
    omega
  have hdigits : (encode (s.take (3 * k))).length = 4 * k := by
    rw [encode_length, hlen]
    omega
  have happ : encode s = encode (s.take (3 * k)) ++ encode (s.drop (3 * k)) := by
    rw [← encode_append ⟨k, hlen⟩, List.take_append_drop]
  rw [happ, List.take_left' hdigits]

theorem encode_no_nul (s : Bytes) : 0 ∉ encode s := by
  have hdigit : ∀ v < 64, 0 ≠ digit v := by decide
  have hpad : 0 ≠ pad := by decide
  induction s using encode.induct with
  | case1 => exact List.not_mem_nil
  | case2 a => simp [encode, hdigit _ (sextet_lt _ _), hpad]
  | case3 a b => simp [encode, hdigit _ (sextet_lt _ _), hpad]
  | case4 a b c rest ih => simp [encode, hdigit _ (sextet_lt _ _), ih]

end Yagips.Lib.Base64
