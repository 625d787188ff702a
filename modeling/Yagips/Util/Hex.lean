import Yagips.Lib.Bytes

/-!
# Hexadecimal in `util.cpp`

`hexenc` writes two lower-case digits a byte. `hexdec` skips what is not a digit, takes
the characters between `9` and `A` for digits too, and shifts a lone last digit up.
-/
namespace Yagips.Util.Hex

open Yagips.Lib

def hexChar (t : UInt8) : UInt8 := if t > 9 then t - 10 + 97 else t + 48

/-- The loop of `hexenc`, with the bytes left to encode. -/
def encLoop (s : Bytes) (i : UInt32) : Nat → Except Fault Bytes
  | 0 => return []
  | isz + 1 => do
    let b ← byteAt s i.toNat
    let ret ← encLoop s (i + 1) isz
    return hexChar ((b >>> 4) &&& 0xf) :: hexChar (b &&& 0xf) :: ret

def hexenc (s : Bytes) : Except Fault Bytes := encLoop s 0 s.length

/-- The value of a character, or `none` where it is skipped. -/
def hexValue (t : UInt8) : Option UInt8 :=
  if t < 48 ∨ t > 102 then none
  else
    let t := if t ≥ 97 then t - 0x20 else t
    if t > 70 then none
    else
      let t := if t > 57 then t - 7 else t
      let t := t - 48
      if t > 16 then none else some t

/-- The loop of `hexdec`, with the high digit where `idx1` waits for the low one. -/
def decLoop (s : Bytes) : Nat → UInt32 → Option UInt8 → Except Fault Bytes
  | 0, _, _ => return []
  | isz + 1, i, e => do
    let off : UInt32 := if e.isSome then 1 else 0
    match hexValue (← byteAt s (i + off).toNat) with
    | none => decLoop s isz (i + 1) e
    | some t =>
      match e with
      | none => if isz = 0 then return [t <<< 4] else decLoop s isz i (some (t <<< 4))
      | some e => return (e ||| t) :: (← decLoop s isz (i + 2) none)

def hexdec (s : Bytes) : Except Fault Bytes := decLoop s s.length 0 none

/-! ## Neither leaves its string -/

theorem byteAt_wrapped {s : Bytes} {p : Nat} (h : p < s.length) :
    ∃ b, byteAt s (UInt32.ofNat p).toNat = .ok b := by
  have hin : p % 2 ^ 32 < s.length := (Nat.mod_le _ _).trans_lt h
  rw [UInt32.toNat_ofNat']
  exact ⟨_, byteAt_ok hin⟩

theorem encLoop_ok {s : Bytes} {isz p : Nat} (h : p + isz ≤ s.length) :
    ∃ r, encLoop s (UInt32.ofNat p) isz = .ok r := by
  induction isz generalizing p with
  | zero => exact ⟨[], rfl⟩
  | succ isz ih =>
    obtain ⟨b, hb⟩ := @byteAt_wrapped s p (by omega)
    obtain ⟨r, hr⟩ := @ih (p + 1) (by omega)
    have hi : UInt32.ofNat p + 1 = UInt32.ofNat (p + 1) := by
      rw [UInt32.ofNat_add]
      rfl
    rw [encLoop, hb, ok_bind, hi, hr]
    exact ⟨_, rfl⟩

theorem hexenc_ok (s : Bytes) : ∃ r, hexenc s = .ok r := by
  apply @encLoop_ok s s.length 0
  omega

theorem decLoop_ok {s : Bytes} {isz i : Nat} {e : Option UInt8}
    (h : i + (if e.isSome then 1 else 0) + isz ≤ s.length) :
    ∃ r, decLoop s isz (UInt32.ofNat i) e = .ok r := by
  induction isz generalizing i e with
  | zero => exact ⟨[], rfl⟩
  | succ isz ih =>
    have hoff : UInt32.ofNat i + (if e.isSome then 1 else 0) =
        UInt32.ofNat (i + (if e.isSome then 1 else 0)) := by
      rw [UInt32.ofNat_add]
      cases e <;> rfl
    obtain ⟨b, hb⟩ := @byteAt_wrapped s (i + if e.isSome then 1 else 0) (by omega)
    have hskip : UInt32.ofNat i + 1 = UInt32.ofNat (i + 1) := by
      rw [UInt32.ofNat_add]
      rfl
    rw [decLoop, hoff, hb, ok_bind]
    cases hexValue b with
    | none =>
      simp only [hskip]
      exact ih (by omega)
    | some t =>
      cases e with
      | none =>
        simp only
        split
        · exact ⟨_, rfl⟩
        · exact ih (by simp at h ⊢; omega)
      | some e =>
        have hpair : UInt32.ofNat i + 2 = UInt32.ofNat (i + 2) := by
          rw [UInt32.ofNat_add]
          rfl
        obtain ⟨r, hr⟩ := @ih (i + 2) none (by simp at h ⊢; omega)
        simp only [hpair, hr]
        exact ⟨_, rfl⟩

theorem hexdec_ok (s : Bytes) : ∃ r, hexdec s = .ok r := by
  apply @decLoop_ok s s.length 0 none
  simp

/-! ## Within the reach of the index -/

/-- The two digits of a byte. -/
def hexPair (b : UInt8) : Bytes := [hexChar ((b >>> 4) &&& 0xf), hexChar (b &&& 0xf)]

theorem byteAt_index {s rest : Bytes} {p : Nat} {x : UInt8} (hs : s.length ≤ 2 ^ 32)
    (h : s.drop p = x :: rest) : byteAt s (UInt32.ofNat p).toNat = .ok x := by
  have hget : s[p]? = some x := by rw [← List.head?_drop, h, List.head?_cons]
  obtain ⟨hp, hx⟩ := List.getElem?_eq_some_iff.mp hget
  have hmod : (UInt32.ofNat p).toNat = p := by
    rw [UInt32.toNat_ofNat']
    exact Nat.mod_eq_of_lt (by omega)
  rw [hmod, byteAt_ok hp, hx]

theorem ofNat_succ (p k : Nat) : UInt32.ofNat p + UInt32.ofNat k = UInt32.ofNat (p + k) :=
  (UInt32.ofNat_add p k).symm

theorem encLoop_eq {s rest : Bytes} {p : Nat} (hs : s.length ≤ 2 ^ 32) (h : s.drop p = rest) :
    encLoop s (UInt32.ofNat p) rest.length = .ok (rest.flatMap hexPair) := by
  induction rest generalizing p with
  | nil => rfl
  | cons b rest ih =>
    have hi : UInt32.ofNat p + 1 = UInt32.ofNat (p + 1) := ofNat_succ p 1
    rw [List.length_cons, encLoop, byteAt_index hs h, ok_bind, hi, ih (drop_tail h), ok_bind]
    rfl

theorem hexenc_eq {s : Bytes} (hs : s.length ≤ 2 ^ 32) : hexenc s = .ok (s.flatMap hexPair) :=
  encLoop_eq (p := 0) hs rfl

/-- The digits of a byte give back its halves, and the halves the byte. -/
theorem hexValue_halves (b : UInt8) :
    hexValue (hexChar ((b >>> 4) &&& 0xf)) = some ((b >>> 4) &&& 0xf) ∧
    hexValue (hexChar (b &&& 0xf)) = some (b &&& 0xf) ∧
    ((b >>> 4) &&& 0xf) <<< 4 ||| (b &&& 0xf) = b := by
  revert b
  apply forall_byte
  decide +kernel

/-- Two rounds of the loop read the digits of one byte. -/
theorem decLoop_pairs {s rest : Bytes} {p : Nat} (hs : s.length ≤ 2 ^ 32)
    (h : s.drop p = rest.flatMap hexPair) :
    decLoop s (2 * rest.length) (UInt32.ofNat p) none = .ok rest := by
  induction rest generalizing p with
  | nil => rfl
  | cons b rest ih =>
    have hhigh : byteAt s (UInt32.ofNat p + 0).toNat = .ok (hexChar ((b >>> 4) &&& 0xf)) := by
      rw [UInt32.add_zero]
      exact byteAt_index hs h
    have hlow : byteAt s (UInt32.ofNat p + 1).toNat = .ok (hexChar (b &&& 0xf)) := by
      have hi : UInt32.ofNat p + 1 = UInt32.ofNat (p + 1) := ofNat_succ p 1
      rw [hi]
      exact byteAt_index hs (drop_tail h)
    have hi : UInt32.ofNat p + 2 = UInt32.ofNat (p + 2) := ofNat_succ p 2
    have hrest : s.drop (p + 2) = rest.flatMap hexPair := drop_tail (drop_tail h)
    have hcount : 2 * (b :: rest).length = 2 * rest.length + 1 + 1 := by
      rw [List.length_cons]
      omega
    rw [hcount, decLoop]
    simp only [Option.isSome_none, Bool.false_eq_true, if_false, hhigh, ok_bind, hexValue_halves]
    rw [if_neg (Nat.succ_ne_zero _), decLoop]
    simp only [Option.isSome_some, if_true, hlow, ok_bind, hexValue_halves, hi, ih hrest]
    rfl

theorem flatMap_hexPair_length (s : Bytes) : (s.flatMap hexPair).length = 2 * s.length := by
  induction s with
  | nil => rfl
  | cons b s ih =>
    rw [List.flatMap_cons, List.length_append, ih, List.length_cons]
    show 2 + 2 * s.length = 2 * (s.length + 1)
    omega

/-- Within 2 GiB, decoding gives what was encoded. -/
theorem hexdec_hexenc {s : Bytes} (hs : s.length ≤ 2 ^ 31) :
    ∃ t, hexenc s = .ok t ∧ hexdec t = .ok s := by
  refine ⟨s.flatMap hexPair, hexenc_eq (by omega), ?_⟩
  have hlen := flatMap_hexPair_length s
  rw [hexdec, hlen]
  exact decLoop_pairs (p := 0) (by omega) rfl

end Yagips.Util.Hex
