import Yagips.Util.B64RoundTrip
import Yagips.Util.HexDigits

/-!
# The encoders on both kinds of `char`

Whether a plain `char` has a sign is up to the target. Where it has none, `b64enc` writes the
base64 encoding of the bytes its index reaches; `hexenc` masks the sign away. The decoders
keep what they read in an `unsigned char`.
-/
namespace Yagips.Util.CharSign

open Yagips.Lib
open Yagips.Lib.Base64
open Yagips.Util.B64 (charToInt b64char indexed smear low6 low6_or low6_char b64char_eq byteAt_indexed
  ofNat_succ_index b64enc_eq)
open Yagips.Util.B64RoundTrip
open Yagips.Util.Hex (hexChar hexPair)

inductive PlainChar where
  | signed
  | unsigned

/-- The promotion of a `char` to `int`. -/
def PlainChar.toInt : PlainChar → UInt8 → Int32
  | .signed, b => charToInt b
  | .unsigned, b => b.toUInt32.toInt32

variable (target : PlainChar)

def charAt (s : Bytes) (i : UInt32) : Except Fault Int32 := do
  return target.toInt (← byteAt s i.toNat)

/-- The loop of `b64enc`, with the bytes left to encode. -/
def b64encLoop (s : Bytes) (i : UInt32) : Nat → Except Fault Bytes
  | 0 => return []
  | 1 => do
    let a ← charAt target s i
    return [b64char (a >>> 2).toUInt32, b64char (a <<< 4).toUInt32, pad, pad]
  | 2 => do
    let a ← charAt target s i
    let b ← charAt target s (1 + i)
    return [b64char (a >>> 2).toUInt32, b64char ((a <<< 4).toUInt32 ||| (b >>> 4).toUInt32),
      b64char (b <<< 2).toUInt32, pad]
  | isz + 3 => do
    let a ← charAt target s i
    let b ← charAt target s (1 + i)
    let c ← charAt target s (2 + i)
    let ret ← b64encLoop s (i + 3) isz
    return b64char (a >>> 2).toUInt32 :: b64char ((a <<< 4).toUInt32 ||| (b >>> 4).toUInt32) ::
      b64char ((b <<< 2).toUInt32 ||| (c >>> 6).toUInt32) :: b64char c.toUInt32 :: ret

def b64enc (s : Bytes) : Except Fault Bytes := b64encLoop target s 0 s.length

/-- The loop of `hexenc`, with the bytes left to encode. -/
def hexencLoop (s : Bytes) (i : UInt32) : Nat → Except Fault Bytes
  | 0 => return []
  | isz + 1 => do
    let b ← charAt target s i
    let ret ← hexencLoop s (i + 1) isz
    return hexChar ((b >>> 4) &&& 0xf).toUInt32.toUInt8 :: hexChar (b &&& 0xf).toUInt32.toUInt8 :: ret

def hexenc (s : Bytes) : Except Fault Bytes := hexencLoop target s 0 s.length

/-! ## `b64enc` -/

/-- The bytes whose encoding `b64enc` writes. -/
def fill : PlainChar → Bytes → Bytes
  | .signed => smear
  | .unsigned => id

theorem b64encLoop_signed (s : Bytes) (i : UInt32) (isz : Nat) :
    b64encLoop .signed s i isz = B64.encLoop s i isz := by
  induction isz using Nat.strong_induction_on generalizing i with
  | h isz ih =>
    match isz with
    | 0 => rfl
    | 1 => rfl
    | 2 => rfl
    | isz + 3 =>
      rw [b64encLoop, B64.encLoop, ih isz (by omega)]
      rfl

/-- The low six bits of a character without a sign in each of its places. -/
theorem low6_unsigned (a : UInt8) :
    low6 (a.toUInt32.toInt32 >>> 2).toUInt32 = a.toNat / 4 ∧
    low6 (a.toUInt32.toInt32 <<< 4).toUInt32 = a.toNat % 4 * 16 ∧
    low6 (a.toUInt32.toInt32 >>> 4).toUInt32 = a.toNat / 16 ∧
    low6 (a.toUInt32.toInt32 <<< 2).toUInt32 = a.toNat % 16 * 4 ∧
    low6 (a.toUInt32.toInt32 >>> 6).toUInt32 = a.toNat / 64 ∧
    low6 (a.toUInt32.toInt32).toUInt32 = a.toNat % 64 := by
  revert a
  apply forall_byte
  decide +kernel

theorem low6_unsigned_pair (a b : UInt8) :
    low6 ((a.toUInt32.toInt32 <<< 4).toUInt32 ||| (b.toUInt32.toInt32 >>> 4).toUInt32) =
      a.toNat % 4 * 16 + b.toNat / 16 ∧
    low6 ((a.toUInt32.toInt32 <<< 2).toUInt32 ||| (b.toUInt32.toInt32 >>> 6).toUInt32) =
      a.toNat % 16 * 4 + b.toNat / 64 := by
  have hb := b.toNat_lt
  have h16 : a.toNat % 4 * 16 ||| b.toNat / 16 = a.toNat % 4 * 16 + b.toNat / 16 := by
    have h : ∀ x < 4, ∀ y < 16, x * 16 ||| y = x * 16 + y := by decide
    exact h _ (by omega) _ (by omega)
  have h4 : a.toNat % 16 * 4 ||| b.toNat / 64 = a.toNat % 16 * 4 + b.toNat / 64 := by
    have h : ∀ x < 16, ∀ y < 4, x * 4 ||| y = x * 4 + y := by decide
    exact h _ (by omega) _ (by omega)
  simp only [low6_or, low6_unsigned, h16, h4, and_self]

theorem charAt_indexed {s : Bytes} {p : Nat} {x : UInt8} {rest : Bytes}
    (h : (indexed s).drop p = x :: rest) :
    charAt target s (UInt32.ofNat p) = .ok (target.toInt x) := by
  rw [charAt, byteAt_indexed h]
  rfl

theorem b64encLoop_unsigned {s rest : Bytes} {p : Nat} (h : (indexed s).drop p = rest) :
    b64encLoop .unsigned s (UInt32.ofNat p) rest.length = .ok (encode rest) := by
  induction rest using encode.induct generalizing p with
  | case1 => rfl
  | case2 a =>
    simp only [List.length_singleton, b64encLoop, ok_bind, pure_eq_ok, charAt_indexed _ h, encode,
      PlainChar.toInt, b64char_eq, low6_unsigned, sextet_group_zero, sextet_group_one]
    rfl
  | case3 a b =>
    have hb : (indexed s).drop (p + 1) = [b] := drop_tail h
    have h1 : 1 + UInt32.ofNat p = UInt32.ofNat (p + 1) := ofNat_succ_index p 1
    simp only [List.length_cons, List.length_nil, b64encLoop, ok_bind, pure_eq_ok, charAt_indexed _ h,
      h1, charAt_indexed _ hb, encode, PlainChar.toInt, b64char_eq, low6_unsigned,
      low6_unsigned_pair, sextet_group_zero, sextet_group_one, sextet_group_two]
    rfl
  | case4 a b c rest ih =>
    have hb : (indexed s).drop (p + 1) = b :: c :: rest := drop_tail h
    have hc : (indexed s).drop (p + 2) = c :: rest := drop_tail hb
    have h1 : 1 + UInt32.ofNat p = UInt32.ofNat (p + 1) := ofNat_succ_index p 1
    have h2 : 2 + UInt32.ofNat p = UInt32.ofNat (p + 2) := ofNat_succ_index p 2
    have h3 : UInt32.ofNat p + 3 = UInt32.ofNat (p + 3) := by
      rw [UInt32.add_comm]
      exact ofNat_succ_index p 3
    simp only [List.length_cons, b64encLoop, ok_bind, pure_eq_ok, charAt_indexed _ h, h1,
      charAt_indexed _ hb, h2, charAt_indexed _ hc, h3, ih (drop_tail hc), encode, PlainChar.toInt,
      b64char_eq, low6_unsigned, low6_unsigned_pair, sextet_group_zero, sextet_group_one,
      sextet_group_two, sextet_group_three]

theorem b64enc_fill (s : Bytes) : b64enc target s = .ok (encode (fill target (indexed s))) := by
  cases target with
  | signed =>
    rw [b64enc, b64encLoop_signed]
    exact b64enc_eq s
  | unsigned =>
    have h : b64encLoop .unsigned s (UInt32.ofNat 0) (indexed s).length = .ok (encode (indexed s)) :=
      b64encLoop_unsigned rfl
    rw [indexed, cycle_length] at h
    exact h

theorem hexChar_toInt (b : UInt8) :
    hexChar ((target.toInt b >>> 4) &&& 0xf).toUInt32.toUInt8 = hexChar ((b >>> 4) &&& 0xf) ∧
    hexChar (target.toInt b &&& 0xf).toUInt32.toUInt8 = hexChar (b &&& 0xf) := by
  revert b
  apply forall_byte
  cases target with
  | signed => decide +kernel
  | unsigned => decide +kernel

theorem hexencLoop_indexed {s rest : Bytes} {p : Nat} (h : (indexed s).drop p = rest) :
    hexencLoop target s (UInt32.ofNat p) rest.length = .ok (rest.flatMap hexPair) := by
  induction rest generalizing p with
  | nil => rfl
  | cons b rest ih =>
    have hi : UInt32.ofNat p + 1 = UInt32.ofNat (p + 1) := Hex.ofNat_succ p 1
    rw [List.length_cons, hexencLoop, charAt_indexed target h, ok_bind, hi, ih (drop_tail h), ok_bind,
      (hexChar_toInt target b).1, (hexChar_toInt target b).2]
    rfl

theorem hexenc_indexed (s : Bytes) : hexenc target s = .ok ((indexed s).flatMap hexPair) := by
  have h : hexencLoop target s (UInt32.ofNat 0) (indexed s).length =
      .ok ((indexed s).flatMap hexPair) := hexencLoop_indexed target rfl
  rw [indexed, cycle_length] at h
  exact h

end Yagips.Util.CharSign
