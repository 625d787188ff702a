import Yagips.Lib.Base64

/-!
# Base64 in `util.cpp`

A plain `char` is signed, so a byte from `0x80` on is a negative `int` when it is
shifted, and its sign bits are ORed into the low bits of the byte before it. The index
into the string is a 32-bit `unsigned int` whatever the length of the string.
-/
namespace Yagips.Util.B64

open Yagips.Lib
open Yagips.Lib.Base64

/-! ## `b64enc` -/

def b64tbl : Vector UInt8 64 := #v[
  'A', 'B', 'C', 'D', 'E', 'F', 'G', 'H', 'I', 'J', 'K', 'L', 'M', 'N', 'O', 'P',
  'Q', 'R', 'S', 'T', 'U', 'V', 'W', 'X', 'Y', 'Z', 'a', 'b', 'c', 'd', 'e', 'f',
  'g', 'h', 'i', 'j', 'k', 'l', 'm', 'n', 'o', 'p', 'q', 'r', 's', 't', 'u', 'v',
  'w', 'x', 'y', 'z', '0', '1', '2', '3', '4', '5', '6', '7', '8', '9', '+', '/'].map Char.toUInt8

/-- The promotion of a `char` to `int`. -/
def charToInt (b : UInt8) : Int32 := b.toInt8.toInt32

def charAt (s : Bytes) (i : UInt32) : Except Fault Int32 := do
  return charToInt (← byteAt s i.toNat)

/-- The table entry of `t & 0x3f`. -/
def b64char (t : UInt32) : UInt8 :=
  b64tbl.get ⟨(t &&& 0x3f).toNat, by
    rw [UInt32.toNat_and]
    exact Nat.lt_succ_of_le Nat.and_le_right⟩

/-- The loop of `b64enc`, with the bytes left to encode. -/
def encLoop (s : Bytes) (i : UInt32) : Nat → Except Fault Bytes
  | 0 => return []
  | 1 => do
    let a ← charAt s i
    return [b64char (a >>> 2).toUInt32, b64char (a <<< 4).toUInt32, pad, pad]
  | 2 => do
    let a ← charAt s i
    let b ← charAt s (1 + i)
    return [b64char (a >>> 2).toUInt32, b64char ((a <<< 4).toUInt32 ||| (b >>> 4).toUInt32),
      b64char (b <<< 2).toUInt32, pad]
  | isz + 3 => do
    let a ← charAt s i
    let b ← charAt s (1 + i)
    let c ← charAt s (2 + i)
    let ret ← encLoop s (i + 3) isz
    return b64char (a >>> 2).toUInt32 :: b64char ((a <<< 4).toUInt32 ||| (b >>> 4).toUInt32) ::
      b64char ((b <<< 2).toUInt32 ||| (c >>> 6).toUInt32) :: b64char c.toUInt32 :: ret

def b64enc (s : Bytes) : Except Fault Bytes := encLoop s 0 s.length

/-! ## `b64dec` -/

def b64itbl : Vector Int8 128 := #v[
  -1, -1, -1, -1, -1, -1, -1, -1, -1, -1, -1, -1, -1, -1, -1, -1,
  -1, -1, -1, -1, -1, -1, -1, -1, -1, -1, -1, -1, -1, -1, -1, -1,
  -1, -1, -1, -1, -1, -1, -1, -1, -1, -1, -1, 62, -1, -1, -1, 63,
  52, 53, 54, 55, 56, 57, 58, 59, 60, 61, -1, -1, -1, -1, -1, -1,
  -1,  0,  1,  2,  3,  4,  5,  6,  7,  8,  9, 10, 11, 12, 13, 14,
  15, 16, 17, 18, 19, 20, 21, 22, 23, 24, 25, -1, -1, -1, -1, -1,
  -1, 26, 27, 28, 29, 30, 31, 32, 33, 34, 35, 36, 37, 38, 39, 40,
  41, 42, 43, 44, 45, 46, 47, 48, 49, 50, 51, -1, -1, -1, -1, -1]

/-- The labels of the loop, by the digit they wait for. -/
inductive Label where
  | idx0 | idx1 | idx2 | idx3
  deriving DecidableEq

def Label.offset : Label → UInt32
  | .idx0 => 0
  | .idx1 => 1
  | .idx2 => 2
  | .idx3 => 3

/-- What a character is to the loop: outside the range the test lets through, without a
value in the table, or six bits. -/
inductive Look where
  | foreign
  | unlisted
  | six (v : UInt8)
  deriving DecidableEq

/-- The range check lets `0x80` through to the table of 128 entries. -/
def look (t : UInt8) : Except Fault Look :=
  if t > 128 then .ok .foreign
  else match b64itbl[t.toNat]? with
    | none => .error (.read t.toNat)
    | some v => .ok (if v = -1 then .unlisted else .six (v.toUInt8 &&& 0x3f))

/-- The loop of `b64dec`, with the characters left and the byte begun so far. -/
def decLoop (s : Bytes) : Nat → UInt32 → Label → UInt8 → Except Fault Bytes
  -- `idx1` read on: the terminating NUL, which is skipped too, and then behind it
  | 0, _, .idx1, _ => .error (.read (s.length + 1))
  | 0, _, _, _ => return []
  | isz + 1, i, l, e => do
    match ← look (← byteAt s (i + l.offset).toNat) with
    | .foreign => if isz = 0 then return [] else decLoop s isz (i + 1) l e
    | .unlisted =>
      -- this skip does not test for the end of the string at `idx1`
      if isz = 0 ∧ l ≠ .idx1 then return [] else decLoop s isz (i + 1) l e
    | .six v =>
      match l with
      | .idx0 => if isz = 0 then return [v <<< 2] else decLoop s isz i .idx1 (v <<< 2)
      | .idx1 =>
        if isz = 0 then return [e ||| (v >>> 4), v <<< 4]
        else return (e ||| (v >>> 4)) :: (← decLoop s isz i .idx2 (v <<< 4))
      | .idx2 =>
        if isz = 0 then return [e ||| (v >>> 2), v <<< 6]
        else return (e ||| (v >>> 2)) :: (← decLoop s isz i .idx3 (v <<< 6))
      | .idx3 => return (e ||| v) :: (← decLoop s isz (i + 4) .idx0 e)

def b64dec (s : Bytes) : Except Fault Bytes := decLoop s s.length 0 .idx0 0

/-! ## What `b64enc` computes -/

/-- A byte whose low bits are set when the next byte is negative as a `char`. -/
def fillLow (mask a b : UInt8) : UInt8 := if 0x80 ≤ b then a ||| mask else a

/-- The bytes whose encoding `b64enc` writes. -/
def smear : Bytes → Bytes
  | a :: b :: c :: rest => fillLow 3 a b :: fillLow 15 b c :: c :: smear rest
  | [a, b] => [fillLow 3 a b, b]
  | s => s

def low6 (t : UInt32) : Nat := (t &&& 0x3f).toNat

theorem b64char_eq (t : UInt32) : b64char t = digit (low6 t) := by
  have h : ∀ v : Fin 64, b64tbl.get v = digit v := by decide +kernel
  exact h _

theorem low6_or (x y : UInt32) : low6 (x ||| y) = low6 x ||| low6 y := by
  unfold low6
  simp only [UInt32.toNat_and, UInt32.toNat_or, Nat.and_or_distrib_right]

/-- The low six bits of a character in each of its places. A negative `char` shifted right
brings its sign into the bits above its own. -/
theorem low6_char (a : UInt8) :
    low6 (charToInt a >>> 2).toUInt32 = a.toNat / 4 ∧
    low6 (charToInt a <<< 4).toUInt32 = a.toNat % 4 * 16 ∧
    low6 (charToInt a >>> 4).toUInt32 = (if 0x80 ≤ a then 48 else 0) + a.toNat / 16 ∧
    low6 (charToInt a <<< 2).toUInt32 = a.toNat % 16 * 4 ∧
    low6 (charToInt a >>> 6).toUInt32 = (if 0x80 ≤ a then 60 else 0) + a.toNat / 64 ∧
    low6 (charToInt a).toUInt32 = a.toNat % 64 := by
  revert a
  apply forall_byte
  decide +kernel

/-- Setting a byte's low bits. -/
theorem or_low (a : UInt8) :
    ((a ||| 3).toNat / 4 = a.toNat / 4 ∧ (a ||| 3).toNat % 4 = 3) ∧
    ((a ||| 15).toNat / 16 = a.toNat / 16 ∧ (a ||| 15).toNat % 16 = 15) ∧
    (a ||| 3 = a ↔ a &&& 3 = 3) ∧ (a ||| 15 = a ↔ a &&& 15 = 15) ∧ (0x80 ≤ a ||| 15 ↔ 0x80 ≤ a) := by
  revert a
  apply forall_byte
  decide +kernel

theorem fill_three (a b : UInt8) : (fillLow 3 a b).toNat / 4 = a.toNat / 4 ∧
    (fillLow 3 a b).toNat % 4 = if 0x80 ≤ b then 3 else a.toNat % 4 := by
  unfold fillLow
  split
  · exact (or_low a).1
  · exact ⟨rfl, rfl⟩

theorem fill_fifteen (b c : UInt8) : (fillLow 15 b c).toNat / 16 = b.toNat / 16 ∧
    (fillLow 15 b c).toNat % 16 = if 0x80 ≤ c then 15 else b.toNat % 16 := by
  unfold fillLow
  split
  · exact (or_low b).2.1
  · exact ⟨rfl, rfl⟩

theorem low6_first_second (a b : UInt8) :
    low6 ((charToInt a <<< 4).toUInt32 ||| (charToInt b >>> 4).toUInt32) =
      (fillLow 3 a b).toNat % 4 * 16 + b.toNat / 16 := by
  have hb := b.toNat_lt
  simp only [low6_or, low6_char, (fill_three a b).2]
  split
  · have h : ∀ x < 4, ∀ y < 16, x * 16 ||| (48 + y) = 3 * 16 + y := by decide
    exact h _ (by omega) _ (by omega)
  · have h : ∀ x < 4, ∀ y < 16, x * 16 ||| (0 + y) = x * 16 + y := by decide
    exact h _ (by omega) _ (by omega)

theorem low6_second_third (b c : UInt8) :
    low6 ((charToInt b <<< 2).toUInt32 ||| (charToInt c >>> 6).toUInt32) =
      (fillLow 15 b c).toNat % 16 * 4 + c.toNat / 64 := by
  have hc := c.toNat_lt
  simp only [low6_or, low6_char, (fill_fifteen b c).2]
  split
  · have h : ∀ x < 16, ∀ y < 4, x * 4 ||| (60 + y) = 15 * 4 + y := by decide
    exact h _ (by omega) _ (by omega)
  · have h : ∀ x < 16, ∀ y < 4, x * 4 ||| (0 + y) = x * 4 + y := by decide
    exact h _ (by omega) _ (by omega)

/-- The bytes the 32-bit index reaches, in the order of the loop. -/
def indexed (s : Bytes) : Bytes := cycle (2 ^ 32) s.length s

theorem byteAt_indexed {s : Bytes} {p : Nat} {x : UInt8} {rest : Bytes}
    (h : (indexed s).drop p = x :: rest) : byteAt s (UInt32.ofNat p).toNat = .ok x := by
  have hget : (indexed s)[p]? = some x := by
    rw [← List.head?_drop, h, List.head?_cons]
  have hlt : p < s.length := by
    have hp := (List.getElem?_eq_some_iff.mp hget).1
    simpa only [indexed, cycle_length] using hp
  have hin : p % 2 ^ 32 < s.length := (Nat.mod_le _ _).trans_lt hlt
  rw [UInt32.toNat_ofNat', byteAt_ok hin]
  simp only [indexed, cycle, List.getElem?_map, List.getElem?_range hlt, Option.map_some,
    Option.some.injEq, List.getD_eq_getElem?_getD, List.getElem?_eq_getElem hin,
    Option.getD_some] at hget
  rw [hget]

theorem charAt_indexed {s : Bytes} {p : Nat} {x : UInt8} {rest : Bytes}
    (h : (indexed s).drop p = x :: rest) : charAt s (UInt32.ofNat p) = .ok (charToInt x) := by
  rw [charAt, byteAt_indexed h]
  rfl

theorem ofNat_succ_index (p k : Nat) :
    (UInt32.ofNat k + UInt32.ofNat p) = UInt32.ofNat (p + k) := by
  rw [← UInt32.ofNat_add, Nat.add_comm]

theorem encLoop_eq {s : Bytes} {rest : Bytes} {p : Nat} (h : (indexed s).drop p = rest) :
    encLoop s (UInt32.ofNat p) rest.length = .ok (encode (smear rest)) := by
  induction rest using encode.induct generalizing p with
  | case1 => rfl
  | case2 a =>
    simp only [List.length_singleton, encLoop, ok_bind, pure_eq_ok, charAt_indexed h, smear, encode,
      b64char_eq, low6_char, sextet_group_zero, sextet_group_one]
    rfl
  | case3 a b =>
    have hb : (indexed s).drop (p + 1) = [b] := drop_tail h
    have h1 : 1 + UInt32.ofNat p = UInt32.ofNat (p + 1) := ofNat_succ_index p 1
    simp only [List.length_cons, List.length_nil, encLoop, ok_bind, pure_eq_ok, charAt_indexed h, h1,
      charAt_indexed hb, smear, encode, b64char_eq, low6_char, low6_first_second, sextet_group_zero,
      sextet_group_one, sextet_group_two, (fill_three a b).1]
    rfl
  | case4 a b c rest ih =>
    have hb : (indexed s).drop (p + 1) = b :: c :: rest := drop_tail h
    have hc : (indexed s).drop (p + 2) = c :: rest := drop_tail hb
    have h1 : 1 + UInt32.ofNat p = UInt32.ofNat (p + 1) := ofNat_succ_index p 1
    have h2 : 2 + UInt32.ofNat p = UInt32.ofNat (p + 2) := ofNat_succ_index p 2
    have h3 : UInt32.ofNat p + 3 = UInt32.ofNat (p + 3) := by
      rw [UInt32.add_comm]
      exact ofNat_succ_index p 3
    simp only [List.length_cons, encLoop, ok_bind, pure_eq_ok, charAt_indexed h, h1, charAt_indexed hb,
      h2, charAt_indexed hc, h3, ih (drop_tail hc), smear, encode, b64char_eq, low6_char,
      low6_first_second, low6_second_third, sextet_group_zero, sextet_group_one,
      sextet_group_two, sextet_group_three, (fill_three a b).1, (fill_fifteen b c).1]

theorem b64enc_eq (s : Bytes) : b64enc s = .ok (encode (smear (indexed s))) := by
  have h : encLoop s (UInt32.ofNat 0) (indexed s).length = .ok (encode (smear (indexed s))) :=
    encLoop_eq rfl
  rw [indexed, cycle_length] at h
  exact h

/-! ## What `b64dec` computes -/

/-- The loop of `b64dec` over the characters its index reaches. -/
def decChars (behind : Fault) : Label → UInt8 → Bytes → Except Fault Bytes
  | .idx1, _, [] => .error behind
  | _, _, [] => return []
  | l, e, t :: rest => do
    match ← look t with
    | .foreign => if rest = [] then return [] else decChars behind l e rest
    | .unlisted => if rest = [] ∧ l ≠ .idx1 then return [] else decChars behind l e rest
    | .six v =>
      match l with
      | .idx0 => if rest = [] then return [v <<< 2] else decChars behind .idx1 (v <<< 2) rest
      | .idx1 =>
        if rest = [] then return [e ||| (v >>> 4), v <<< 4]
        else return (e ||| (v >>> 4)) :: (← decChars behind .idx2 (v <<< 4) rest)
      | .idx2 =>
        if rest = [] then return [e ||| (v >>> 2), v <<< 6]
        else return (e ||| (v >>> 2)) :: (← decChars behind .idx3 (v <<< 6) rest)
      | .idx3 => return (e ||| v) :: (← decChars behind .idx0 e rest)

def Label.place : Label → Nat
  | .idx0 => 0
  | .idx1 => 1
  | .idx2 => 2
  | .idx3 => 3

theorem decLoop_eq {s rest : Bytes} {p i : Nat} {l : Label} (e : UInt8)
    (h : (indexed s).drop p = rest) (hp : p = i + l.place) :
    decLoop s rest.length (UInt32.ofNat i) l e = decChars (.read (s.length + 1)) l e rest := by
  induction rest generalizing p i l e with
  | nil => cases l <;> rfl
  | cons t rest ih =>
    have hread : byteAt s (UInt32.ofNat i + l.offset).toNat = .ok t := by
      have hi : UInt32.ofNat i + l.offset = UInt32.ofNat p := by
        rw [hp, UInt32.ofNat_add]
        cases l <;> rfl
      rw [hi]
      exact byteAt_indexed h
    have hrest := drop_tail h
    have hskip : decLoop s rest.length (UInt32.ofNat i + 1) l e =
        decChars (.read (s.length + 1)) l e rest := by
      have hi : UInt32.ofNat i + 1 = UInt32.ofNat (i + 1) := by rw [UInt32.ofNat_add]; rfl
      rw [hi]
      exact ih e hrest (by omega)
    have hdone : rest.length = 0 ↔ rest = [] := List.length_eq_zero_iff
    simp only [List.length_cons, decLoop, hread, decChars, hskip, hdone, ok_bind]
    cases look t with
    | error f => rfl
    | ok r =>
      cases r with
      | foreign => rfl
      | unlisted => rfl
      | six v =>
        cases l with
        | idx0 =>
          simp only [ok_bind]
          rw [ih (v <<< 2) hrest (by rw [hp]; rfl)]
        | idx1 =>
          simp only [ok_bind]
          rw [ih (v <<< 4) hrest (by rw [hp]; rfl)]
        | idx2 =>
          simp only [ok_bind]
          rw [ih (v <<< 6) hrest (by rw [hp]; rfl)]
        | idx3 =>
          have hi : UInt32.ofNat i + 4 = UInt32.ofNat (i + 4) := by rw [UInt32.ofNat_add]; rfl
          simp only [ok_bind, hi]
          rw [ih e hrest (by rw [hp]; rfl)]


theorem look_digit {v : Nat} (h : v < 64) : look (digit v) = .ok (.six (UInt8.ofNat v)) := by
  revert v
  decide

theorem look_pad : look pad = .ok .unlisted := by rfl

theorem join_first (a b c : UInt8) : UInt8.ofNat (sextet (group a b c) 0) <<< 2 |||
    UInt8.ofNat (sextet (group a b c) 1) >>> 4 = a := by
  have ha := a.toNat_lt
  have hb := b.toNat_lt
  have hlow : (UInt8.ofNat (sextet (group a b c) 1) >>> 4).toNat = a.toNat % 4 := by
    simp [sextet_group_one, Nat.shiftRight_eq_div_pow]
    omega
  apply UInt8.toNat_inj.mp
  rw [join8_toNat (by decide) (by rw [hlow]; exact Nat.mod_lt _ (by decide)), hlow,
    sextet_group_zero]
  simp
  omega

theorem join_second (a b c : UInt8) : UInt8.ofNat (sextet (group a b c) 1) <<< 4 |||
    UInt8.ofNat (sextet (group a b c) 2) >>> 2 = b := by
  have hb := b.toNat_lt
  have hc := c.toNat_lt
  have hlow : (UInt8.ofNat (sextet (group a b c) 2) >>> 2).toNat = b.toNat % 16 := by
    simp [sextet_group_two, Nat.shiftRight_eq_div_pow]
    omega
  apply UInt8.toNat_inj.mp
  rw [join8_toNat (by decide) (by rw [hlow]; exact Nat.mod_lt _ (by decide)), hlow,
    sextet_group_one]
  simp
  omega

theorem join_third (a b c : UInt8) : UInt8.ofNat (sextet (group a b c) 2) <<< 6 |||
    UInt8.ofNat (sextet (group a b c) 3) = c := by
  have hc := c.toNat_lt
  have hlow : (UInt8.ofNat (sextet (group a b c) 3)).toNat = c.toNat % 64 := by
    simp [sextet_group_three]
    omega
  apply UInt8.toNat_inj.mp
  rw [join8_toNat (by decide) (by rw [hlow]; exact Nat.mod_lt _ (by decide)), hlow,
    sextet_group_two]
  simp
  omega

theorem decChars_encode (behind : Fault) (e : UInt8) (s : Bytes) :
    decChars behind .idx0 e (encode s) = .ok s := by
  induction s using encode.induct generalizing e with
  | case1 => rfl
  | case2 a =>
    simp [encode, decChars, look_digit, sextet_lt, look_pad, ok_bind, pure_eq_ok, join_first]
  | case3 a b =>
    simp [encode, decChars, look_digit, sextet_lt, look_pad, ok_bind, pure_eq_ok, join_first,
      join_second]
  | case4 a b c rest ih =>
    simp [encode, decChars, look_digit, sextet_lt, ok_bind, pure_eq_ok, join_first,
      join_second, join_third, ih]

theorem encode_inj {s t : Bytes} (h : encode s = encode t) : s = t := by
  have hs := decChars_encode (.read 0) 0 s
  rw [h, decChars_encode] at hs
  exact (Except.ok.inj hs).symm

theorem b64dec_eq (s : Bytes) :
    b64dec s = decChars (.read (s.length + 1)) .idx0 0 (indexed s) := by
  have h := @decLoop_eq s (indexed s) 0 0 .idx0 0 rfl rfl
  rw [indexed, cycle_length] at h
  exact h

end Yagips.Util.B64
