import Yagips.Game.Login
import Yagips.Lib.Message

/-!
# The values of a configuration file

A table as `toml_parse_file` builds it keeps each value as its text, and the accessors convert the text
when they are asked. An integer loses its underscores in a buffer and goes to `strtoll`.
-/
namespace Yagips.Config.Toml

open Yagips.Lib
open Yagips.Lib.Message
open Yagips.Game.Login (isSpace digitValue digitsOf basePrefix)

/-- A `toml_table_t`, without its arrays. -/
inductive TomlTable where
  | mk (kval : List (String × Bytes)) (tab : List (String × TomlTable))

/-- The library's `toml_value_string`, which unquotes a text. -/
structure TomlC where
  string : Bytes → Option Bytes

def tomlTableUnparsed : TomlTable → String → Option Bytes
  | .mk kval _, key => kval.lookup key

def tomlTableTable : TomlTable → String → Option TomlTable
  | .mk _ tab, key => tab.lookup key

/-! ## Integers -/

/-- What `strtoll` returns, whether it sets `errno`, and what `endptr` points to. -/
structure Converted where
  value : Int64
  errno : Bool
  rest : Bytes
  deriving DecidableEq

/-- In base 16 the prefix may be there, and counts only with a digit behind it. -/
def hexPrefix : Bytes → Bytes
  | 0x30 :: x :: rest => if (x = 0x78 ∨ x = 0x58) ∧ digitsOf 16 rest ≠ [] then rest else 0x30 :: x :: rest
  | s => s

/-- A number that is too large for a `long long` gives the bound, and sets `errno`. -/
def toLongLong (value : Int) (rest : Bytes) : Converted :=
  if value < -2 ^ 63 then { value := Int64.minValue, errno := true, rest }
  else if 2 ^ 63 ≤ value then { value := Int64.maxValue, errno := true, rest }
  else { value := Int64.ofInt value, errno := false, rest }

/-- The digits of a base at the start of `t`, or nothing of `s`. -/
def scanDigits (s : Bytes) (negative : Bool) (base : Nat) (t : Bytes) : Converted :=
  match digitsOf base t with
  | [] => { value := 0, errno := false, rest := s }
  | digits =>
    let magnitude := digits.foldl (fun n d => n * base + d) 0
    toLongLong (if negative then -magnitude else magnitude) (t.drop digits.length)

def strtoll (s : Bytes) (base : Nat) : Converted :=
  let t := s.dropWhile isSpace
  let negative : Bool := t.head? = some 0x2d
  let t := if negative ∨ t.head? = some 0x2b then t.tail else t
  let (base, t) := if base = 0 then basePrefix t else if base = 16 then (16, hexPrefix t) else (base, t)
  scanDigits s negative base t

/-- The loop that copies all but underscores, with the room that is left. -/
def copyDigits : Nat → Bytes → Option Bytes
  | 0, _ => none
  | _ + 1, [] => some []
  | room + 1, ch :: s =>
    if ch = 0x5f then
      match s with
      | [] => none
      | c :: _ => if c = 0x5f then none else copyDigits (room + 1) s
    else (copyDigits room s).map (ch :: ·)

/-- The end of `toml_value_int`, behind the sign and the prefix. -/
def convert (sign s : Bytes) (base : Nat) : Option Int64 := do
  let copied ← copyDigits (100 - sign.length) s
  let c := strtoll (sign ++ copied) base
  if c.errno ∨ c.rest ≠ [] then none else some c.value

/-- The bases that a letter behind a 0 stands for. -/
def baseOf (letter : UInt8) : Option Nat :=
  if letter = 0x78 then some 16
  else if letter = 0x6f then some 8
  else if letter = 0x62 then some 2
  else none

/-- `toml_value_int` behind the sign. -/
def digitsValue (haveSign : Bool) (sign : Bytes) : Bytes → Option Int64
  | 0x5f :: _ => none
  | [0x30] => some 0
  | 0x30 :: letter :: s =>
    match baseOf letter with
    | none => none
    | some base =>
      if s = [] then none
      else if haveSign then none
      else if s.head? = some 0x5f then none
      else convert sign s base
  | s => convert sign s 0

def tomlValueInt : Option Bytes → Option Int64
  | none => none
  | some src =>
    if src.head? = some 0x2b ∨ src.head? = some 0x2d then digitsValue true (src.take 1) (src.drop 1)
    else digitsValue false [] src

def tomlValueBool : Option Bytes → Option Bool
  | none => none
  | some src => if src = ascii "true" then some true else if src = ascii "false" then some false else none

def tomlTableInt (tab : TomlTable) (key : String) : Option Int64 := tomlValueInt (tomlTableUnparsed tab key)

def tomlTableBool (tab : TomlTable) (key : String) : Option Bool := tomlValueBool (tomlTableUnparsed tab key)

/-- A string as the C string that its readers see. -/
def TomlC.tableString (toml : TomlC) (tab : TomlTable) (key : String) : Option Bytes :=
  (tomlTableUnparsed tab key >>= toml.string).map cstr

/-! ## Numbers in decimal -/

/-- What is printed of a number is its digits. -/
structure Decimal (n : Nat) (text : Bytes) : Prop where
  digits : digitsOf 10 text ≠ [] ∧ (digitsOf 10 text).length = text.length
  value : (digitsOf 10 text).foldl (fun n d => n * 10 + d) 0 = n
  range : ∀ b ∈ text, 0x30 ≤ b ∧ b ≤ 0x39
  head : n ≠ 0 → text.head? ≠ some 0x30

theorem digitValue_decimal {b : UInt8} (h : 0x30 ≤ b ∧ b ≤ 0x39) : digitValue b = some (b.toNat - 0x30) :=
  if_pos h

theorem digitsOf_decimal {text : Bytes} (h : ∀ b ∈ text, 0x30 ≤ b ∧ b ≤ 0x39) :
    digitsOf 10 text = text.map fun b => b.toNat - 0x30 := by
  induction text with
  | nil => rfl
  | cons b rest ih =>
    have hb := h b List.mem_cons_self
    have hsmall : b.toNat - 0x30 < 10 := by
      have hle := UInt8.le_iff_toNat_le.mp hb.2
      change b.toNat ≤ 57 at hle
      omega
    rw [digitsOf, digitValue_decimal hb]
    dsimp only
    rw [if_pos hsmall, ih fun b' hb' => h b' (List.mem_cons_of_mem b hb'), List.map_cons]

/-- A number that is not 0 is printed without leading zeros. -/
theorem toDigits_head {n : Nat} (h : n ≠ 0) : (Nat.toDigits 10 n).head? ≠ some '0' := by
  induction n using Nat.strong_induction_on with
  | h n ih =>
    rcases Nat.lt_or_ge n 10 with hlt | hge
    · rw [Nat.toDigits_of_lt_base hlt]
      intro hhead
      have hzero : n.digitChar = '0' := Option.some.inj hhead
      have hsub := Nat.toNat_digitChar_sub_48_of_lt_ten hlt
      rw [hzero] at hsub
      exact h hsub.symm
    · have hrest := ih (n / 10) (by omega) (by omega)
      have hne : Nat.toDigits 10 (n / 10) ≠ [] := Nat.toDigits_ne_nil
      rw [Nat.toDigits_of_base_le (by decide) hge, List.head?_append_of_ne_nil _ hne]
      exact hrest

theorem decimal_repr (n : Nat) : Decimal n (ascii n.repr) := by
  have hrange : ∀ b ∈ ascii n.repr, 0x30 ≤ b ∧ b ≤ 0x39 := fun b hb => repr_bytes hb
  have hne : ascii n.repr ≠ [] := by
    rw [ascii, Nat.toList_repr]
    exact fun hnil => Nat.toDigits_ne_nil (List.map_eq_nil_iff.mp hnil)
  refine ⟨⟨?_, ?_⟩, ?_, hrange, fun hn => ?_⟩
  · rw [digitsOf_decimal hrange]
    exact fun hnil => hne (List.map_eq_nil_iff.mp hnil)
  · rw [digitsOf_decimal hrange, List.length_map]
  · rw [digitsOf_decimal hrange, List.foldl_map]
    have hnumber := number_repr n
    rw [number] at hnumber
    simpa only [Nat.mul_comm] using hnumber
  · rw [ascii, Nat.toList_repr, List.head?_map]
    intro hhead
    obtain ⟨c, hc, hbyte⟩ := Option.map_eq_some_iff.mp hhead
    have hdigit := digit_bounds (Nat.isDigit_of_mem_toDigits (by decide) (by decide) (List.mem_of_mem_head? hc))
    have hzero : c = '0' := by
      have hnat := congrArg UInt8.toNat hbyte
      rw [UInt8.toNat_ofNat'] at hnat
      change c.toNat % 256 = 48 at hnat
      apply Char.toNat_inj.mp
      change c.toNat = 48
      omega
    exact toDigits_head hn (hzero ▸ hc)

/-- Without underscores all is copied that there is room for. -/
theorem copyDigits_eq {room : Nat} {text : Bytes} (h : 0x5f ∉ text) (hroom : text.length < room) :
    copyDigits room text = some text := by
  induction text generalizing room with
  | nil =>
    cases room with
    | zero => exact absurd hroom (Nat.lt_irrefl 0)
    | succ room => rfl
  | cons ch text ih =>
    cases room with
    | zero => exact absurd hroom (Nat.not_lt_zero _)
    | succ room =>
      have hch : ch ≠ 0x5f := fun heq => h (heq ▸ List.mem_cons_self)
      have hrest : 0x5f ∉ text := fun hin => h (List.mem_cons_of_mem ch hin)
      have hstep : copyDigits (room + 1) (ch :: text) = (copyDigits room text).map (ch :: ·) := if_neg hch
      rw [hstep, ih hrest (Nat.lt_of_succ_lt_succ hroom)]
      rfl

/-- The digits of a number that is not 0 are read in base 10 behind any sign. -/
theorem basePrefix_decimal {n : Nat} (hn : n ≠ 0) {text : Bytes} (h : Decimal n text) :
    basePrefix text = (10, text) := by
  have hhead := h.head hn
  unfold basePrefix
  split
  · exact absurd rfl hhead
  · exact absurd rfl hhead
  · rfl

/-- The first digit is neither a space, a sign nor an underscore. -/
theorem Decimal.first {n : Nat} {text : Bytes} (h : Decimal n text) :
    ∃ b rest, text = b :: rest ∧ isSpace b = false ∧ b ≠ 0x2d ∧ b ≠ 0x2b ∧ b ≠ 0x5f := by
  cases text with
  | nil => exact absurd rfl h.digits.1
  | cons b rest =>
    have hall : ∀ b : UInt8, 0x30 ≤ b ∧ b ≤ 0x39 → isSpace b = false ∧ b ≠ 0x2d ∧ b ≠ 0x2b ∧ b ≠ 0x5f := by
      apply forall_byte
      decide +kernel
    exact ⟨b, rest, rfl, hall b (h.range b List.mem_cons_self)⟩

theorem scanDigits_decimal {n : Nat} {text : Bytes} (h : Decimal n text) (s : Bytes) {negative : Bool}
    {v : Int64} (hv : v.toInt = if negative then -(n : Int) else n) :
    scanDigits s negative 10 text = { value := v, errno := false, rest := [] } := by
  obtain ⟨hne, hlength⟩ := h.digits
  obtain ⟨d, ds, hds⟩ := List.exists_cons_of_ne_nil hne
  have hscan : scanDigits s negative 10 text = toLongLong (if negative then -(n : Int) else n) [] := by
    rw [← h.value, ← List.drop_length (l := text), ← hlength, scanDigits, hds]
  have hlow : ¬ v.toInt < -2 ^ 63 := Int.not_lt.mpr v.le_toInt
  have hhigh : ¬ 2 ^ 63 ≤ v.toInt := Int.not_le.mpr v.toInt_lt
  rw [hscan, ← hv, toLongLong, if_neg hlow, if_neg hhigh, Int64.ofInt_toInt]

/-- A number that is not 0 is read in base 10, with any sign. -/
theorem strtoll_decimal {n : Nat} (hn : n ≠ 0) {text : Bytes} (h : Decimal n text) (negative : Bool) :
    strtoll (if negative then 0x2d :: text else text) 0 =
      scanDigits (if negative then 0x2d :: text else text) negative 10 text := by
  obtain ⟨b, rest, rfl, hspace, hminus, hplus, -⟩ := h.first
  have hbase := basePrefix_decimal hn h
  have hminusSpace : isSpace 0x2d = false := by decide
  cases negative with
  | false => simp [strtoll, hspace, hminus, hplus, hbase]
  | true => simp [strtoll, hminusSpace, hbase]

theorem convert_decimal {n : Nat} (hn : n ≠ 0) {text : Bytes} (h : Decimal n text) (hlength : text.length < 99)
    (negative : Bool) {v : Int64} (hv : v.toInt = if negative then -(n : Int) else n) :
    convert (if negative then [0x2d] else []) text 0 = some v := by
  have hunder : 0x5f ∉ text := fun hin => absurd (h.range _ hin).2 (by decide)
  have hroom : text.length < 100 - (if negative then [0x2d] else [] : Bytes).length := by
    cases negative
    · simp only [Bool.false_eq_true, if_false, List.length_nil]
      omega
    · simp only [if_true, List.length_singleton]
      omega
  have hsign : (if negative then [0x2d] else []) ++ text = if negative then 0x2d :: text else text := by
    cases negative <;> rfl
  rw [convert, copyDigits_eq hunder hroom]
  simp only [Option.bind_eq_bind, Option.bind_some, hsign, strtoll_decimal hn h, scanDigits_decimal h _ hv]
  rfl

theorem digitsValue_decimal {n : Nat} (hn : n ≠ 0) {text : Bytes} (h : Decimal n text) (haveSign : Bool)
    (sign : Bytes) : digitsValue haveSign sign text = convert sign text 0 := by
  obtain ⟨b, rest, rfl, -, -, -, hunder⟩ := h.first
  have hzero : b ≠ 0x30 := fun heq => h.head hn (congrArg some heq)
  unfold digitsValue
  split
  case h_1 heq => exact absurd (List.cons.inj heq).1 hunder
  case h_2 heq => exact absurd (List.cons.inj heq).1 hzero
  case h_3 heq => exact absurd (List.cons.inj heq).1 hzero
  case h_4 => rfl

theorem tomlValueInt_decimal {n : Nat} (hn : n ≠ 0) {text : Bytes} (h : Decimal n text)
    (hlength : text.length < 99) (negative : Bool) {v : Int64}
    (hv : v.toInt = if negative then -(n : Int) else n) :
    tomlValueInt (some (if negative then 0x2d :: text else text)) = some v := by
  have hdecimal := convert_decimal hn h hlength negative hv
  rw [tomlValueInt]
  cases negative with
  | false =>
    obtain ⟨b, rest, rfl, -, hminus, hplus, -⟩ := h.first
    have hsign : ¬ ((b :: rest).head? = some 0x2b ∨ (b :: rest).head? = some 0x2d) := by
      simp [hminus, hplus]
    rw [if_neg Bool.false_ne_true, if_neg hsign, digitsValue_decimal hn h]
    exact hdecimal
  | true =>
    rw [if_pos rfl, if_pos (.inr rfl)]
    exact (digitsValue_decimal hn h true [0x2d]).trans hdecimal

theorem repr_length {n : Nat} (h : n ≤ 2 ^ 63) : (ascii n.repr).length < 99 := by
  have hle := (Nat.length_toDigits_le_iff (b := 10) (n := n) (k := 19) (by decide) (by decide)).mpr (by omega)
  rw [ascii, List.length_map, Nat.toList_repr]
  omega

/-- Every integer can be configured, and is read as it is printed. -/
theorem tomlValueInt_toString (v : Int64) : tomlValueInt (some (ascii (toString v.toInt))) = some v := by
  have hlow := v.le_toInt
  have hhigh := v.toInt_lt
  cases hv : v.toInt with
  | ofNat n =>
    by_cases hn : n = 0
    · subst hn
      have hzero : v = 0 := Int64.toInt_inj.mp hv
      rw [hzero]
      rfl
    · have hlength : (ascii n.repr).length < 99 := repr_length (by rw [hv, Int.ofNat_eq_natCast] at hhigh; omega)
      exact tomlValueInt_decimal hn (decimal_repr n) hlength false hv
  | negSucc n =>
    have htext : ascii (toString (Int.negSucc n)) = 0x2d :: ascii (n + 1).repr := by
      change ascii ("-" ++ (n + 1).repr) = _
      rw [ascii, String.toList_append, List.map_append]
      rfl
    have hlength : (ascii (n + 1).repr).length < 99 := repr_length (by rw [hv] at hlow; omega)
    rw [htext]
    exact tomlValueInt_decimal (Nat.succ_ne_zero n) (decimal_repr _) hlength true hv

end Yagips.Config.Toml
