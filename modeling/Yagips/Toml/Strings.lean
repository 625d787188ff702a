import Yagips.Toml.Scanner

/-!
# Strings and keys

A quoted string is unescaped and checked for whole groups of bytes, those of UTF-8 by their first halves. A
key is a quoted string or a bare word.
-/
namespace Yagips.Toml

open Yagips.Lib

/-- The bytes of a code point. Those of more than 21 bits are refused before. -/
def readUnicodeEscape (code : Nat) : Option Bytes :=
  if 0xd800 ≤ code ∧ code ≤ 0xdfff then none
  else if 0x10ffff < code then none
  else if code ≤ 0x7f then some [code.toUInt8]
  else if code ≤ 0x7ff then some [(0xc0 ||| code >>> 6).toUInt8, (0x80 ||| code &&& 0x3f).toUInt8]
  else if code ≤ 0xffff then
    some [(0xe0 ||| code >>> 12).toUInt8, (0x80 ||| code >>> 6 &&& 0x3f).toUInt8, (0x80 ||| code &&& 0x3f).toUInt8]
  else
    some [(0xf0 ||| code >>> 18).toUInt8, (0x80 ||| code >>> 12 &&& 0x3f).toUInt8, (0x80 ||| code >>> 6 &&& 0x3f).toUInt8,
      (0x80 ||| code &&& 0x3f).toUInt8]

/-- How many bytes a group has, by its first. -/
def u8length (c : UInt8) : Nat := [1, 1, 1, 1, 1, 1, 1, 1, 0, 0, 0, 0, 2, 2, 3, 4].getD (c.toNat / 16) 0

/-! ## Unescaping -/

def invalidUtf8 {α : Type} (off : Nat) : Except Bytes α :=
  .error (ascii "invalid UTF-8 at byte pos " ++ ascii (toString off))

def hexDigit (n : Nat) : UInt8 := if n < 10 then (0x30 + n).toUInt8 else (0x61 + (n - 10)).toUInt8

/-- The message of `U+%04x` for a byte under 128. -/
def invalidChar {α : Type} (c : UInt8) : Except Bytes α :=
  .error (ascii "invalid char U+00" ++ [hexDigit (c.toNat / 16), hexDigit (c.toNat % 16)])

/-- Control characters, other than tab. -/
def isControl (c : UInt8) : Bool := c ≤ 0x08 ∨ 0x0a ≤ c ∧ c ≤ 0x1f ∨ c = 0x7f

/-- The loop over a group: what is left, and what is written. Past the end of a string stands its quote,
whose high bit is not set. -/
def groupLoop : Nat → Bytes → Bytes → Except Bytes (Bytes × Bytes)
  | 0, sp, dst => .ok (sp, dst)
  | _ + 1, [], dst => invalidUtf8 dst.length
  | l + 1, c :: sp, dst => if c < 0x80 then invalidUtf8 dst.length else groupLoop l sp (dst ++ [c])

/-- The loop over a literal string, in as many turns as it has bytes. -/
def normLitLoop (multiline isKey : Bool) : Nat → Bytes → Bytes → Except Bytes Bytes
  | n + 1, c :: sp, dst =>
    let l := u8length c
    if l = 0 then invalidUtf8 dst.length
    else if l > 1 then do
      let (sp, dst) ← groupLoop l (c :: sp) dst
      normLitLoop multiline isKey n sp dst
    else if isKey ∧ c = 0x0a then .error (ascii "literal newlines not allowed in key")
    else if isControl c ∧ ¬ (multiline ∧ (c = 0x0d ∨ c = 0x0a)) then invalidChar c
    else normLitLoop multiline isKey n sp (dst ++ [c])
  | _, _, dst => .ok dst

def normLitStr (src : Bytes) (multiline isKey : Bool) : Except Bytes Bytes := normLitLoop multiline isKey src.length src []

def hexValue (c : UInt8) : Option Nat :=
  if 0x30 ≤ c ∧ c ≤ 0x39 then some (c.toNat - 0x30)
  else if 0x41 ≤ c ∧ c ≤ 0x46 then some (c.toNat - 0x41 + 10)
  else if 0x61 ≤ c ∧ c ≤ 0x66 then some ((c ^^^ 0x20).toNat - 0x41 + 10)
  else none

/-- The loop over `n` of `nhex` hex digits: what is left, and their value. Its message names the byte that
was read last. -/
def hexLoop (nhex : Nat) : Nat → UInt8 → Bytes → Nat → Except Bytes (Bytes × Nat)
  | 0, _, sp, ucs => .ok (sp, ucs)
  | _ + 1, ch, [], _ => .error ([0x5c, ch] ++ ascii " expects " ++ ascii (toString nhex) ++ ascii " hex chars")
  | n + 1, _, ch :: sp, ucs =>
    match hexValue ch with
    | none => .error (ascii "invalid hex chars for \\u or \\U")
    | some v => hexLoop nhex n ch sp (ucs * 16 + v)

/-- The byte that a letter behind a backslash stands for. -/
def escaped (ch : UInt8) : Option UInt8 :=
  if ch = 0x62 then some 0x08
  else if ch = 0x74 then some 0x09
  else if ch = 0x6e then some 0x0a
  else if ch = 0x66 then some 0x0c
  else if ch = 0x72 then some 0x0d
  else if ch = 0x22 then some 0x22
  else if ch = 0x5c then some 0x5c
  else none

/-- A turn behind a backslash: what is left, and what is written. A backslash at the end of a line takes
the blanks and lines behind it away. -/
def backslash (multiline : Bool) : Bytes → Except Bytes (Bytes × Bytes)
  | [] => .error (ascii "last backslash is invalid")
  | ch :: sp =>
    if multiline ∧ ((ch :: sp).dropWhile (· ∈ ascii " \t\r")).head? = some 0x0a then
      .ok ((ch :: sp).dropWhile (· ∈ ascii " \t\r\n"), [])
    else if ch = 0x75 ∨ ch = 0x55 then do
      let nhex := if ch = 0x75 then 4 else 8
      let (sp, ucs) ← hexLoop nhex nhex ch sp 0
      match readUnicodeEscape ucs with
      | none => .error (ascii "illegal ucs code in \\u or \\U")
      | some bytes => .ok (sp, bytes)
    else
      match escaped ch with
      | none => .error (ascii "illegal escape char \\" ++ [ch])
      | some b => .ok (sp, [b])

/-- The loop over a basic string, in as many turns as it has bytes. -/
def normBasicLoop (multiline isKey : Bool) : Nat → Bytes → Bytes → Except Bytes Bytes
  | n + 1, c :: sp, dst =>
    let l := u8length c
    if l = 0 then invalidUtf8 dst.length
    else if l > 1 then do
      let (sp, dst) ← groupLoop l (c :: sp) dst
      normBasicLoop multiline isKey n sp dst
    else if isKey ∧ c = 0x0a then .error (ascii "literal newlines not allowed in key")
    else if c = 0x5c then do
      let (sp, bytes) ← backslash multiline sp
      normBasicLoop multiline isKey n sp (dst ++ bytes)
    else if isControl c ∧ ¬ (multiline ∧ (c = 0x0d ∨ c = 0x0a)) then invalidChar c
    else normBasicLoop multiline isKey n sp (dst ++ [c])
  | _, _, dst => .ok dst

def normBasicStr (src : Bytes) (multiline isKey : Bool) : Except Bytes Bytes :=
  normBasicLoop multiline isKey src.length src []

/-! ## Values and keys -/

/-- The line end behind opening quotes is skipped. -/
def skipLineEnd : Bytes → Bytes
  | 0x0a :: sp => sp
  | 0x0d :: 0x0a :: sp => sp
  | sp => sp

def tomlValueString (src : Bytes) : Option Bytes :=
  match src.head? with
  | none => none
  | some qchar =>
    if qchar ≠ 0x27 ∧ qchar ≠ 0x22 then none
    else
      let norm := if qchar = 0x27 then normLitStr else normBasicStr
      if src.getD 1 0 = qchar ∧ src.getD 2 0 = qchar then
        if 6 ≤ src.length ∧ src.drop (src.length - 3) = [qchar, qchar, qchar] then
          (norm (skipLineEnd ((src.take (src.length - 3)).drop 3)) true false).toOption
        else none
      else
        if 2 ≤ src.length ∧ src.drop (src.length - 1) = [qchar] then
          (norm ((src.take (src.length - 1)).drop 1) false false).toOption
        else none

/-- The loop over a bare key. -/
def isBare (c : UInt8) : Bool := isAlpha c ∨ isDigit c ∨ c = 0x5f ∨ c = 0x2d

def normalizeKey (strtok : Token) : Except Stop Bytes :=
  let text := strtok.ptr.take strtok.len
  let ch := strtok.ptr.getD 0 0
  if ch = 0x27 ∨ ch = 0x22 then
    let multiline : Bool := strtok.ptr.getD 1 0 = ch ∧ strtok.ptr.getD 2 0 = ch
    let quotes := if multiline then 3 else 1
    let body := (text.take (text.length - quotes)).drop quotes
    let norm := if ch = 0x27 then normLitStr else normBasicStr
    match norm body multiline true with
    | .ok key => .ok key
    | .error ebuf => eSyntax strtok.lineno ebuf
  else if text.all isBare then .ok text
  else eBadkey strtok.lineno

/-! ## What strings can hold -/

/-- Whole groups of bytes. -/
inductive Grouped : Bytes → Prop where
  | nil : Grouped []
  | byte {c : UInt8} {s : Bytes} (hc : c < 0x80) (h : Grouped s) : Grouped (c :: s)
  | group {c : UInt8} {g s : Bytes} (hlen : 1 < u8length c ∧ (c :: g).length = u8length c)
      (hg : ∀ b ∈ c :: g, 0x80 ≤ b) (h : Grouped s) : Grouped (c :: g ++ s)

theorem Grouped.append {s t : Bytes} (hs : Grouped s) (ht : Grouped t) : Grouped (s ++ t) := by
  induction hs with
  | nil => exact ht
  | byte hc _ ih => exact .byte hc ih
  | group hlen hg _ ih =>
    rw [List.append_assoc]
    exact .group hlen hg ih

theorem u8length_one {c : UInt8} (h : u8length c = 1) : c < 0x80 := by
  revert h
  revert c
  apply forall_byte
  decide +kernel

theorem u8length_of_lt {c : UInt8} (h : c < 0x80) : u8length c = 1 := by
  revert h
  revert c
  apply forall_byte
  decide +kernel

theorem groupLoop_ok {l : Nat} {sp dst sp' dst' : Bytes} (h : groupLoop l sp dst = .ok (sp', dst')) :
    ∃ g, sp = g ++ sp' ∧ g.length = l ∧ (∀ b ∈ g, 0x80 ≤ b) ∧ dst' = dst ++ g := by
  induction l generalizing sp dst with
  | zero =>
    cases h
    exact ⟨[], rfl, rfl, by simp, (List.append_nil _).symm⟩
  | succ l ih =>
    cases sp with
    | nil => cases h
    | cons c sp =>
      rw [groupLoop] at h
      split at h
      · cases h
      · obtain ⟨g, rfl, hlen, hg, rfl⟩ := ih h
        refine ⟨c :: g, rfl, congrArg (· + 1) hlen, ?_, by simp⟩
        simpa using ⟨UInt8.not_lt.mp ‹_›, hg⟩

theorem groupLoop_append {g : Bytes} (hg : ∀ b ∈ g, 0x80 ≤ b) (sp dst : Bytes) :
    groupLoop g.length (g ++ sp) dst = .ok (sp, dst ++ g) := by
  induction g generalizing dst with
  | nil => rw [List.append_nil]; rfl
  | cons c g ih =>
    have hc : ¬ c < 0x80 := UInt8.not_lt.mpr (hg c List.mem_cons_self)
    rw [List.length_cons, List.cons_append, groupLoop, if_neg hc, ih fun b hb => hg b (List.mem_cons_of_mem c hb),
      List.append_assoc]
    rfl

/-- A group that is copied is whole. -/
theorem Grouped.copied {c : UInt8} {sp dst sp' dst' : Bytes} (hdst : Grouped dst) (hl : 1 < u8length c)
    (h : groupLoop (u8length c) (c :: sp) dst = .ok (sp', dst')) : Grouped dst' := by
  obtain ⟨g, hsp, hlen, hg, rfl⟩ := groupLoop_ok h
  obtain ⟨c', g, rfl⟩ := List.exists_cons_of_length_pos (show 0 < g.length by omega)
  cases (List.cons.inj hsp).1
  have hwhole := Grouped.group ⟨hl, hlen⟩ hg .nil
  rw [List.append_nil] at hwhole
  exact hdst.append hwhole

theorem Grouped.copied_byte {c : UInt8} {dst : Bytes} (hdst : Grouped dst) (hc : c < 0x80) : Grouped (dst ++ [c]) :=
  hdst.append (.byte hc .nil)

theorem normLitLoop_grouped {multiline isKey : Bool} {n : Nat} {sp dst out : Bytes} (hdst : Grouped dst)
    (h : normLitLoop multiline isKey n sp dst = .ok out) : Grouped out := by
  induction n generalizing sp dst with
  | zero =>
    cases h
    exact hdst
  | succ n ih =>
    cases sp with
    | nil =>
      cases h
      exact hdst
    | cons c sp =>
      rw [normLitLoop] at h
      dsimp only at h
      split at h
      · cases h
      · split at h
        case isTrue hl =>
          obtain ⟨⟨sp', dst'⟩, hgroup, h⟩ := bind_eq_ok.mp h
          exact ih (hdst.copied hl hgroup) h
        case isFalse =>
          split at h
          · cases h
          · split at h
            · cases h
            · exact ih (hdst.copied_byte (u8length_one (by omega))) h

theorem or_toUInt8 {base x k : Nat} (hx : x < 2 ^ k) (hbase : base + x < 256) (hdvd : 2 ^ k ∣ base) :
    (base ||| x).toUInt8.toNat = base + x := by
  obtain ⟨m, rfl⟩ := hdvd
  rw [← Nat.two_pow_add_eq_or_of_lt hx, Nat.toUInt8_eq, UInt8.toNat_ofNat']
  exact Nat.mod_eq_of_lt hbase

/-- The first byte of a code point tells how many there are. -/
theorem lead_byte {base x k l : Nat} (hx : x < 2 ^ k) (hdvd : 2 ^ k ∣ base) (hge : 0x80 ≤ base) (hle : base + 2 ^ k ≤ 256)
    (hl : ∀ y < 2 ^ k, [1, 1, 1, 1, 1, 1, 1, 1, 0, 0, 0, 0, 2, 2, 3, 4].getD ((base + y) / 16) 0 = l) :
    u8length (base ||| x).toUInt8 = l ∧ 0x80 ≤ (base ||| x).toUInt8 := by
  have h := or_toUInt8 hx (by omega) hdvd
  rw [u8length, UInt8.le_iff_toNat_le, h]
  exact ⟨hl x hx, hge.trans (Nat.le_add_right base x)⟩

/-- The others have their high bit set. -/
theorem low_ge (x : Nat) : 0x80 ≤ (0x80 ||| x &&& 0x3f).toUInt8 := by
  have hlt : x &&& 0x3f < 2 ^ 6 := Nat.and_lt_two_pow x (by decide)
  have h := or_toUInt8 hlt (by omega) (by decide : 2 ^ 6 ∣ 0x80)
  rw [UInt8.le_iff_toNat_le, h]
  exact Nat.le_add_right 128 _

theorem readUnicodeEscape_grouped {code : Nat} {bytes : Bytes} (h : readUnicodeEscape code = some bytes) :
    Grouped bytes := by
  have hwhole : ∀ {c : UInt8} {g : Bytes} {l : Nat}, u8length c = l ∧ 0x80 ≤ c → 1 < l → g.length + 1 = l → (∀ b ∈ g, 0x80 ≤ b) →
      Grouped (c :: g) := by
    intro c g l hc hl hlen hg
    have hgroup := Grouped.group ⟨hc.1 ▸ hl, hlen.trans hc.1.symm⟩ (List.forall_mem_cons.mpr ⟨hc.2, hg⟩) .nil
    rwa [List.append_nil] at hgroup
  have hshift : ∀ k, code >>> k = code / 2 ^ k := fun k => Nat.shiftRight_eq_div_pow code k
  rw [readUnicodeEscape] at h
  split_ifs at h with _ hlarge h1 h2 h3
  · cases h
    refine .byte ?_ .nil
    rw [UInt8.lt_iff_toNat_lt, Nat.toUInt8_eq, UInt8.toNat_ofNat', Nat.mod_eq_of_lt (by omega)]
    exact Nat.lt_succ_of_le h1
  · cases h
    have hlead := lead_byte (k := 5) (l := 2) (show code >>> 6 < 2 ^ 5 by rw [hshift]; omega) (by decide : 2 ^ 5 ∣ 0xc0)
      (by decide) (by decide) (by decide)
    exact hwhole hlead (by decide) rfl (List.forall_mem_singleton.mpr (low_ge _))
  · cases h
    have hlead := lead_byte (k := 4) (l := 3) (show code >>> 12 < 2 ^ 4 by rw [hshift]; omega) (by decide : 2 ^ 4 ∣ 0xe0)
      (by decide) (by decide) (by decide)
    exact hwhole hlead (by decide) rfl (List.forall_mem_cons.mpr ⟨low_ge _, List.forall_mem_singleton.mpr (low_ge _)⟩)
  · cases h
    have hlead := lead_byte (k := 3) (l := 4) (show code >>> 18 < 2 ^ 3 by rw [hshift]; omega) (by decide : 2 ^ 3 ∣ 0xf0)
      (by decide) (by decide) (by decide)
    exact hwhole hlead (by decide) rfl (List.forall_mem_cons.mpr ⟨low_ge _,
      List.forall_mem_cons.mpr ⟨low_ge _, List.forall_mem_singleton.mpr (low_ge _)⟩⟩)

theorem escaped_lt {ch b : UInt8} (h : escaped ch = some b) : b < 0x80 := by
  rw [escaped] at h
  split_ifs at h <;> cases h <;> decide

theorem backslash_grouped {multiline : Bool} {sp sp' bytes : Bytes} (h : backslash multiline sp = .ok (sp', bytes)) :
    Grouped bytes := by
  cases sp with
  | nil => cases h
  | cons ch sp =>
    rw [backslash] at h
    split at h
    · cases h
      exact .nil
    · split at h
      · obtain ⟨⟨sp, ucs⟩, -, h⟩ := bind_eq_ok.mp h
        dsimp only at h
        cases hucs : readUnicodeEscape ucs with
        | none =>
          rw [hucs] at h
          cases h
        | some bytes =>
          rw [hucs] at h
          cases h
          exact readUnicodeEscape_grouped hucs
      · cases hch : escaped ch with
        | none =>
          rw [hch] at h
          cases h
        | some b =>
          rw [hch] at h
          cases h
          exact .byte (escaped_lt hch) .nil

theorem normBasicLoop_grouped {multiline isKey : Bool} {n : Nat} {sp dst out : Bytes} (hdst : Grouped dst)
    (h : normBasicLoop multiline isKey n sp dst = .ok out) : Grouped out := by
  induction n generalizing sp dst with
  | zero =>
    cases h
    exact hdst
  | succ n ih =>
    cases sp with
    | nil =>
      cases h
      exact hdst
    | cons c sp =>
      rw [normBasicLoop] at h
      dsimp only at h
      split at h
      · cases h
      · split at h
        case isTrue hl =>
          obtain ⟨⟨sp', dst'⟩, hgroup, h⟩ := bind_eq_ok.mp h
          exact ih (hdst.copied hl hgroup) h
        case isFalse =>
          split at h
          · cases h
          · split at h
            · obtain ⟨⟨sp', bytes⟩, hbytes, h⟩ := bind_eq_ok.mp h
              exact ih (hdst.append (backslash_grouped hbytes)) h
            · split at h
              · cases h
              · exact ih (hdst.copied_byte (u8length_one (by omega))) h

theorem norm_grouped {qchar : UInt8} {src out : Bytes} {multiline isKey : Bool}
    (h : (if qchar = 0x27 then normLitStr else normBasicStr) src multiline isKey = .ok out) : Grouped out := by
  split at h
  · exact normLitLoop_grouped .nil h
  · exact normBasicLoop_grouped .nil h

theorem tomlValueString_grouped {src s : Bytes} (h : tomlValueString src = some s) : Grouped s := by
  have hok : ∀ {r : Except Bytes Bytes}, r.toOption = some s → r = .ok s := by
    intro r hr
    cases r with
    | error _ => cases hr
    | ok a => exact congrArg Except.ok (Option.some.inj hr)
  rw [tomlValueString] at h
  cases hhead : src.head? with
  | none =>
    rw [hhead] at h
    cases h
  | some qchar =>
    rw [hhead] at h
    dsimp only at h
    split at h
    · cases h
    · split at h
      · split at h
        · exact norm_grouped (hok h)
        · cases h
      · split at h
        · exact norm_grouped (hok h)
        · cases h

/-! ## Quoting -/

/-- How a byte is written in a basic string. -/
def escapeByte (c : UInt8) : Bytes :=
  if c = 0x22 ∨ c = 0x5c then [0x5c, c]
  else if isControl c then [0x5c, 0x75, 0x30, 0x30, hexDigit (c.toNat / 16), hexDigit (c.toNat % 16)]
  else [c]

def quote (s : Bytes) : Bytes := 0x22 :: (s.flatMap escapeByte ++ [0x22])

/-- A control character is written with two hex digits. -/
theorem hexDigit_control {c : UInt8} (h : isControl c) :
    hexValue (hexDigit (c.toNat / 16)) = some (c.toNat / 16) ∧ hexValue (hexDigit (c.toNat % 16)) = some (c.toNat % 16) ∧
      isHexChar (hexDigit (c.toNat / 16)) ∧ isHexChar (hexDigit (c.toNat % 16)) ∧ readUnicodeEscape c.toNat = some [c] := by
  revert h
  revert c
  apply forall_byte
  decide +kernel

theorem hexLoop_control {c : UInt8} (h : isControl c) (sp : Bytes) :
    hexLoop 4 4 0x75 (0x30 :: 0x30 :: hexDigit (c.toNat / 16) :: hexDigit (c.toNat % 16) :: sp) 0 = .ok (sp, c.toNat) := by
  obtain ⟨hhigh, hlow, -⟩ := hexDigit_control h
  have hzero : hexValue 0x30 = some 0 := rfl
  have hsum : c.toNat / 16 * 16 + c.toNat % 16 = c.toNat := Nat.div_add_mod' c.toNat 16
  simp only [hexLoop, hzero, hhigh, hlow, Nat.zero_mul, Nat.zero_add, hsum]

/-- A turn that copies a byte. -/
theorem normBasicLoop_copy {c : UInt8} (hc : u8length c = 1) (hplain : c ≠ 0x5c ∧ ¬ isControl c) (multiline isKey : Bool) (n : Nat)
    (sp dst : Bytes) :
    normBasicLoop multiline isKey (n + 1) (c :: sp) dst = normBasicLoop multiline isKey n sp (dst ++ [c]) := by
  have hnl : c ≠ 0x0a := by
    rintro rfl
    exact hplain.2 (by decide)
  rw [normBasicLoop]
  simp only [hc, hnl, hplain.1, hplain.2, Nat.lt_irrefl, Nat.one_ne_zero, gt_iff_lt, if_false, and_false, false_and, Bool.false_eq_true]

theorem normBasicLoop_backslash (multiline isKey : Bool) (n : Nat) (sp dst : Bytes) :
    normBasicLoop multiline isKey (n + 1) (0x5c :: sp) dst =
      backslash multiline sp >>= fun p => normBasicLoop multiline isKey n p.1 (dst ++ p.2) := by
  have hnl : ¬ (isKey = true ∧ (0x5c : UInt8) = 0x0a) := fun h => absurd h.2 (by decide)
  rw [normBasicLoop]
  dsimp only
  rw [if_neg (by decide), if_neg (by decide), if_neg hnl, if_pos rfl]

/-- A byte of the lower half is read as it was written, in one turn. -/
theorem normBasicLoop_escapeByte {c : UInt8} (hc : c < 0x80) (isKey : Bool) (n : Nat) (sp dst : Bytes) :
    normBasicLoop false isKey (n + 1) (escapeByte c ++ sp) dst = normBasicLoop false isKey n sp (dst ++ [c]) := by
  rw [escapeByte]
  split
  case isTrue hquote =>
    have hread : backslash false (c :: sp) = .ok (sp, [c]) := by
      rcases hquote with rfl | rfl
      · rfl
      · rfl
    rw [List.cons_append, normBasicLoop_backslash, List.singleton_append, hread]
    rfl
  case isFalse hquote =>
    split
    case isTrue hcontrol =>
      have hread : backslash false (0x75 :: 0x30 :: 0x30 :: hexDigit (c.toNat / 16) :: hexDigit (c.toNat % 16) :: sp) =
          .ok (sp, [c]) := by
        have hfalse : ∀ p : Prop, ¬ (false = true ∧ p) := fun p h => absurd h.1 (by decide)
        rw [backslash, if_neg (hfalse _), if_pos (.inl rfl)]
        dsimp only
        rw [if_pos rfl, hexLoop_control hcontrol, ok_bind, (hexDigit_control hcontrol).2.2.2.2]
      rw [List.cons_append, normBasicLoop_backslash]
      simp only [List.cons_append, List.nil_append, hread]
      rfl
    case isFalse hcontrol =>
      exact normBasicLoop_copy (u8length_of_lt hc) ⟨fun h => hquote (.inr h), hcontrol⟩ false isKey n sp dst

theorem escapeByte_high {c : UInt8} (hc : 0x80 ≤ c) : escapeByte c = [c] := by
  revert hc
  revert c
  apply forall_byte
  decide +kernel

theorem flatMap_escapeByte_high {g : Bytes} (hg : ∀ b ∈ g, 0x80 ≤ b) : g.flatMap escapeByte = g := by
  induction g with
  | nil => rfl
  | cons c g ih =>
    rw [List.flatMap_cons, escapeByte_high (hg c List.mem_cons_self), ih fun b hb => hg b (List.mem_cons_of_mem c hb)]
    rfl

theorem escapeByte_ne_nil (c : UInt8) : 0 < (escapeByte c).length := by
  rw [escapeByte]
  split_ifs <;> exact Nat.zero_lt_succ _

/-- What is written of whole groups is read back. -/
theorem normBasicLoop_escaped {s : Bytes} (hs : Grouped s) (isKey : Bool) {n : Nat} (hn : (s.flatMap escapeByte).length ≤ n)
    (dst : Bytes) : normBasicLoop false isKey n (s.flatMap escapeByte) dst = .ok (dst ++ s) := by
  induction hs generalizing n dst with
  | nil =>
    rw [List.flatMap_nil, List.append_nil]
    cases n <;> rfl
  | @byte c s hc _ ih =>
    have hpos := escapeByte_ne_nil c
    rw [List.flatMap_cons, List.length_append] at hn
    obtain ⟨n, rfl⟩ : ∃ m, n = m + 1 := ⟨n - 1, by omega⟩
    rw [List.flatMap_cons, normBasicLoop_escapeByte hc, ih (by omega), List.append_assoc]
    rfl
  | @group c g s hlen hg _ ih =>
    have hplain := flatMap_escapeByte_high hg
    rw [List.flatMap_append, hplain, List.length_append] at hn
    obtain ⟨n, rfl⟩ : ∃ m, n = m + 1 := ⟨n - 1, by rw [List.length_cons] at hn; omega⟩
    rw [List.flatMap_append, hplain, List.cons_append, normBasicLoop]
    dsimp only
    rw [if_neg (by omega), if_pos hlen.1, ← List.cons_append, ← hlen.2, groupLoop_append hg, ok_bind]
    dsimp only
    rw [ih (by rw [List.length_cons] at hn; omega), List.append_assoc]

theorem basicLoop_step {e e' : Escape} {c : UInt8} {p : Bytes} (hgo : e ≠ {} ∨ c ≠ 0x0a ∧ c ≠ 0x22)
    (h : escapeStep false e c p = .ok e') : basicLoop e (c :: p) = (basicLoop e' p).map (· + 1) := by
  have hnl : ¬ (e = {} ∧ c = 0x0a) := fun hend => hgo.elim (· hend.1) (·.1 hend.2)
  have hquote : ¬ (e = {} ∧ c = 0x22) := fun hend => hgo.elim (· hend.1) (·.2 hend.2)
  rw [basicLoop, if_neg hnl, if_neg hquote, h, ok_bind]
  rfl

theorem escapeStep_hex {n : Nat} {c : UInt8} (hc : isHexChar c) (p : Bytes) :
    escapeStep false { hexreq := n + 1 } c p = .ok { hexreq := n } := by
  rw [escapeStep, if_neg Bool.false_ne_true]
  dsimp only
  rw [if_pos (Nat.succ_ne_zero n), if_pos hc, Nat.add_sub_cancel]

/-- What is written of a byte ends no string. -/
theorem basicLoop_escapeByte (c : UInt8) (p : Bytes) :
    basicLoop {} (escapeByte c ++ p) = (basicLoop {} p).map (· + (escapeByte c).length) := by
  have hopen : ∀ p, basicLoop {} (0x5c :: p) = (basicLoop { escape := true } p).map (· + 1) := fun p =>
    basicLoop_step (.inr (by decide)) rfl
  rw [escapeByte]
  split
  case isTrue hquote =>
    have hclose : escapeStep false { escape := true } c p = .ok {} := by
      rcases hquote with rfl | rfl
      · rfl
      · rfl
    rw [List.cons_append, List.singleton_append, hopen, basicLoop_step (.inl (by decide)) hclose]
    cases basicLoop {} p <;> rfl
  case isFalse hquote =>
    split
    case isTrue hcontrol =>
      obtain ⟨-, -, hhigh, hlow, -⟩ := hexDigit_control hcontrol
      have hzero : isHexChar 0x30 := by decide
      have hu : ∀ p, basicLoop { escape := true } (0x75 :: p) = (basicLoop { hexreq := 4 } p).map (· + 1) := fun p =>
        basicLoop_step (.inl (by decide)) rfl
      have hhex : ∀ {n : Nat} {h : UInt8} (p : Bytes), isHexChar h →
          basicLoop { hexreq := n + 1 } (h :: p) = (basicLoop { hexreq := n } p).map (· + 1) := fun p hh =>
        basicLoop_step (.inl (by simp)) (escapeStep_hex hh p)
      simp only [List.cons_append, List.nil_append]
      rw [hopen, hu, hhex _ hzero, hhex _ hzero, hhex _ hhigh, hhex _ hlow]
      cases basicLoop {} p <;> rfl
    case isFalse hcontrol =>
      have hnl : c ≠ 0x0a := by
        rintro rfl
        exact hcontrol (by decide)
      have hplain : escapeStep false {} c p = .ok {} := by
        have hbackslash : decide (c = 0x5c) = false := decide_eq_false fun h => hquote (.inr h)
        rw [escapeStep, if_neg (by decide), if_neg (by decide), hbackslash]
      exact basicLoop_step (.inr ⟨hnl, fun h => hquote (.inl h)⟩) hplain

theorem basicLoop_escaped (s rest : Bytes) :
    basicLoop {} (s.flatMap escapeByte ++ 0x22 :: rest) = .ok (s.flatMap escapeByte).length := by
  induction s with
  | nil => rfl
  | cons c s ih =>
    rw [List.flatMap_cons, List.append_assoc, basicLoop_escapeByte, ih, List.length_append, Nat.add_comm]
    rfl

theorem quote_length (s : Bytes) : (quote s).length = (s.flatMap escapeByte).length + 2 := by
  rw [quote, List.length_cons, List.length_append]
  rfl

/-- The first byte that is written is no quote. -/
theorem escaped_head {s : Bytes} (hs : s ≠ []) (rest : Bytes) : (s.flatMap escapeByte ++ rest).head? ≠ some 0x22 := by
  obtain ⟨c, s, rfl⟩ := List.exists_cons_of_ne_nil hs
  rw [List.flatMap_cons, List.append_assoc, escapeByte]
  split_ifs with hquote
  · simp
  · simp
  · simpa using fun h : c = 0x22 => hquote (.inl h)

theorem quote_append (s rest : Bytes) : quote s ++ rest = 0x22 :: (s.flatMap escapeByte ++ 0x22 :: rest) := by
  rw [quote, List.cons_append, List.append_assoc]
  rfl

/-- A quoted string does not look like one over lines. -/
theorem quote_single (s rest : Bytes) (hrest : rest.head? ≠ some 0x22) :
    ¬ ((quote s ++ rest).getD 1 0 = 0x22 ∧ (quote s ++ rest).getD 2 0 = 0x22) := by
  rw [quote_append]
  rintro ⟨h1, h2⟩
  by_cases hs : s = []
  · subst hs
    cases rest with
    | nil => cases h2
    | cons b rest =>
      have hb : b = 0x22 := h2
      exact hrest (hb ▸ rfl)
  · refine escaped_head hs (0x22 :: rest) ?_
    obtain ⟨b, p, hp⟩ := List.exists_cons_of_ne_nil (show s.flatMap escapeByte ++ 0x22 :: rest ≠ [] by simp)
    rw [hp] at h1 ⊢
    have hb : b = 0x22 := h1
    exact hb ▸ rfl

/-- A quoted string is one token. -/
theorem scanString_quote (s : Bytes) {rest : Bytes} (hrest : rest.head? ≠ some 0x22) (dotisspecial : Bool) :
    scanString (quote s ++ rest) dotisspecial = .ok (quote s).length := by
  have hsingle : ¬ (ascii "'''").isPrefixOf (quote s ++ rest) = true := by
    rw [quote_append]
    exact fun h => absurd (List.cons_prefix_cons.mp (List.isPrefixOf_iff_prefix.mp h)).1 (by decide)
  have htriple : ¬ (ascii "\"\"\"").isPrefixOf (quote s ++ rest) = true := by
    intro h
    obtain ⟨p, hp⟩ := List.isPrefixOf_iff_prefix.mp h
    have hthree : ascii "\"\"\"" = [0x22, 0x22, 0x22] := rfl
    refine quote_single s rest hrest ?_
    rw [← hp, hthree]
    exact ⟨rfl, rfl⟩
  have hhead : (quote s ++ rest).head? = some 0x22 := rfl
  have htail : (quote s ++ rest).tail = s.flatMap escapeByte ++ 0x22 :: rest := by rw [quote_append, List.tail_cons]
  rw [scanString, if_neg hsingle, if_neg htriple, hhead, if_neg (by decide), if_pos rfl, htail, basicLoop_escaped, ok_bind,
    quote_length]
  rfl

theorem normBasicStr_escaped {s : Bytes} (hs : Grouped s) (isKey : Bool) : normBasicStr (s.flatMap escapeByte) false isKey = .ok s :=
  normBasicLoop_escaped hs isKey le_rfl []

/-- A quoted string is read as it was. -/
theorem tomlValueString_quote {s : Bytes} (hs : Grouped s) : tomlValueString (quote s) = some s := by
  have hsingle := quote_single s [] (by simp)
  have hlen := quote_length s
  have hlast : (quote s).drop ((quote s).length - 1) = [0x22] := by
    have hpos : (quote s).length - 1 = (0x22 :: s.flatMap escapeByte).length := by
      rw [hlen, List.length_cons]
      rfl
    rw [hpos, quote, ← List.cons_append]
    exact List.drop_left
  have hbody : ((quote s).take ((quote s).length - 1)).drop 1 = s.flatMap escapeByte := by
    have hpos : (quote s).length - 1 = (0x22 :: s.flatMap escapeByte).length := by
      rw [hlen, List.length_cons]
      rfl
    rw [hpos, quote, ← List.cons_append, List.take_left]
    rfl
  have hhead : (quote s).head? = some 0x22 := rfl
  rw [List.append_nil] at hsingle
  rw [tomlValueString, hhead]
  dsimp only
  rw [if_neg (fun h => h.2 rfl), if_neg hsingle, if_pos ⟨by omega, hlast⟩, hbody, if_neg (by decide), normBasicStr_escaped hs]
  rfl

/-- The values of strings are whole groups of bytes, and any of them. -/
theorem string_values_iff {s : Bytes} : (∃ src, tomlValueString src = some s) ↔ Grouped s :=
  ⟨fun ⟨_, h⟩ => tomlValueString_grouped h, fun hs => ⟨quote s, tomlValueString_quote hs⟩⟩

/-- What is wrong with a key is told with its line. -/
theorem normalizeKey_meets {text : Bytes} {strtok : Token} (h : strtok.In text) :
    Meets (Stop.Names text) (fun _ => True) (normalizeKey strtok) := by
  rw [normalizeKey]
  dsimp only
  split
  · split
    · trivial
    · exact h.stops _
  · split
    · trivial
    · exact h.stops (ascii "bad key")

end Yagips.Toml
