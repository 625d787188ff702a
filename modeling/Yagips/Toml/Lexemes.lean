import Yagips.Lib.Message
import Yagips.Toml.Documents
import Yagips.Toml.Endings

/-!
# Lexemes of documents

A key, a number, a string or a byte that was written is found again as one token, whatever stands behind it
in a document, and a key is read as it was.
-/
namespace Yagips.Toml

open Yagips.Lib

/-- Nothing stops the parser. -/
def Never (_ : Stop) : Prop := False

/-- A token is a text with another behind it. -/
structure Token.Has (typ : TokenType) (lexeme rest : Bytes) (tok : Token) : Prop where
  typ : tok.tok = typ
  ptr : tok.ptr = lexeme ++ rest
  len : tok.len = lexeme.length
  eof : tok.eof = false

/-- A text is found as one token, whatever blanks there are before it. -/
def Lexeme (dotisspecial : Bool) (typ : TokenType) (lexeme rest : Bytes) : Prop :=
  ∀ lineno, Meets Never (Token.Has typ lexeme rest) (tokenAt dotisspecial lineno (skipBlank false (lexeme ++ rest)))

section Lexemes

variable {typ typ' : TokenType} {lexeme lexeme' rest p : Bytes} {tok : Token} {dotisspecial : Bool}

theorem Token.Has.next (h : tok.Has typ lexeme (lexeme' ++ rest)) (hnext : Lexeme dotisspecial typ' lexeme' rest) :
    Meets Never (Token.Has typ' lexeme' rest) (nextToken tok dotisspecial) := by
  rw [nextToken, h.ptr, h.len, List.drop_left]
  exact hnext _

/-- Behind a blank. -/
theorem Token.Has.next_blank (h : tok.Has typ lexeme (ascii " " ++ (lexeme' ++ rest))) (hnext : Lexeme dotisspecial typ' lexeme' rest) :
    Meets Never (Token.Has typ' lexeme' rest) (nextToken tok dotisspecial) := by
  have hblank : skipBlank false (ascii " " ++ (lexeme' ++ rest)) = skipBlank false (lexeme' ++ rest) := rfl
  rw [nextToken, h.ptr, h.len, List.drop_left, hblank]
  exact hnext _

theorem Token.Has.text (h : tok.Has typ lexeme rest) : tok.text = lexeme := by
  rw [Token.text, h.ptr, h.len, List.take_left]

theorem Token.Has.eat (h : tok.Has typ lexeme rest) (dotisspecial : Bool) : eatToken tok typ dotisspecial = nextToken tok dotisspecial := by
  rw [eatToken, if_neg (fun hne => hne h.typ)]

end Lexemes

/-- A byte that can stand behind a value, and what it is a token of. -/
structure Ends (c : UInt8) (typ : TokenType) : Prop where
  byte : ∀ dotisspecial, byteToken dotisspecial c = some typ
  blank : ∀ p, skipBlank false (c :: p) = c :: p
  literal : ∀ dotisspecial, isLiteral dotisspecial c = false
  quote : c ≠ 0x22
  digit : isDigit c = false
  date : c ≠ 0x2d
  time : c ≠ 0x3a

theorem ends_comma : Ends 0x2c .comma :=
  ⟨fun b => by cases b <;> rfl, fun _ => rfl, fun b => by cases b <;> decide, by decide, by decide, by decide, by decide⟩

theorem ends_rbracket : Ends 0x5d .rbracket :=
  ⟨fun b => by cases b <;> rfl, fun _ => rfl, fun b => by cases b <;> decide, by decide, by decide, by decide, by decide⟩

theorem ends_rbrace : Ends 0x7d .rbrace :=
  ⟨fun b => by cases b <;> rfl, fun _ => rfl, fun b => by cases b <;> decide, by decide, by decide, by decide, by decide⟩

theorem ends_newline : Ends 0x0a .newline :=
  ⟨fun b => by cases b <;> rfl, fun _ => rfl, fun b => by cases b <;> decide, by decide, by decide, by decide, by decide⟩

theorem byte_lexeme {c : UInt8} {typ : TokenType} {dotisspecial : Bool} (hbyte : byteToken dotisspecial c = some typ)
    (hblank : ∀ p, skipBlank false (c :: p) = c :: p) (rest : Bytes) : Lexeme dotisspecial typ [c] rest := by
  intro lineno
  rw [List.singleton_append, hblank, tokenAt, hbyte]
  exact ⟨rfl, rfl, rfl, rfl⟩

theorem Ends.lexeme {c : UInt8} {typ : TokenType} (h : Ends c typ) (dotisspecial : Bool) (rest : Bytes) :
    Lexeme dotisspecial typ [c] rest :=
  byte_lexeme (h.byte dotisspecial) h.blank rest

/-- What is scanned as a string is a token. -/
theorem string_lexeme {c : UInt8} {s rest : Bytes} {dotisspecial : Bool} (hbyte : byteToken dotisspecial c = none)
    (hblank : ∀ p, skipBlank false (c :: p) = c :: p)
    (hscan : scanString (c :: s ++ rest) dotisspecial = .ok (c :: s).length) : Lexeme dotisspecial .string (c :: s) rest := by
  intro lineno
  rw [List.cons_append, hblank, tokenAt, hbyte]
  dsimp only
  rw [← List.cons_append, hscan]
  exact ⟨rfl, rfl, rfl, rfl⟩

theorem quote_lexeme (s : Bytes) {c : UInt8} (hc : c ≠ 0x22) (rest : Bytes) (dotisspecial : Bool) :
    Lexeme dotisspecial .string (quote s) (c :: rest) :=
  string_lexeme (by cases dotisspecial <;> rfl) (fun _ => rfl)
    (scanString_quote s (by simpa using hc) dotisspecial)

/-- Where no date and no string starts, a literal is scanned. -/
theorem scanString_literal {c : UInt8} {p : Bytes} {dotisspecial : Bool} (hsingle : c ≠ 0x27) (hdouble : c ≠ 0x22)
    (hdate : scanDate (c :: p) = false) (htime : scanTime (c :: p) = false) :
    scanString (c :: p) dotisspecial = .ok ((c :: p).takeWhile (isLiteral dotisspecial)).length := by
  have hprefix : ∀ {q : UInt8}, c ≠ q → ¬ [q, q, q].isPrefixOf (c :: p) = true := by
    intro q hne h
    exact hne (List.cons_prefix_cons.mp (List.isPrefixOf_iff_prefix.mp h)).1.symm
  have htriple : ¬ (ascii "'''").isPrefixOf (c :: p) = true := hprefix hsingle
  have htriple' : ¬ (ascii "\"\"\"").isPrefixOf (c :: p) = true := hprefix hdouble
  rw [scanString, if_neg htriple, if_neg htriple', List.head?_cons, if_neg (fun h => hsingle (Option.some.inj h)),
    if_neg (fun h => hdouble (Option.some.inj h)), if_neg (by simp [hdate, htime])]

theorem takeWhile_literal {s rest : Bytes} {c : UInt8} {dotisspecial : Bool} (hs : ∀ b ∈ s, isLiteral dotisspecial b = true)
    (hc : isLiteral dotisspecial c = false) : ((s ++ c :: rest).takeWhile (isLiteral dotisspecial)).length = s.length := by
  rw [List.takeWhile_append_of_pos hs, List.takeWhile_cons_of_neg (by simp [hc]), List.append_nil]

theorem scanDigits_first {c : UInt8} (hc : isDigit c = false) (p : Bytes) (n : Nat) : scanDigits (c :: p) (n + 1) = false := by
  rw [scanDigits, List.take_succ_cons, List.all_cons, hc]
  simp

theorem isWord_spec {s : Bytes} (h : isWord s = true) :
    ∃ c p, s = c :: p ∧ isDigit c = false ∧ ∀ b ∈ c :: p, isBare b = true := by
  cases s with
  | nil => cases h
  | cons c p =>
    rw [isWord] at h
    simp only [Bool.and_eq_true, decide_eq_true_eq, Bool.decide_and] at h
    refine ⟨c, p, rfl, by simpa using h.1, ?_⟩
    simpa [List.all_eq_true] using h.2

/-- What the bytes of a bare key are. -/
theorem isBare_spec {c : UInt8} (hc : isBare c = true) :
    c ≠ 0x22 ∧ c ≠ 0x27 ∧ (∀ b, byteToken b c = none) ∧ (∀ b, isLiteral b c = true) ∧ c ≠ 0x23 ∧ c ≠ 0x0d ∧ c ≠ 0x20 ∧ c ≠ 0x09 := by
  revert hc
  revert c
  apply forall_byte
  decide +kernel

theorem skipBlank_start {c : UInt8} (hc : c ≠ 0x23 ∧ c ≠ 0x0d ∧ c ≠ 0x20 ∧ c ≠ 0x09) (p : Bytes) : skipBlank false (c :: p) = c :: p := by
  rw [skipBlank, if_neg hc.1, if_neg]
  rintro (h | h | h)
  · exact hc.2.1 h
  · exact hc.2.2.1 h
  · exact hc.2.2.2 h

theorem word_lexeme {s : Bytes} (hs : isWord s = true) {c : UInt8} {dotisspecial : Bool} (hc : isLiteral dotisspecial c = false)
    (rest : Bytes) :
    Lexeme dotisspecial .string s (c :: rest) := by
  obtain ⟨x, p, rfl, hdigit, hbare⟩ := isWord_spec hs
  obtain ⟨hdouble, hsingle, hbyte, -, hblank⟩ := isBare_spec (hbare x List.mem_cons_self)
  have hliteral : ∀ b ∈ x :: p, isLiteral dotisspecial b = true := fun b hb => (isBare_spec (hbare b hb)).2.2.2.1 dotisspecial
  refine string_lexeme (hbyte dotisspecial) (skipBlank_start hblank) ?_
  rw [List.cons_append, scanString_literal hsingle hdouble, ← List.cons_append, takeWhile_literal hliteral hc]
  · rw [scanDate, scanDigits_first hdigit]
    simp
  · rw [scanTime, scanDigits_first hdigit]
    simp

theorem key_lexeme (key : Text) {c : UInt8} (hc : isLiteral true c = false) (hquote : c ≠ 0x22) (rest : Bytes) :
    Lexeme true .string key.printKey (c :: rest) := by
  rw [Text.printKey]
  split
  case isTrue hword => exact word_lexeme hword hc rest
  case isFalse => exact quote_lexeme key.val hquote rest true

/-- Behind digits stands what is behind all of them, or another digit. -/
theorem scanDigits_then {s rest : Bytes} {c x : UInt8} {n : Nat} (hs : ∀ b ∈ s, isDigit b = true) (hc : isDigit c = false)
    (hx : isDigit x = false) (hne : c ≠ x) (h : scanDigits (s ++ c :: rest) n = true) : (s ++ c :: rest).getD n 0 ≠ x := by
  rw [scanDigits, decide_eq_true_eq] at h
  have hle : n ≤ s.length := by
    by_contra hlt
    obtain ⟨k, hk⟩ := Nat.exists_eq_add_of_lt (Nat.not_le.mp hlt)
    have hmem : c ∈ (s ++ c :: rest).take n := by
      rw [List.take_append, show n - s.length = k + 1 by omega, List.take_succ_cons]
      exact List.mem_append_right _ List.mem_cons_self
    rw [List.all_eq_true.mp h.2 c hmem] at hc
    cases hc
  rw [List.getD_eq_getElem?_getD]
  rcases Nat.lt_or_eq_of_le hle with hlt | rfl
  · rw [List.getElem?_append_left hlt, List.getElem?_eq_getElem hlt, Option.getD_some]
    intro heq
    rw [← heq, hs _ (List.getElem_mem hlt)] at hx
    cases hx
  · rw [List.getElem?_append_right (Nat.le_refl _), Nat.sub_self]
    exact hne

theorem number_text (i : Int64) :
    ∃ sign digits, ascii (toString i.toInt) = sign ++ digits ∧ (sign = [] ∨ sign = [0x2d]) ∧ digits ≠ [] ∧
      ∀ b ∈ digits, isDigit b = true := by
  have hdigits : ∀ n : Nat, ascii n.repr ≠ [] ∧ ∀ b ∈ ascii n.repr, isDigit b = true := by
    intro n
    refine ⟨?_, fun b hb => ?_⟩
    · rw [ascii, Nat.toList_repr]
      exact fun hnil => Nat.toDigits_ne_nil (List.map_eq_nil_iff.mp hnil)
    · rw [isDigit, decide_eq_true_eq]
      exact Message.repr_bytes hb
  cases i.toInt with
  | ofNat n => exact ⟨[], ascii n.repr, rfl, .inl rfl, hdigits n⟩
  | negSucc n =>
    refine ⟨[0x2d], ascii (n + 1).repr, ?_, .inr rfl, hdigits (n + 1)⟩
    change ascii ("-" ++ (n + 1).repr) = _
    rw [ascii, String.toList_append, List.map_append]
    rfl

theorem isDigit_spec {c : UInt8} (hc : isDigit c = true) :
    c ≠ 0x22 ∧ c ≠ 0x27 ∧ (∀ b, byteToken b c = none) ∧ (∀ b, isLiteral b c = true) ∧ c ≠ 0x23 ∧ c ≠ 0x0d ∧ c ≠ 0x20 ∧ c ≠ 0x09 := by
  revert hc
  revert c
  apply forall_byte
  decide +kernel

theorem number_lexeme (i : Int64) {c : UInt8} {typ : TokenType} (hc : Ends c typ) (rest : Bytes) :
    Lexeme false .string (ascii (toString i.toInt)) (c :: rest) := by
  obtain ⟨sign, digits, htext, hsign, hne, hdigits⟩ := number_text i
  obtain ⟨x, p, rfl⟩ := List.exists_cons_of_ne_nil hne
  have hliteral : ∀ b ∈ x :: p, isLiteral false b = true := fun b hb => (isDigit_spec (hdigits b hb)).2.2.2.1 false
  rw [htext]
  rcases hsign with rfl | rfl
  · obtain ⟨hdouble, hsingle, hbyte, -, hblank⟩ := isDigit_spec (hdigits x List.mem_cons_self)
    refine string_lexeme (hbyte false) (skipBlank_start hblank) ?_
    rw [List.cons_append, scanString_literal hsingle hdouble, ← List.cons_append, takeWhile_literal hliteral (hc.literal false)]
    · rw [scanDate, ← List.cons_append]
      refine decide_eq_false fun h => ?_
      exact scanDigits_then hdigits hc.digit (by decide) hc.date h.1 h.2.1
    · rw [scanTime, ← List.cons_append]
      refine decide_eq_false fun h => ?_
      exact scanDigits_then hdigits hc.digit (by decide) hc.time h.1 h.2.1
  · have hminus : ∀ b ∈ 0x2d :: x :: p, isLiteral false b = true := List.forall_mem_cons.mpr ⟨by decide, hliteral⟩
    rw [List.singleton_append]
    refine string_lexeme (by decide) (fun _ => rfl) ?_
    rw [List.cons_append, scanString_literal (by decide) (by decide), ← List.cons_append, takeWhile_literal hminus (hc.literal false)]
    · rw [scanDate, scanDigits_first (by decide)]
      simp
    · rw [scanTime, scanDigits_first (by decide)]
      simp

theorem scalar_lexeme (s : Scalar) {c : UInt8} {typ : TokenType} (hc : Ends c typ) (rest : Bytes) :
    Lexeme false .string s.print (c :: rest) := by
  cases s with
  | string s => exact quote_lexeme s.val hc.quote rest false
  | int i => exact number_lexeme i hc rest
  | bool b =>
    cases b with
    | true => exact word_lexeme (by decide) (hc.literal false) rest
    | false => exact word_lexeme (by decide) (hc.literal false) rest

/-! ## Keys -/

/-- A key that was written is the key again. -/
theorem normalizeKey_printKey {key : Text} {c : UInt8} {rest : Bytes} {tok : Token} (h : tok.Has .string key.printKey (c :: rest))
    (hc : c ≠ 0x22) : normalizeKey tok = .ok key.val := by
  have htext : tok.ptr.take tok.len = key.printKey := h.text
  rw [normalizeKey, htext, h.ptr]
  dsimp only
  rw [Text.printKey]
  split
  case isTrue hword =>
    obtain ⟨x, p, hkey, -, hbare⟩ := isWord_spec hword
    obtain ⟨hdouble, hsingle, -⟩ := isBare_spec (hbare x List.mem_cons_self)
    rw [hkey]
    have hquote : ¬ ((x :: p ++ c :: rest).getD 0 0 = 0x27 ∨ (x :: p ++ c :: rest).getD 0 0 = 0x22) := by
      rintro (h | h)
      · exact hsingle h
      · exact hdouble h
    rw [if_neg hquote, if_pos (List.all_eq_true.mpr hbare)]
  case isFalse =>
    have hsingle := quote_single key.val (c :: rest) (by simpa using hc)
    have hfirst : (quote key.val ++ c :: rest).getD 0 0 = 0x22 := rfl
    have hbody : ((quote key.val).take ((quote key.val).length - 1)).drop 1 = key.val.flatMap escapeByte := by
      have hpos : (quote key.val).length - 1 = (0x22 :: key.val.flatMap escapeByte).length := by
        rw [quote_length, List.length_cons]
        rfl
      rw [hpos, quote, ← List.cons_append, List.take_left]
      rfl
    rw [hfirst, if_pos (.inr rfl), decide_eq_false hsingle]
    simp only [Bool.false_eq_true, if_false]
    rw [hbody, if_neg (by decide), normBasicStr_escaped key.property]

end Yagips.Toml
