import Mathlib.Data.List.DropRight
import Yagips.Lib.Bytes
import Yagips.Lib.Outcome

/-!
# Tokens of a configuration file

`next_token` finds the next token of a text, and says in which line it starts. Where a string does not end
as it should, it says so. A pointer into the text is what follows there; behind the text stands a NUL.
-/
namespace Yagips.Toml

open Yagips.Lib

/-- Why the parser stops: a message about a line, an internal error (whose message names a place in the
source), or a pointer to nothing that is followed. The last is for a loop that is not through in the turns
it is given. -/
inductive Stop where
  | message (lineno : Nat) (msg : Bytes)
  | internal
  | null
  | turns
  deriving DecidableEq

def eSyntax {α : Type} (lineno : Nat) (msg : Bytes) : Except Stop α := .error (.message lineno msg)

def eBadkey {α : Type} (lineno : Nat) : Except Stop α := .error (.message lineno (ascii "bad key"))

def eKeyexists {α : Type} (lineno : Nat) : Except Stop α := .error (.message lineno (ascii "key exists"))

def eForbid {α : Type} (lineno : Nat) (msg : Bytes) : Except Stop α := .error (.message lineno msg)

inductive TokenType where
  | dot
  | comma
  | equal
  | lbrace
  | rbrace
  | newline
  | lbracket
  | rbracket
  | string
  deriving DecidableEq

structure Token where
  tok : TokenType
  lineno : Nat
  ptr : Bytes
  len : Nat
  eof : Bool := false
  deriving DecidableEq

/-! ## Strings -/

/-- Whether a backslash was just read, and how many hex digits are to come. -/
structure Escape where
  escape : Bool := false
  hexreq : Nat := 0
  deriving DecidableEq

def isHexChar (c : UInt8) : Bool := c ∈ ascii "0123456789ABCDEFabcdef"

/-- A turn of the loops over escapes, at the text `c :: p`. Only in a string over lines, a backslash may
end a line. -/
def escapeStep (multiline : Bool) (e : Escape) (c : UInt8) (p : Bytes) : Except Bytes Escape :=
  if e.escape then
    if c ∈ ascii "btnfr\"\\" then .ok { e with escape := false }
    else if c = 0x75 then .ok { escape := false, hexreq := 4 }
    else if c = 0x55 then .ok { escape := false, hexreq := 8 }
    else if multiline ∧ ((c :: p).dropWhile (· ∈ ascii " \t\r")).head? = some 0x0a then .ok { e with escape := false }
    else .error (ascii "bad escape char")
  else if e.hexreq ≠ 0 then
    if isHexChar c then .ok { e with hexreq := e.hexreq - 1 } else .error (ascii "expect hex char")
  else .ok { e with escape := c = 0x5c }

/-- The loop over `n` bytes of a string over lines. -/
def escapeLoop : Nat → Escape → Bytes → Except Bytes Escape
  | n + 1, e, c :: p => do escapeLoop n (← escapeStep true e c p) p
  | _, e, _ => .ok e

/-- The loop over a basic string: how far its closing quote is. -/
def basicLoop : Escape → Bytes → Except Bytes Nat
  | _, [] => .error (ascii "unterminated quote")
  | e, c :: p =>
    if e = {} ∧ c = 0x0a then .error (ascii "unterminated quote")
    else if e = {} ∧ c = 0x22 then .ok 0
    else do
      let n ← basicLoop (← escapeStep false e c p) p
      return n + 1

/-- The loop around `strstr`: how far the first three quotes are. In a basic string they do not count
behind a backslash; `before` is the byte before the text. -/
def tripleLoop (quote : UInt8) (basic : Bool) : UInt8 → Bytes → Option Nat
  | _, [] => none
  | before, c :: p =>
    if [quote, quote, quote].isPrefixOf (c :: p) ∧ ¬ (basic ∧ before = 0x5c) then some 0
    else (tripleLoop quote basic c p).map (· + 1)

/-- How many quotes more follow the first three that end a string. -/
def moreQuotes (quote : UInt8) (p : Bytes) (n : Nat) : Nat := ((p.drop (n + 3)).takeWhile (· = quote)).length

/-! ## Dates -/

def isDigit (c : UInt8) : Bool := 0x30 ≤ c ∧ c ≤ 0x39

/-- Whether `n` digits are there; their value is not asked for. -/
def scanDigits (p : Bytes) (n : Nat) : Bool := (p.take n).length = n ∧ (p.take n).all isDigit

def scanDate (p : Bytes) : Bool :=
  scanDigits p 4 ∧ p.getD 4 0 = 0x2d ∧ scanDigits (p.drop 5) 2 ∧ p.getD 7 0 = 0x2d ∧ scanDigits (p.drop 8) 2

def scanTime (p : Bytes) : Bool :=
  scanDigits p 2 ∧ p.getD 2 0 = 0x3a ∧ scanDigits (p.drop 3) 2 ∧ p.getD 5 0 = 0x3a ∧ scanDigits (p.drop 6) 2

def isAlpha (c : UInt8) : Bool := 0x41 ≤ c ∧ c ≤ 0x5a ∨ 0x61 ≤ c ∧ c ≤ 0x7a

/-- What the loop over a literal goes past. -/
def isLiteral (dotisspecial : Bool) (c : UInt8) : Bool :=
  ¬ (c = 0x2e ∧ dotisspecial) ∧ (isAlpha c ∨ c ∈ ascii "0123456789+-_.")

/-! ## Tokens -/

/-- How long the string at a pointer is. -/
def scanString (p : Bytes) (dotisspecial : Bool) : Except Bytes Nat :=
  if (ascii "'''").isPrefixOf p then
    match tripleLoop 0x27 false 0x27 (p.drop 3) with
    | none => .error (ascii "unterminated triple-s-quote")
    | some q =>
      let i := moreQuotes 0x27 (p.drop 3) q
      if i ≥ 3 then .error (ascii "too many ''' in triple-s-quote") else .ok (3 + q + i + 3)
  else if (ascii "\"\"\"").isPrefixOf p then
    match tripleLoop 0x22 true 0x22 (p.drop 3) with
    | none => .error (ascii "unterminated triple-d-quote")
    | some q =>
      let i := moreQuotes 0x22 (p.drop 3) q
      if i ≥ 3 then .error (ascii "too many \"\"\" in triple-d-quote")
      else do
        let e ← escapeLoop (q + i) {} (p.drop 3)
        if e.escape then .error (ascii "expect an escape char")
        else if e.hexreq ≠ 0 then .error (ascii "expected more hex char")
        else .ok (3 + q + i + 3)
  else if p.head? = some 0x27 then
    let body := p.tail.takeWhile fun c => c ≠ 0x0a ∧ c ≠ 0x27
    if (p.tail.drop body.length).head? = some 0x27 then .ok (body.length + 2) else .error (ascii "unterminated s-quote")
  else if p.head? = some 0x22 then do
    let n ← basicLoop {} p.tail
    return n + 2
  else if scanDate p ∨ scanTime p then
    .ok ((p.takeWhile (· ∈ ascii "0123456789.:+-Tt Zz")).rdropWhile (· = 0x20)).length
  else .ok (p.takeWhile (isLiteral dotisspecial)).length

/-- Past blanks and comments; a comment ends before the end of its line. -/
def skipBlank : Bool → Bytes → Bytes
  | _, [] => []
  | true, c :: p => if c = 0x0a then c :: p else skipBlank true p
  | false, c :: p =>
    if c = 0x23 then skipBlank true p
    else if c = 0x0d ∨ c = 0x20 ∨ c = 0x09 then skipBlank false p
    else c :: p

/-- What a byte is a token of by itself. -/
def byteToken (dotisspecial : Bool) (c : UInt8) : Option TokenType :=
  if dotisspecial ∧ c = 0x2e then some .dot
  else if c = 0x2c then some .comma
  else if c = 0x3d then some .equal
  else if c = 0x7b then some .lbrace
  else if c = 0x7d then some .rbrace
  else if c = 0x5b then some .lbracket
  else if c = 0x5d then some .rbracket
  else if c = 0x0a then some .newline
  else none

/-- The token at the start of a text that is not blank. -/
def tokenAt (dotisspecial : Bool) (lineno : Nat) : Bytes → Except Stop Token
  | [] => .ok { tok := .newline, lineno, ptr := [], len := 0, eof := true }
  | c :: p =>
    match byteToken dotisspecial c with
    | some tok => .ok { tok, lineno, ptr := c :: p, len := 1 }
    | none =>
      match scanString (c :: p) dotisspecial with
      | .ok len => .ok { tok := .string, lineno, ptr := c :: p, len }
      | .error msg => eSyntax lineno msg

def nextToken (t : Token) (dotisspecial : Bool) : Except Stop Token :=
  tokenAt dotisspecial (t.lineno + (t.ptr.take t.len).count 0x0a) (skipBlank false (t.ptr.drop t.len))

/-! ## Where tokens are -/

theorem tripleLoop_le {quote before : UInt8} {basic : Bool} {p : Bytes} {q : Nat}
    (h : tripleLoop quote basic before p = some q) : q + 3 ≤ p.length := by
  induction p generalizing before q with
  | nil => cases h
  | cons c p ih =>
    rw [tripleLoop] at h
    split at h
    case isTrue hquotes =>
      cases h
      exact (List.isPrefixOf_iff_prefix.mp hquotes.1).length_le
    case isFalse =>
      obtain ⟨q', hq', rfl⟩ := Option.map_eq_some_iff.mp h
      have hle := ih hq'
      rw [List.length_cons]
      omega

theorem moreQuotes_le {quote : UInt8} {p : Bytes} {q : Nat} (h : q + 3 ≤ p.length) :
    q + 3 + moreQuotes quote p q ≤ p.length := by
  have hle := (List.takeWhile_prefix (p := (· = quote)) (l := p.drop (q + 3))).length_le
  rw [List.length_drop] at hle
  rw [moreQuotes]
  omega

theorem basicLoop_lt {e : Escape} {p : Bytes} {n : Nat} (h : basicLoop e p = .ok n) : n < p.length := by
  induction p generalizing e n with
  | nil => cases h
  | cons c p ih =>
    rw [basicLoop] at h
    split at h
    · cases h
    · split at h
      · cases h
        exact Nat.zero_lt_succ _
      · obtain ⟨e', -, h⟩ := bind_eq_ok.mp h
        obtain ⟨n', hn', heq⟩ := bind_eq_ok.mp h
        cases heq
        exact Nat.succ_lt_succ (ih hn')

section Quotes

variable {p : Bytes}

theorem tripleString_le {quote before : UInt8} {basic : Bool} {q : Nat} (h3 : 3 ≤ p.length)
    (hq : tripleLoop quote basic before (p.drop 3) = some q) : 3 + q + moreQuotes quote (p.drop 3) q + 3 ≤ p.length := by
  have hle : q + 3 + moreQuotes quote (p.drop 3) q ≤ (p.drop 3).length := moreQuotes_le (tripleLoop_le hq)
  rw [List.length_drop] at hle
  omega

theorem singleBody_lt (hend : (p.drop (p.takeWhile fun c => c ≠ 0x0a ∧ c ≠ 0x27).length).head? = some 0x27) :
    (p.takeWhile fun c => c ≠ 0x0a ∧ c ≠ 0x27).length < p.length := by
  by_contra hge
  rw [List.drop_of_length_le (Nat.not_lt.mp hge)] at hend
  cases hend

theorem length_tail_of_head {c : UInt8} (hc : p.head? = some c) : p.tail.length + 1 = p.length := by
  obtain ⟨rest, rfl⟩ := List.head?_eq_some_iff.mp hc
  rfl

end Quotes

theorem scanString_le {p : Bytes} {dotisspecial : Bool} {n : Nat} (h : scanString p dotisspecial = .ok n) :
    n ≤ p.length := by
  rw [scanString] at h
  split at h
  case isTrue hquotes =>
    have h3 := (List.isPrefixOf_iff_prefix.mp hquotes).length_le
    split at h
    case h_1 => cases h
    case h_2 q hq =>
      dsimp only at h
      split at h
      · cases h
      · cases h
        exact tripleString_le h3 hq
  case isFalse =>
    split at h
    case isTrue hquotes =>
      have h3 := (List.isPrefixOf_iff_prefix.mp hquotes).length_le
      split at h
      case h_1 => cases h
      case h_2 q hq =>
        dsimp only at h
        split at h
        · cases h
        · obtain ⟨e, -, h⟩ := bind_eq_ok.mp h
          split at h
          · cases h
          · split at h
            · cases h
            · cases h
              exact tripleString_le h3 hq
    case isFalse =>
      split at h
      case isTrue hquote =>
        have htail := length_tail_of_head hquote
        dsimp only at h
        split at h
        case isTrue hend =>
          cases h
          have hlt := singleBody_lt hend
          omega
        case isFalse => cases h
      case isFalse =>
        split at h
        case isTrue hquote =>
          have htail := length_tail_of_head hquote
          obtain ⟨n', hn', heq⟩ := bind_eq_ok.mp h
          cases heq
          have hlt := basicLoop_lt hn'
          omega
        case isFalse =>
          split at h
          · cases h
            exact (List.rdropWhile_prefix _ _).length_le.trans (List.takeWhile_prefix _).length_le
          · cases h
            exact (List.takeWhile_prefix _).length_le

/-- What blanks and comments are skipped has no end of line. -/
theorem skipBlank_spec (comment : Bool) (p : Bytes) : ∃ blank, p = blank ++ skipBlank comment p ∧ blank.count 0x0a = 0 := by
  induction p generalizing comment with
  | nil => exact ⟨[], by cases comment <;> rfl, rfl⟩
  | cons c p ih =>
    have hskip : ∀ comment, c ≠ 0x0a → ∃ blank, c :: p = blank ++ skipBlank comment p ∧ blank.count 0x0a = 0 := by
      intro comment hc
      obtain ⟨blank, hblank, hcount⟩ := ih comment
      exact ⟨c :: blank, congrArg (c :: ·) hblank, (List.count_cons_of_ne hc).trans hcount⟩
    cases comment with
    | true =>
      rw [skipBlank]
      split
      · exact ⟨[], rfl, rfl⟩
      · exact hskip true ‹_›
    | false =>
      rw [skipBlank]
      split
      case isTrue hc => exact hskip true (hc ▸ by decide)
      case isFalse =>
        split
        case isTrue hc =>
          rcases hc with rfl | rfl | rfl
          · exact hskip false (by decide)
          · exact hskip false (by decide)
          · exact hskip false (by decide)
        case isFalse => exact ⟨[], rfl, rfl⟩

/-- A token stands in a text, in the line it says. -/
structure Token.In (text : Bytes) (t : Token) : Prop where
  place : ∃ before, text = before ++ t.ptr ∧ t.lineno = 1 + before.count 0x0a
  len_le : t.len ≤ t.ptr.length

/-- A message names a line of the text; what else stops the parser is an internal error. -/
def Stop.Names (text : Bytes) : Stop → Prop
  | .message lineno _ => 1 ≤ lineno ∧ lineno ≤ 1 + text.count 0x0a
  | .internal => True
  | .null => False
  | .turns => False

theorem Token.In.names {text : Bytes} {t : Token} (h : t.In text) (msg : Bytes) :
    Stop.Names text (.message t.lineno msg) := by
  obtain ⟨before, rfl, hlineno⟩ := h.place
  rw [Stop.Names, List.count_append]
  omega

theorem Token.In.stops {text : Bytes} {t : Token} (h : t.In text) {α : Type} {Q : α → Prop} (msg : Bytes) :
    Meets (Stop.Names text) Q (eSyntax t.lineno msg) := h.names msg

/-- A token that was found in a text, with at most `k` bytes from it on. -/
structure Token.Within (text : Bytes) (k : Nat) (t : Token) : Prop where
  here : t.In text
  kind : t.tok = .string ∨ t.len = 1 ∨ t.ptr = [] ∧ t.tok = .newline ∧ t.eof = true
  le : t.ptr.length ≤ k

/-- The next token is behind the one before. -/
theorem nextToken_within {text : Bytes} {t : Token} (h : t.In text) (dotisspecial : Bool) :
    Meets (Stop.Names text) (Token.Within text (t.ptr.length - t.len)) (nextToken t dotisspecial) := by
  obtain ⟨before, htext, hlineno⟩ := h.place
  obtain ⟨blank, hblank, hcount⟩ := skipBlank_spec false (t.ptr.drop t.len)
  have hlen := congrArg List.length hblank
  rw [List.length_drop, List.length_append] at hlen
  have hplace : text = (before ++ t.ptr.take t.len ++ blank) ++ skipBlank false (t.ptr.drop t.len) := by
    rw [List.append_assoc, ← hblank, List.append_assoc, List.take_append_drop, htext]
  have hline : t.lineno + (t.ptr.take t.len).count 0x0a = 1 + (before ++ t.ptr.take t.len ++ blank).count 0x0a := by
    rw [List.count_append, List.count_append, hcount, hlineno]
    omega
  rw [nextToken]
  generalize skipBlank false (t.ptr.drop t.len) = p at *
  rw [hline]
  have hle : p.length ≤ t.ptr.length - t.len := by omega
  cases p with
  | nil => exact ⟨⟨⟨_, hplace, rfl⟩, le_rfl⟩, .inr (.inr ⟨rfl, rfl, rfl⟩), hle⟩
  | cons c p =>
    rw [tokenAt]
    cases hbyte : byteToken dotisspecial c with
    | some tok => exact ⟨⟨⟨_, hplace, rfl⟩, by simp⟩, .inr (.inl rfl), hle⟩
    | none =>
      dsimp only
      cases hscan : scanString (c :: p) dotisspecial with
      | ok len => exact ⟨⟨⟨_, hplace, rfl⟩, scanString_le hscan⟩, .inl rfl, hle⟩
      | error msg =>
        have hin : Token.In text { tok := .string, lineno := _, ptr := c :: p, len := 0 } := ⟨⟨_, hplace, rfl⟩, Nat.zero_le _⟩
        exact hin.names msg

theorem Token.Within.next {text : Bytes} {k : Nat} {t : Token} (h : t.Within text k) (dotisspecial : Bool) :
    Meets (Stop.Names text) (Token.Within text k) (nextToken t dotisspecial) :=
  (nextToken_within h.here dotisspecial).post fun _ ht => ⟨ht.here, ht.kind, ht.le.trans ((Nat.sub_le _ _).trans h.le)⟩

/-- What is no string, and not the end of the text, is a byte. -/
theorem Token.Within.one {text : Bytes} {k : Nat} {t : Token} (h : t.Within text k) (hstring : t.tok ≠ .string)
    (hend : t.tok ≠ .newline ∨ t.eof = false) : t.len = 1 := by
  rcases h.kind with hs | hone | ⟨-, hline, heof⟩
  · exact absurd hs hstring
  · exact hone
  · rcases hend with hline' | heof'
    · exact absurd hline hline'
    · rw [heof] at heof'
      cases heof'

/-- Past a byte there is less. -/
theorem Token.Within.next_lt {text : Bytes} {k : Nat} {t : Token} (h : t.Within text k) (hone : t.len = 1) (dotisspecial : Bool) :
    Meets (Stop.Names text) (fun t' => 0 < k ∧ t'.Within text (k - 1)) (nextToken t dotisspecial) := by
  have hle := h.here.len_le
  have hk := h.le
  refine (nextToken_within h.here dotisspecial).post fun t' ht => ⟨by omega, ht.here, ht.kind, ?_⟩
  have hle' := ht.le
  omega

end Yagips.Toml
