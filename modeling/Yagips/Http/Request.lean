import Mathlib.Data.List.DropRight
import Yagips.Lib.Scan

/-!
# The request parser

`phr_parse_request` reads a request line and headers from the start of a buffer. It returns
the length of what it took, -1 where the bytes are no request and -2 where they end too
early. Tokens are offsets into the buffer.
-/
namespace Yagips.Http.Request

open Yagips.Lib
open Yagips.Lib.Scan

/-! ## Pieces -/

/-- The bytes that `token_char_map` marks. -/
def tokenCharMap (b : UInt8) : Bool :=
  b = 0x21 || (0x23 ≤ b && b ≤ 0x27) || b = 0x2a || b = 0x2b || b = 0x2d || b = 0x2e ||
    (0x30 ≤ b && b ≤ 0x39) || (0x41 ≤ b && b ≤ 0x5a) || (0x5e ≤ b && b ≤ 0x7a) ||
    b = 0x7c || b = 0x7e

/-- A line break, valued by its length, or else what `q` reads. -/
def lineEndOr {α : Type} (f : Nat → α) (q : Scan α) : Scan α
  | [] => .more
  | b :: rest =>
    if b = 0x0d then (expect 0x0a rest).map fun _ => f 2
    else if b = 0x0a then .done (f 1) rest
    else q (b :: rest)

def lineEnd : Scan Unit := lineEndOr (fun _ => ()) fail

/-- The empty line some clients leave before a request. -/
def skipEmptyLine : Scan Nat := lineEndOr id (Scan.pure 0)

/-- `parse_token`, which ends before its delimiter. -/
def parseToken (nextChar : UInt8) : Scan Bytes
  | [] => .more
  | b :: rest =>
    if b = nextChar then .done [] (b :: rest)
    else if tokenCharMap b then (parseToken nextChar rest).map (b :: ·)
    else .bad

/-- `ADVANCE_TOKEN`, which ends before a space. -/
def advanceToken : Scan Bytes
  | [] => .more
  | b :: rest =>
    if b = 0x20 then .done [] (b :: rest)
    else if b < 0x20 || b = 0x7f then .bad
    else (advanceToken rest).map (b :: ·)

/-- The bytes of a kind at the start, counted, and one behind them that is not. -/
def skipWhile (skipped : UInt8 → Bool) : Scan Nat
  | [] => .more
  | b :: rest => if skipped b then (skipWhile skipped rest).map (· + 1) else .done 0 (b :: rest)

/-- The spaces behind a token. The loop steps over the first unseen: the token ended at it. -/
def skipSpaces : Scan Nat := skipWhile (· = 0x20)

/-- `HTTP/1.` -/
def versionPrefix : Bytes := [0x48, 0x54, 0x54, 0x50, 0x2f, 0x31, 0x2e]

def parseInt : Scan Nat
  | [] => .more
  | b :: rest => if 0x30 ≤ b && b ≤ 0x39 then .done (b.toNat - 0x30) rest else .bad

def versionDigits : Scan Nat := literal versionPrefix >>= fun _ => parseInt

def parseHttpVersion : Scan Nat := fun s =>
  if s.length < 9 then .more else versionDigits s

/-! ## Headers -/

/-- A header without a name goes on with the value of the header before it. -/
structure Header where
  name : Option Bytes
  value : Bytes
  deriving DecidableEq, Repr

def isBlank (b : UInt8) : Bool := b = 0x20 || b = 0x09

def isControl (b : UInt8) : Bool := (b < 0x20 && b != 0x09) || b = 0x7f

/-- `get_token_to_eol`, past the line break. -/
def getTokenToEol : Scan Bytes
  | [] => .more
  | b :: rest =>
    if isControl b then (lineEnd (b :: rest)).map fun _ => []
    else (getTokenToEol rest).map (b :: ·)

def parseHeaderName : Scan (Option Bytes) := do
  let name ← parseToken 0x3a
  if name = [] then fail
  else do
    expect 0x3a
    let _ ← skipWhile isBlank
    Scan.pure (some name)

/-- The name of a header, which a line behind the first that starts with a blank lacks. -/
def headerName (first : Bool) : Scan (Option Bytes)
  | [] => .more
  | b :: rest => if !first && isBlank b then .done none (b :: rest) else parseHeaderName (b :: rest)

def parseHeader (first : Bool) : Scan Header := do
  let name ← headerName first
  let value ← getTokenToEol
  Scan.pure { name, value := value.rdropWhile isBlank }

/-- `parse_headers` with room for `room` more. -/
def parseHeaders : Nat → Bool → Scan (List Header)
  | 0, _ => lineEndOr (fun _ => []) fail
  | room + 1, first => lineEndOr (fun _ => []) do
    let header ← parseHeader first
    let headers ← parseHeaders room false
    Scan.pure (header :: headers)

/-! ## The request -/

/-- A piece of the buffer: where it starts and its bytes. -/
structure Text where
  offset : Nat
  bytes : Bytes
  deriving DecidableEq, Repr

def methodPart : Scan Text := do
  let blank ← skipEmptyLine
  let method ← parseToken 0x20
  Scan.pure ⟨blank, method⟩

def pathPart (method : Text) : Scan Text := do
  let gap ← skipSpaces
  let path ← advanceToken
  Scan.pure ⟨method.offset + method.bytes.length + gap, path⟩

def versionPart (method path : Text) : Scan Nat := do
  let _ ← skipSpaces
  if method.bytes = [] ∨ path.bytes = [] then fail
  else parseHttpVersion

structure Head where
  method : Text
  path : Text
  minorVersion : Nat
  headers : List Header
  deriving DecidableEq, Repr

/-- `parse_request` with the caller's 128 headers. -/
def parseRequest : Scan Head := do
  let method ← methodPart
  let path ← pathPart method
  let minorVersion ← versionPart method path
  lineEnd
  let headers ← parseHeaders 128 true
  Scan.pure { method, path, minorVersion, headers }

/-- `is_complete` from where it starts: two line breaks with nothing between. -/
def isCompleteFrom (retCnt : Nat) : Scan Unit
  | [] => .more
  | [0x0d] => .more
  | 0x0d :: 0x0a :: rest =>
    if retCnt + 1 = 2 then .done () rest else isCompleteFrom (retCnt + 1) rest
  | 0x0d :: _ :: _ => .bad
  | 0x0a :: rest => if retCnt + 1 = 2 then .done () rest else isCompleteFrom (retCnt + 1) rest
  | _ :: rest => isCompleteFrom 0 rest

def isComplete (lastLen : Nat) : Scan Unit := fun s =>
  isCompleteFrom 0 (if lastLen < 3 then s else s.drop (lastLen - 3))

/-- What `phr_parse_request` returns and leaves in its output variables: a null pointer or
-1 where it did not get so far. -/
structure Parsed where
  ret : Int
  method : Option Text
  path : Option Text
  minorVersion : Int
  headers : List Header
  deriving DecidableEq, Repr

/-- The output variables after a failure in `parse_request`. The headers it may have stored
are left out: no caller looks at them. -/
def stoppedAt (buf : Bytes) (ret : Int) : Parsed where
  ret := ret
  method := (methodPart buf).value
  path := ((methodPart >>= pathPart) buf).value
  minorVersion :=
    match ((do
      let method ← methodPart
      let path ← pathPart method
      versionPart method path : Scan Nat) buf).value with
    | some minorVersion => minorVersion
    | none => -1
  headers := []

def phrParseRequest (buf : Bytes) (lastLen : Nat) : Parsed :=
  match if lastLen = 0 then Scanned.done () [] else isComplete lastLen buf with
  | .bad => { ret := -1, method := none, path := none, minorVersion := -1, headers := [] }
  | .more => { ret := -2, method := none, path := none, minorVersion := -1, headers := [] }
  | .done _ _ =>
    match parseRequest buf with
    | .done head rest =>
      { ret := (buf.length - rest.length : Nat)
        method := some head.method
        path := some head.path
        minorVersion := head.minorVersion
        headers := head.headers }
    | .bad => stoppedAt buf (-1)
    | .more => stoppedAt buf (-2)

end Yagips.Http.Request
