import Yagips.Http.Reading

/-!
# The response to a refused request

Every exit of the read loop and of the choice leads to one response, which compares the method
with `HEAD` and prints the version. The parser has set them only where it read the whole request
line in its last call.
-/
namespace Yagips.Http.Refusing

open Yagips.Lib
open Yagips.Lib.Scan
open Yagips.Http.Request
open Yagips.Http.HeadOnly
open Yagips.Http.Serve
open Yagips.Http.Chunking
open Yagips.Http.Reading

/-! ## The response -/

/-- `PACKAGE_NAME` and `PACKAGE_VERSION`. -/
structure Package where
  name : Bytes
  version : Bytes

/-- What the cases of the response set, with the status that is printed. -/
structure Answer where
  status : Nat
  rsp : Bytes
  body : Bytes
  mime : Bytes
  extraHdrs : Bytes

def json (status : Nat) (rsp body : String) : Answer where
  status := status
  rsp := ascii rsp
  body := ascii body
  mime := ascii "application/json"
  extraHdrs := []

def noContent (extraHdrs : Bytes) : Answer where
  status := 204
  rsp := ascii "No Content"
  body := []
  mime := ascii "text/plain"
  extraHdrs := extraHdrs

def allow : Bytes := ascii "Allow: GET, HEAD, POST, OPTIONS\r\n"

/-- The generic responses. A status without a case of its own is told as not found. -/
def genericAnswer (pkg : Package) (status : Nat) : Answer :=
  match status with
  | 403 => json status "Forbidden" "\x7b\"retcode\":-1,\"message\":\"Permission denied\"\x7d"
  | 204 => noContent []
  | 1204 => noContent allow
  | 405 =>
    { json status "Method Not Allowed"
        "\x7b\"retcode\":-1,\"message\":\"HTTP method not allowed\"\x7d" with extraHdrs := allow }
  | 500 =>
    json status "Internal Server Error" "\x7b\"retcode\":-1,\"message\":\"Internal server error\"\x7d"
  | 413 => json status "Content Too Large" "\x7b\"retcode\":-1,\"message\":\"Request too big\"\x7d"
  | 200 =>
    { status, rsp := ascii "OK", body := ascii "hi from " ++ pkg.name ++ ascii " dispatch server\n"
      mime := ascii "text/plain", extraHdrs := [] }
  | _ => json status "Not Found" "\x7b\"retcode\":-10,\"message\":\"No such endpoint\"\x7d"

def decimal (n : Int) : Bytes := ascii (toString n)

/-- `%03d` of a number that is not negative. -/
def threeDigits (n : Nat) : Bytes :=
  List.replicate (3 - (decimal n).length) 0x30 ++ decimal n

def responseText (pkg : Package) (minorVersion : Int) (a : Answer) (shown : Bytes) : Bytes :=
  ascii "HTTP/1." ++ decimal minorVersion ++ ascii " " ++ threeDigits a.status ++ ascii " " ++ a.rsp ++
    ascii "\r\nContent-Length: " ++ decimal a.body.length ++ ascii "\r\nContent-Type: " ++ a.mime ++
    ascii "\r\nConnection: close\r\nServer: " ++ pkg.name ++ ascii "/" ++ pkg.version ++ ascii "\r\n" ++
    a.extraHdrs ++ ascii "\r\n" ++ shown

/-- Whether the method's text starts with `HEAD`. -/
def isHead (meth : Text) : Bool := (ascii "HEAD").isPrefixOf meth.bytes

/-- `snprintf` into the buffer, and the string that is sent from there. -/
def writeRsp (pkg : Package) (meth : Option Text) (minorVersion : Int) (a : Answer) :
    Except Fault Bytes :=
  match meth with
  | none => .error .pointer
  | some meth =>
    let shown := if isHead meth then [] else a.body
    .ok (cstr ((responseText pkg minorVersion a shown).take (bufLen - 1)))

/-- The response for what a request was served as. `endpoint` is what an endpoint answers. -/
def response (pkg : Package) (endpoint : Nat → Option Bytes → Except Fault Answer) :
    Served → Except Fault Bytes
  | .waiting | .closed => .ok []
  | .refused status parsed =>
    writeRsp pkg parsed.method parsed.minorVersion (genericAnswer pkg status)
  | .selected s => do
    let a ← if s.status < 16 then endpoint s.status s.body else .ok (genericAnswer pkg s.status)
    writeRsp pkg (some s.meth) s.minorVersion a

/-- The comparison in the buffer comes to that of the token: a shorter one has a space behind it. -/
theorem isHead_iff {pkt : Bytes} {meth : Text} (h : Stands pkt meth) :
    startsWith pkt meth (ascii "HEAD") = isHead meth := by
  rw [Bool.eq_iff_iff, startsWith_token_iff h (by decide) (by decide), isHead,
    List.isPrefixOf_iff_prefix]

/-! ## What the parser has set -/

/-- The request line up to the version. -/
def requestLine : Scan Nat := do
  let method ← methodPart
  let path ← pathPart method
  versionPart method path

/-- The parser gets to the request line: in the first call, or behind the test for completeness. -/
def Reached (buf : Bytes) (lastLen : Nat) : Prop :=
  lastLen = 0 ∨ ∃ rest, isComplete lastLen buf = .done () rest

/-- The parser gets to the request line, and reads it to the version. -/
def ReadLine (buf : Bytes) (lastLen : Nat) : Prop :=
  Reached buf lastLen ∧ ∃ minorVersion rest, requestLine buf = .done minorVersion rest

theorem value_isSome {α : Type} {r : Scanned α} : (∃ a, r.value = some a) ↔ ∃ a rest, r = .done a rest := by
  cases r with
  | done a rest => exact ⟨fun _ => ⟨a, rest, rfl⟩, fun _ => ⟨a, rfl⟩⟩
  | bad => exact ⟨fun ⟨_, h⟩ => (nomatch h), fun ⟨_, _, h⟩ => (nomatch h)⟩
  | more => exact ⟨fun ⟨_, h⟩ => (nomatch h), fun ⟨_, _, h⟩ => (nomatch h)⟩

/-- The method and the version can be used. -/
def Usable (parsed : Parsed) : Prop := (∃ meth, parsed.method = some meth) ∧ parsed.minorVersion ≠ -1

theorem stoppedAt_usable_iff (buf : Bytes) (ret : Int) :
    Usable (stoppedAt buf ret) ↔ ∃ minorVersion rest, requestLine buf = .done minorVersion rest := by
  have hversion : (stoppedAt buf ret).minorVersion ≠ -1 ↔ ∃ n, (requestLine buf).value = some n := by
    unfold stoppedAt
    dsimp only
    split
    case h_1 n hvalue => exact iff_of_true (by omega) ⟨n, hvalue⟩
    case h_2 hvalue =>
      refine iff_of_false (fun h => h rfl) ?_
      rintro ⟨n, hsome⟩
      cases hvalue.symm.trans hsome
  rw [Usable, hversion, value_isSome]
  refine and_iff_right_of_imp ?_
  rintro ⟨n, rest, h⟩
  obtain ⟨method, mid, hm, -⟩ := bind_eq_done h
  exact value_isSome.mpr ⟨method, mid, hm⟩

/-- A call that does not accept stops in the request, or before it. -/
theorem refused_cases {buf : Bytes} {lastLen : Nat} (h : (phrParseRequest buf lastLen).ret < 0) :
    (Reached buf lastLen ∧ ∃ ret, phrParseRequest buf lastLen = stoppedAt buf ret) ∨
      (¬ Reached buf lastLen ∧ (phrParseRequest buf lastLen).method = none) := by
  have hreached : Reached buf lastLen ↔ ∃ rest,
      (if lastLen = 0 then Scanned.done () [] else isComplete lastLen buf) = .done () rest := by
    unfold Reached
    by_cases hfirst : lastLen = 0
    · rw [if_pos hfirst]
      exact iff_of_true (Or.inl hfirst) ⟨_, rfl⟩
    · rw [if_neg hfirst, or_iff_right hfirst]
  unfold phrParseRequest at h ⊢
  rw [hreached]
  cases hc : (if lastLen = 0 then Scanned.done () [] else isComplete lastLen buf) with
  | bad => exact Or.inr ⟨nofun, rfl⟩
  | more => exact Or.inr ⟨nofun, rfl⟩
  | done _ rest =>
    rw [hc] at h
    refine Or.inl ⟨⟨rest, rfl⟩, ?_⟩
    dsimp only at h ⊢
    cases hparse : parseRequest buf with
    | done head rest =>
      rw [hparse] at h
      exact absurd h (Int.not_lt.mpr (Int.natCast_nonneg _))
    | bad => exact ⟨-1, rfl⟩
    | more => exact ⟨-2, rfl⟩

/-- A call that does not accept leaves a method and a version exactly where it read the request
line. -/
theorem usable_iff {buf : Bytes} {lastLen : Nat} (h : (phrParseRequest buf lastLen).ret < 0) :
    Usable (phrParseRequest buf lastLen) ↔ ReadLine buf lastLen := by
  rcases refused_cases h with ⟨hreached, ret, hstopped⟩ | ⟨hnot, hnone⟩
  · rw [hstopped, stoppedAt_usable_iff, ReadLine, and_iff_right hreached]
  · refine iff_of_false (fun ⟨⟨meth, hmeth⟩, _⟩ => ?_) fun h => hnot h.1
    cases hnone.symm.trans hmeth

/-! ## The answer to a refusal -/

section

variable (pkg : Package) (endpoint : Nat → Option Bytes → Except Fault Answer)

/-- The response is built, from a method and a version that were set. -/
def Answered (status : Nat) (parsed : Parsed) : Prop :=
  (∃ text, response pkg endpoint (.refused status parsed) = .ok text) ∧ parsed.minorVersion ≠ -1

theorem answered_iff {status : Nat} {parsed : Parsed} :
    Answered pkg endpoint status parsed ↔ Usable parsed := by
  refine and_congr_left fun _ => ?_
  change (∃ text, writeRsp pkg parsed.method parsed.minorVersion _ = .ok text) ↔ _
  cases parsed.method with
  | none => exact ⟨fun ⟨_, h⟩ => (nomatch h), fun ⟨_, h⟩ => (nomatch h)⟩
  | some meth => exact ⟨fun _ => ⟨meth, rfl⟩, fun _ => ⟨_, rfl⟩⟩

/-- The status of a refusal: the parser found no request, or the buffer is full. -/
def refusal (parsed : Parsed) : Nat := if parsed.ret = -1 then 400 else 413

/-- A request that is refused as bad or too large is answered with a method and a version that were
set exactly where the call that decided had read its request line. -/
theorem refusal_answered_iff (prior : Bytes) (recvs : List Recv) (g c : Bytes)
    (hprior : prior.length = bufLen) (hoffered : Offered 0 recvs) (hd : Decides prior [] recvs g c)
    (hrefused : (call prior g c).ret < 0) :
    serve prior recvs = .ok (.refused (refusal (call prior g c)) (call prior g c)) ∧
    (Answered pkg endpoint (refusal (call prior g c)) (call prior g c) ↔
      ReadLine (filled prior (g ++ c)) g.length) := by
  refine ⟨?_, (answered_iff pkg endpoint).trans (usable_iff hrefused)⟩
  rw [(serve_decided hprior hoffered hd).1, decided, refusal]
  rcases ret_cases (filled prior (g ++ c)) g.length with h | h
  · have hret : (call prior g c).ret = -2 := h
    rw [if_neg (by omega), if_neg (by omega)]
    rfl
  · have hret : (call prior g c).ret = -1 := by
      change -1 ≤ (call prior g c).ret at h
      omega
    rw [if_pos (by omega), respond, if_pos (by omega), if_pos hret]

end

/-! ## Refusals with and without a method -/

def anyPackage : Package where
  name := ascii "yagips"
  version := ascii "0"

def noEndpoint (_ : Nat) (_ : Option Bytes) : Except Fault Answer := .ok (noContent [])

/-- A first byte that no method has leaves the method unset. -/
theorem no_method (x : Bytes) :
    (phrParseRequest (1 :: x) 0).ret = -1 ∧ ¬ Usable (phrParseRequest (1 :: x) 0) := by
  have hbad : methodPart (1 :: x) = .bad := rfl
  have hparse : parseRequest (1 :: x) = .bad := bind_bad hbad _
  rw [phrParseRequest_first, hparse]
  refine ⟨rfl, fun ⟨⟨meth, hmeth⟩, _⟩ => ?_⟩
  change (methodPart (1 :: x)).value = some meth at hmeth
  rw [hbad] at hmeth
  cases hmeth

/-- A request that starts with a byte no method has. -/
theorem bad_byte_call : Decides zeroed [] [.data [1]] [] [1] ∧ (call zeroed [] [1]).ret = -1 ∧
    ¬ Usable (call zeroed [] [1]) := by
  obtain ⟨hret, hunusable⟩ := no_method (zeroed.drop 1)
  exact ⟨.now (Or.inl hret.ge), hret, hunusable⟩

/-- It is refused with a response that reads through a null pointer. -/
theorem bad_byte_unanswered : Decides zeroed [] [.data [1]] [] [1] ∧
    (call zeroed [] [1]).ret = -1 ∧
    ¬ Answered anyPackage noEndpoint (refusal (call zeroed [] [1])) (call zeroed [] [1]) := by
  obtain ⟨hd, hret, hunusable⟩ := bad_byte_call
  rw [answered_iff]
  exact ⟨hd, hret, hunusable⟩

theorem bad_byte_refused :
    serve zeroed [.data [1]] = .ok (.refused (refusal (call zeroed [] [1])) (call zeroed [] [1])) ∧
    (Answered anyPackage noEndpoint (refusal (call zeroed [] [1])) (call zeroed [] [1]) ↔
      ReadLine (filled zeroed ([] ++ [1])) 0) := by
  obtain ⟨hd, hret, -⟩ := bad_byte_call
  exact refusal_answered_iff anyPackage noEndpoint zeroed [.data [1]] [] [1] zeroed_length
    ⟨by decide, by decide, trivial⟩ hd (by rw [hret]; decide)

end Yagips.Http.Refusing
