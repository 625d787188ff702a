import Yagips.Http.Request

/-!
# The dispatch server

`DispatchServerMain` serves one connection after another from one static buffer. It appends
what `recv` gives, hands the buffer to the parser until the parser decides, and picks the
answer by the method and the path. The server runs on: `DispatchServerSignal` stays 0.
-/
namespace Yagips.Http.Serve

open Yagips.Lib
open Yagips.Http.Request

/-- What a call of `recv` comes back with: bytes, the end of the connection, an error. -/
inductive Recv where
  | data (chunk : Bytes)
  | closed
  | failed
  deriving DecidableEq, Repr

def bufLen : Nat := 16 * 1024

/-- How the read loop ends: it does not yet, the client left, the status is known, or the
parser has decided. -/
inductive Received where
  | waiting (pkt : Bytes) (actualLen : Nat)
  | closed
  | writeRsp (status : Nat) (parsed : Parsed)
  | parsed (pkt : Bytes) (actualLen : Nat) (parsed : Parsed)
  deriving DecidableEq, Repr

/-- The parser is given all of the buffer, not the `actualLen` bytes received. -/
def readLoop (pkt : Bytes) (actualLen : Nat) : List Recv → Except Fault Received
  | [] => .ok (.waiting pkt actualLen)
  | .closed :: _ => .ok .closed
  | .failed :: more => readLoop pkt actualLen more
  | .data chunk :: more =>
    match storeAt pkt actualLen chunk with
    | .error fault => .error fault
    | .ok pkt =>
      let prevLen := actualLen
      let actualLen := actualLen + chunk.length
      let parsed := phrParseRequest pkt prevLen
      if -1 ≤ parsed.ret then .ok (.parsed pkt actualLen parsed)
      else if parsed.ret < -2 then .ok (.writeRsp 500 parsed)
      else if bufLen ≤ actualLen then .ok (.writeRsp 413 parsed)
      else readLoop pkt actualLen more

/-! ## Picking the answer -/

def sdkEndpoints : List Bytes :=
  [ascii "/query_region_list", ascii "/query_cur_region", ascii "/session/new",
    ascii "/session/verify", ascii "/session/combo", ascii "/binder/ticket",
    ascii "/binder/verify", ascii "/gacha/details", ascii "/gacha/history", ascii "/redeem",
    ascii "/gm", ascii "/stat", ascii "/player/", ascii "/set-player/", ascii "/admin",
    ascii "/log"]

/-- `strncmp` of a pointer into the buffer with a text, over the length of the text. -/
def startsWith (pkt : Bytes) (pointer : Text) (text : Bytes) : Bool :=
  strncmpEqual (pkt.drop pointer.offset) text text.length

/-- The status, an index into `sdkEndpoints` where the path names an endpoint. -/
def selectStatus (pkt : Bytes) (meth path : Text) : Nat :=
  if startsWith pkt meth (ascii "OPTIONS") then 1204
  else if !(startsWith pkt meth (ascii "GET") || startsWith pkt meth (ascii "POST") ||
      startsWith pkt meth (ascii "HEAD")) then 405
  else if startsWith pkt path (ascii "/ ") || startsWith pkt path (ascii "/?") then
    if startsWith pkt meth (ascii "POST") then 403 else 200
  else if startsWith pkt path (ascii "/generate_204") || startsWith pkt path (ascii "/gen_204") then 204
  else
    match sdkEndpoints.findIdx? (startsWith pkt path) with
    | some i => i
    | none => if startsWith pkt path (ascii "/") then 404 else 400

/-- The endpoints whose case in the response hands the body to a handler. The others answer
that they are not implemented. -/
def handled : List Nat := [0, 1, 2, 3, 4, 5, 6, 15]

/-- What a request was taken for. The body is the string handed to a handler, if any. -/
structure Selection where
  status : Nat
  meth : Text
  minorVersion : Int
  body : Option Bytes
  deriving DecidableEq, Repr

/-- A refused request has no method or path: the status says why. -/
inductive Served where
  | waiting
  | closed
  | refused (status : Nat) (parsed : Parsed)
  | selected (selection : Selection)
  deriving DecidableEq, Repr

/-- The choice on an accepted buffer: `pret` is the length of the head. -/
def select (pkt : Bytes) (meth path : Text) (minorVersion : Int) (pret : Nat) : Selection :=
  let body := if startsWith pkt meth (ascii "POST") then some (cstr (pkt.drop pret)) else none
  let status := selectStatus pkt meth path
  { status, meth, minorVersion, body := if status ∈ handled then body else none }

/-- What follows the read loop. -/
def respond : Received → Except Fault Served
  | .waiting _ _ => .ok .waiting
  | .closed => .ok .closed
  | .writeRsp status parsed => .ok (.refused status parsed)
  | .parsed pkt actualLen parsed =>
    if parsed.ret < 0 then .ok (.refused 400 parsed)
    else
      match storeAt pkt actualLen [0], parsed.method, parsed.path with
      | .error fault, _, _ => .error fault
      | .ok pkt, some meth, some path =>
        .ok (.selected (select pkt meth path parsed.minorVersion parsed.ret.toNat))
      | .ok _, _, _ => .error .pointer

/-- One connection, with what earlier ones left in the buffer. -/
def serve (prior : Bytes) (recvs : List Recv) : Except Fault Served := do
  let received ← readLoop prior 0 recvs
  respond received

end Yagips.Http.Serve
