import Mathlib.Logic.Function.Basic
import Yagips.Sdk.Handlers

/-!
# Runs of the account calls

Account creation and the handlers, one call after another on one store. Beside the
store stands the action ticket last issued to each account.
-/
namespace Yagips.Sdk.Calls

open Yagips.Lib
open Yagips.Store.Accounts
open Yagips.Store.Gate
open Yagips.Sdk.Body
open Yagips.Sdk.Handlers
open Yagips.Util.B64
open Yagips.Util.B64RoundTrip

inductive Call where
  | createAccount (username : Option Bytes) (stale : Stale)
  | login (heap : Heap) (post : Option Bytes) (rawtoken : Vector UInt8 24) (now : Int64)
  | actionTicket (heap : Heap) (post : Option Bytes) (rawtoken : Vector UInt8 6) (now : Int64)
  | bindRealname (heap : Heap) (post : Option Bytes)

structure World where
  gate : DbGate
  tickets : UInt32 → Option Bytes

def World.empty : World where
  gate := { db := OrderedStore.empty, nextIds := default }
  tickets _ := none

/-- The tickets once a call of `handleActionTicket` replied. -/
def issue (tickets : UInt32 → Option Bytes) (h : Handled) : UInt32 → Option Bytes :=
  match h.account, h.reply with
  | some aid, some (.ticket t) => Function.update tickets aid (some t)
  | _, _ => tickets

variable (c : Codecs) (json : JsonC)

/-- A call that faults or never returns changes nothing. -/
def World.call (w : World) : Call → World
  | .createAccount username stale =>
    match w.gate.createAccount c username stale with
    | .ok (.account _ g) => { w with gate := g }
    | _ => w
  | .login heap post rawtoken now =>
    match handleLogin c json heap w.gate post rawtoken now with
    | .ok h => { w with gate := h.gate }
    | .error _ => w
  | .actionTicket heap post rawtoken now =>
    match handleActionTicket c json heap w.gate post rawtoken now with
    | .ok h => { gate := h.gate, tickets := issue w.tickets h }
    | .error _ => w
  | .bindRealname heap post =>
    match handleBindRealname c json heap w.gate post with
    | .ok h => { w with gate := h.gate }
    | .error _ => w

def World.run (w : World) (calls : List Call) : World := calls.foldl (World.call c json) w

/-! ## What is stored of a ticket -/

/-- The bytes an account keeps of the ticket issued to it. -/
def Bears : Option Bytes → Bytes → Prop
  | none, b => b = []
  | some t, b => b64dec t = .ok b ∧ b64enc b = .ok t ∧ b.length = 6

structure Sound (w : World) : Prop where
  keyed : w.gate.Keyed c
  bears : ∀ aid p, w.gate.record c aid = some p → Bears (w.tickets aid) p.bindToken
  issued : ∀ aid t, w.tickets aid = some t → ∃ p, w.gate.record c aid = some p

end Yagips.Sdk.Calls
