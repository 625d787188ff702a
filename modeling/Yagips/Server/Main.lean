import Yagips.Server.Dispatch

/-!
# The server's main loop

`GameserverMain` receives every datagram into one static `sock_t`, dispatches it, and
opens a session when nothing in the table took it and it is an opening handshake. The
session threads run beside it: their KCP objects emit datagrams, change the session's
state and player, and close it. A step is one datagram handled or one such action.
-/
namespace Yagips.Server.Main

open Yagips.Lib
open Yagips.Server.Sessions
open Yagips.Server.Dispatch

structure SockAddr where
  sin6Addr : Bytes
  sin6Port : UInt16
  deriving DecidableEq

/-- A `sock_t` in static storage before anything is received into it. -/
def SockAddr.zero : SockAddr := ⟨List.replicate 16 0, 0⟩

variable {P : Type}

/-- The table and the memory the sessions' `sock_t` pointers point into. -/
structure Gameserver (P : Type) where
  memory : SockRef → SockAddr
  sessionList : Table P

/-- The static `client` of `GameserverMain`. -/
def clientRef : SockRef := 0

/-- A datagram sent through `KcpSession::sendRaw` for the session in a slot. -/
structure Sent where
  slot : Nat
  dest : SockAddr
  msg : Bytes
  deriving DecidableEq

/-- `Gameserver::send` reads the address through the pointer at the moment of sending. -/
def sendRaw (memory : SockRef → SockAddr) (slot : Nat) (x : SockRef × Bytes) : Sent where
  slot := slot
  dest := memory x.1
  msg := x.2

/-! ## Accepting a session -/

def timeout : Int := -1
def finished : Int := -2
def error : Int := -3

/-- The reason a slot in a dead state is closed with before it is reused. -/
def retireReason (state : Int) : Option UInt32 :=
  if state = timeout then some 10
  else if state = error then some 12
  else if state = finished then some 3
  else none

structure Claimed (P : Type) where
  table : Table P
  sent : List (Nat × (SockRef × Bytes))
  slot : Option Nat

def Claimed.after (slot : Option (Session P)) (c : Claimed P) : Claimed P where
  table := slot :: c.table
  sent := c.sent.map fun x => (x.1 + 1, x.2)
  slot := c.slot.map (· + 1)

/-- The search for a slot: the first empty one, or the first whose session can be
deleted. The destructor closes with reason 12. A session closed here is met again on
the next pass, now `NOT_CONNECTED`, and deleted. -/
def claimSlot : Table P → Claimed P
  | [] => { table := [], sent := [], slot := none }
  | none :: rest => { table := none :: rest, sent := [], slot := some 0 }
  | some s :: rest =>
    if s.state = notConnected then
      { table := none :: rest
        sent := (s.close 12).sent.toList.map fun x => (0, x)
        slot := some 0 }
    else
      match retireReason s.state with
      | some reason =>
        { table := none :: rest
          sent := ((s.close reason).sent.toList ++
            ((s.close reason).session.close 12).sent.toList).map fun x => (0, x)
          slot := some 0 }
      | none => (claimSlot rest).after (some s)

/-! ## Steps -/

/-- What the environment decides while a datagram is handled: the id `getrandom`
draws, and whether the handshake reply went out whole. -/
structure Env where
  sid : UInt64
  replySent : Bool

inductive Event (P : Type) where
  | recv (src : SockAddr) (pkt : Bytes) (env : Env)
  | output (slot : Nat) (msg : Bytes)
  | close (slot : Nat) (reason : UInt32)
  | setState (slot : Nat) (state : Int)
  | setPlayer (slot : Nat) (player : Option P)
  | stop

/-- The server after a step, what it sent for its sessions, and the slot it opened. -/
structure Stepped (P : Type) where
  server : Gameserver P
  sent : List Sent
  opened : Option Nat

def quiet (gs : Gameserver P) : Stepped P where
  server := gs
  sent := []
  opened := none

/-- No session took the datagram. -/
def accept (gs : Gameserver P) (pkt : Bytes) (env : Env) : Stepped P :=
  if (Handshake.read pkt).isOpen ∧ env.replySent = true then
    let c := claimSlot gs.sessionList
    let sent := c.sent.map fun x => sendRaw gs.memory x.1 x.2
    match c.slot with
    | none => { server := { gs with sessionList := c.table }, sent := sent, opened := none }
    | some i =>
      { server := { gs with sessionList := c.table.set i (some (Session.new clientRef env.sid)) }
        sent := sent
        opened := some i }
  else quiet gs

def handle (gs : Gameserver P) (pkt : Bytes) (env : Env) : Stepped P :=
  if pkt.length < 20 then quiet gs
  else
    let d := dispatch pkt gs.sessionList
    match d.stop with
    | some (_, .pushed) => quiet { gs with sessionList := d.table }
    | some (i, .closed c) =>
      { server := { gs with sessionList := d.table }
        sent := c.sent.toList.map (sendRaw gs.memory i)
        opened := none }
    | none => accept { gs with sessionList := d.table } pkt env

/-- `recvfrom` overwrites the static address before the datagram is looked at. -/
def receive (gs : Gameserver P) (src : SockAddr) (pkt : Bytes) (env : Env) : Stepped P :=
  handle { gs with memory := Function.update gs.memory clientRef src } pkt env

/-- An action of the session in a slot; a free slot has none. -/
def onSession (gs : Gameserver P) (slot : Nat)
    (act : Session P → Session P × Option (SockRef × Bytes)) : Stepped P :=
  match gs.sessionList[slot]? with
  | some (some s) =>
    { server := { gs with sessionList := gs.sessionList.set slot (some (act s).1) }
      sent := (act s).2.toList.map (sendRaw gs.memory slot)
      opened := none }
  | _ => quiet gs

/-- Every remaining session is closed with reason 6 and deleted. -/
def stopFrom (memory : SockRef → SockAddr) : Nat → Table P → List Sent
  | _, [] => []
  | i, none :: rest => stopFrom memory (i + 1) rest
  | i, some s :: rest =>
    ((s.close 6).sent.toList ++ ((s.close 6).session.close 12).sent.toList).map (sendRaw memory i) ++
      stopFrom memory (i + 1) rest

def step (gs : Gameserver P) : Event P → Stepped P
  | .recv src pkt env => receive gs src pkt env
  | .output slot msg => onSession gs slot fun s => (s, s.kcpSession.map fun k => (k.client, msg))
  | .close slot reason => onSession gs slot fun s => ((s.close reason).session, (s.close reason).sent)
  | .setState slot state => onSession gs slot fun s => ({ s with state := state }, none)
  | .setPlayer slot player => onSession gs slot fun s => ({ s with player := player }, none)
  | .stop =>
    { server := { gs with sessionList := gs.sessionList.map fun _ => none }
      sent := stopFrom gs.memory 0 gs.sessionList
      opened := none }

def start (maxSessions : Nat) : Gameserver P where
  memory := fun _ => SockAddr.zero
  sessionList := List.replicate maxSessions none

end Yagips.Server.Main
