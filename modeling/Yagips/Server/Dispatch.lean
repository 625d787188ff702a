import Yagips.Server.Sessions

/-!
# The dispatch loop

One datagram is matched against the slots of the session table in order. The loop
starts with the id in host order. The first visible slot that does not carry it
replaces it by the id in handshake format, and the replacement stays for every
later slot.
-/
namespace Yagips.Server.Dispatch

open Yagips.Lib
open Yagips.Server.Sessions

variable {P : Type}

abbrev Table (P : Type) := List (Option (Session P))

/-- The KCP object the loop looks at: the session's state is not negative and the
object exists. -/
def visible (s : Session P) : Option KcpSession :=
  if s.state < notConnected then none else s.kcpSession

inductive Visit where
  | skip (sid : UInt64)
  | push
  | close
  deriving DecidableEq

/-- One pass through the loop body, with the id looked for so far. -/
def visit (hs : Handshake) (sid : UInt64) (s : Session P) : Visit :=
  match visible s with
  | none => .skip sid
  | some kcp =>
    if kcp.conv = sid then .push
    else
      let sid := hs.sid
      -- the inner test compares `sid` with the field it was just computed from
      if kcp.conv ≠ sid ∧ (sid &&& 0xffffffff ≠ hs.sid1.toUInt64 ∧ hs.sid2 ≠ 0) then .skip sid
      else if hs.isShutdown then .close
      else .skip sid

def Session.push (s : Session P) (pkt : Bytes) : Session P :=
  { s with kcpSession := s.kcpSession.map (·.pushToKcp pkt) }

/-- Why the loop stopped before the end of the table. -/
inductive Stop (P : Type) where
  | pushed
  | closed (c : Closing P)
  deriving DecidableEq

structure Dispatched (P : Type) where
  table : Table P
  stop : Option (Nat × Stop P)
  deriving DecidableEq

def Dispatched.after (slot : Option (Session P)) (d : Dispatched P) : Dispatched P where
  table := slot :: d.table
  stop := d.stop.map fun x => (x.1 + 1, x.2)

def dispatchLoop (pkt : Bytes) (sid : UInt64) : Table P → Dispatched P
  | [] => { table := [], stop := none }
  | none :: rest => (dispatchLoop pkt sid rest).after none
  | some s :: rest =>
    match visit (Handshake.read pkt) sid s with
    | .push => { table := some (Session.push s pkt) :: rest, stop := some (0, .pushed) }
    | .close =>
      let c := s.close (Handshake.read pkt).cmd
      { table := some c.session :: rest, stop := some (0, .closed c) }
    | .skip sid => (dispatchLoop pkt sid rest).after (some s)

/-- The loop as `GameserverMain` enters it, for a datagram of at least 20 bytes. -/
def dispatch (pkt : Bytes) (table : Table P) : Dispatched P :=
  dispatchLoop pkt (hostSid pkt) table

/-! ## What one pass can do -/

theorem visit_hidden {hs : Handshake} {sid : UInt64} {s : Session P} (h : visible s = none) :
    visit hs sid s = .skip sid := by
  rw [visit, h]

/-- The guard between the two tests never skips: on a visible session with another id a
shutdown request always closes. -/
theorem visit_visible {hs : Handshake} {sid : UInt64} {s : Session P} {k : KcpSession}
    (h : visible s = some k) : visit hs sid s =
      if k.conv = sid then .push else if hs.isShutdown then .close else .skip hs.sid := by
  rw [visit, h]
  have hdead : ¬ (k.conv ≠ hs.sid ∧ (hs.sid &&& 0xffffffff ≠ hs.sid1.toUInt64 ∧ hs.sid2 ≠ 0)) :=
    fun hg => hg.2.1 hs.sid_low
  simp only [if_neg hdead]

theorem loop_hidden {pkt : Bytes} {sid : UInt64} {s : Session P} {rest : Table P}
    (h : visible s = none) :
    dispatchLoop pkt sid (some s :: rest) = (dispatchLoop pkt sid rest).after (some s) := by
  simp only [dispatchLoop, visit_hidden h]

theorem loop_match {pkt : Bytes} {s : Session P} {k : KcpSession} {rest : Table P}
    (h : visible s = some k) : dispatchLoop pkt k.conv (some s :: rest) =
      { table := some (Session.push s pkt) :: rest, stop := some (0, .pushed) } := by
  simp only [dispatchLoop, visit_visible h, if_true]

theorem loop_shutdown {pkt : Bytes} {sid : UInt64} {s : Session P} {k : KcpSession} {rest : Table P}
    (h : visible s = some k) (hne : k.conv ≠ sid)
    (hs : (Handshake.read pkt).isShutdown) : dispatchLoop pkt sid (some s :: rest) =
      { table := some (s.close (Handshake.read pkt).cmd).session :: rest
        stop := some (0, .closed (s.close (Handshake.read pkt).cmd)) } := by
  simp only [dispatchLoop, visit_visible h, if_neg hne, if_pos hs]

theorem loop_other {pkt : Bytes} {sid : UInt64} {s : Session P} {k : KcpSession}
    {rest : Table P} (h : visible s = some k) (hne : k.conv ≠ sid)
    (hs : ¬ (Handshake.read pkt).isShutdown) : dispatchLoop pkt sid (some s :: rest) =
      (dispatchLoop pkt (Handshake.read pkt).sid rest).after (some s) := by
  simp only [dispatchLoop, visit_visible h, if_neg hne, if_neg hs]

end Yagips.Server.Dispatch
