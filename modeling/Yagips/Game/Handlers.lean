import Yagips.Game.Holdings
import Yagips.Game.Login
import Yagips.Wire.Frame

/-!
# The packet handlers

`processPacket` hands a packet to the handler of its opcode. Four of the handlers do not look
at the state of the session, and two of those use its player. A handler returns a negative
number where it fails. It closes the session before that where it refuses the client, and not
where the packet cannot be parsed or comes in another state.
-/
namespace Yagips.Game.Handlers

open Yagips.Lib
open Yagips.Server.Sessions
open Yagips.Store.Gate
open Yagips.Store.Inventory
open Yagips.Game.Players
open Yagips.Game.PlayerStore
open Yagips.Game.Holdings
open Yagips.Game.Login
open Yagips.Wire.Frame

/-! ## What the handlers are given -/

/-- `ParseFromString` of the messages the handlers read, with the fields they use. -/
structure Messages where
  packetHead : Bytes → Bool
  pingReq : Bytes → Bool
  tokenReq : Bytes → Option GetPlayerTokenReq
  loginReq : Bytes → Option Bytes
  sceneInitFinishReq : Bytes → Option UInt32

/-- What depends on the game data that is loaded: what a login adds, and which avatars carry
a weapon. -/
structure GameData where
  starter : Starter
  hasWeapon : Holding → Bool

/-- What becomes of the messages a handler sends, in order: one that cannot be serialized is
`none`, else it is what `sendPacket` returns. -/
abbrev Sends := Nat → Option Int

/-- The sends from the one after the next. -/
def Sends.next (sends : Sends) : Sends := fun n => sends (n + 1)

/-- Serializing and sending the next message, `-1` where the first fails. `sendPacket` hands
the packet to the KCP object. -/
def send (session : GameSession) (sends : Sends) : Except Fault Int :=
  match sends 0 with
  | none => return -1
  | some ret => if session.kcpSession.isNone then .error .pointer else return ret

/-- What a handler leaves and returns. -/
structure Returned where
  server : Server
  ret : Int

def active : Int := 4

/-- The session is closed, and the handler fails. -/
def closing (e : Env) (s : Server) (slot : Nat) (reason : UInt32) : Except Fault Returned := do
  return { server := ← closeSession e s slot reason, ret := -1 }

/-! ## Handlers -/

section

variable (m : Messages) (sends : Sends)

def handlePingReq (s : Server) (session : GameSession) (packet : Packet) : Except Fault Returned :=
  if !m.packetHead packet.header then return { server := s, ret := -1 }
  else if !m.pingReq packet.data then return { server := s, ret := -1 }
  else do return { server := s, ret := ← send session sends }

/-- `handleGetPlayerTokenReq` with what it returns: `-1` unless it gets to its reply. -/
def returnToken (e : Env) (seed : UInt64) (s : Server) (slot : Nat) (packet : Packet) :
    Except Fault Returned := do
  let handled ← handleGetPlayerTokenReq e seed s slot (m.tokenReq packet.data)
  match handled.reply, handled.server.sessions[slot]? with
  | some _, some (some session) => return { server := handled.server, ret := ← send session sends }
  | _, _ => return { server := handled.server, ret := -1 }

/-- `onLogin`, which ends with `setState` where it does anything. -/
def onLogin (e : Env) (d : GameData) (s : Server) (slot : Nat) (session : GameSession)
    (player : Player) : Except Fault Server := do
  let player ← Player.onLogin e d.starter session.kcpSession.isSome player
  let state := if session.kcpSession.isSome then active else session.state
  return { s with sessions := s.sessions.set slot (some { session with player := some player, state }) }

def handlePlayerLoginReq (e : Env) (d : GameData) (s : Server) (slot : Nat) (session : GameSession)
    (packet : Packet) : Except Fault Returned :=
  if session.state ≠ loginWait then return { server := s, ret := -1 }
  else match m.loginReq packet.data with
    | none => return { server := s, ret := -1 }
    | some token =>
      match session.player.bind (·.account) with
      | none => closing e s slot 7
      | some account =>
        if account.comboToken = [] then closing e s slot 8
        else if strncmpEqual account.comboToken token account.comboToken.length then
          match session.player with
          | none => closing e s slot 12
          | some player => do
            let ret ← send session sends
            if ret ≠ 0 then return { server := s, ret }
            else return { server := ← onLogin e d s slot session player, ret }
        else closing e s slot 7

def handleEnterSceneReadyReq (s : Server) (session : GameSession) : Except Fault Returned :=
  match session.player with
  | none => return { server := s, ret := -1 }
  | some _ => do
    if (← send session sends) < 0 then return { server := s, ret := -1 }
    else return { server := s, ret := ← send session sends.next }

/-- `getCurAvatar` of a player that may be changed looks up the guid it reads through the
pointer. -/
def getCurAvatar (p : Player) : Except Fault (Option Holding) :=
  match p.curAvatar with
  | .avatar guid => return p.getAvatarByGuid guid
  | _ => .error .pointer

/-- The notification of the current avatar reads its weapon. -/
def notifyAvatar (d : GameData) (session : GameSession) (avatar : Holding) : Except Fault Int :=
  if d.hasWeapon avatar then send session sends.next else .error .pointer

def handleSceneInitFinishReq (d : GameData) (s : Server) (session : GameSession) (packet : Packet) :
    Except Fault Returned :=
  match session.player with
  | none => return { server := s, ret := -1 }
  | some player =>
    match m.sceneInitFinishReq packet.data with
    | none => return { server := s, ret := -1 }
    | some token =>
      if player.tpToken ≠ token then do return { server := s, ret := ← send session sends }
      else do
        if (← send session sends) < 0 then return { server := s, ret := -1 }
        else match ← getCurAvatar player with
          | none => return { server := s, ret := ← send session sends.next }
          | some avatar => do
            if (← notifyAvatar sends d session avatar) < 0 then return { server := s, ret := -1 }
            else return { server := s, ret := ← send session sends.next.next }

def handleGetPlayerBlacklistReq (s : Server) (session : GameSession) : Except Fault Returned := do
  return { server := s, ret := ← send session sends }

end

/-! ## Dispatch -/

@[match_pattern] def pingReqCmdId : Nat := 5
@[match_pattern] def getPlayerTokenReqCmdId : Nat := 101
@[match_pattern] def playerLoginReqCmdId : Nat := 103
@[match_pattern] def sceneInitFinishReqCmdId : Nat := 204
@[match_pattern] def enterSceneReadyReqCmdId : Nat := 282
@[match_pattern] def evtAiSyncCombatThreatInfoNotifyCmdId : Nat := 352
@[match_pattern] def getPlayerBlacklistReqCmdId : Nat := 4039

/-- What `processPacket` returns, and whether it knows the opcode. -/
structure Processed extends Returned where
  isValid : Bool

def handled (r : Except Fault Returned) : Except Fault Processed := do
  return { toReturned := ← r, isValid := true }

/-- `seed` is what `getrandom` draws for the session if its token is accepted. -/
def processPacket (e : Env) (m : Messages) (d : GameData) (seed : UInt64) (sends : Sends)
    (s : Server) (slot : Nat) (session : GameSession) (packet : Packet) : Except Fault Processed :=
  match packet.opcode.toNat with
  | pingReqCmdId => handled (handlePingReq m sends s session packet)
  | getPlayerTokenReqCmdId => handled (returnToken m sends e seed s slot packet)
  | playerLoginReqCmdId => handled (handlePlayerLoginReq m sends e d s slot session packet)
  | enterSceneReadyReqCmdId => handled (handleEnterSceneReadyReq sends s session)
  | sceneInitFinishReqCmdId => handled (handleSceneInitFinishReq m sends d s session packet)
  | getPlayerBlacklistReqCmdId => handled (handleGetPlayerBlacklistReq sends s session)
  | evtAiSyncCombatThreatInfoNotifyCmdId => handled (.ok { server := s, ret := 0 })
  | opcode => return { server := s, ret := -opcode, isValid := false }

end Yagips.Game.Handlers
