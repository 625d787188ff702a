import Yagips.Lib.Run
import Yagips.Game.Handlers
import Yagips.Server.Main

/-!
# The login state machine of a session

A step is one turn of `SessionMain`'s loop for the session in a slot, or what the server does
to a slot: closing the session on a client's request, opening one, deleting one. Between the
steps the store may change.
-/
namespace Yagips.Game.SessionMachine

open Yagips.Lib
open Yagips.Lib.Run
open Yagips.Server.Sessions
open Yagips.Server.Main (retireReason)
open Yagips.Store.Accounts
open Yagips.Store.Gate
open Yagips.Game.Players
open Yagips.Game.PlayerStore
open Yagips.Game.Holdings
open Yagips.Game.Login
open Yagips.Game.Handlers
open Yagips.Crypto.Mt19937
open Yagips.Wire.Frame

/-! ## One turn -/

/-- What a turn meets: the packet it receives, if it receives and parses one, and whether the
last ping is too old at its end. -/
structure Turn where
  received : Option Packet
  seed : UInt64
  sends : Sends
  timedOut : Bool

def stateOf (s : Server) (slot : Nat) : Int :=
  ((s.sessions[slot]?.join).map (·.state)).getD notConnected

/-- The packet processed, and whether the loop is left because that closed the session. -/
def receive (e : Env) (m : Messages) (d : GameData) (s : Server) (slot : Nat)
    (session : GameSession) (t : Turn) : Except Fault (Server × Bool) :=
  match t.received with
  | none => return (s, false)
  | some packet => do
    let r ← processPacket e m d t.seed t.sends s slot session packet
    return (r.server, r.isValid ∧ r.ret < 0 ∧ stateOf r.server slot ≤ notConnected)

/-- A turn of the loop of `SessionMain`, or what follows the loop where it ends. -/
def turn (e : Env) (m : Messages) (d : GameData) (s : Server) (slot : Nat) (t : Turn) :
    Except Fault Server :=
  match s.sessions[slot]? with
  | some (some session) =>
    if session.state ≤ notConnected then closeSession e s slot 3
    else do
      let (s, left) ← receive e m d s slot session t
      if left then closeSession e s slot 3
      else if t.timedOut then closeSession e s slot 10
      else return s
  | _ => .error .pointer

/-! ## Opening and deleting -/

/-- What a session is made with. The constructor does not set the seed and the key. -/
structure Opening where
  sock : SockRef
  sid : UInt64
  seed : UInt64
  key : Bytes

def openSession (o : Opening) : GameSession where
  toSession := Session.new o.sock o.sid
  useSecretKey := false
  sessionSeed := o.seed
  sessionKey := o.key

def Server.put (s : Server) (slot : Nat) (session : Option GameSession) : Server :=
  { s with sessions := s.sessions.set slot session }

/-- `delete` of the session in a slot, whose destructor closes it. -/
def deleteSession (e : Env) (s : Server) (slot : Nat) : Except Fault Server := do
  return Server.put (← closeSession e s slot 12) slot none

/-- The search for a slot, at one of them: it is taken where it is empty, or where its session
is not connected or in a state that is closed first. -/
def accept (e : Env) (s : Server) (slot : Nat) (o : Opening) : Except Fault Server :=
  match s.sessions[slot]? with
  | some none => return Server.put s slot (some (openSession o))
  | some (some session) =>
    if session.state = notConnected then do
      return Server.put (← deleteSession e s slot) slot (some (openSession o))
    else match retireReason session.state with
      | none => return s
      | some reason => do
        let s ← closeSession e s slot reason
        return Server.put (← deleteSession e s slot) slot (some (openSession o))
  | none => .error .pointer

/-- `stop`, at one slot. -/
def stopAt (e : Env) (s : Server) (slot : Nat) : Except Fault Server :=
  match s.sessions[slot]? with
  | some (some _) => do deleteSession e (← closeSession e s slot 6) slot
  | _ => return s

/-! ## Steps -/

inductive Action where
  | turn (slot : Nat) (t : Turn)
  | close (slot : Nat) (reason : UInt32)
  | accept (slot : Nat) (o : Opening)
  | stop (slot : Nat)
  | changeStore (gate : DbGate)

/-- An action, with what the clock shows and new objects happen to hold when it is taken. -/
structure Event where
  action : Action
  now : Int64
  stale : StaleMembers

def act (e : Env) (m : Messages) (d : GameData) (s : Server) : Action → Except Fault Server
  | .turn slot t => turn e m d s slot t
  | .close slot reason => closeSession e s slot reason
  | .accept slot o => accept e s slot o
  | .stop slot => stopAt e s slot
  | .changeStore gate => return { s with gate }

def step (e : Env) (m : Messages) (d : GameData) (s : Server) (ev : Event) : Except Fault Server :=
  act { e with now := ev.now, stale := ev.stale } m d s ev.action

def start (gate : DbGate) (maxSessions : Nat) : Server where
  gate := gate
  sessions := List.replicate maxSessions none

/-! ## What a session may be -/

/-- A session after its token was accepted. -/
structure TokenAccepted (x : GameSession) : Prop where
  account : ∃ p a, x.player = some p ∧ p.account = some a
  secret : x.useSecretKey = true
  key : x.sessionKey = genXorpadFromSeed x.sessionSeed 4096 false true

/-- The current avatar is in the list. -/
def AvatarChosen (x : GameSession) : Prop :=
  ∃ p, x.player = some p ∧ ∃ a ∈ p.avatars, p.curAvatar = .avatar a.guid

structure WellFormed (x : GameSession) : Prop where
  notConnected : x.state = notConnected → x.player = none ∧ x.kcpSession = none
  tokenWait : x.state = tokenWait → x.player = none ∧ x.useSecretKey = false
  loginWait : x.state = loginWait → TokenAccepted x
  active : x.state = active → TokenAccepted x ∧ AvatarChosen x

/-- A slot enters a state only from another. -/
def EntersFrom (state source : Int) (s s' : Server) : Prop :=
  ∀ (slot : Nat) (x' : GameSession), s'.sessions[slot]? = some (some x') → x'.state = state →
    ∃ x, s.sessions[slot]? = some (some x) ∧ (x.state = state ∨ x.state = source)

/-! ## What a step can do to a session -/

structure Closed (x : GameSession) : Prop where
  state : x.state = notConnected
  player : x.player = none
  kcpSession : x.kcpSession = none

inductive Move (x : GameSession) : GameSession → Prop
  | stay : Move x x
  | close {x' : GameSession} (h : Closed x') : Move x x'
  | attach {x' : GameSession} (hfrom : x.state = tokenWait) (hto : x'.state = loginWait)
      (h : TokenAccepted x') : Move x x'
  | login (p : Player) (hfrom : x.state = loginWait) (haccount : p.account.isSome)
      (havatar : ∃ a ∈ p.avatars, p.curAvatar = .avatar a.guid) :
      Move x { x with player := some p, state := active }

/-- Every session after is one from before that moved. -/
def Moves (s s' : Server) : Prop :=
  ∀ (slot : Nat) (x' : GameSession), s'.sessions[slot]? = some (some x') →
    ∃ x, s.sessions[slot]? = some (some x) ∧ Move x x'

/-- A session is kept or closed. -/
def KeptOrClosed (x x' : GameSession) : Prop := x' = x ∨ Closed x'

/-- Every session after is one from before that is kept or closed. -/
def Quiet (s s' : Server) : Prop :=
  ∀ (slot : Nat) (x' : GameSession), s'.sessions[slot]? = some (some x') →
    ∃ x, s.sessions[slot]? = some (some x) ∧ KeptOrClosed x x'

/-- What a turn makes of the session it is about. A player is attached as a new object, and the KCP
object stays unless the session had to be closed for its own player. -/
inductive Shift (e : Env) (starter : Starter) (x : GameSession) : GameSession → Prop
  | quiet {x' : GameSession} (h : KeptOrClosed x x') : Shift e starter x x'
  | attach {x' : GameSession} (p : Player) (hfrom : x.state = tokenWait) (hto : x'.state = loginWait)
      (h : TokenAccepted x') (hplayer : x'.player = some p) (hnothing : HoldsNothing p)
      (hkcp : x.player = none → x'.kcpSession = x.kcpSession) : Shift e starter x x'
  | login (p p' : Player) (hfrom : x.state = loginWait) (hplayer : x.player = some p)
      (haccount : p.account.isSome) (hlogin : Player.onLogin e starter true p = .ok p') :
      Shift e starter x { x with player := some p', state := active }

/-- The session of a turn shifts, and the others are kept or closed. -/
def Shifts (e : Env) (starter : Starter) (turning : Nat) (s s' : Server) : Prop :=
  ∀ (slot : Nat) (x' : GameSession), s'.sessions[slot]? = some (some x') →
    ∃ x, s.sessions[slot]? = some (some x) ∧ Shift e starter x x' ∧
      (slot ≠ turning → KeptOrClosed x x')

theorem closed_close (x : GameSession) (reason : UInt32) :
    Closed { x with toSession := (x.toSession.close reason).session } where
  state := rfl
  player := rfl
  kcpSession := rfl

theorem Quiet.of_eq {s s' : Server} (h : s'.sessions = s.sessions) : Quiet s s' :=
  fun _ x' hx => ⟨x', h ▸ hx, Or.inl rfl⟩

theorem Quiet.refl (s : Server) : Quiet s s := .of_eq rfl

/-- A slot after one of the slots was set. -/
theorem getElem?_set_some {l : Sessions} {slot i : Nat} {y x' : GameSession}
    (h : (l.set slot (some y))[i]? = some (some x')) :
    (i = slot ∧ x' = y) ∨ (i ≠ slot ∧ l[i]? = some (some x')) := by
  rw [List.getElem?_set] at h
  split at h
  case isTrue hi =>
    split at h
    case isTrue =>
      cases h
      exact Or.inl ⟨hi.symm, rfl⟩
    case isFalse => cases h
  case isFalse hi => exact Or.inr ⟨fun h' => hi h'.symm, h⟩

theorem close_quiet {s s' : Server} {e : Env} {slot : Nat} {reason : UInt32}
    (h : closeSession e s slot reason = .ok s') : Quiet s s' := by
  obtain ⟨y, hslot, hset, -⟩ := closeSession_ok h
  intro i x' hx'
  rw [hset] at hx'
  rcases getElem?_set_some hx' with ⟨rfl, rfl⟩ | ⟨-, hsame⟩
  · exact ⟨y, hslot, Or.inr (closed_close y reason)⟩
  · exact ⟨x', hsame, Or.inl rfl⟩

theorem Quiet.trans {s s' s'' : Server} (h : Quiet s s') (h' : Quiet s' s'') : Quiet s s'' := by
  intro slot x'' hx''
  obtain ⟨x', hx', hlast⟩ := h' slot x'' hx''
  obtain ⟨x, hx, hfirst⟩ := h slot x' hx'
  refine ⟨x, hx, ?_⟩
  rcases hlast with rfl | hclosed
  · exact hfirst
  · exact Or.inr hclosed

section

variable {e : Env} {starter : Starter} {turning : Nat} {s s' s'' : Server}

theorem Quiet.shifts (h : Quiet s s') : Shifts e starter turning s s' := by
  intro slot x' hx'
  obtain ⟨x, hx, hquiet⟩ := h slot x' hx'
  exact ⟨x, hx, .quiet hquiet, fun _ => hquiet⟩

/-- What is kept or closed after a shift shifted, or is closed. -/
theorem Shifts.then_quiet (h : Shifts e starter turning s s') (h' : Quiet s' s'') :
    Shifts e starter turning s s'' := by
  intro slot x'' hx''
  obtain ⟨x', hx', hlast⟩ := h' slot x'' hx''
  obtain ⟨x, hx, hshift, hother⟩ := h slot x' hx'
  refine ⟨x, hx, ?_⟩
  rcases hlast with rfl | hclosed
  · exact ⟨hshift, hother⟩
  · exact ⟨.quiet (Or.inr hclosed), fun _ => Or.inr hclosed⟩

/-- One slot shifts after sessions were closed. -/
theorem Quiet.then_set {x y : GameSession} (h : Quiet s s')
    (hslot : s.sessions[turning]? = some (some x)) (hshift : Shift e starter x y)
    (hset : s''.sessions = s'.sessions.set turning (some y)) : Shifts e starter turning s s'' := by
  intro i x' hx'
  rw [hset] at hx'
  rcases getElem?_set_some hx' with ⟨rfl, rfl⟩ | ⟨hne, hsame⟩
  · exact ⟨x, hslot, hshift, fun hne => absurd rfl hne⟩
  · obtain ⟨z, hz, hquiet⟩ := h i x' hsame
    exact ⟨z, hz, .quiet hquiet, fun _ => hquiet⟩

theorem KeptOrClosed.move {x x' : GameSession} (h : KeptOrClosed x x') : Move x x' := by
  rcases h with rfl | hclosed
  · exact .stay
  · exact .close hclosed

theorem Shift.move {x x' : GameSession} (h : Shift e starter x x') : Move x x' := by
  cases h with
  | quiet h => exact h.move
  | attach p hfrom hto h => exact .attach hfrom hto h
  | login p p' hfrom hplayer haccount hlogin =>
    obtain ⟨hsame, -, a, havatars, -, hcur⟩ := onLogin_ok hlogin
    rw [← hsame] at haccount
    refine .login p' hfrom haccount ⟨a, ?_, hcur⟩
    rw [havatars]
    exact List.mem_append_right _ (List.mem_singleton.mpr rfl)

theorem Shifts.moves (h : Shifts e starter turning s s') : Moves s s' := by
  intro slot x' hx'
  obtain ⟨x, hx, hshift, -⟩ := h slot x' hx'
  exact ⟨x, hx, hshift.move⟩

end

/-! ## The handlers -/

section

variable {e : Env} {m : Messages} {d : GameData} {seed : UInt64} {sends : Sends} {s : Server}
  {slot : Nat} {session : GameSession} {packet : Packet}

theorem handleGetPlayerTokenReq_shifts {req : Option GetPlayerTokenReq} {h : Handled}
    (hok : handleGetPlayerTokenReq e seed s slot req = .ok h) :
    Shifts e d.starter slot s h.server := by
  rcases handleGetPlayerTokenReq_ok hok with
    rfl | ⟨reason, hr⟩ | ⟨session, r, value, a, hslot, hstate, -, -, ha, henter⟩
  · exact (Quiet.refl s).shifts
  · exact (close_quiet (refused_ok hr).1).shifts
  · obtain ⟨s', p, haccount, hnothing, hold, hattach⟩ := enter_ok ha henter
    obtain ⟨session', hslot', hset⟩ := attach_ok hattach
    obtain ⟨a', ha'⟩ := Option.isSome_iff_exists.mp haccount
    have hbefore : Quiet s s' ∧ (session.player = none → session' = session) := by
      rcases hold with hsame | ⟨old, x, hx, hplayer, hclose⟩
      · rw [hsame, hslot] at hslot'
        cases hslot'
        exact ⟨.of_eq hsame, fun _ => rfl⟩
      · refine ⟨close_quiet hclose, fun hnone => ?_⟩
        -- a session without a player is not the one that is closed
        have hne : old ≠ slot := by
          intro heq
          rw [heq, hslot] at hx
          cases hx
          rw [hnone] at hplayer
          cases hplayer
        obtain ⟨y, -, hclosed, -⟩ := closeSession_ok hclose
        rw [hclosed, List.getElem?_set_ne hne, hslot] at hslot'
        cases hslot'
        rfl
    refine hbefore.1.then_set hslot (.attach p hstate rfl ⟨⟨p, a', rfl, ha'⟩, rfl, rfl⟩ rfl hnothing ?_)
      hset
    intro hnone
    rw [hbefore.2 hnone]

theorem returnToken_shifts {r : Returned} (hok : returnToken m sends e seed s slot packet = .ok r) :
    Shifts e d.starter slot s r.server := by
  obtain ⟨h, hhandled, hok⟩ := bind_eq_ok.mp hok
  have hshifts : Shifts e d.starter slot s h.server := handleGetPlayerTokenReq_shifts hhandled
  split at hok
  case h_1 =>
    obtain ⟨ret, -, hout⟩ := bind_eq_ok.mp hok
    cases hout
    exact hshifts
  case h_2 =>
    cases hok
    exact hshifts

theorem closing_quiet {reason : UInt32} {r : Returned} (hok : closing e s slot reason = .ok r) :
    Quiet s r.server := by
  obtain ⟨s', hclose, hout⟩ := bind_eq_ok.mp hok
  cases hout
  exact close_quiet hclose

/-- A login without a KCP object changes nothing. -/
theorem onLogin_shifts {p : Player} {s' : Server} (hslot : s.sessions[slot]? = some (some session))
    (hstate : session.state = loginWait) (hplayer : session.player = some p)
    (haccount : p.account.isSome) (hok : Handlers.onLogin e d s slot session p = .ok s') :
    Shifts e d.starter slot s s' := by
  obtain ⟨p', hlogin, hout⟩ := bind_eq_ok.mp hok
  cases hconnected : session.kcpSession.isSome with
  | false =>
    rw [hconnected] at hlogin hout
    cases hlogin
    cases hout
    refine (Quiet.refl s).then_set hslot (.quiet (Or.inl rfl)) ?_
    rw [← hplayer]
    rfl
  | true =>
    rw [hconnected] at hlogin hout
    cases hout
    exact (Quiet.refl s).then_set hslot (.login p p' hstate hplayer haccount hlogin) rfl

theorem handlePlayerLoginReq_shifts {r : Returned} (hslot : s.sessions[slot]? = some (some session))
    (hok : handlePlayerLoginReq m sends e d s slot session packet = .ok r) :
    Shifts e d.starter slot s r.server := by
  unfold handlePlayerLoginReq at hok
  split at hok
  case isTrue =>
    cases hok
    exact (Quiet.refl s).shifts
  case isFalse hstate =>
    split at hok
    case h_1 =>
      cases hok
      exact (Quiet.refl s).shifts
    case h_2 token =>
      split at hok
      case h_1 => exact (closing_quiet hok).shifts
      case h_2 account haccount =>
        split at hok
        case isTrue => exact (closing_quiet hok).shifts
        case isFalse =>
          split at hok
          case isFalse => exact (closing_quiet hok).shifts
          case isTrue =>
            split at hok
            case h_1 => exact (closing_quiet hok).shifts
            case h_2 p hp =>
              obtain ⟨ret, -, hok⟩ := bind_eq_ok.mp hok
              split at hok
              case isTrue =>
                cases hok
                exact (Quiet.refl s).shifts
              case isFalse =>
                obtain ⟨s', hlogin, hout⟩ := bind_eq_ok.mp hok
                cases hout
                rw [hp] at haccount
                have hsome : p.account.isSome := Option.isSome_of_eq_some haccount
                exact onLogin_shifts hslot (Decidable.not_not.mp hstate) hp hsome hlogin

/-- Whatever sending the reply comes to, the server is left as it was. -/
theorem reply_server {x : Except Fault Int} {r : Returned}
    (hok : (do return { server := s, ret := ← x } : Except Fault Returned) = .ok r) : r.server = s := by
  obtain ⟨ret, -, hout⟩ := bind_eq_ok.mp hok
  cases hout
  rfl

theorem handlePingReq_server {r : Returned} (hok : handlePingReq m sends s session packet = .ok r) :
    r.server = s := by
  unfold handlePingReq at hok
  split at hok
  case isTrue =>
    cases hok
    rfl
  case isFalse =>
    split at hok
    case isTrue =>
      cases hok
      rfl
    case isFalse => exact reply_server hok

theorem handleEnterSceneReadyReq_server {r : Returned}
    (hok : handleEnterSceneReadyReq sends s session = .ok r) : r.server = s := by
  unfold handleEnterSceneReadyReq at hok
  split at hok
  case h_1 =>
    cases hok
    rfl
  case h_2 =>
    obtain ⟨ret, -, hok⟩ := bind_eq_ok.mp hok
    split at hok
    case isTrue =>
      cases hok
      rfl
    case isFalse => exact reply_server hok

theorem handleSceneInitFinishReq_server {r : Returned}
    (hok : handleSceneInitFinishReq m sends d s session packet = .ok r) : r.server = s := by
  unfold handleSceneInitFinishReq at hok
  split at hok
  case h_1 =>
    cases hok
    rfl
  case h_2 player _ =>
    split at hok
    case h_1 =>
      cases hok
      rfl
    case h_2 token _ =>
      split at hok
      case isTrue => exact reply_server hok
      case isFalse =>
        obtain ⟨ret, -, hok⟩ := bind_eq_ok.mp hok
        split at hok
        case isTrue =>
          cases hok
          rfl
        case isFalse =>
          obtain ⟨found, -, hok⟩ := bind_eq_ok.mp hok
          cases found with
          | none => exact reply_server hok
          | some avatar =>
            obtain ⟨ret', -, hok⟩ := bind_eq_ok.mp hok
            split at hok
            case isTrue =>
              cases hok
              rfl
            case isFalse => exact reply_server hok

theorem processPacket_shifts {r : Processed} (hslot : s.sessions[slot]? = some (some session))
    (hok : processPacket e m d seed sends s slot session packet = .ok r) :
    Shifts e d.starter slot s r.server := by
  have hhandled : ∀ {x : Except Fault Returned}, handled x = .ok r →
      (∀ {r' : Returned}, x = .ok r' → Shifts e d.starter slot s r'.server) →
        Shifts e d.starter slot s r.server := by
    intro x hx hshifts
    obtain ⟨r', hr', hout⟩ := bind_eq_ok.mp hx
    cases hout
    exact hshifts hr'
  have hsame : ∀ {r' : Returned}, r'.server = s → Shifts e d.starter slot s r'.server :=
    fun h => (Quiet.of_eq (congrArg Server.sessions h)).shifts
  unfold processPacket at hok
  split at hok
  · exact hhandled hok fun h => hsame (handlePingReq_server h)
  · exact hhandled hok returnToken_shifts
  · exact hhandled hok (handlePlayerLoginReq_shifts hslot)
  · exact hhandled hok fun h => hsame (handleEnterSceneReadyReq_server h)
  · exact hhandled hok fun h => hsame (handleSceneInitFinishReq_server h)
  · exact hhandled hok fun h => hsame (reply_server h)
  · exact hhandled hok fun h => hsame (by cases h; rfl)
  · cases hok
    exact (Quiet.refl s).shifts

theorem receive_shifts {t : Turn} {s' : Server} {left : Bool}
    (hslot : s.sessions[slot]? = some (some session))
    (hok : receive e m d s slot session t = .ok (s', left)) :
    Shifts e d.starter slot s s' := by
  unfold receive at hok
  split at hok
  case h_1 =>
    cases hok
    exact (Quiet.refl s).shifts
  case h_2 packet _ =>
    obtain ⟨r, hr, hout⟩ := bind_eq_ok.mp hok
    cases hout
    exact processPacket_shifts hslot hr

theorem turn_shifts {t : Turn} {s' : Server} (hok : turn e m d s slot t = .ok s') :
    Shifts e d.starter slot s s' := by
  unfold turn at hok
  split at hok
  case h_2 => cases hok
  case h_1 session hslot =>
    split at hok
    case isTrue => exact (close_quiet hok).shifts
    case isFalse =>
      obtain ⟨⟨s₁, left⟩, hreceive, hok⟩ := bind_eq_ok.mp hok
      have hshifts := receive_shifts hslot hreceive
      dsimp only at hok
      split at hok
      case isTrue => exact hshifts.then_quiet (close_quiet hok)
      case isFalse =>
        split at hok
        case isTrue => exact hshifts.then_quiet (close_quiet hok)
        case isFalse =>
          cases hok
          exact hshifts

end

/-! ## Every step -/

structure Opened (x : GameSession) : Prop where
  state : x.state = tokenWait
  player : x.player = none
  secret : x.useSecretKey = false

/-- Every session after is new, or one from before that moved. -/
def Steps (s s' : Server) : Prop :=
  ∀ (slot : Nat) (x' : GameSession), s'.sessions[slot]? = some (some x') →
    Opened x' ∨ ∃ x, s.sessions[slot]? = some (some x) ∧ Move x x'

/-- Every session after is newly opened, or one from before that is kept or closed. -/
def Renews (s s' : Server) : Prop :=
  ∀ (slot : Nat) (x' : GameSession), s'.sessions[slot]? = some (some x') →
    (∃ o, x' = openSession o) ∨ ∃ x, s.sessions[slot]? = some (some x) ∧ KeptOrClosed x x'

theorem Moves.steps {s s' : Server} (h : Moves s s') : Steps s s' :=
  fun slot x' hx' => Or.inr (h slot x' hx')

theorem openSession_opened (o : Opening) : Opened (openSession o) := ⟨rfl, rfl, rfl⟩

theorem Renews.steps {s s' : Server} (h : Renews s s') : Steps s s' := by
  intro slot x' hx'
  rcases h slot x' hx' with ⟨o, rfl⟩ | ⟨x, hx, hquiet⟩
  · exact Or.inl (openSession_opened o)
  · exact Or.inr ⟨x, hx, hquiet.move⟩

theorem Quiet.renews {s s' : Server} (h : Quiet s s') : Renews s s' :=
  fun slot x' hx' => Or.inr (h slot x' hx')

theorem Renews.put {s s' : Server} (h : Renews s s') (slot : Nat) {session : Option GameSession}
    (hopened : ∀ x, session = some x → ∃ o, x = openSession o) :
    Renews s (Server.put s' slot session) := by
  intro i x' hx'
  unfold Server.put at hx'
  dsimp only at hx'
  rw [List.getElem?_set] at hx'
  split at hx'
  case isTrue =>
    split at hx'
    case isTrue => exact Or.inl (hopened x' (Option.some.inj hx'))
    case isFalse => cases hx'
  case isFalse => exact h i x' hx'

theorem Renews.put_open {s s' : Server} (h : Renews s s') (slot : Nat) (o : Opening) :
    Renews s (Server.put s' slot (some (openSession o))) :=
  h.put slot fun _ hx => ⟨o, (Option.some.inj hx).symm⟩

variable {e : Env} {m : Messages} {d : GameData}

theorem deleteSession_renews {s s' s'' : Server} {slot : Nat} (h : Quiet s s')
    (hok : deleteSession e s' slot = .ok s'') : Renews s s'' := by
  obtain ⟨t, hclose, hout⟩ := bind_eq_ok.mp hok
  cases hout
  exact (h.trans (close_quiet hclose)).renews.put slot (by simp)

theorem accept_renews {s s' : Server} {slot : Nat} {o : Opening} (hok : accept e s slot o = .ok s') :
    Renews s s' := by
  unfold accept at hok
  split at hok
  case h_1 =>
    cases hok
    exact (Quiet.refl s).renews.put_open slot o
  case h_3 => cases hok
  case h_2 session _ =>
    split at hok
    case isTrue =>
      obtain ⟨t, hdelete, hout⟩ := bind_eq_ok.mp hok
      cases hout
      exact (deleteSession_renews (.refl s) hdelete).put_open slot o
    case isFalse =>
      split at hok
      case h_1 =>
        cases hok
        exact (Quiet.refl s).renews
      case h_2 reason _ =>
        obtain ⟨t, hclose, hok⟩ := bind_eq_ok.mp hok
        obtain ⟨t', hdelete, hout⟩ := bind_eq_ok.mp hok
        cases hout
        exact (deleteSession_renews (close_quiet hclose) hdelete).put_open slot o

theorem stopAt_renews {s s' : Server} {slot : Nat} (hok : stopAt e s slot = .ok s') : Renews s s' := by
  unfold stopAt at hok
  split at hok
  case h_1 =>
    obtain ⟨t, hclose, hok⟩ := bind_eq_ok.mp hok
    exact deleteSession_renews (close_quiet hclose) hok
  case h_2 =>
    cases hok
    exact (Quiet.refl s).renews

/-- A turn shifts its session, and every other action only opens and closes sessions. -/
theorem act_cases {s s' : Server} {action : Action} (hok : act e m d s action = .ok s') :
    (∃ slot t, action = .turn slot t ∧ Shifts e d.starter slot s s') ∨
      ((∀ slot t, action ≠ .turn slot t) ∧ Renews s s') := by
  cases action with
  | turn slot t => exact Or.inl ⟨slot, t, rfl, turn_shifts hok⟩
  | close slot reason => exact Or.inr ⟨nofun, (close_quiet hok).renews⟩
  | accept slot o => exact Or.inr ⟨nofun, accept_renews hok⟩
  | stop slot => exact Or.inr ⟨nofun, stopAt_renews hok⟩
  | changeStore gate =>
    cases hok
    exact Or.inr ⟨nofun, (Quiet.of_eq rfl).renews⟩

theorem step_steps {s s' : Server} {ev : Event} (hok : step e m d s ev = .ok s') : Steps s s' := by
  rcases act_cases hok with ⟨slot, t, -, hshifts⟩ | ⟨-, hrenews⟩
  · exact hshifts.moves.steps
  · exact hrenews.steps

/-! ## The invariant -/

theorem opened_wellFormed {x : GameSession} (h : Opened x) : WellFormed x where
  notConnected := fun hs => absurd (h.state.symm.trans hs) (by decide)
  tokenWait := fun _ => ⟨h.player, h.secret⟩
  loginWait := fun hs => absurd (h.state.symm.trans hs) (by decide)
  active := fun hs => absurd (h.state.symm.trans hs) (by decide)

theorem move_wellFormed {x x' : GameSession} (hx : WellFormed x) (h : Move x x') : WellFormed x' := by
  cases h with
  | stay => exact hx
  | close h =>
    constructor
    · exact fun _ => ⟨h.player, h.kcpSession⟩
    · exact fun hs => absurd (h.state.symm.trans hs) (by decide)
    · exact fun hs => absurd (h.state.symm.trans hs) (by decide)
    · exact fun hs => absurd (h.state.symm.trans hs) (by decide)
  | attach hfrom hto h =>
    constructor
    · exact fun hs => absurd (hto.symm.trans hs) (by decide)
    · exact fun hs => absurd (hto.symm.trans hs) (by decide)
    · exact fun _ => h
    · exact fun hs => absurd (hto.symm.trans hs) (by decide)
  | login p hfrom haccount havatar =>
    obtain ⟨a, ha⟩ := Option.isSome_iff_exists.mp haccount
    obtain ⟨-, hsecret, hkey⟩ := hx.loginWait hfrom
    constructor
    · exact fun (hs : Handlers.active = _) => absurd hs (by decide)
    · exact fun (hs : Handlers.active = _) => absurd hs (by decide)
    · exact fun (hs : Handlers.active = _) => absurd hs (by decide)
    · exact fun _ => ⟨⟨⟨p, a, rfl, ha⟩, hsecret, hkey⟩, p, rfl, havatar⟩

def AllWellFormed (s : Server) : Prop :=
  ∀ (slot : Nat) (x : GameSession), s.sessions[slot]? = some (some x) → WellFormed x

theorem start_wellFormed (gate : DbGate) (maxSessions : Nat) : AllWellFormed (start gate maxSessions) := by
  intro slot x hx
  have hmem := List.mem_of_getElem? hx
  cases List.eq_of_mem_replicate hmem

theorem step_wellFormed {s s' : Server} {ev : Event} (hs : AllWellFormed s)
    (hok : step e m d s ev = .ok s') : AllWellFormed s' := by
  intro slot x' hx'
  rcases step_steps hok slot x' hx' with hopened | ⟨x, hx, hmove⟩
  · exact opened_wellFormed hopened
  · exact move_wellFormed (hs slot x hx) hmove

theorem move_enters_active {x x' : GameSession} (h : Move x x') (hactive : x'.state = active) :
    x.state = active ∨ x.state = loginWait := by
  cases h with
  | stay => exact Or.inl hactive
  | close h => exact absurd (h.state.symm.trans hactive) (by decide)
  | attach hfrom hto h => exact absurd (hto.symm.trans hactive) (by decide)
  | login p hfrom => exact Or.inr hfrom

theorem move_enters_loginWait {x x' : GameSession} (h : Move x x') (hwait : x'.state = loginWait) :
    x.state = loginWait ∨ x.state = tokenWait := by
  cases h with
  | stay => exact Or.inl hwait
  | close h => exact absurd (h.state.symm.trans hwait) (by decide)
  | attach hfrom hto h => exact Or.inr hfrom
  | login p hfrom => exact absurd (show active = loginWait from hwait) (by decide)

theorem step_enters {s s' : Server} {ev : Event} (hok : step e m d s ev = .ok s') :
    EntersFrom active loginWait s s' ∧ EntersFrom loginWait tokenWait s s' := by
  constructor
  · intro slot x' hx' hactive
    rcases step_steps hok slot x' hx' with hopened | ⟨x, hx, hmove⟩
    · exact absurd (hopened.state.symm.trans hactive) (by decide)
    · exact ⟨x, hx, move_enters_active hmove hactive⟩
  · intro slot x' hx' hwait
    rcases step_steps hok slot x' hx' with hopened | ⟨x, hx, hmove⟩
    · exact absurd (hopened.state.symm.trans hwait) (by decide)
    · exact ⟨x, hx, move_enters_loginWait hmove hwait⟩

/-- Whatever clients send and whoever closes sessions, every session is well formed after every
run, and the next step enters the states after a token and after a login only in order. -/
theorem session_login_order (e : Env) (m : Messages) (d : GameData) (gate : DbGate)
    (maxSessions : Nat) {events : List Event} {s : Server}
    (hrun : run (step e m d) (start gate maxSessions) events = .ok s) :
    (∀ (slot : Nat) (x : GameSession), s.sessions[slot]? = some (some x) → WellFormed x) ∧
      ∀ ev s', step e m d s ev = .ok s' →
        EntersFrom active loginWait s s' ∧ EntersFrom loginWait tokenWait s s' :=
  ⟨run_invariant AllWellFormed (fun _ _ _ hs hok => step_wellFormed hs hok)
      (start_wellFormed gate maxSessions) hrun,
    fun _ _ hok => step_enters hok⟩

/-! ## A first login -/

def anyMessage : Messages where
  packetHead := fun _ => true
  pingReq := fun _ => true
  tokenReq := fun _ => some { accountUid := [0x31], accountToken := [0x61, 0x62] }
  loginReq := fun _ => some [0x61, 0x62]
  sceneInitFinishReq := fun _ => some 0

def anyGame : GameData where
  starter := { weapon := [], avatar := some [] }
  hasWeapon := fun _ => true

/-- An account, with the combo token "ab" in hex. -/
def oneAccount : DbGate where
  db := OrderedStore.empty.put (accountKey 1)
    (packedCodecs.account.serialize { (default : AccountInfo) with id := 1, comboToken := [0xab] })
  nextIds := default

def arriving (opcode : Nat) : Event where
  action := .turn 0
    { received := some { opcode := UInt16.ofNat opcode }, seed := 7, sends := fun _ => some 0
      timedOut := false }
  now := 0
  stale := packedEnv.stale

def opening : Event where
  action := .accept 0 { sock := 0, sid := 1, seed := 0, key := [] }
  now := 0
  stale := packedEnv.stale

def firstLogin : List Event := [opening, arriving getPlayerTokenReqCmdId, arriving playerLoginReqCmdId]

theorem first_login_order : ∃ s,
    run (step packedEnv anyMessage anyGame) (start oneAccount 1) firstLogin = .ok s ∧
    stateOf s 0 = active ∧
    ((∀ (slot : Nat) (x : GameSession), s.sessions[slot]? = some (some x) → WellFormed x) ∧
      ∀ ev s', step packedEnv anyMessage anyGame s ev = .ok s' →
        EntersFrom active loginWait s s' ∧ EntersFrom loginWait tokenWait s s') := by
  obtain ⟨s, hrun, hstate⟩ : ∃ s, run (step packedEnv anyMessage anyGame) (start oneAccount 1)
      firstLogin = .ok s ∧ stateOf s 0 = active := map_eq_ok.mp (by decide +kernel)
  exact ⟨s, hrun, hstate, session_login_order _ _ _ _ _ hrun⟩

end Yagips.Game.SessionMachine
