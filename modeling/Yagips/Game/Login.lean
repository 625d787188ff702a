import Yagips.Crypto.Mt19937
import Yagips.Game.PlayerStore

/-!
# The token request

`handleGetPlayerTokenReq` checks the token, loads the player of the account, closes the
session that holds the same player, and attaches what it loaded. A session closes by
deleting its player, whose destructor saves it.
-/
namespace Yagips.Game.Login

open Yagips.Lib
open Yagips.Server.Sessions
open Yagips.Store.Accounts
open Yagips.Store.Gate
open Yagips.Game.Players
open Yagips.Game.PlayerStore
open Yagips.Crypto.Mt19937

structure Server where
  gate : DbGate
  sessions : Sessions

/-! ## C library -/

def isSpace (b : UInt8) : Bool := b = 0x20 || (0x09 ≤ b && b ≤ 0x0d)

/-- The value of a digit in bases up to 16. -/
def digitValue (b : UInt8) : Option Nat :=
  if 0x30 ≤ b ∧ b ≤ 0x39 then some (b.toNat - 0x30)
  else if 0x41 ≤ b ∧ b ≤ 0x46 then some (b.toNat - 0x37)
  else if 0x61 ≤ b ∧ b ≤ 0x66 then some (b.toNat - 0x57)
  else none

/-- The digits of a base at the start of a string. -/
def digitsOf (base : Nat) : Bytes → List Nat
  | [] => []
  | b :: rest =>
    match digitValue b with
    | some d => if d < base then d :: digitsOf base rest else []
    | none => []

/-- The base the prefix announces, and the text behind it. A prefix `0x` counts only with
a digit behind it. -/
def basePrefix : Bytes → Nat × Bytes
  | 0x30 :: x :: rest =>
    if (x = 0x78 ∨ x = 0x58) ∧ digitsOf 16 rest ≠ [] then (16, rest) else (8, 0x30 :: x :: rest)
  | 0x30 :: [] => (8, [0x30])
  | s => (10, s)

/-- `strtoul` with base 0, or `none` where it converts nothing. What is too large gives
`ULONG_MAX`. -/
def strtoul (s : Bytes) : Option UInt64 :=
  let s := (cstr s).dropWhile isSpace
  let negative := s.head? = some 0x2d
  let s := if negative ∨ s.head? = some 0x2b then s.tail else s
  let (base, s) := basePrefix s
  match digitsOf base s with
  | [] => none
  | digits =>
    let value := digits.foldl (fun n d => n * base + d) 0
    if 2 ^ 64 ≤ value then some (UInt64.ofNat (2 ^ 64 - 1))
    else if negative then some (0 - UInt64.ofNat value)
    else some (UInt64.ofNat value)

/-! ## Closing a session -/

/-- `Session::close` for the session in a slot. The KCP object is gone when the player
saves itself. -/
def closeSession (e : Env) (s : Server) (slot : Nat) (reason : UInt32) : Except Fault Server :=
  match s.sessions[slot]? with
  | some (some session) =>
    let closed := { session with toSession := (session.toSession.close reason).session }
    match session.player with
    | none => return { s with sessions := s.sessions.set slot (some closed) }
    | some player => do
      let saving := s.sessions.set slot (some { session with kcpSession := none })
      let gate ← saveToDb e s.gate saving player
      return { gate, sessions := s.sessions.set slot (some closed) }
  | _ => .error .pointer

/-! ## The request -/

structure GetPlayerTokenReq where
  accountUid : Bytes
  accountToken : Bytes

structure GetPlayerTokenRsp where
  retcode : Int32
  msg : String
  uid : UInt32
  token : Bytes
  accountType : UInt32
  channelId : UInt32
  platformType : UInt32
  countryCode : String
  isProficientPlayer : Bool
  secretKeySeed : UInt64
  securityCmdBuffer : Bytes

/-- What the handler leaves, and the reply it builds where it gets that far. -/
structure Handled where
  server : Server
  reply : Option GetPlayerTokenRsp

def loginWait : Int := 2

def secretKeyBuf : Bytes :=
  [0xec, 0xfc, 0x6c, 0x74, 0x31, 0x4c, 0x09, 0xa7,
    0x9d, 0xdc, 0x9f, 0xdc, 0x2e, 0x15, 0xd5, 0x5c,
    0xf6, 0x70, 0x58, 0x50, 0xa6, 0x9c, 0x22, 0xc6,
    0x80, 0x28, 0xbe, 0x05, 0x61, 0xc6, 0xed, 0x85]

def refused (e : Env) (s : Server) (slot : Nat) (reason : UInt32) : Except Fault Handled := do
  return { server := ← closeSession e s slot reason, reply := none }

/-- From `setPlayer` on. `seed` is what `getrandom` draws for the session. -/
def attach (s : Server) (slot : Nat) (account : Account) (player : Player) (seed : UInt64) :
    Except Fault Handled :=
  match s.sessions[slot]? with
  | some (some session) =>
    let session : GameSession :=
      { session with
        player := some player
        sessionSeed := seed
        sessionKey := genXorpadFromSeed seed 4096 false true
        useSecretKey := true
        state := loginWait }
    return {
      server := { s with sessions := s.sessions.set slot (some session) }
      reply := some {
        retcode := 0, msg := "ok", uid := player.uid, token := account.comboToken, accountType := 1
        channelId := 1, platformType := 3, countryCode := "US", isProficientPlayer := false
        secretKeySeed := seed, securityCmdBuffer := secretKeyBuf } }
  | _ => .error .pointer

/-- The server once the session that holds the player's id is closed, if there is one. -/
def closeOld (e : Env) (s : Server) (uid : UInt32) : Except Fault Server := do
  match ← getSessionByUid s.sessions uid with
  | none => return s
  | some old => closeSession e s old 4

/-- The handler once the token is accepted. -/
def enter (e : Env) (s : Server) (slot : Nat) (account : Account) (aid : UInt32) (seed : UInt64) :
    Except Fault Handled := do
  match ← getPlayerByAid e s.gate s.sessions aid with
  | some player =>
    -- the copy was read before the old session saves its own
    let s ← closeOld e s player.uid
    attach s slot account player seed
  | none =>
    let (player, gate) ← newPlayer e s.gate s.sessions
    let player := { player with account := some account }
    let gate ← saveToDb e gate s.sessions player
    attach { s with gate } slot account player seed

/-- `handleGetPlayerTokenReq` for the session in a slot, with the request if it parses. -/
def handleGetPlayerTokenReq (e : Env) (seed : UInt64) (s : Server) (slot : Nat)
    (req : Option GetPlayerTokenReq) : Except Fault Handled :=
  match s.sessions[slot]? with
  | some (some session) =>
    if session.state ≠ tokenWait then return { server := s, reply := none }
    else match req with
      | none => return { server := s, reply := none }
      | some req =>
        match strtoul req.accountUid with
        | none => refused e s slot 12
        | some value => do
          let aid := value.toUInt32
          match ← s.gate.getAccountByAid e.codecs aid with
          | none => refused e s slot 7
          | some account =>
            if account.comboToken = [] then refused e s slot 8
            else if strncmpEqual account.comboToken req.accountToken account.comboToken.length then
              enter e s slot account aid seed
            else refused e s slot 7
  | _ => .error .pointer

theorem refused_ok {e : Env} {s : Server} {slot : Nat} {reason : UInt32} {h : Handled}
    (hok : refused e s slot reason = .ok h) :
    closeSession e s slot reason = .ok h.server ∧ h.reply = none := by
  obtain ⟨s', hclose, hout⟩ := bind_eq_ok.mp hok
  cases hout
  exact ⟨hclose, rfl⟩

/-- A request leaves all as it is, closes the session, or is accepted where the session waits
for it and it names an account that exists. -/
theorem handleGetPlayerTokenReq_ok {e : Env} {seed : UInt64} {s : Server} {slot : Nat}
    {req : Option GetPlayerTokenReq} {h : Handled}
    (hok : handleGetPlayerTokenReq e seed s slot req = .ok h) :
    h = { server := s, reply := none } ∨ (∃ reason, refused e s slot reason = .ok h) ∨
      ∃ session r value a, s.sessions[slot]? = some (some session) ∧ session.state = tokenWait ∧
        req = some r ∧ strtoul r.accountUid = some value ∧
        s.gate.getAccountByAid e.codecs value.toUInt32 = .ok (some a) ∧
        enter e s slot a value.toUInt32 seed = .ok h := by
  unfold handleGetPlayerTokenReq at hok
  split at hok
  case h_2 => cases hok
  case h_1 session hslot =>
    split at hok
    case isTrue => exact Or.inl (Except.ok.inj hok).symm
    case isFalse hstate =>
      split at hok
      case h_1 => exact Or.inl (Except.ok.inj hok).symm
      case h_2 r =>
        split at hok
        case h_1 => exact Or.inr (Or.inl ⟨12, hok⟩)
        case h_2 value hvalue =>
          obtain ⟨found, ha, hok⟩ := bind_eq_ok.mp hok
          cases found with
          | none => exact Or.inr (Or.inl ⟨7, hok⟩)
          | some a =>
            dsimp only at hok
            split at hok
            case isTrue => exact Or.inr (Or.inl ⟨8, hok⟩)
            case isFalse =>
              split at hok
              case isTrue =>
                exact Or.inr (Or.inr
                  ⟨session, r, value, a, hslot, Decidable.not_not.mp hstate, rfl, hvalue, ha, hok⟩)
              case isFalse => exact Or.inr (Or.inl ⟨7, hok⟩)

/-- What attaching leaves in the slot, and that it touches no other. -/
theorem attach_ok {s : Server} {slot : Nat} {a : Account} {p : Player} {seed : UInt64} {h : Handled}
    (hok : attach s slot a p seed = .ok h) : ∃ session, s.sessions[slot]? = some (some session) ∧
      h.server.sessions = s.sessions.set slot (some { session with
        player := some p
        sessionSeed := seed
        sessionKey := genXorpadFromSeed seed 4096 false true
        useSecretKey := true
        state := loginWait }) := by
  unfold attach at hok
  split at hok
  case h_1 session hslot =>
    cases hok
    exact ⟨session, hslot, rfl⟩
  case h_2 => cases hok

/-- A closed session is in its slot, no other slot is touched, and its player is saved. -/
theorem closeSession_ok {e : Env} {s s' : Server} {slot : Nat} {reason : UInt32}
    (hok : closeSession e s slot reason = .ok s') :
    ∃ session, s.sessions[slot]? = some (some session) ∧
      s'.sessions = s.sessions.set slot (some { session with
        toSession := (session.toSession.close reason).session }) ∧
      ∀ p, session.player = some p → saveToDb e s.gate
        (s.sessions.set slot (some { session with kcpSession := none })) p = .ok s'.gate := by
  unfold closeSession at hok
  split at hok
  case h_2 => cases hok
  case h_1 session hslot =>
    refine ⟨session, hslot, ?_⟩
    dsimp only at hok
    split at hok
    case h_1 hnone =>
      cases hok
      exact ⟨rfl, fun p hp => (nomatch hnone.symm.trans hp)⟩
    case h_2 player hplayer =>
      obtain ⟨gate, hsave, hout⟩ := bind_eq_ok.mp hok
      cases hout
      refine ⟨rfl, fun p hp => ?_⟩
      cases hplayer.symm.trans hp
      exact hsave

/-- The player an accepted request attaches has an account and holds nothing yet. A session that
is closed before has a player. -/
theorem enter_ok {e : Env} {s : Server} {slot : Nat} {a : Account} {aid : UInt32} {seed : UInt64}
    {h : Handled} (ha : s.gate.getAccountByAid e.codecs aid = .ok (some a))
    (hok : enter e s slot a aid seed = .ok h) : ∃ s' p, p.account.isSome ∧ HoldsNothing p ∧
      (s'.sessions = s.sessions ∨ ∃ old session, s.sessions[old]? = some (some session) ∧
        session.player.isSome ∧ closeSession e s old 4 = .ok s') ∧
      attach s' slot a p seed = .ok h := by
  obtain ⟨found, hfound, hok⟩ := bind_eq_ok.mp hok
  cases found with
  | none =>
    obtain ⟨⟨p, g⟩, hnew, hok⟩ := bind_eq_ok.mp hok
    obtain ⟨g', -, hok⟩ := bind_eq_ok.mp hok
    obtain ⟨uid, -, -, rfl, -⟩ := newPlayer_ok hnew
    exact ⟨{ s with gate := g' }, { Player.fresh e uid with account := some a }, rfl, ⟨rfl, rfl⟩,
      Or.inl rfl, hok⟩
  | some p =>
    obtain ⟨s', hold, hok⟩ := bind_eq_ok.mp hok
    obtain ⟨haccount, hnothing⟩ : p.account.isSome ∧ HoldsNothing p := by
      unfold getPlayerByAid at hfound
      split at hfound
      case h_1 => cases hfound
      case h_2 i hi =>
        obtain ⟨n, hn, hout⟩ := bind_eq_ok.mp hfound
        cases hout
        obtain ⟨-, -, -, -, -, haid⟩ := firstRecord_some hi
        have haccount := (ofInfo_readBack hn).1
        rw [of_decide_eq_true haid, ha] at haccount
        refine ⟨?_, ofInfo_holdsNothing hn⟩
        rw [← Except.ok.inj haccount]
        rfl
    refine ⟨s', p, haccount, hnothing, ?_, hok⟩
    obtain ⟨old, hfind, hclose⟩ := bind_eq_ok.mp hold
    cases old with
    | none =>
      cases hclose
      exact Or.inl rfl
    | some old =>
      obtain ⟨session, hslot, htest⟩ := findSession_some hfind
      obtain ⟨q, hq, -⟩ := (Option.any_eq_true _ _).mp htest
      exact Or.inr ⟨old, session, hslot, Option.isSome_of_eq_some hq, hclose⟩

end Yagips.Game.Login
