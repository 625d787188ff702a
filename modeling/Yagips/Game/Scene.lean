import Yagips.Game.SessionMachine

/-!
# Scene requests

The two handlers of the scene requests ask for a player and not for the state of the session. One
of them goes on to the current avatar and its weapon. Both are followed along runs of the server,
together with the members of avatars and items that decide which pointers are set.
-/
namespace Yagips.Game.Scene

open Yagips.Lib
open Yagips.Lib.Run
open Yagips.Server.Sessions
open Yagips.Store.Gate
open Yagips.Store.Inventory
open Yagips.Game.Players
open Yagips.Game.PlayerStore
open Yagips.Game.Holdings
open Yagips.Game.Login
open Yagips.Game.Handlers
open Yagips.Game.SessionMachine
open Yagips.Wire.Frame

/-! ## Weapons -/

inductive ItemType where
  | material
  | artifact
  | weapon
  deriving DecidableEq

/-- The weapon of an `Avatar`, by the place of the item it points to, and `set_equips`. -/
structure Equips where
  weapon : Option Nat
  setEquips : Bool
  deriving DecidableEq

/-- The types of a player's items, and the equips of its avatars. -/
structure Gear where
  types : List ItemType
  equips : List Equips
  deriving DecidableEq

def Gear.empty : Gear where
  types := []
  equips := []

/-- The constructor of `Avatar` for an id. -/
def Equips.new : Equips where
  weapon := none
  setEquips := false

/-- `setWeapon`, which reads the type of what it is given. -/
def Equips.setWeapon (types : List ItemType) (x : Equips) (item : Option Nat) : Except Fault Equips :=
  match item.bind (types[·]?) with
  | none => .error .pointer
  | some .weapon => return { x with weapon := item }
  | some _ => return x

/-- `loadEquips` unless it is done. It looks up the equips of the avatar in its owner, read once
more from the store. The constructor gives that player no items, so none is found. -/
def Equips.load (e : Env) (s : Server) (guid : UInt64) (x : Equips) : Except Fault Equips :=
  if x.setEquips then return x
  else if highHalf guid = 0 then return x
  else do
    match ← getPlayerByUid e s.gate s.sessions (highHalf guid) with
    | none => return x
    | some _ => return { x with setEquips := true }

/-- The item that a login adds, as it is found again under its guid. -/
def starterItem (starter : Starter) (p : Player) : Option Nat :=
  let p := Player.addItem p { id := weaponId, guid := weaponGuid p.uid, fields := starter.weapon }
  p.inventory.getLast?.bind fun it => p.inventory.findIdx? (·.guid = it.guid)

/-- What `onLogin` does to the gear of a player. -/
def Gear.onLogin (e : Env) (starter : Starter) (s : Server) (p : Player) (g : Gear) :
    Except Fault Gear := do
  let types := g.types ++ [.weapon]
  let av ← Equips.new.setWeapon types (starterItem starter p)
  -- the avatar is copied into the list before its own equips are loaded for the notification
  let _ ← av.load e s (starterGuid p.uid)
  return { types, equips := g.equips ++ [av] }

/-! ## The handlers -/

/-- `getCurAvatar`. What a pointer that no call has set reads as is left to chance, so it has to
point into the list. -/
def getCurAvatar (p : Player) : Except Fault (Option Holding) :=
  match p.curAvatar with
  | .avatar guid => if p.avatars.any (·.guid = guid) then return p.getAvatarByGuid guid else .error .pointer
  | _ => .error .pointer

/-- The equips of the avatar under a guid. -/
def equipsOf (p : Player) (g : Gear) (guid : UInt64) : Option (Nat × Equips) :=
  (p.avatars.findIdx? (·.guid = guid)).bind fun i => (g.equips[i]?).map fun x => (i, x)

/-- The conversion of an avatar loads its equips, and its weapon is read behind. -/
def readAvatar (e : Env) (s : Server) (p : Player) (g : Gear) (avatar : Holding) : Except Fault Gear :=
  match equipsOf p g avatar.guid with
  | none => .error .pointer
  | some (i, x) => do
    let x ← x.load e s avatar.guid
    match x.weapon.bind (g.types[·]?) with
    | none => .error .pointer
    | some _ => return { g with equips := g.equips.set i x }

section

variable (e : Env) (m : Messages) (sends : Sends)

/-- What the handler returns, with the gear it leaves. -/
def handleSceneInitFinishReq (s : Server) (session : GameSession) (g : Gear) (packet : Packet) :
    Except Fault (Int × Gear) :=
  match session.player with
  | none => return (-1, g)
  | some player =>
    match m.sceneInitFinishReq packet.data with
    | none => return (-1, g)
    | some token =>
      if player.tpToken ≠ token then do return (← send session sends, g)
      else do
        if (← send session sends) < 0 then return (-1, g)
        else match ← getCurAvatar player with
          | none => return (← send session sends.next, g)
          | some avatar => do
            let g ← readAvatar e s player g avatar
            if (← send session sends.next) < 0 then return (-1, g)
            else return (← send session sends.next.next, g)

/-- The gear after a turn's request, if it is one of the two and is answered or fails. -/
def sceneRequest (s : Server) (slot : Nat) (t : Turn) (g : Gear) : Except Fault Gear :=
  match s.sessions[slot]?, t.received with
  | some (some session), some packet =>
    if session.state ≤ notConnected then return g
    else match packet.opcode.toNat with
      | enterSceneReadyReqCmdId => do
        let _ ← handleEnterSceneReadyReq t.sends s session
        return g
      | sceneInitFinishReqCmdId => do
        let r ← handleSceneInitFinishReq e m t.sends s session g packet
        return r.2
      | _ => return g
  | _, _ => return g

end

/-! ## The machine -/

/-- The server, and the gear of the player in every slot. -/
structure World where
  server : Server
  gear : Nat → Gear

def envAt (e : Env) (ev : Event) : Env := { e with now := ev.now, stale := ev.stale }

def playerAt (s : Server) (slot : Nat) : Option Player := (s.sessions[slot]?.join).bind (·.player)

/-- Which avatars of the player in a slot carry a weapon. -/
def gameData (starter : Starter) (s : Server) (slot : Nat) (g : Gear) : GameData where
  starter := starter
  hasWeapon := fun a => (playerAt s slot).any fun p =>
    (equipsOf p g a.guid).any fun x => (x.2.weapon.bind (g.types[·]?)).isSome

/-- The gear after a turn. A player that is attached has none, and a login is what makes a session
active. -/
def refit (e : Env) (starter : Starter) (s s' : Server) (slot : Nat) (g : Gear) : Except Fault Gear :=
  match playerAt s slot with
  | none => return Gear.empty
  | some p =>
    if stateOf s slot = loginWait ∧ stateOf s' slot = active then Gear.onLogin e starter s p g
    else return g

def step (e : Env) (m : Messages) (starter : Starter) (w : World) (ev : Event) : Except Fault World :=
  match ev.action with
  | .turn slot t => do
    let g ← sceneRequest (envAt e ev) m w.server slot t (w.gear slot)
    let s ← SessionMachine.step e m (gameData starter w.server slot (w.gear slot)) w.server ev
    let g ← refit (envAt e ev) starter w.server s slot g
    return { server := s, gear := Function.update w.gear slot g }
  | _ => do
    let s ← SessionMachine.step e m { starter, hasWeapon := fun _ => false } w.server ev
    return { w with server := s }

def start (gate : DbGate) (maxSessions : Nat) : World where
  server := SessionMachine.start gate maxSessions
  gear := fun _ => Gear.empty

/-! ## What is asked of a request -/

/-- A scene request is answered, or returns an error. -/
def SceneSafe (e : Env) (m : Messages) (w : World) (ev : Event) : Prop :=
  ∀ slot t, ev.action = .turn slot t →
    ∃ g, sceneRequest (envAt e ev) m w.server slot t (w.gear slot) = .ok g

/-- A request for the end of the scene's initialization that names the player's token and whose
first notification is sent, so that it goes on to the avatar. -/
structure AsksForAvatar (m : Messages) (x : GameSession) (p : Player) (t : Turn) (packet : Packet) :
    Prop where
  player : x.player = some p
  received : t.received = some packet
  opcode : packet.opcode.toNat = sceneInitFinishReqCmdId
  token : m.sceneInitFinishReq packet.data = some p.tpToken
  sent : ∃ ret, t.sends 0 = some ret ∧ 0 ≤ ret

/-- A search for a session meets no empty slot on its way. -/
def Searchable (test : GameSession → Bool) : PlayerStore.Sessions → Prop
  | [] => True
  | none :: _ => False
  | some x :: rest => test x = true ∨ Searchable test rest

/-- The player can be read from the store: where its record has expired, the table can be searched
for the session the record names. -/
def Rereadable (e : Env) (s : Server) (uid : UInt32) : Prop :=
  ∀ i, playerInfoByUid e s.gate uid = some i → i.sessionExpireTs < e.now →
    Searchable (fun x => x.kcpSession.any fun k => k.conv = i.sessionId.toUInt64) s.sessions

/-- The avatar is asked for in an active session only, and unless its equips are loaded already
their owner can be read from the store. -/
def InOrder (e : Env) (m : Messages) (w : World) (ev : Event) : Prop :=
  ∀ slot t x p packet, ev.action = .turn slot t → w.server.sessions[slot]? = some (some x) →
    AsksForAvatar m x p t packet →
      x.state = active ∧ ((∃ q ∈ (w.gear slot).equips, q.setEquips = true) ∨ p.uid = 0 ∨
        Rereadable (envAt e ev) w.server p.uid)

/-! ## Reading the owner -/

theorem findSession_ok_iff (test : GameSession → Bool) (sessions : PlayerStore.Sessions) :
    (∃ slot, findSession test sessions = .ok slot) ↔ Searchable test sessions := by
  induction sessions with
  | nil => exact ⟨fun _ => trivial, fun _ => ⟨none, rfl⟩⟩
  | cons hd rest ih =>
    cases hd with
    | none => exact ⟨fun ⟨_, h⟩ => (nomatch h), False.elim⟩
    | some x =>
      rw [findSession, Searchable, ← ih]
      cases htest : test x with
      | true => exact ⟨fun _ => Or.inl rfl, fun _ => ⟨some 0, rfl⟩⟩
      | false =>
        rw [if_neg Bool.false_ne_true, or_iff_right Bool.false_ne_true]
        exact exists_bind_pure fun found => ⟨_, rfl⟩

variable {e : Env} {s : Server} {uid : UInt32} {guid : UInt64}

theorem getPlayerByUid_ok_iff :
    (∃ owner, getPlayerByUid e s.gate s.sessions uid = .ok owner) ↔ Rereadable e s uid := by
  unfold getPlayerByUid Rereadable
  cases hinfo : playerInfoByUid e s.gate uid with
  | none => exact ⟨fun _ _ h => (nomatch h), fun _ => ⟨none, rfl⟩⟩
  | some i =>
    obtain ⟨account, haccount⟩ : ∃ a, s.gate.getAccountByAid e.codecs i.aid = .ok a := by
      rcases byAid_cases e.codecs s.gate i.aid with ⟨-, a, -, -, h⟩ | h
      · exact ⟨some a, h⟩
      · exact ⟨none, h⟩
    have hload : (∃ session, loadSession e s.sessions i = .ok session) ↔
        (i.sessionExpireTs < e.now →
          Searchable (fun x => x.kcpSession.any fun k => k.conv = i.sessionId.toUInt64) s.sessions) := by
      unfold loadSession getSessionById
      split
      case isTrue hexpired =>
        rw [findSession_ok_iff]
        exact ⟨fun h _ => h, fun h => h hexpired⟩
      case isFalse hvalid => exact ⟨fun _ h => absurd h hvalid, fun _ => ⟨none, rfl⟩⟩
    have hloaded : (∃ n, Player.ofInfo e s.gate s.sessions i = .ok n) ↔
        ∃ session, loadSession e s.sessions i = .ok session := by
      rw [Player.ofInfo, haccount, ok_bind]
      exact exists_bind_pure fun session => ⟨_, rfl⟩
    refine (exists_bind_pure fun n => ⟨some n, rfl⟩).trans (hloaded.trans (hload.trans ?_))
    exact ⟨fun h j hj => Option.some.inj hj ▸ h, fun h => h i rfl⟩

theorem load_ok_iff (x : Equips) : (∃ x', x.load e s guid = .ok x') ↔
    x.setEquips = true ∨ highHalf guid = 0 ∨ Rereadable e s (highHalf guid) := by
  unfold Equips.load
  split
  case isTrue hset => exact ⟨fun _ => Or.inl hset, fun _ => ⟨x, rfl⟩⟩
  case isFalse hset =>
    rw [or_iff_right hset]
    split
    case isTrue hzero => exact ⟨fun _ => Or.inl hzero, fun _ => ⟨x, rfl⟩⟩
    case isFalse hzero =>
      rw [or_iff_right hzero, ← getPlayerByUid_ok_iff]
      refine exists_bind_pure fun owner => ?_
      cases owner with
      | none => exact ⟨x, rfl⟩
      | some p => exact ⟨{ x with setEquips := true }, rfl⟩

/-- Loading finds no equips. -/
theorem load_weapon {x x' : Equips} (h : x.load e s guid = .ok x') : x'.weapon = x.weapon := by
  unfold Equips.load at h
  split at h
  case isTrue =>
    cases h
    rfl
  case isFalse =>
    split at h
    case isTrue =>
      cases h
      rfl
    case isFalse =>
      obtain ⟨owner, -, h⟩ := bind_eq_ok.mp h
      cases owner with
      | none =>
        cases h
        rfl
      | some p =>
        cases h
        rfl

/-! ## What a player has in each state -/

/-- The current avatar is the only one, and its weapon is the only item. -/
structure Armed (p : Player) (g : Gear) : Prop where
  avatar : ∃ a, p.avatars = [a] ∧ a.guid = starterGuid p.uid ∧ p.curAvatar = .avatar a.guid
  gear : ∃ setEquips, g = { types := [.weapon], equips := [{ weapon := some 0, setEquips }] }

structure Fits (x : GameSession) (g : Gear) : Prop where
  connected : x.state ≠ notConnected → x.kcpSession.isSome
  known : x.player.isSome → x.state = loginWait ∨ x.state = active
  waiting : ∀ p, x.player = some p → x.state = loginWait → HoldsNothing p ∧ g = Gear.empty
  armed : ∀ p, x.player = some p → x.state = active → Armed p g

def AllFit (w : World) : Prop :=
  ∀ (slot : Nat) (x : GameSession), w.server.sessions[slot]? = some (some x) → Fits x (w.gear slot)

theorem closed_fits {x : GameSession} (h : Closed x) (g : Gear) : Fits x g where
  connected := fun hne => absurd h.state hne
  known := by simp [h.player]
  waiting := by simp [h.player]
  armed := by simp [h.player]

theorem openSession_fits (o : Opening) (g : Gear) : Fits (openSession o) g where
  connected := fun _ => rfl
  known := fun h => (nomatch h)
  waiting := fun _ h => (nomatch h)
  armed := fun _ h => (nomatch h)

theorem keptOrClosed_fits {x x' : GameSession} {g : Gear} (hx : Fits x g) (h : KeptOrClosed x x') :
    Fits x' g := by
  rcases h with rfl | hclosed
  · exact hx
  · exact closed_fits hclosed g

/-! ## The handlers of a connected session -/

section

variable {m : Messages} {sends : Sends} {x : GameSession} {g : Gear} {packet : Packet}

theorem send_ok (hconnected : x.kcpSession.isSome) (sends : Sends) :
    send x sends = .ok ((sends 0).getD (-1)) := by
  unfold send
  cases sends 0 with
  | none => rfl
  | some ret =>
    rw [Option.isNone_eq_false_iff.mpr hconnected]
    rfl

theorem handleEnterSceneReadyReq_ok (hconnected : x.kcpSession.isSome) :
    ∃ r, handleEnterSceneReadyReq sends s x = .ok r := by
  unfold handleEnterSceneReadyReq
  cases x.player with
  | none => exact ⟨_, rfl⟩
  | some p =>
    simp only [send_ok hconnected, ok_bind]
    split
    case isTrue => exact ⟨_, rfl⟩
    case isFalse => exact ⟨_, rfl⟩

/-- The handler goes on to the avatar exactly where it is asked for one. -/
theorem handleSceneInitFinishReq_ok_iff (hconnected : x.kcpSession.isSome) :
    (∃ r, handleSceneInitFinishReq e m sends s x g packet = .ok r) ↔
      ∀ p, x.player = some p → m.sceneInitFinishReq packet.data = some p.tpToken →
        (∃ ret, sends 0 = some ret ∧ 0 ≤ ret) →
          ∃ found, getCurAvatar p = .ok found ∧
            ∀ a, found = some a → ∃ g', readAvatar e s p g a = .ok g' := by
  unfold handleSceneInitFinishReq
  cases hplayer : x.player with
  | none => exact ⟨fun _ _ h => (nomatch h), fun _ => ⟨_, rfl⟩⟩
  | some p =>
    cases hreq : m.sceneInitFinishReq packet.data with
    | none => exact ⟨fun _ _ _ h => (nomatch h), fun _ => ⟨_, rfl⟩⟩
    | some token =>
      simp only [send_ok hconnected, ok_bind, Option.some.injEq, forall_eq']
      by_cases htoken : p.tpToken = token
      · rw [if_neg (not_not_intro htoken)]
        have hsent : (∃ ret, sends 0 = some ret ∧ 0 ≤ ret) ↔ ¬ (sends 0).getD (-1) < 0 := by
          cases sends 0 with
          | none => simp
          | some ret => simp
        rw [hsent]
        split
        case isTrue hlost => exact ⟨fun _ _ h => absurd hlost h, fun _ => ⟨_, rfl⟩⟩
        case isFalse hkept =>
          rw [exists_bind_ok]
          refine ⟨fun ⟨found, hfound, h⟩ _ _ => ⟨found, hfound, ?_⟩, fun h => ?_⟩
          · intro a ha
            subst ha
            obtain ⟨g', hg', -⟩ := exists_bind_ok.mp h
            exact ⟨g', hg'⟩
          · obtain ⟨found, hfound, h⟩ := h htoken.symm hkept
            refine ⟨found, hfound, ?_⟩
            cases found with
            | none => exact ⟨_, rfl⟩
            | some a =>
              obtain ⟨g', hg'⟩ := h a rfl
              refine exists_bind_ok.mpr ⟨g', hg', ?_⟩
              split
              case isTrue => exact ⟨_, rfl⟩
              case isFalse => exact ⟨_, rfl⟩
      · rw [if_pos htoken]
        exact ⟨fun _ h => absurd h.symm htoken, fun _ => ⟨_, rfl⟩⟩

/-- What the handler leaves of the gear. -/
theorem handleSceneInitFinishReq_gear {r : Int × Gear}
    (h : handleSceneInitFinishReq e m sends s x g packet = .ok r) :
    r.2 = g ∨ ∃ p a, x.player = some p ∧ readAvatar e s p g a = .ok r.2 := by
  unfold handleSceneInitFinishReq at h
  split at h
  case h_1 =>
    cases h
    exact Or.inl rfl
  case h_2 p hplayer =>
    split at h
    case h_1 =>
      cases h
      exact Or.inl rfl
    case h_2 token _ =>
      split at h
      case isTrue =>
        obtain ⟨ret, -, h⟩ := bind_eq_ok.mp h
        cases h
        exact Or.inl rfl
      case isFalse =>
        obtain ⟨ret, -, h⟩ := bind_eq_ok.mp h
        split at h
        case isTrue =>
          cases h
          exact Or.inl rfl
        case isFalse =>
          obtain ⟨found, -, h⟩ := bind_eq_ok.mp h
          cases found with
          | none =>
            obtain ⟨ret, -, h⟩ := bind_eq_ok.mp h
            cases h
            exact Or.inl rfl
          | some a =>
            obtain ⟨g', hread, h⟩ := bind_eq_ok.mp h
            obtain ⟨ret, -, h⟩ := bind_eq_ok.mp h
            refine Or.inr ⟨p, a, hplayer, ?_⟩
            split at h
            case isTrue =>
              cases h
              exact hread
            case isFalse =>
              obtain ⟨ret, -, h⟩ := bind_eq_ok.mp h
              cases h
              exact hread

/-! ## The avatar of a player -/

variable {p : Player}

/-- Whatever the pointer of a player without avatars reads as, it was not set. -/
theorem getCurAvatar_unset (h : HoldsNothing p) : getCurAvatar p = .error .pointer := by
  unfold getCurAvatar
  split
  case h_1 guid _ =>
    rw [h.1]
    rfl
  case h_2 => rfl

theorem readAvatar_empty (a : Holding) : readAvatar e s p Gear.empty a = .error .pointer := by
  have hnone : equipsOf p Gear.empty a.guid = none := Option.bind_eq_none_iff.mpr fun i _ => rfl
  rw [readAvatar, hnone]

theorem Armed.current (h : Armed p g) : ∃ a, getCurAvatar p = .ok (some a) ∧
    highHalf a.guid = p.uid ∧ ∃ x, equipsOf p g a.guid = some (0, x) ∧ g.equips = [x] ∧
      x.weapon.bind (g.types[·]?) = some .weapon := by
  obtain ⟨a, havatars, hguid, hcur⟩ := h.avatar
  obtain ⟨setEquips, hg⟩ := h.gear
  refine ⟨a, ?_, ?_, { weapon := some 0, setEquips }, ?_, ?_, ?_⟩
  · unfold getCurAvatar Player.getAvatarByGuid
    simp only [hcur, havatars, List.any_cons, decide_true, Bool.true_or, if_true, List.find?_cons]
    rfl
  · rw [hguid]
    exact (starterGuid_halves p.uid).1
  · unfold equipsOf
    simp [havatars, hg]
  · rw [hg]
  · rw [hg]
    rfl

/-- The avatar of a login can be read where its equips can be loaded. -/
theorem Armed.read_iff (h : Armed p g) :
    (∃ found, getCurAvatar p = .ok found ∧
      ∀ a, found = some a → ∃ g', readAvatar e s p g a = .ok g') ↔
    (∃ q ∈ g.equips, q.setEquips = true) ∨ p.uid = 0 ∨ Rereadable e s p.uid := by
  obtain ⟨a, hcur, hhigh, x, hequips, hall, hweapon⟩ := h.current
  have hread : (∃ g', readAvatar e s p g a = .ok g') ↔ ∃ x', x.load e s a.guid = .ok x' := by
    unfold readAvatar
    simp only [hequips]
    rw [exists_bind_ok]
    refine exists_congr fun x' => and_iff_left_of_imp fun hload => ?_
    rw [load_weapon hload, hweapon]
    exact ⟨_, rfl⟩
  have hset : (∃ q ∈ g.equips, q.setEquips = true) ↔ x.setEquips = true := by
    simp [hall]
  rw [hcur, hset, ← hhigh, ← load_ok_iff, ← hread]
  constructor
  · intro ⟨found, hfound, h⟩
    exact h a (Except.ok.inj hfound).symm
  · intro h
    refine ⟨some a, rfl, fun b hb => ?_⟩
    cases hb
    exact h

theorem Armed.keep {a : Holding} {g' : Gear} (h : Armed p g) (hread : readAvatar e s p g a = .ok g') :
    Armed p g' := by
  obtain ⟨setEquips, rfl⟩ := h.gear
  refine ⟨h.avatar, ?_⟩
  unfold readAvatar at hread
  split at hread
  case h_1 => cases hread
  case h_2 i x hequips =>
    obtain ⟨x', hload, hread⟩ := bind_eq_ok.mp hread
    split at hread
    case h_1 => cases hread
    case h_2 =>
      cases hread
      obtain ⟨j, -, hj⟩ := Option.bind_eq_some_iff.mp hequips
      obtain ⟨y, hy, hout⟩ := Option.map_eq_some_iff.mp hj
      cases hout
      obtain ⟨hlt, hx⟩ := List.getElem?_eq_some_iff.mp hy
      obtain rfl : i = 0 := Nat.lt_one_iff.mp hlt
      have hweapon := load_weapon hload
      rw [← hx] at hweapon
      exact ⟨x'.setEquips, by rw [← show x'.weapon = some 0 from hweapon]; rfl⟩

/-! ## Against the handler of the server's machine -/

theorem getCurAvatar_eq {found : Option Holding} (h : getCurAvatar p = .ok found) :
    Handlers.getCurAvatar p = .ok found := by
  unfold getCurAvatar at h
  unfold Handlers.getCurAvatar
  cases hcur : p.curAvatar with
  | unset =>
    rw [hcur] at h
    cases h
  | null =>
    rw [hcur] at h
    cases h
  | avatar guid =>
    rw [hcur] at h
    dsimp only at h
    split at h
    case isTrue => exact h
    case isFalse => cases h

theorem readAvatar_hasWeapon {slot : Nat} {a : Holding} {g' : Gear} (starter : Starter)
    (hplayer : playerAt s slot = some p) (h : readAvatar e s p g a = .ok g') :
    (gameData starter s slot g).hasWeapon a = true := by
  unfold readAvatar at h
  split at h
  case h_1 => cases h
  case h_2 i x hequips =>
    obtain ⟨x', hload, h⟩ := bind_eq_ok.mp h
    rw [load_weapon hload] at h
    unfold gameData
    rw [hplayer]
    dsimp only [Option.any]
    rw [hequips]
    split at h
    case h_1 => cases h
    case h_2 hweapon =>
      dsimp only
      rw [hweapon]
      rfl

/-- Where the handler gets through, so does the one without equips, with the same result. -/
theorem handleSceneInitFinishReq_refines {slot : Nat} {r : Int × Gear} (starter : Starter)
    (hslot : playerAt s slot = x.player)
    (h : handleSceneInitFinishReq e m sends s x g packet = .ok r) :
    Handlers.handleSceneInitFinishReq m sends (gameData starter s slot g) s x packet =
      .ok { server := s, ret := r.1 } := by
  unfold handleSceneInitFinishReq at h
  unfold Handlers.handleSceneInitFinishReq
  cases hplayer : x.player with
  | none =>
    rw [hplayer] at h
    cases h
    rfl
  | some p =>
    rw [hplayer] at h hslot
    dsimp only at h ⊢
    cases hreq : m.sceneInitFinishReq packet.data with
    | none =>
      rw [hreq] at h
      cases h
      rfl
    | some token =>
      rw [hreq] at h
      dsimp only at h ⊢
      split at h
      case isTrue htoken =>
        obtain ⟨ret, hsend, h⟩ := bind_eq_ok.mp h
        cases h
        rw [if_pos htoken, hsend]
        rfl
      case isFalse htoken =>
        obtain ⟨ret, hsend, h⟩ := bind_eq_ok.mp h
        rw [if_neg htoken, hsend, ok_bind]
        split at h
        case isTrue hlost =>
          cases h
          rw [if_pos hlost]
          rfl
        case isFalse hkept =>
          rw [if_neg hkept]
          obtain ⟨found, hfound, h⟩ := bind_eq_ok.mp h
          rw [getCurAvatar_eq hfound, ok_bind]
          cases found with
          | none =>
            obtain ⟨ret', hreply, h⟩ := bind_eq_ok.mp h
            cases h
            dsimp only
            rw [hreply]
            rfl
          | some a =>
            obtain ⟨g', hread, h⟩ := bind_eq_ok.mp h
            obtain ⟨ret', hnotify, h⟩ := bind_eq_ok.mp h
            dsimp only
            rw [notifyAvatar, if_pos (readAvatar_hasWeapon starter hslot hread), hnotify, ok_bind]
            split at h
            case isTrue hlost' =>
              cases h
              rw [if_pos hlost']
              rfl
            case isFalse hkept' =>
              obtain ⟨ret'', hreply, h⟩ := bind_eq_ok.mp h
              cases h
              rw [if_neg hkept', hreply]
              rfl

/-! ## The requests of a turn -/

variable {slot : Nat} {t : Turn}

/-- An avatar is there to be read in an active session only. -/
theorem Fits.avatar_iff (h : Fits x g) (hplayer : x.player = some p) :
    (∃ found, getCurAvatar p = .ok found ∧
      ∀ a, found = some a → ∃ g', readAvatar e s p g a = .ok g') ↔
    x.state = active ∧
      ((∃ q ∈ g.equips, q.setEquips = true) ∨ p.uid = 0 ∨ Rereadable e s p.uid) := by
  rcases h.known (Option.isSome_of_eq_some hplayer) with hwait | hactive
  · have hinactive : ¬ x.state = active := by
      rw [hwait]
      decide
    rw [getCurAvatar_unset (h.waiting p hplayer hwait).1]
    exact ⟨fun ⟨_, hfound, _⟩ => (nomatch hfound), fun h => absurd h.1 hinactive⟩
  · rw [(h.armed p hplayer hactive).read_iff]
    exact (and_iff_right hactive).symm

theorem Fits.running (h : Fits x g) (hplayer : x.player = some p) : ¬ x.state ≤ notConnected := by
  rcases h.known (Option.isSome_of_eq_some hplayer) with hstate | hstate
  · rw [hstate]
    decide
  · rw [hstate]
    decide

theorem sceneRequest_ok_iff (hfits : ∀ x, s.sessions[slot]? = some (some x) → Fits x g) :
    (∃ g', sceneRequest e m s slot t g = .ok g') ↔
      ∀ x p packet, s.sessions[slot]? = some (some x) → AsksForAvatar m x p t packet →
        x.state = active ∧
          ((∃ q ∈ g.equips, q.setEquips = true) ∨ p.uid = 0 ∨ Rereadable e s p.uid) := by
  unfold sceneRequest
  split
  case h_2 hnone =>
    exact ⟨fun _ x p packet hslot hasks => absurd hasks.received (hnone x packet hslot), fun _ => ⟨g, rfl⟩⟩
  case h_1 x packet hslot hreceived =>
    have hfit := hfits x hslot
    have hasked : ∀ {y p packet'}, s.sessions[slot]? = some (some y) →
        AsksForAvatar m y p t packet' → y = x ∧ packet' = packet := by
      intro y p packet' hy hasks
      cases hslot.symm.trans hy
      cases hreceived.symm.trans hasks.received
      exact ⟨rfl, rfl⟩
    split
    case isTrue hstate =>
      refine ⟨fun _ y p packet' hy hasks => ?_, fun _ => ⟨g, rfl⟩⟩
      obtain ⟨rfl, -⟩ := hasked hy hasks
      exact absurd hstate (hfit.running hasks.player)
    case isFalse hstate =>
      have hconnected : x.kcpSession.isSome := by
        apply hfit.connected
        intro heq
        exact hstate (Int.le_of_eq heq)
      split
      case h_1 hready =>
        refine ⟨fun _ y p packet' hy hasks => ?_, fun _ => ?_⟩
        · obtain ⟨-, rfl⟩ := hasked hy hasks
          cases hready.symm.trans hasks.opcode
        · exact (exists_bind_pure fun _ => ⟨g, rfl⟩).mpr (handleEnterSceneReadyReq_ok hconnected)
      case h_2 hfinish =>
        refine (exists_bind_pure fun r => ⟨r.2, rfl⟩).trans
          ((handleSceneInitFinishReq_ok_iff hconnected).trans ?_)
        constructor
        · intro h y p packet' hy hasks
          obtain ⟨rfl, rfl⟩ := hasked hy hasks
          exact (hfit.avatar_iff hasks.player).mp (h p hasks.player hasks.token hasks.sent)
        · intro h p hplayer htoken hsent
          exact (hfit.avatar_iff hplayer).mpr
            (h x p packet hslot ⟨hplayer, hreceived, hfinish, htoken, hsent⟩)
      case h_3 hother =>
        refine ⟨fun _ y p packet' hy hasks => ?_, fun _ => ⟨g, rfl⟩⟩
        obtain ⟨-, rfl⟩ := hasked hy hasks
        exact absurd hasks.opcode hother

/-- A request leaves gear that fits. -/
theorem sceneRequest_fits {g' : Gear} (h : sceneRequest e m s slot t g = .ok g')
    (hslot : s.sessions[slot]? = some (some x)) (hx : Fits x g) : Fits x g' := by
  have hkept : g' = g ∨ ∃ p a, x.player = some p ∧ readAvatar e s p g a = .ok g' := by
    unfold sceneRequest at h
    split at h
    case h_2 => exact Or.inl (Except.ok.inj h).symm
    case h_1 y packet hy _ =>
      cases hslot.symm.trans hy
      split at h
      case isTrue => exact Or.inl (Except.ok.inj h).symm
      case isFalse =>
        split at h
        case h_1 =>
          obtain ⟨r, -, h⟩ := bind_eq_ok.mp h
          exact Or.inl (Except.ok.inj h).symm
        case h_2 =>
          obtain ⟨r, hr, h⟩ := bind_eq_ok.mp h
          cases h
          exact handleSceneInitFinishReq_gear hr
        case h_3 => exact Or.inl (Except.ok.inj h).symm
  rcases hkept with rfl | ⟨p, a, hplayer, hread⟩
  · exact hx
  · refine ⟨hx.connected, hx.known, fun q hq hwait => ?_, fun q hq hactive => ?_⟩
    · cases hplayer.symm.trans hq
      rw [(hx.waiting p hplayer hwait).2, readAvatar_empty] at hread
      cases hread
    · cases hplayer.symm.trans hq
      exact (hx.armed p hplayer hactive).keep hread

end

/-! ## Runs -/

section

variable {starter : Starter} {s' : Server} {slot : Nat} {x x' : GameSession} {p p' : Player} {g g' : Gear}

/-- The weapon of a first login is the only item, so it is found, and it is a weapon. -/
theorem login_armed (hnothing : HoldsNothing p) (hlogin : Player.onLogin e starter true p = .ok p')
    (hgear : Gear.onLogin e starter s p Gear.empty = .ok g') : Armed p' g' := by
  obtain ⟨-, huid, a, havatars, hguid, hcur⟩ := onLogin_ok hlogin
  have hitem : starterItem starter p = some 0 := by
    have hinventory : ∃ it, (Player.addItem p
        { id := weaponId, guid := weaponGuid p.uid, fields := starter.weapon }).inventory = [it] :=
      ⟨_, congrArg (· ++ [_]) hnothing.2⟩
    obtain ⟨it, hit⟩ := hinventory
    simp [starterItem, hit]
  constructor
  · refine ⟨a, ?_, ?_, hcur⟩
    · rw [havatars, hnothing.1]
      rfl
    · rw [hguid, huid]
  · rw [Gear.onLogin, hitem] at hgear
    obtain ⟨av, hset, hgear⟩ := bind_eq_ok.mp hgear
    obtain ⟨loaded, -, hout⟩ := bind_eq_ok.mp hgear
    cases hset
    cases hout
    exact ⟨false, rfl⟩

theorem stateOf_eq (h : s.sessions[slot]? = some (some x)) : stateOf s slot = x.state := by
  rw [stateOf, h]
  rfl

theorem playerAt_eq (h : s.sessions[slot]? = some (some x)) : playerAt s slot = x.player := by
  rw [playerAt, h]
  rfl

theorem empty_fits (hconnected : x.state ≠ notConnected → x.kcpSession.isSome)
    (hplayer : x.player = none) (g : Gear) : Fits x g where
  connected := hconnected
  known := by simp [hplayer]
  waiting := by simp [hplayer]
  armed := by simp [hplayer]

theorem refit_fits (hslot : s.sessions[slot]? = some (some x))
    (hslot' : s'.sessions[slot]? = some (some x')) (hshift : Shift e starter x x') (hx : Fits x g)
    (h : refit e starter s s' slot g = .ok g') : Fits x' g' := by
  unfold refit at h
  rw [playerAt_eq hslot, stateOf_eq hslot, stateOf_eq hslot'] at h
  cases hshift with
  | quiet hquiet =>
    rcases hquiet with rfl | hclosed
    · cases hplayer : x'.player with
      | none => exact empty_fits hx.connected hplayer g'
      | some p =>
        have hsame : ¬ (x'.state = loginWait ∧ x'.state = active) := by
          intro ⟨hwait, hactive⟩
          cases hwait.symm.trans hactive
        rw [hplayer] at h
        dsimp only at h
        rw [if_neg hsame] at h
        cases h
        exact hx
    · exact closed_fits hclosed g'
  | attach p hfrom hto hx' hplayer hnothing hkcp =>
    have hnone : x.player = none := by
      cases hp : x.player with
      | none => rfl
      | some q =>
        rcases hx.known (Option.isSome_of_eq_some hp) with hstate | hstate
        · cases hfrom.symm.trans hstate
        · cases hfrom.symm.trans hstate
    rw [hnone] at h
    cases h
    constructor
    · intro _
      rw [hkcp hnone]
      apply hx.connected
      rw [hfrom]
      decide
    · exact fun _ => Or.inl hto
    · intro q hq _
      cases hplayer.symm.trans hq
      exact ⟨hnothing, rfl⟩
    · intro q hq hactive
      cases hto.symm.trans hactive
  | login p p' hfrom hplayer haccount hlogin =>
    obtain ⟨hnothing, rfl⟩ := hx.waiting p hplayer hfrom
    rw [hplayer] at h
    dsimp only at h
    rw [if_pos ⟨hfrom, rfl⟩] at h
    constructor
    · intro _
      apply hx.connected
      rw [hfrom]
      decide
    · exact fun _ => Or.inr rfl
    · intro q _ (hwait : active = loginWait)
      cases hwait
    · intro q hq _
      cases hq
      exact login_armed hnothing hlogin h

end

variable {m : Messages} {starter : Starter} {w w' : World} {ev : Event}

theorem step_fits (hw : AllFit w) (hok : step e m starter w ev = .ok w') : AllFit w' := by
  unfold step at hok
  split at hok
  case h_1 slot t haction =>
    obtain ⟨g, hrequest, hok⟩ := bind_eq_ok.mp hok
    obtain ⟨s', hserver, hok⟩ := bind_eq_ok.mp hok
    obtain ⟨g', hrefit, hok⟩ := bind_eq_ok.mp hok
    cases hok
    rw [SessionMachine.step, haction] at hserver
    have hshifts := turn_shifts hserver
    intro i x' hx'
    obtain ⟨x, hx, hshift, hother⟩ := hshifts i x' hx'
    dsimp only
    by_cases hi : i = slot
    · subst hi
      rw [Function.update_self]
      exact refit_fits hx hx' hshift (sceneRequest_fits hrequest hx (hw i x hx)) hrefit
    · rw [Function.update_of_ne hi]
      exact keptOrClosed_fits (hw i x hx) (hother hi)
  case h_2 hother =>
    obtain ⟨s', hserver, hok⟩ := bind_eq_ok.mp hok
    cases hok
    rcases act_cases hserver with ⟨slot, t, hturn, -⟩ | ⟨-, hrenews⟩
    · exact absurd hturn (hother slot t)
    · intro i x' hx'
      rcases hrenews i x' hx' with ⟨o, rfl⟩ | ⟨x, hx, hquiet⟩
      · exact openSession_fits o _
      · exact keptOrClosed_fits (hw i x hx) hquiet

theorem start_fits (gate : DbGate) (maxSessions : Nat) : AllFit (start gate maxSessions) := by
  intro slot x hx
  have hmem := List.mem_of_getElem? hx
  cases List.eq_of_mem_replicate hmem

theorem sceneSafe_iff (hw : AllFit w) : SceneSafe e m w ev ↔ InOrder e m w ev := by
  constructor
  · intro h slot t x p packet haction hslot hasks
    exact (sceneRequest_ok_iff fun y hy => hw slot y hy).mp (h slot t haction) x p packet hslot hasks
  · intro h slot t haction
    refine (sceneRequest_ok_iff fun y hy => hw slot y hy).mpr fun x p packet hslot hasks => ?_
    exact h slot t x p packet haction hslot hasks

/-- Along a run of clients' packets and of everything else the server does, the scene requests are
answered or fail without following a pointer that is not set, exactly where those that ask for the
avatar come in active sessions. -/
theorem scene_requests_safe_iff (e : Env) (m : Messages) (starter : Starter) (gate : DbGate)
    (maxSessions : Nat) (events : List Event) :
    Along (step e m starter) (SceneSafe e m) (start gate maxSessions) events ↔
      Along (step e m starter) (InOrder e m) (start gate maxSessions) events :=
  along_congr AllFit (fun _ _ _ hw _ hok => step_fits hw hok)
    (fun _ _ hw => sceneSafe_iff hw) (start_fits gate maxSessions)

/-- A client that was given a new player asks for the end of the scene's initialization before it
logs in. -/
theorem early_request_unsafe : ¬ Along (step packedEnv anyMessage anyGame.starter)
    (SceneSafe packedEnv anyMessage) (start oneAccount 1)
    [opening, arriving getPlayerTokenReqCmdId, arriving sceneInitFinishReqCmdId] := by
  intro h
  obtain ⟨w, hrun, hfault⟩ : ∃ w, run (step packedEnv anyMessage anyGame.starter) (start oneAccount 1)
      [opening, arriving getPlayerTokenReqCmdId] = .ok w ∧
      sceneRequest (envAt packedEnv (arriving sceneInitFinishReqCmdId)) anyMessage w.server 0
        { received := some { opcode := UInt16.ofNat sceneInitFinishReqCmdId }, seed := 7
          sends := fun _ => some 0, timedOut := false } (w.gear 0) = .error .pointer :=
    map_eq_ok.mp (by decide +kernel)
  obtain ⟨g, hsafe⟩ := along_at h hrun 0 _ rfl
  cases hfault.symm.trans hsafe

end Yagips.Game.Scene
