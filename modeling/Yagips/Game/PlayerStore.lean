import Yagips.Game.Players

/-!
# Players in the session table and in the store

A record is found by its account id in a scan of the store. Loading looks up the account
and the session, saving writes the avatars and items first and the record after them.
-/
namespace Yagips.Game.PlayerStore

open Yagips.Lib
open Yagips.Server.Sessions
open Yagips.Store.Accounts
open Yagips.Store.Gate
open Yagips.Store.Inventory
open Yagips.Game.Players

/-- A session of the game server, with its key. -/
structure GameSession extends Session Player where
  useSecretKey : Bool
  sessionSeed : UInt64
  sessionKey : Bytes

/-- `sessionList`, of which some slots are empty. -/
abbrev Sessions := List (Option GameSession)

/-- What the members that a constructor does not set happen to hold. -/
structure StaleMembers where
  curTeamIndex : UInt32
  curAvatar : AvatarPtr
  namecard : UInt32
  pfp : UInt32

/-- What the functions below read and never change. `now` is what `time` returns. -/
structure Env where
  codecs : Codecs
  player : Codec PlayerInfo
  entry : Codec InventoryEntry
  openstateData : Option (List OpenStateDataEnt)
  now : Int64
  stale : StaleMembers

def loginEnv (codecs : Codecs) (player : Codec PlayerInfo) (entry : Codec InventoryEntry) : Env where
  codecs := codecs
  player := player
  entry := entry
  openstateData := none
  now := 0
  stale := { curTeamIndex := 0, curAvatar := .unset, namecard := 0, pfp := 0 }

def unaryEnv : Env := loginEnv unaryCodecs (Codec.unary PlayerInfo) (Codec.unary InventoryEntry)

def packedEnv : Env := loginEnv packedCodecs (Codec.packed PlayerInfo) (Codec.packed InventoryEntry)

/-! ## Lookups in the table -/

/-- The first session that passes a test. An empty slot is used like a session. -/
def findSession (test : GameSession → Bool) : Sessions → Except Fault (Option Nat)
  | [] => return none
  | none :: _ => .error .pointer
  | some s :: rest =>
    if test s then return some 0
    else do return (← findSession test rest).map (· + 1)

def getSessionById (sessions : Sessions) (id : UInt64) : Except Fault (Option Nat) :=
  findSession (fun s => s.kcpSession.any fun k => k.conv = id) sessions

def getSessionByUid (sessions : Sessions) (id : UInt32) : Except Fault (Option Nat) :=
  findSession (fun s => s.player.any fun p => p.uid = id) sessions

/-! ## Conversions -/

structure SessionFields where
  id : UInt32
  seed : UInt64
  expireTs : Int64

/-- The fields set from the session of a player, which may have been deleted. -/
def sessionFields (sessions : Sessions) (now : Int64) :
    Option Nat → Except Fault SessionFields
  | none => return ⟨0, 0, 0⟩
  | some slot =>
    match sessions[slot]? with
    | some (some s) =>
      match s.kcpSession with
      | none => return ⟨0, 0, 0⟩
      | some kcp => return ⟨kcp.conv.toUInt32, s.sessionSeed, now + 3 * 60 * 60⟩
    | _ => .error .pointer

def AvatarPtr.getGuid : AvatarPtr → Except Fault UInt64
  | .unset => .error .pointer
  | .null => return 0
  | .avatar guid => return guid

/-- `Player::operator storage::PlayerInfo`. -/
def Player.toInfo (sessions : Sessions) (now : Int64) (p : Player) : Except Fault PlayerInfo := do
  let fields ← sessionFields sessions now p.session
  let curAvatarGuid ← AvatarPtr.getGuid p.curAvatar
  return { toReadBack := p.readBack, sessionId := fields.id, sessionSeed := fields.seed
           sessionExpireTs := fields.expireTs, teams := p.teams.map AvatarTeam.toInfo
           curTeamId := p.curTeamIndex, curAvatarGuid }

theorem store_mirrors (l : Levels) (props : Props) :
    ∀ p v, l.mirrored p = some v → ((l.store props).get p).isSome := by
  intro p v h
  rw [get_store, h]
  rfl

/-- The session a loaded player is given, if the record's session has expired. -/
def loadSession (e : Env) (sessions : Sessions) (i : PlayerInfo) : Except Fault (Option Nat) :=
  if i.sessionExpireTs < e.now then getSessionById sessions i.sessionId.toUInt64 else return none

/-- `Player::Player(const storage::PlayerInfo&)`, which does not read the teams and the
current avatar. -/
def Player.ofInfo (e : Env) (g : DbGate) (sessions : Sessions) (i : PlayerInfo) :
    Except Fault Player := do
  let account ← g.getAccountByAid e.codecs i.aid
  let session ← loadSession e sessions i
  return {
    account, uid := i.uid, session, teams := [], avatars := [], inventory := []
    curTeamIndex := e.stale.curTeamIndex, curAvatar := e.stale.curAvatar, pos := i.position.getD ⟨0, 0, 0⟩
    sceneId := i.sceneId, tpToken := 1, nextGuid := i.nextGuid, levels := i.levels, name := i.name
    signature := i.signature, namecard := i.namecard, pfp := i.pfp
    props := i.levels.store i.props
    openstates := updateOpenstates e.openstateData i.adventureRank i.openStates
    mirrors := store_mirrors i.levels i.props }

/-- `Player::Player()`, given the id `setUid` sets. -/
def Player.fresh (e : Env) (uid : UInt32) : Player :=
  let levels : Levels := { ar := 1, arExp := 0, worldLevel := 0 }
  { account := none, uid, session := none, teams := [], avatars := [], inventory := []
    curTeamIndex := 0, curAvatar := .null
    pos := { x := 0x452bb8fe, y := 0x4342a20c, z := 0xc4d6ec5a }
    sceneId := 3, tpToken := 0, nextGuid := 1, levels, name := [], signature := []
    namecard := e.stale.namecard, pfp := e.stale.pfp
    props := levels.store
      (startingProps.foldl (fun props x => props.put x.1 x.2) OrderedStore.empty)
    openstates := updateOpenstates e.openstateData 1 []
    mirrors := store_mirrors levels _ }

/-! ## The player part of `dbGate` -/

/-- The key type `PLAYER`. -/
def playerType : Bytes := htobe32 2

def playerKey (uid : UInt32) : Bytes := idKey playerType uid

def savePlayer (e : Env) (g : DbGate) (sessions : Sessions) (p : Player) : Except Fault DbGate := do
  let i ← Player.toInfo sessions e.now p
  return g.setLdbObject (playerKey p.uid) (e.player.serialize i)

def saveInventoryAndAvatars (e : Env) (g : DbGate) (p : Player) : DbGate :=
  p.inventory.foldl (saveItem e.entry) (p.avatars.foldl (saveAvatar e.entry) g)

def saveToDb (e : Env) (g : DbGate) (sessions : Sessions) (p : Player) : Except Fault DbGate :=
  savePlayer e (saveInventoryAndAvatars e g p) sessions p

def deletePlayer (g : DbGate) (p : Player) : DbGate := g.delLdbObject (playerKey p.uid)

/-- The record under a player's id, unless it is empty. -/
def playerInfoByUid (e : Env) (g : DbGate) (uid : UInt32) : Option PlayerInfo :=
  let val := g.getLdbObject (playerKey uid)
  if val = [] then none else e.player.parse val

def getPlayerByUid (e : Env) (g : DbGate) (sessions : Sessions) (uid : UInt32) :
    Except Fault (Option Player) :=
  match playerInfoByUid e g uid with
  | none => return none
  | some i => do return some (← Player.ofInfo e g sessions i)

/-- The first record in the store whose account id is `aid`. -/
def playerInfoByAid (e : Env) (g : DbGate) (aid : UInt32) : Option PlayerInfo :=
  firstRecord e.player playerType (fun i => i.aid = aid) g.db.entries

def getPlayerByAid (e : Env) (g : DbGate) (sessions : Sessions) (aid : UInt32) :
    Except Fault (Option Player) :=
  match playerInfoByAid e g aid with
  | none => return none
  | some i => do return some (← Player.ofInfo e g sessions i)

def getPlayerByAccount (e : Env) (g : DbGate) (sessions : Sessions) (account : Account) :
    Except Fault (Option Player) := getPlayerByAid e g sessions account.aid

def setNextUid (g : DbGate) (uid : UInt32) : DbGate :=
  { g with nextIds := { g.nextIds with nextUid := uid } }

def newPlayer (e : Env) (g : DbGate) (sessions : Sessions) : Except Fault (Player × DbGate) :=
  let next := if g.nextIds.nextUid = 0 then 1 else g.nextIds.nextUid
  match g.freeId playerKey (2 ^ 32) next with
  | none => .error .endless
  | some uid => do
    let player := Player.fresh e uid
    let g ← savePlayer e (setNextUid g uid) sessions player
    return (player, g.save e.codecs)

/-! ## What saving leaves -/

/-- The record stored under a player's id. -/
def playerRecord (e : Env) (g : DbGate) (uid : UInt32) : Option PlayerInfo :=
  (g.db.get (playerKey uid)).bind e.player.parse

/-- What `findSession` finds is a session that passes the test. -/
theorem findSession_some {test : GameSession → Bool} {sessions : Sessions} {slot : Nat}
    (h : findSession test sessions = .ok (some slot)) :
    ∃ s, sessions[slot]? = some (some s) ∧ test s = true := by
  induction sessions generalizing slot with
  | nil => cases h
  | cons hd rest ih =>
    cases hd with
    | none => cases h
    | some s =>
      unfold findSession at h
      split at h
      case isTrue htest =>
        cases h
        exact ⟨s, rfl, htest⟩
      case isFalse =>
        obtain ⟨found, hfound, h⟩ := bind_eq_ok.mp h
        cases found with
        | none => cases h
        | some i =>
          cases h
          exact ih hfound

theorem sessionFields_ok {sessions : Sessions} {slot : Option Nat}
    (h : ∀ i, slot = some i → ∃ s, sessions[i]? = some (some s)) (now : Int64) :
    ∃ fields, sessionFields sessions now slot = .ok fields := by
  cases slot with
  | none => exact ⟨_, rfl⟩
  | some i =>
    obtain ⟨s, hs⟩ := h i rfl
    unfold sessionFields
    simp only [hs]
    cases s.kcpSession with
    | none => exact ⟨_, rfl⟩
    | some kcp => exact ⟨_, rfl⟩

theorem toInfo_eq {sessions : Sessions} {now : Int64} {p : Player} {i : PlayerInfo} :
    Player.toInfo sessions now p = .ok i ↔
      ∃ fields guid, sessionFields sessions now p.session = .ok fields ∧
        AvatarPtr.getGuid p.curAvatar = .ok guid ∧
        i = { toReadBack := p.readBack, sessionId := fields.id, sessionSeed := fields.seed
              sessionExpireTs := fields.expireTs, teams := p.teams.map AvatarTeam.toInfo
              curTeamId := p.curTeamIndex, curAvatarGuid := guid } := by
  unfold Player.toInfo
  rw [bind_eq_ok]
  constructor
  · intro ⟨fields, hfields, h⟩
    obtain ⟨guid, hguid, h⟩ := bind_eq_ok.mp h
    exact ⟨fields, guid, hfields, hguid, (Except.ok.inj h).symm⟩
  · rintro ⟨fields, guid, hfields, hguid, rfl⟩
    exact ⟨fields, hfields, bind_eq_ok.mpr ⟨guid, hguid, rfl⟩⟩

theorem toInfo_readBack {sessions : Sessions} {now : Int64} {p : Player} {i : PlayerInfo}
    (h : Player.toInfo sessions now p = .ok i) : i.toReadBack = p.readBack := by
  obtain ⟨fields, guid, -, -, rfl⟩ := toInfo_eq.mp h
  rfl

theorem savePlayer_ok {e : Env} {g g' : DbGate} {sessions : Sessions} {p : Player}
    (h : savePlayer e g sessions p = .ok g') : ∃ i, i.toReadBack = p.readBack ∧
      g' = g.setLdbObject (playerKey p.uid) (e.player.serialize i) := by
  obtain ⟨i, hi, hput⟩ := bind_eq_ok.mp h
  cases hput
  exact ⟨i, toInfo_readBack hi, rfl⟩

/-- The record of a player has a position, so it is not the empty string. -/
theorem playerInfo_serialized {e : Env} {p : Player} {i : PlayerInfo}
    (h : i.toReadBack = p.readBack) : e.player.serialize i ≠ [] := by
  intro hnil
  rw [(e.player.serialize_nil i).mp hnil] at h
  cases congrArg ReadBack.position h

theorem newPlayer_ok {e : Env} {g g' : DbGate} {sessions : Sessions} {p : Player}
    (h : newPlayer e g sessions = .ok (p, g')) : ∃ uid i,
      g.freeId playerKey (2 ^ 32) (if g.nextIds.nextUid = 0 then 1 else g.nextIds.nextUid) = some uid ∧
      p = Player.fresh e uid ∧ i.toReadBack = p.readBack ∧
      g' = ((setNextUid g uid).setLdbObject (playerKey uid) (e.player.serialize i)).save e.codecs := by
  unfold newPlayer at h
  dsimp only at h
  split at h
  case h_1 => cases h
  case h_2 uid hfree =>
    obtain ⟨g'', hsave, hout⟩ := bind_eq_ok.mp h
    cases hout
    obtain ⟨i, hback, rfl⟩ := savePlayer_ok hsave
    exact ⟨uid, i, hfree, rfl, hback, rfl⟩

/-! ## What loading gives -/

/-- What the constructor makes of the fields it reads, beside the account's id. -/
theorem ofInfo_readBack {e : Env} {g : DbGate} {sessions : Sessions} {i : PlayerInfo} {n : Player}
    (h : Player.ofInfo e g sessions i = .ok n) :
    g.getAccountByAid e.codecs i.aid = .ok n.account ∧ n.readBack =
      { i.toReadBack with
        aid := (n.account.map (·.aid)).getD 0
        position := some (i.position.getD ⟨0, 0, 0⟩)
        props := i.levels.record (i.levels.store i.props)
        openStates := updateOpenstates e.openstateData i.adventureRank i.openStates } := by
  obtain ⟨account, ha, h⟩ := bind_eq_ok.mp h
  obtain ⟨session, -, h⟩ := bind_eq_ok.mp h
  cases h
  exact ⟨ha, rfl⟩

/-- A new object holds no avatars and no items. -/
def HoldsNothing (p : Player) : Prop := p.avatars = [] ∧ p.inventory = []

theorem ofInfo_holdsNothing {e : Env} {g : DbGate} {sessions : Sessions} {i : PlayerInfo} {n : Player}
    (h : Player.ofInfo e g sessions i = .ok n) : HoldsNothing n := by
  obtain ⟨account, -, h⟩ := bind_eq_ok.mp h
  obtain ⟨session, -, h⟩ := bind_eq_ok.mp h
  cases h
  exact ⟨rfl, rfl⟩

end Yagips.Game.PlayerStore
