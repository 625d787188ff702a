import Yagips.Server.Sessions
import Yagips.Store.Inventory

/-!
# Players

The `Player` object, the record `storage::PlayerInfo` it is stored as, and the
conversions. Three properties mirror members of the object. Pointers to avatars are
kept as the guid read through them, coordinates as the floats they convert to.
-/
namespace Yagips.Game.Players

open Yagips.Lib
open Yagips.Server.Sessions
open Yagips.Store.Accounts
open Yagips.Store.Inventory

/-! ## Open states -/

structure OpenCond where
  type : UInt32
  param : UInt32 × UInt32
  deriving DecidableEq

structure OpenStateDataEnt where
  id : UInt32
  isDefault : UInt32
  allowClientOpen : UInt32
  openCond : OpenCond × OpenCond
  uiOpenId : UInt32
  deriving DecidableEq

/-- `OPEN_STATE_COND_PLAYER_LEVEL`. -/
def condPlayerLevel : UInt32 := 0

/-- `setOpenstate` without its notification. -/
def setOpenstate (openstates : List UInt32) (state : UInt32) : List UInt32 :=
  if state ∈ openstates then openstates else openstates ++ [state]

def openByLevel (ar id : UInt32) (openstates : List UInt32) (cond : OpenCond) : List UInt32 :=
  if cond.type = condPlayerLevel ∧ cond.param.1 ≤ ar then setOpenstate openstates id else openstates

def openEntry (ar : UInt32) (openstates : List UInt32) (state : OpenStateDataEnt) : List UInt32 :=
  if state.isDefault ≠ 0 then setOpenstate openstates state.id
  else openByLevel ar state.id (openByLevel ar state.id openstates state.openCond.1) state.openCond.2

/-- `updateOpenstates` without its notification. The table is missing where no game data
is loaded. -/
def updateOpenstates (data : Option (List OpenStateDataEnt)) (ar : UInt32)
    (openstates : List UInt32) : List UInt32 :=
  (data.getD []).foldl (openEntry ar) openstates

/-! ## Properties -/

abbrev Props := OrderedStore UInt32 Int64

def propPlayerLevel : UInt32 := 10013
def propPlayerExp : UInt32 := 10014
def propPlayerHcoin : UInt32 := 10015
def propPlayerScoin : UInt32 := 10016
def propPlayerWorldLevel : UInt32 := 10019
def propPlayerResin : UInt32 := 10020
def propPlayerMcoin : UInt32 := 10025
def propPlayerLegendaryKey : UInt32 := 10027
def propPlayerLegendaryDailyTaskNum : UInt32 := 10041

/-- The properties a new player starts with, beside those that mirror a member. -/
def startingProps : List (UInt32 × Int64) :=
  [(propPlayerHcoin, 0), (propPlayerScoin, 0), (propPlayerMcoin, 0), (propPlayerResin, 160),
    (propPlayerLegendaryKey, 0), (propPlayerLegendaryDailyTaskNum, 0)]

/-- The members that properties mirror. -/
structure Levels where
  ar : UInt32
  arExp : UInt64
  worldLevel : UInt32
  deriving DecidableEq

/-- The value of a property that mirrors a member. -/
def Levels.mirrored (l : Levels) (p : UInt32) : Option Int64 :=
  if p = propPlayerLevel then some l.ar.toUInt64.toInt64
  else if p = propPlayerExp then some l.arExp.toInt64
  else if p = propPlayerWorldLevel then some l.worldLevel.toUInt64.toInt64
  else none

/-- The properties with those that mirror a member set from it. -/
def Levels.store (l : Levels) (props : Props) : Props :=
  ((props.put propPlayerLevel l.ar.toUInt64.toInt64).put propPlayerExp l.arExp.toInt64).put
    propPlayerWorldLevel l.worldLevel.toUInt64.toInt64

/-- The map the record gets: a property that mirrors a member is written from it. -/
def Levels.record (l : Levels) (props : Props) : Props :=
  props.mapValues fun p v => (l.mirrored p).getD v

/-- `setProp` on the members. -/
def Levels.setProp (l : Levels) (p : UInt32) (v : Int64) : Levels :=
  if p = propPlayerLevel then { l with ar := v.toUInt64.toUInt32 }
  else if p = propPlayerExp then { l with arExp := v.toUInt64 }
  else if p = propPlayerWorldLevel then { l with worldLevel := v.toUInt64.toUInt32 }
  else l

/-! ## Records -/

/-- A `proto::Vector`, its floats by their bits. -/
structure Vec where
  x : UInt32
  y : UInt32
  z : UInt32
  deriving DecidableEq

/-- The fields of `storage::PlayerInfo` that the constructor of `Player` reads back. -/
@[ext] structure ReadBack where
  uid : UInt32
  aid : UInt32
  sceneId : UInt32
  worldLevel : UInt32
  adventureRank : UInt32
  adventureExp : UInt64
  name : Bytes
  signature : Bytes
  namecard : UInt32
  pfp : UInt32
  position : Option Vec
  nextGuid : UInt32
  props : Props
  openStates : List UInt32
  deriving DecidableEq

/-- A `proto::AvatarTeam`. -/
structure AvatarTeamInfo where
  teamName : Bytes
  avatarGuidList : List UInt64
  deriving DecidableEq

/-- The message `storage::PlayerInfo`, as far as it is ever set. -/
structure PlayerInfo extends ReadBack where
  sessionId : UInt32
  sessionSeed : UInt64
  sessionExpireTs : Int64
  teams : List AvatarTeamInfo
  curTeamId : UInt32
  curAvatarGuid : UInt64
  deriving DecidableEq

instance : Inhabited PlayerInfo where
  default :=
    { uid := 0, aid := 0, sceneId := 0, worldLevel := 0, adventureRank := 0, adventureExp := 0
      name := [], signature := [], namecard := 0, pfp := 0, position := none, nextGuid := 0
      props := OrderedStore.empty, openStates := [], sessionId := 0, sessionSeed := 0
      sessionExpireTs := 0, teams := [], curTeamId := 0, curAvatarGuid := 0 }

def Vec.ofFields : UInt32 × UInt32 × UInt32 → Vec
  | (x, y, z) => { x, y, z }

instance : Encodable Vec := Encodable.ofLeftInverse (fun v => (v.x, v.y, v.z)) Vec.ofFields fun _ => rfl

instance : Packed Vec := Packed.ofLeftInverse (fun v => (v.x, v.y, v.z)) Vec.ofFields fun _ => rfl

def ReadBack.fields (r : ReadBack) :=
  (r.uid, r.aid, r.sceneId, r.worldLevel, r.adventureRank, r.adventureExp, r.name, r.signature,
    r.namecard, r.pfp, r.position, r.nextGuid, r.props, r.openStates)

def ReadBack.ofFields : UInt32 × UInt32 × UInt32 × UInt32 × UInt32 × UInt64 × Bytes × Bytes ×
    UInt32 × UInt32 × Option Vec × UInt32 × Props × List UInt32 → ReadBack
  | (uid, aid, sceneId, worldLevel, adventureRank, adventureExp, name, signature, namecard, pfp,
      position, nextGuid, props, openStates) =>
    { uid, aid, sceneId, worldLevel, adventureRank, adventureExp, name, signature, namecard, pfp
      position, nextGuid, props, openStates }

instance : Encodable ReadBack :=
  Encodable.ofLeftInverse ReadBack.fields ReadBack.ofFields fun _ => rfl

instance : Packed ReadBack := Packed.ofLeftInverse ReadBack.fields ReadBack.ofFields fun _ => rfl

def AvatarTeamInfo.ofFields : Bytes × List UInt64 → AvatarTeamInfo
  | (teamName, avatarGuidList) => { teamName, avatarGuidList }

instance : Encodable AvatarTeamInfo :=
  Encodable.ofLeftInverse (fun t => (t.teamName, t.avatarGuidList)) AvatarTeamInfo.ofFields fun _ => rfl

instance : Packed AvatarTeamInfo :=
  Packed.ofLeftInverse (fun t => (t.teamName, t.avatarGuidList)) AvatarTeamInfo.ofFields fun _ => rfl

def PlayerInfo.fields (i : PlayerInfo) :=
  (i.toReadBack, i.sessionId, i.sessionSeed, i.sessionExpireTs, i.teams, i.curTeamId, i.curAvatarGuid)

def PlayerInfo.ofFields : ReadBack × UInt32 × UInt64 × Int64 × List AvatarTeamInfo × UInt32 ×
    UInt64 → PlayerInfo
  | (r, sessionId, sessionSeed, sessionExpireTs, teams, curTeamId, curAvatarGuid) =>
    { toReadBack := r, sessionId, sessionSeed, sessionExpireTs, teams, curTeamId, curAvatarGuid }

instance : Encodable PlayerInfo :=
  Encodable.ofLeftInverse PlayerInfo.fields PlayerInfo.ofFields fun _ => rfl

instance : Packed PlayerInfo := Packed.ofLeftInverse PlayerInfo.fields PlayerInfo.ofFields fun _ => rfl

def PlayerInfo.levels (i : PlayerInfo) : Levels where
  ar := i.adventureRank
  arExp := i.adventureExp
  worldLevel := i.worldLevel

/-! ## Objects -/

/-- A pointer to an avatar. One that was never set points nowhere. -/
inductive AvatarPtr where
  | unset
  | null
  | avatar (guid : UInt64)
  deriving DecidableEq

/-- The members of an `AvatarTeam`, of which some may be null. -/
structure AvatarTeam where
  name : Bytes
  avatars : List (Option UInt64)
  deriving DecidableEq

/-- The class `Player`. The session is a slot of the table. Every constructor sets the
properties that mirror a member, and none is ever removed. -/
structure Player where
  account : Option Account
  uid : UInt32
  session : Option Nat
  teams : List AvatarTeam
  avatars : List Holding
  inventory : List Holding
  curTeamIndex : UInt32
  curAvatar : AvatarPtr
  pos : Vec
  sceneId : UInt32
  tpToken : UInt32
  nextGuid : UInt32
  levels : Levels
  name : Bytes
  signature : Bytes
  namecard : UInt32
  pfp : UInt32
  props : Props
  openstates : List UInt32
  mirrors : ∀ p v, levels.mirrored p = some v → (props.get p).isSome

def AvatarTeam.toInfo (t : AvatarTeam) : AvatarTeamInfo where
  teamName := t.name
  avatarGuidList := t.avatars.filterMap id

/-- What a player is stored as, in the fields that are read back. -/
def Player.readBack (p : Player) : ReadBack where
  uid := p.uid
  aid := (p.account.map (·.aid)).getD 0
  sceneId := p.sceneId
  worldLevel := p.levels.worldLevel
  adventureRank := p.levels.ar
  adventureExp := p.levels.arExp
  name := p.name
  signature := p.signature
  namecard := p.namecard
  pfp := p.pfp
  position := some p.pos
  nextGuid := p.nextGuid
  props := p.levels.record p.props
  openStates := p.openstates

/-- The first avatar under a guid. -/
def Player.getAvatarByGuid (p : Player) (guid : UInt64) : Option Holding :=
  p.avatars.find? (·.guid = guid)

def Player.swapToAvatar (p : Player) (guid : UInt64) : Player :=
  match p.getAvatarByGuid guid with
  | none => p
  | some a => { p with curAvatar := .avatar a.guid }

/-! ## Mirrored properties -/

theorem mirrored_isSome (l l' : Levels) (p : UInt32) :
    (l.mirrored p).isSome = (l'.mirrored p).isSome := by
  unfold Levels.mirrored
  split
  · rfl
  · split
    · rfl
    · split
      · rfl
      · rfl

theorem get_store (l : Levels) (props : Props) (p : UInt32) :
    (l.store props).get p = (l.mirrored p).or (props.get p) := by
  unfold Levels.store Levels.mirrored
  by_cases hw : p = propPlayerWorldLevel
  · rw [hw, OrderedStore.get_put_self]
    rfl
  rw [OrderedStore.get_put_ne _ hw]
  by_cases he : p = propPlayerExp
  · rw [he, OrderedStore.get_put_self]
    rfl
  rw [OrderedStore.get_put_ne _ he]
  by_cases hl : p = propPlayerLevel
  · rw [hl, OrderedStore.get_put_self]
    rfl
  rw [OrderedStore.get_put_ne _ hl, if_neg hl, if_neg he, if_neg hw, Option.none_or]

theorem get_record (l : Levels) (props : Props) (p : UInt32) :
    (l.record props).get p = (props.get p).map fun v => (l.mirrored p).getD v :=
  OrderedStore.get_mapValues _ props p

/-- What is stored of properties that were just loaded is what is stored of a player's,
where they agree on all that mirror no member. -/
theorem record_store_iff {l : Levels} {props props' : Props}
    (hmirrors : ∀ p v, l.mirrored p = some v → (props'.get p).isSome) :
    l.record (l.store props) = l.record props' ↔
      ∀ p, l.mirrored p = none → props.get p = props'.get p := by
  constructor
  · intro h p hp
    have hget := congrArg (fun s => OrderedStore.get s p) h
    simpa only [get_record, get_store, hp, Option.none_or, Option.getD_none, Option.map_id'] using hget
  · intro h
    apply OrderedStore.ext_get
    intro p
    rw [get_record, get_record, get_store]
    cases hp : l.mirrored p with
    | none => rw [Option.none_or, h p hp]
    | some v =>
      obtain ⟨v', hv'⟩ := Option.isSome_iff_exists.mp (hmirrors p v hp)
      rw [hv']
      rfl

/-! ## Changes -/

/-- The calls that change a player in memory. An avatar or item is added with its guid,
which `takeGuid` has counted up where it was new. -/
inductive Change where
  | setProp (p : UInt32) (v : Int64)
  | setOpenstate (state : UInt32)
  | takeGuid
  | setUid (uid : UInt32)
  | setTpToken (tpToken : UInt32)
  | setAccount (account : Option Account)
  | addAvatar (ent : Holding)
  | addItem (ent : Holding)
  | swapToAvatar (guid : UInt64)

theorem mirrors_setProp {p : Player} (k : UInt32) (v : Int64) :
    ∀ q w, (p.levels.setProp k v).mirrored q = some w → ((p.props.put k v).get q).isSome := by
  intro q w h
  by_cases hq : q = k
  · rw [hq, OrderedStore.get_put_self]
    rfl
  · rw [OrderedStore.get_put_ne _ hq]
    have hsome : (p.levels.mirrored q).isSome := by
      rw [mirrored_isSome _ (p.levels.setProp k v), h]
      rfl
    obtain ⟨w', hw'⟩ := Option.isSome_iff_exists.mp hsome
    exact p.mirrors q w' hw'

def Player.change (p : Player) : Change → Player
  | .setProp k v =>
    { p with levels := p.levels.setProp k v, props := p.props.put k v, mirrors := mirrors_setProp k v }
  | .setOpenstate state => { p with openstates := Players.setOpenstate p.openstates state }
  | .takeGuid => { p with nextGuid := p.nextGuid + 1 }
  | .setUid uid => { p with uid }
  | .setTpToken tpToken => { p with tpToken }
  | .setAccount account => { p with account }
  | .addAvatar ent => { p with avatars := p.avatars ++ [ent] }
  | .addItem ent => { p with inventory := p.inventory ++ [ent] }
  | .swapToAvatar guid => p.swapToAvatar guid

def Player.after (p : Player) (changes : List Change) : Player := changes.foldl Player.change p

end Yagips.Game.Players
