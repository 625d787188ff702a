import Yagips.Store.Items

/-!
# Avatars

The class `Avatar`, the message `proto::AvatarInfo`, and the conversions. A constructor is given what
the object's memory holds, which is what the members it does not set keep.
-/
namespace Yagips.Game.Avatars

open Yagips.Lib
open Yagips.Store.Items (Item Data)

/-! ## Game data -/

structure AvatarDataEnt where
  id : UInt32
  skillDepotId : UInt32

structure AvatarSkillDepotDataEnt where
  id : UInt32
  constellationSkills : Vector UInt32 6

/-- `globalGameData`, as far as avatars need it. -/
structure GameData where
  avatarData : List AvatarDataEnt
  avatarSkillDepotData : List AvatarSkillDepotDataEnt

def GameData.avatar (tables : GameData) (id : UInt32) : Option AvatarDataEnt :=
  tables.avatarData.find? (·.id = id)

def GameData.skillDepot (tables : GameData) (id : UInt32) : Option AvatarSkillDepotDataEnt :=
  tables.avatarSkillDepotData.find? (·.id = id)

/-! ## Messages -/

structure FetterInfo where
  expNumber : UInt32
  expLevel : UInt32
  deriving DecidableEq

/-- A `proto::AvatarInfo`, in the fields that are read or set. -/
structure AvatarInfo where
  avatarId : UInt32
  guid : UInt64
  lifeState : UInt32
  equipGuidList : List UInt64
  talentIdList : List UInt32
  skillDepotId : UInt32
  fetterInfo : FetterInfo
  wearingFlycloakId : UInt32
  bornTime : UInt32
  deriving DecidableEq

/-! ## Objects -/

/-- A pointer to an item. What is in fresh memory may point nowhere. -/
inductive ItemPtr where
  | null
  | item (i : Item)
  | wild

structure Avatar where
  id : UInt32
  guid : UInt64
  weapon : ItemPtr
  artifacts : Vector ItemPtr 5
  setEquips : Bool
  equipGuids : List UInt64
  level : UInt32
  exp : UInt32
  ascension : UInt32
  curHp : UInt32
  wings : UInt32
  friendship : UInt32
  friendshipExp : UInt32
  talentLevel : Vector UInt32 3
  constellation : UInt32
  bornTime : UInt64
  skillDepotId : UInt32
  full : UInt32
  fullCd : UInt32
  energy : UInt32
  data : Option AvatarDataEnt
  skillDepot : Option AvatarSkillDepotDataEnt

/-- Memory that is all zeros, but for the pointer to the weapon. -/
def zeros (weapon : ItemPtr) : Avatar where
  id := 0
  guid := 0
  weapon := weapon
  artifacts := Vector.replicate 5 .null
  setEquips := false
  equipGuids := []
  level := 0
  exp := 0
  ascension := 0
  curHp := 0
  wings := 0
  friendship := 0
  friendshipExp := 0
  talentLevel := Vector.replicate 3 0
  constellation := 0
  bornTime := 0
  skillDepotId := 0
  full := 0
  fullCd := 0
  energy := 0
  data := none
  skillDepot := none

/-! ## Constructors -/

/-- `Avatar::Avatar()`. The time is what `time` returns. -/
def Avatar.new (now : UInt64) (mem : Avatar) : Avatar :=
  { mem with
    bornTime := now, level := 1, exp := 0, friendship := 1, friendshipExp := 0, constellation := 0
    ascension := 0, wings := 14001, talentLevel := Vector.replicate 3 1, energy := 0, weapon := .null
    artifacts := Vector.replicate 5 .null, setEquips := false, equipGuids := [] }

/-- `Avatar::Avatar(unsigned int)`, which reads the data of the avatar. -/
def Avatar.ofId (tables : GameData) (now : UInt64) (id : UInt32) (mem : Avatar) : Except Fault Avatar :=
  match tables.avatar id with
  | none => .error .pointer
  | some data => return {
      Avatar.new now mem with
      id, data, skillDepotId := data.skillDepotId, skillDepot := tables.skillDepot data.skillDepotId }

/-- `Avatar::Avatar(const proto::AvatarInfo&)`. -/
def Avatar.ofInfo (tables : GameData) (pb : AvatarInfo) (mem : Avatar) : Avatar :=
  { mem with
    id := pb.avatarId, skillDepotId := pb.skillDepotId, data := tables.avatar pb.avatarId
    skillDepot := tables.skillDepot pb.skillDepotId, guid := pb.guid, bornTime := pb.bornTime.toUInt64
    wings := pb.wearingFlycloakId, friendship := pb.fetterInfo.expLevel
    friendshipExp := if 10 ≤ pb.fetterInfo.expLevel then 6325 else pb.fetterInfo.expNumber
    constellation := UInt32.ofNat pb.talentIdList.length, equipGuids := pb.equipGuidList
    setEquips := false }

/-! ## Equipment -/

/-- `setWeaponIfNull`. -/
def Avatar.setWeaponIfNull (a : Avatar) (w : Item) : Avatar :=
  match a.weapon, w.data with
  | .null, .weapon _ => { a with weapon := .item w }
  | _, _ => a

/-- The slot of an artifact, which is in its id. -/
def artifactIndex (id : UInt32) : UInt32 := id % 100 / 10 - 1

/-- `setArtifactIfNull`. -/
def Avatar.setArtifactIfNull (a : Avatar) (item : Item) : Avatar :=
  let idx := (artifactIndex item.id).toNat
  if h : idx < 5 then
    match a.artifacts[idx], item.data with
    | .null, .artifact _ => { a with artifacts := a.artifacts.set idx (.item item) }
    | _, _ => a
  else a

/-- One pass of the loop in `loadEquips`. -/
def Avatar.equip (inventory : List Item) (a : Avatar) (guid : UInt64) : Avatar :=
  match inventory.find? (·.guid = guid) with
  | none => a
  | some t =>
    match t.data with
    | .weapon _ => a.setWeaponIfNull t
    | .artifact _ => a.setArtifactIfNull t
    | _ => a

/-- `loadEquips`, where `owners` gives the inventory of a player by its id. -/
def Avatar.loadEquips (owners : UInt32 → Option (List Item)) (a : Avatar) : Avatar :=
  if a.guid >>> 32 = 0 then a
  else match owners (a.guid >>> 32).toUInt32 with
    | none => a
    | some inventory => { a.equipGuids.foldl (Avatar.equip inventory) a with setEquips := true }

/-! ## Conversions -/

/-- What a pointer adds to the list of equipment. -/
def ItemPtr.guids : ItemPtr → Except Fault (List UInt64)
  | .null => return []
  | .item i => return [i.guid]
  | .wild => .error .pointer

def equipGuidList : List ItemPtr → Except Fault (List UInt64)
  | [] => return []
  | p :: ps => do return (← p.guids) ++ (← equipGuidList ps)

/-- What a pass of the last loop adds to the list of talents. -/
def talentId (depot : Option AvatarSkillDepotDataEnt) (i : Nat) : Except Fault UInt32 :=
  match depot with
  | none => .error .pointer
  | some depot => if h : i < 6 then return depot.constellationSkills[i] else .error (.read i)

def fetterInfo (a : Avatar) : FetterInfo where
  expLevel := a.friendship
  expNumber := if a.friendship < 10 then a.friendshipExp else 0

/-- `Avatar::operator proto::AvatarInfo() const`. -/
def Avatar.toConstInfo (a : Avatar) : Except Fault AvatarInfo := do
  let equipGuidList ← equipGuidList (a.weapon :: a.artifacts.toList)
  let talentIdList ← (List.range a.constellation.toNat).mapM (talentId a.skillDepot)
  return {
    avatarId := a.id, guid := a.guid, bornTime := a.bornTime.toUInt32, skillDepotId := a.skillDepotId
    fetterInfo := fetterInfo a, wearingFlycloakId := a.wings, lifeState := 1, equipGuidList, talentIdList }

/-- `Avatar::operator proto::AvatarInfo()`, with the object it leaves. -/
def Avatar.toInfo (owners : UInt32 → Option (List Item)) (a : Avatar) :
    Except Fault (Avatar × AvatarInfo) := do
  let a := if a.setEquips then a else a.loadEquips owners
  return (a, ← a.toConstInfo)

/-! ## Counters -/

/-- The members that are counted up and down. -/
inductive Counter where
  | exp
  | friendshipExp
  | curHp
  | full
  | fullCd
  | energy
  deriving DecidableEq

def Avatar.get (a : Avatar) : Counter → UInt32
  | .exp => a.exp
  | .friendshipExp => a.friendshipExp
  | .curHp => a.curHp
  | .full => a.full
  | .fullCd => a.fullCd
  | .energy => a.energy

def Avatar.set (a : Avatar) (x : UInt32) : Counter → Avatar
  | .exp => { a with exp := x }
  | .friendshipExp => { a with friendshipExp := x }
  | .curHp => { a with curHp := x }
  | .full => { a with full := x }
  | .fullCd => { a with fullCd := x }
  | .energy => { a with energy := x }

/-- The body of five of the functions: an unsigned sum, and 0 in its place where it reads as negative. -/
def Avatar.addTo (c : Counter) (a : Avatar) (delta : Int32) : Avatar × UInt32 :=
  let sum := a.get c + delta.toUInt32
  let sum := if sum.toInt32 < 0 then 0 else sum
  (a.set sum c, sum)

def Avatar.addExp : Avatar → Int32 → Avatar × UInt32 := Avatar.addTo .exp
def Avatar.addCurHp : Avatar → Int32 → Avatar × UInt32 := Avatar.addTo .curHp
def Avatar.addFullness : Avatar → Int32 → Avatar × UInt32 := Avatar.addTo .full
def Avatar.addFullnessCd : Avatar → Int32 → Avatar × UInt32 := Avatar.addTo .fullCd
def Avatar.addEnergy : Avatar → Int32 → Avatar × UInt32 := Avatar.addTo .energy

/-- `addFriendshipExp`, which has another counter in the branch that the others set theirs to 0 in. -/
def Avatar.addFriendshipExp (a : Avatar) (expToAdd : Int32) : Avatar × UInt32 :=
  let sum := a.friendshipExp + expToAdd.toUInt32
  let a := { a with friendshipExp := sum }
  (if sum.toInt32 < 0 then { a with exp := 0 } else a, sum)

/-! ## Progress -/

def clamp (low high x : UInt32) : UInt32 := if x < low then low else if high < x then high else x

def Avatar.setLevel (a : Avatar) (l : UInt32) : Avatar := { a with level := clamp 1 90 l }

/-- `setAscension` and `setConstellation` have no lower bound. -/
def cap (high x : UInt32) : UInt32 := if high < x then high else x

def Avatar.setAscension (a : Avatar) (x : UInt32) : Avatar := { a with ascension := cap 6 x }

def Avatar.ascend (a : Avatar) : Avatar × Int :=
  if 6 ≤ a.ascension then (a, -1)
  else ({ a with ascension := a.ascension + 1 }, (a.ascension + 1).toNat)

def Avatar.setFriendship (a : Avatar) (f : UInt32) : Avatar := { a with friendship := clamp 1 10 f }

def Avatar.setTalentLevels (a : Avatar) (t : Vector UInt32 3) : Avatar :=
  { a with talentLevel := t.map (clamp 1 15) }

def Avatar.setTalentLevel (a : Avatar) (l i : UInt32) : Avatar × Int :=
  if h : i.toNat < 3 then ({ a with talentLevel := a.talentLevel.set i.toNat (clamp 1 15 l) }, 0)
  else (a, -1)

def Avatar.addTalentLevel (a : Avatar) (i : UInt32) : Avatar × Int :=
  if h : i.toNat < 3 then
    let next := a.talentLevel[i.toNat] + 1
    if 15 ≤ next then (a, -1)
    else ({ a with talentLevel := a.talentLevel.set i.toNat next }, next.toNat)
  else (a, -1)

def Avatar.setConstellation (a : Avatar) (c : UInt32) : Avatar := { a with constellation := cap 6 c }

def Avatar.addConstellation (a : Avatar) : Avatar × Int :=
  if 6 ≤ a.constellation then (a, -1)
  else ({ a with constellation := a.constellation + 1 }, (a.constellation + 1).toNat)

end Yagips.Game.Avatars
