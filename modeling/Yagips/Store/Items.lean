import Yagips.Lib.Bytes
import Yagips.Lib.OrderedStore

/-!
# Items

The struct `Item` holds one of three variants, two of which end in an array whose slots are what is
left of the object behind it. An item is made of a `proto::Item` and made into one.
-/
namespace Yagips.Store.Items

open Yagips.Lib

/-! ## Messages -/

namespace Pb

/-- The oneof `delete_info`. Nothing reads the fields of a `CountDownDelete`. -/
inductive DeleteInfo where
  | unset
  | countDownDelete
  | dateDelete (deleteTime : UInt32)
  deriving DecidableEq

structure MaterialDeleteInfo where
  hasDeleteConfig : Bool
  deleteInfo : DeleteInfo
  deriving DecidableEq

structure Material where
  count : UInt32
  deleteInfo : Option MaterialDeleteInfo
  deriving DecidableEq

structure Reliquary where
  level : UInt32
  exp : UInt32
  promoteLevel : UInt32
  mainPropId : UInt32
  appendPropIdList : List UInt32
  deriving DecidableEq

/-- The map is walked in some order, here that of its keys. -/
structure Weapon where
  level : UInt32
  exp : UInt32
  promoteLevel : UInt32
  affixMap : OrderedStore UInt32 UInt32
  deriving DecidableEq

inductive EquipDetail where
  | unset
  | reliquary (r : Reliquary)
  | weapon (w : Weapon)
  deriving DecidableEq

structure Equip where
  isLocked : Bool
  detail : EquipDetail
  deriving DecidableEq

inductive Detail where
  | unset
  | material (m : Material)
  | equip (e : Equip)
  deriving DecidableEq

structure Item where
  itemId : UInt32
  guid : UInt64
  detail : Detail
  deriving DecidableEq

end Pb

/-! ## Objects -/

structure Material where
  count : UInt32
  expireTime : UInt64
  deriving DecidableEq

structure Weapon where
  exp : UInt32
  locked : UInt8
  level : UInt8
  ascension : UInt8
  refinement : UInt8
  numAffixes : UInt32
  affixes : List UInt32
  deriving DecidableEq

structure ArtifactSubStat where
  id : UInt16
  count : UInt16
  deriving DecidableEq

structure Artifact where
  exp : UInt32
  locked : UInt8
  level : UInt8
  mainStat : UInt16
  numSubStats : UInt16
  subStats : List ArtifactSubStat
  deriving DecidableEq

/-- The union, read by the item's type. An array is the slots of it that are in the object. -/
inductive Data where
  | material (m : Material)
  | artifact (a : Artifact)
  | weapon (w : Weapon)
  | other (type : UInt32)
  deriving DecidableEq

structure Item where
  id : UInt32
  guid : UInt64
  data : Data
  deriving DecidableEq

/-- The slots that an object has for each of the arrays. -/
structure Slots where
  subStats : Nat
  affixes : Nat

/-- The arrays have the slots of an object. -/
def Data.Laid (slots : Slots) : Data → Prop
  | .artifact a => a.subStats.length = slots.subStats
  | .weapon w => w.affixes.length = slots.affixes
  | _ => True

/-- What the object's memory holds before it is constructed: what its type makes of it, and what is
where the time of expiry goes. -/
structure Memory (slots : Slots) where
  data : Data
  expireTime : UInt64
  laid : data.Laid slots

/-! ## From a message -/

/-- The search for a sub-stat, which counts one more where it finds it. -/
def bump (id : UInt16) : List ArtifactSubStat → Option (List ArtifactSubStat)
  | [] => none
  | s :: rest =>
    if s.id = id then some ({ s with count := s.count + 1 } :: rest)
    else (bump id rest).map (s :: ·)

/-- One pass of the loop over the sub-stats, with the slots that are written. -/
def addSubStat (slots : Nat) (subStats : List ArtifactSubStat) (propId : UInt32) :
    Except Fault (List ArtifactSubStat) :=
  match bump propId.toUInt16 subStats with
  | some subStats => return subStats
  | none =>
    if propId.toUInt16 = 0 then return subStats
    else if subStats.length < slots then return subStats ++ [{ id := propId.toUInt16, count := 1 }]
    else .error (.slice subStats.length 1)

def loadSubStats (slots : Nat) (propIds : List UInt32) : Except Fault (List ArtifactSubStat) :=
  propIds.foldlM (addSubStat slots) []

def loadAffixes (slots : Nat) (keys : List UInt32) : Except Fault (List UInt32) :=
  if keys.length ≤ slots then return keys else .error (.slice slots 1)

variable {slots : Slots}

/-- The time of expiry, which is left as it is where the message has none. -/
def expiry (mem : Memory slots) (m : Pb.Material) : UInt64 :=
  match m.deleteInfo with
  | some { hasDeleteConfig := true, deleteInfo := .dateDelete deleteTime } => deleteTime.toUInt64
  | _ => mem.expireTime

def boolByte (b : Bool) : UInt8 := if b then 1 else 0

/-- The union after the constructor. -/
def loadData (mem : Memory slots) : Pb.Detail → Except Fault Data
  | .unset => return mem.data
  | .material m => return .material { count := m.count, expireTime := expiry mem m }
  | .equip { detail := .unset, .. } => return mem.data
  | .equip { isLocked, detail := .reliquary r } => do
    let subStats ← loadSubStats slots.subStats r.appendPropIdList
    return .artifact {
      exp := r.exp, locked := boolByte isLocked, level := r.level.toUInt8
      mainStat := r.mainPropId.toUInt16, numSubStats := UInt16.ofNat subStats.length, subStats }
  | .equip { isLocked, detail := .weapon w } => do
    let affixes ← loadAffixes slots.affixes (w.affixMap.entries.map (·.1))
    let refinement := w.affixMap.entries.foldl (fun k affix => max k affix.2) 0
    return .weapon {
      exp := w.exp, locked := boolByte isLocked, level := w.level.toUInt8
      ascension := w.promoteLevel.toUInt8, refinement := refinement.toUInt8
      numAffixes := UInt32.ofNat affixes.length, affixes }

/-- `Item::Item(proto::Item)`. -/
def Item.ofPb (mem : Memory slots) (pb : Pb.Item) : Except Fault Item := do
  return { id := pb.itemId, guid := pb.guid, data := ← loadData mem pb.detail }

/-! ## To a message -/

/-- The first slots of an array. -/
def readSlots {S : Type} (n : Nat) (slots : List S) : Except Fault (List S) :=
  if n ≤ slots.length then return slots.take n else .error (.slice slots.length 1)

def expand (subStats : List ArtifactSubStat) : List UInt32 :=
  subStats.flatMap fun s => List.replicate s.count.toNat s.id.toUInt32

def saveDeleteInfo (expireTime : UInt64) : Option Pb.MaterialDeleteInfo :=
  if expireTime ≠ 0 then some { hasDeleteConfig := true, deleteInfo := .dateDelete expireTime.toUInt32 }
  else none

def saveData : Data → Except Fault Pb.Detail
  | .other _ => return .unset
  | .material m => return .material { count := m.count, deleteInfo := saveDeleteInfo m.expireTime }
  | .artifact a => do
    let subStats ← readSlots a.numSubStats.toNat a.subStats
    return .equip {
      isLocked := a.locked ≠ 0
      detail := .reliquary {
        level := a.level.toUInt32, exp := a.exp, promoteLevel := (a.level / 4).toUInt32
        mainPropId := a.mainStat.toUInt32, appendPropIdList := expand subStats } }
  | .weapon w => do
    let affixes ← readSlots w.numAffixes.toNat w.affixes
    return .equip {
      isLocked := w.locked ≠ 0
      detail := .weapon {
        level := w.level.toUInt32, exp := w.exp, promoteLevel := w.ascension.toUInt32
        affixMap := affixes.foldl (fun map id => map.put id w.refinement.toUInt32) OrderedStore.empty } }

/-- `Item::operator proto::Item`. -/
def Item.toPb (item : Item) : Except Fault Pb.Item := do
  return { itemId := item.id, guid := item.guid, detail := ← saveData item.data }

end Yagips.Store.Items
