import Yagips.Data.Enums
import Yagips.Data.Loading

/-!
# The table of avatars

The rewards of a promotion are listed in two cells, which are taken apart side by side. The two pointers
into them are set only by a row that has lists, and are not reset by one that has none.
-/
namespace Yagips.Data.AvatarTable

open Yagips.Lib
open Yagips.Lib.Strsep
open Yagips.Sdk.Body
open Yagips.Game.OpenStates (Row tryGetKey toInt)

/-- The names of the columns. -/
def fieldNames : List String :=
  ["id", "unk1", "hpBase", "attackBase", "defenseBase", "critical", "criticalRes", "criticalHurt", "pyroRes",
    "dendroRes", "hydroRes", "electroRes", "anemoRes", "cryoRes", "geoRes", "pyroBonus", "dendroBonus",
    "hydroBonus", "electroBonus", "anemoBonus", "cryoBonus", "geoBonus", "propGrowCurveType1",
    "propGrowCurve1", "propGrowCurveType2", "propGrowCurve2", "propGrowCurveType3", "propGrowCurve3",
    "elementalMastery", "physicalRes", "physicalBonus", "useType", "qualityType", "chargeEfficiency",
    "unk2", "unk3", "combatConfig", "isRangeAttack", "initialWeapon", "weaponType", "skillDepotId",
    "staminaRecoverSpeed", "candSkillDepotIds", "avatarIdentityType", "avatarPromoteId",
    "avatarPromoteRewardLevelList", "avatarPromoteRewardIdList", "featureTagGroupID", "name", "desc"]

structure PropCurve where
  prop : UInt32
  type : UInt32

/-- `F` is `long double`. -/
structure AvatarDataEnt (F : Type) where
  id : UInt32
  baseHp : F
  baseAtk : F
  baseDef : F
  critRate : F
  critRes : F
  critDmg : F
  elementRes : List F
  elementBonus : List F
  propCurves : List PropCurve
  em : F
  useType : UInt32
  quality : UInt32
  chargeEfficiency : UInt32
  battleConfigFile : Bytes
  hasRange : UInt32
  initialWeapon : UInt32
  weaponType : UInt32
  skillDepotId : UInt32
  stanimaRecoverSpeed : UInt32
  candidateSkillDepotIds : List UInt32
  identity : UInt32
  promoteId : UInt32
  promoteRewards : UInt32 → Option UInt32
  propGroupId : UInt32

/-- What is done with a `long double`. -/
structure LongDouble (F : Type) where
  strtold : Bytes → F
  toUInt : F → UInt32

/-! ## Rewards -/

/-- A `char*` into a list: never set, null, into a text, or into one that was freed. -/
inductive Cursor where
  | unset
  | null
  | into (s : Bytes)
  | freed

namespace Cursor

def ofOption : Option Bytes → Cursor
  | none => .null
  | some s => .into s

/-- What is left of the text. -/
def rest : Cursor → Bytes
  | .into s => s
  | _ => []

/-- The text is freed. -/
def release : Cursor → Cursor
  | .into _ => .freed
  | c => c

end Cursor

def semicolon (b : UInt8) : Bool := b = 0x3b

/-- `strsep(&p, ";")`, which reads the pointer. -/
def strsepAt : Cursor → Except Fault (Option Bytes × Cursor)
  | .unset | .freed => .error .pointer
  | .null => return (none, .null)
  | .into s =>
    let (t, p) := strsep semicolon (some s)
    return (t, Cursor.ofOption p)

/-- `promote_rewards[rkey_i] = rval_i`. -/
def setReward (rewards : UInt32 → Option UInt32) (rkeyI rvalI : UInt32) : UInt32 → Option UInt32 :=
  fun level => if level = rkeyI then some rvalI else rewards level

/-- The id of a reward: none is read where nothing is left of the list behind it. -/
def rewardId (rvalT : Option Bytes) : Cursor → UInt32
  | .null => 0
  | _ => toInt (rvalT.getD [])

structure Rewarded where
  rkeyP : Cursor
  rvalP : Cursor
  rewards : UInt32 → Option UInt32

/-- The loop over the levels, which takes a part of either list. -/
def rewardLoop : Nat → Cursor → Cursor → (UInt32 → Option UInt32) → Except Fault Rewarded
  | 0, _, _, _ => .error .endless
  | fuel + 1, rkeyP, rvalP, rewards =>
    match rkeyP with
    | .unset | .freed => .error .pointer
    | .null => return { rkeyP, rvalP, rewards }
    | .into s => do
      let (rkeyT, rkeyP) ← strsepAt (.into s)
      match rkeyT with
      | none => return { rkeyP, rvalP, rewards }
      | some rkeyT => do
        let (rvalT, rvalP) ← strsepAt rvalP
        rewardLoop fuel rkeyP rvalP (setReward rewards (toInt rkeyT) (rewardId rvalT rvalP))

/-! ## Entries -/

/-- What `load` keeps from row to row. -/
structure Vars where
  rkeyP : Cursor
  rvalP : Cursor
  jtk : TokenerPtr

def Vars.initial : Vars where
  rkeyP := .unset
  rvalP := .unset
  jtk := .null

section Entries

variable {F : Type} (flt : LongDouble F)

/-- A new entry with what the two kinds of table have under the same names. -/
def common (row : Row) : AvatarDataEnt F :=
  let toFlt := fun key : String => flt.strtold (cstr (tryGetKey row key))
  let toInt := fun key : String => toInt (tryGetKey row key)
  { id := toInt "id"
    baseHp := toFlt "hpBase"
    baseAtk := toFlt "attackBase"
    baseDef := toFlt "defenseBase"
    critRate := toFlt "critical"
    critDmg := toFlt "criticalHurt"
    critRes := toFlt "criticalRes"
    elementRes := [toFlt "pyroRes", toFlt "dendroRes", toFlt "hydroRes", toFlt "electroRes",
      toFlt "anemoRes", toFlt "geoRes", toFlt "cryoRes", toFlt "physicalRes"]
    elementBonus := [toFlt "pyroBonus", toFlt "dendroBonus", toFlt "hydroBonus", toFlt "electroBonus",
      toFlt "anemoBonus", toFlt "geoBonus", toFlt "cryoBonus", toFlt "physicalBonus"]
    propCurves := List.replicate 3 { prop := 0, type := 0 }
    em := toFlt "elementalMastery"
    useType := 0
    quality := 0
    chargeEfficiency := flt.toUInt (toFlt "chargeEfficiency")
    battleConfigFile := []
    hasRange := toInt "isRangeAttack"
    initialWeapon := toInt "initialWeapon"
    weaponType := 0
    skillDepotId := toInt "skillDepotId"
    stanimaRecoverSpeed := toInt "stanimaRecoverSpeed"
    candidateSkillDepotIds := []
    identity := 0
    promoteId := toInt "avatarPromoteId"
    promoteRewards := fun _ => none
    propGroupId := toInt "featureTagGroupID" }

/-- An entry of a TSV row, but for the rewards. -/
def tsvColumns (row : Row) : AvatarDataEnt F :=
  let toInt := fun key : String => toInt (tryGetKey row key)
  { common flt row with
    propCurves :=
      [{ prop := toInt "propGrowCurveType1", type := toInt "propGrowCurve1" },
        { prop := toInt "propGrowCurveType2", type := toInt "propGrowCurve2" },
        { prop := toInt "propGrowCurveType3", type := toInt "propGrowCurve3" }]
    battleConfigFile := tryGetKey row "combatConfig"
    useType := toInt "useType"
    quality := toInt "qualityType"
    weaponType := toInt "weaponType"
    identity := toInt "avatarIdentityType"
    candidateSkillDepotIds := idList (tryGetKey row "candSkillDepotIds") }

/-- The rewards of a row. Without a list of levels neither pointer is set. -/
def readRewards (row : Row) (rkeyP rvalP : Cursor) : Except Fault Rewarded :=
  let rkey := tryGetKey row "avatarPromoteRewardLevelList"
  let rval := tryGetKey row "avatarPromoteRewardIdList"
  let rkeyP := if rkey = [] then rkeyP else .into (cstr rkey)
  let rvalP := if rkey = [] ∨ rval = [] then rvalP else .into (cstr rval)
  rewardLoop (rkeyP.rest.length + 2) rkeyP rvalP fun _ => none

/-- The buffers of the lists are freed behind the walk, and the pointers left where they are. -/
def tsvEnt (row : Row) (vars : Vars) : Except Fault (AvatarDataEnt F × Vars) := do
  let read ← readRewards row vars.rkeyP vars.rvalP
  return ({ tsvColumns flt row with promoteRewards := read.rewards },
    { vars with rkeyP := read.rkeyP.release, rvalP := read.rvalP.release })

variable (json : JsonC) (invalid : Json → Bool)

def propGrowCurves : Cell (AvatarDataEnt F) :=
  fieldsCell "propGrowCurves" 3
    ("type", fun field curve => { curve with prop := numberOrName json invalid fightPropTbl field })
    ("growCurve", fun field curve => { curve with type := numberOrName json invalid growCurveTbl field })
    (·.propCurves) fun ent curves => { ent with propCurves := curves }

/-- Written into the vector, which has not grown. -/
def candSkillDepotIds : Cell (AvatarDataEnt F) :=
  numbersCell json "candSkillDepotIds" 0 (·.candidateSkillDepotIds) fun ent ids =>
    { ent with candidateSkillDepotIds := ids }

def jsonEnt (row : Row) (vars : Vars) : Except Fault (AvatarDataEnt F × Vars) := do
  let ent := { common flt row with
    quality := (enumToInt (tryGetKey row "qualityType") itemQualityTbl).getD 0
    weaponType := (enumToInt (tryGetKey row "weaponType") weaponTypeTbl).getD 0 }
  let (ent, jtk) ← readRow json (propGrowCurves json invalid) [candSkillDepotIds json] row vars.jtk ent
  return (ent, { vars with jtk })

def loadEnt (isJson : Bool) (row : Row) (vars : Vars) : Except Fault (AvatarDataEnt F × Vars) :=
  if isJson then jsonEnt flt json invalid row vars else tsvEnt flt row vars

def load (tok : Tokener) (path : Bytes) (file : Option Bytes) : Except Fault (Option (List (AvatarDataEnt F))) :=
  loadTable fieldNames tok json (loadEnt flt json invalid) Vars.initial path file

end Entries

/-! ## Rows after null pointers -/

theorem strsepAt_into {s : Bytes} {t : Option Bytes} {p : Option Bytes} (h : strsep semicolon (some s) = (t, p)) :
    strsepAt (.into s) = .ok (t, .ofOption p) := by
  rw [strsepAt, h]
  rfl

/-- A level is taken, and what there is of the ids with it. -/
theorem rewardLoop_step {s t : Bytes} {p : Option Bytes} (hkey : strsep semicolon (some s) = (some t, p))
    {rvalP rvalP' : Cursor} {rvalT : Option Bytes} (hval : strsepAt rvalP = .ok (rvalT, rvalP')) (fuel : Nat)
    (rewards : UInt32 → Option UInt32) : rewardLoop (fuel + 1) (.into s) rvalP rewards =
      rewardLoop fuel (.ofOption p) rvalP' (setReward rewards (toInt t) (rewardId rvalT rvalP')) := by
  rw [rewardLoop, strsepAt_into hkey, ok_bind]
  dsimp only
  rw [hval, ok_bind]

end Yagips.Data.AvatarTable
