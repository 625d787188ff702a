import Yagips.Data.Loading

/-!
# The table of skill depots

Two fields of an entry are never loaded. In a row of text the third of the extra abilities is the second
once more.
-/
namespace Yagips.Data.SkillDepotTable

open Yagips.Lib
open Yagips.Sdk.Body
open Yagips.Game.OpenStates (Row tryGetKey toInt)

/-- The names of the columns. -/
def fieldNames : List String :=
  ["id", "energySkill", "unk1", "skill1", "skill2", "skill3", "skill4", "subSkills", "attackModeSkill",
    "leaderTalent", "extraAbility1", "extraAbility2", "extraAbility3", "talent1", "talent2", "talent3",
    "talent4", "talent5", "talent6", "talentStarName", "proudSkillReqBreak", "proudSkillGroupId1",
    "needAvatarPromoteLevel1", "proudSkillGroupId2", "needAvatarPromoteLevel2", "proudSkillGroupId3",
    "needAvatarPromoteLevel3", "proudSkillGroupId4", "needAvatarPromoteLevel4", "proudSkillGroupId5",
    "needAvatarPromoteLevel5", "skillDepotAbilityGroup"]

structure PassiveSkill where
  id : UInt32
  requiredAscensionLevel : UInt32

structure AvatarSkillDepotDataEnt where
  id : UInt32
  burstSkill : UInt32
  skills : List UInt32
  secondarySkills : List UInt32
  aimTalent : UInt32
  leaderTalent : UInt32
  extraAbilities : List UInt32
  constellationSkills : List UInt32
  talentConfigFile : Bytes
  coreSkillGroupId : UInt32
  requiredAscensionForExtraTalents : UInt32
  ascensionPassiveSkills : List PassiveSkill
  abilityGroup : Bytes

/-- A new entry with what the two kinds of table have under the same names. -/
def common (row : Row) : AvatarSkillDepotDataEnt :=
  let toInt := fun key : String => toInt (tryGetKey row key)
  { id := toInt "id"
    burstSkill := toInt "energySkill"
    skills := List.replicate 4 0
    secondarySkills := []
    aimTalent := toInt "attackModeSkill"
    leaderTalent := toInt "leaderTalent"
    extraAbilities := List.replicate 3 0
    constellationSkills := List.replicate 6 0
    talentConfigFile := tryGetKey row "talentStarName"
    coreSkillGroupId := 0
    requiredAscensionForExtraTalents := 0
    ascensionPassiveSkills := List.replicate 5 { id := 0, requiredAscensionLevel := 0 }
    abilityGroup := tryGetKey row "skillDepotAbilityGroup" }

def tsvEnt (row : Row) : AvatarSkillDepotDataEnt :=
  let toInt := fun key : String => toInt (tryGetKey row key)
  { common row with
    skills := [toInt "skill1", toInt "skill2", toInt "skill3", toInt "skill4"]
    -- the second for the third
    extraAbilities := [toInt "extraAbility1", toInt "extraAbility2", toInt "extraAbility2"]
    constellationSkills := [toInt "talent1", toInt "talent2", toInt "talent3", toInt "talent4",
      toInt "talent5", toInt "talent6"]
    ascensionPassiveSkills :=
      [{ id := toInt "proudSkillGroupId1", requiredAscensionLevel := toInt "needAvatarPromoteLevel1" },
        { id := toInt "proudSkillGroupId2", requiredAscensionLevel := toInt "needAvatarPromoteLevel2" },
        { id := toInt "proudSkillGroupId3", requiredAscensionLevel := toInt "needAvatarPromoteLevel3" },
        { id := toInt "proudSkillGroupId4", requiredAscensionLevel := toInt "needAvatarPromoteLevel4" },
        { id := toInt "proudSkillGroupId5", requiredAscensionLevel := toInt "needAvatarPromoteLevel5" }]
    secondarySkills := idList (tryGetKey row "subSkills") }

section Cells

variable (json : JsonC)

def skills : Cell AvatarSkillDepotDataEnt :=
  numbersCell json "skills" 4 (·.skills) fun ent ids => { ent with skills := ids }

/-- Written into the vector, which has not grown. -/
def subSkills : Cell AvatarSkillDepotDataEnt :=
  numbersCell json "subSkills" 0 (·.secondarySkills) fun ent ids => { ent with secondarySkills := ids }

def extraAbilities : Cell AvatarSkillDepotDataEnt :=
  numbersCell json "extraAbilities" 3 (·.extraAbilities) fun ent ids => { ent with extraAbilities := ids }

def talents : Cell AvatarSkillDepotDataEnt :=
  numbersCell json "talents" 6 (·.constellationSkills) fun ent ids => { ent with constellationSkills := ids }

def inherentProudSkillOpens : Cell AvatarSkillDepotDataEnt :=
  fieldsCell "inherentProudSkillOpens" 5
    ("proudSkillGroupId", fun field skill => { skill with id := (json.getInt field).toUInt32 })
    ("needAvatarPromoteLevel", fun field skill =>
      { skill with requiredAscensionLevel := (json.getInt field).toUInt32 })
    (·.ascensionPassiveSkills) fun ent opens => { ent with ascensionPassiveSkills := opens }

def jsonEnt (row : Row) (jtk : TokenerPtr) : Except Fault (AvatarSkillDepotDataEnt × TokenerPtr) :=
  readRow json (skills json)
    [subSkills json, extraAbilities json, talents json, inherentProudSkillOpens json] row jtk (common row)

/-- What `load` keeps from row to row is the tokener. -/
def loadEnt (isJson : Bool) (row : Row) (jtk : TokenerPtr) :
    Except Fault (AvatarSkillDepotDataEnt × TokenerPtr) :=
  if isJson then jsonEnt json row jtk else return (tsvEnt row, jtk)

def load (tok : Tokener) (path : Bytes) (file : Option Bytes) :
    Except Fault (Option (List AvatarSkillDepotDataEnt)) :=
  loadTable fieldNames tok json (loadEnt json) .null path file

end Cells

end Yagips.Data.SkillDepotTable
