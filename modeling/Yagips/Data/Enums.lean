import Yagips.Game.OpenStates

/-!
# Names of constants

In a JSON table a number may be written as the name of a constant. A table of them lists each under the
name it has in the source.
-/
namespace Yagips.Data

open Yagips.Lib
open Yagips.Sdk.Body

/-- `enumToInt`, or `none` for -1. -/
def enumToInt (str : Bytes) (tbl : List (String × UInt32)) : Option UInt32 :=
  (tbl.find? fun ent => ascii ent.1 = cstr str).map (·.2)

/-- `ItemQualityTbl`. -/
def itemQualityTbl : List (String × UInt32) :=
  [("QUALITY_NONE", 0), ("QUALITY_WHITE", 1), ("QUALITY_GREEN", 2), ("QUALITY_BLUE", 3), ("QUALITY_PURPLE", 4),
    ("QUALITY_ORANGE", 5), ("QUALITY_ORANGE_SP", 105)]

/-- `WeaponTypeTbl`. -/
def weaponTypeTbl : List (String × UInt32) :=
  [("WEAPON_NONE", 0), ("WEAPON_SWORD_ONE_HAND", 1), ("WEAPON_CROSSBOW", 2), ("WEAPON_STAFF", 3),
    ("WEAPON_DOUBLE_DAGGER", 4), ("WEAPON_KATANA", 5), ("WEAPON_SHURIKEN", 6), ("WEAPON_STICK", 7),
    ("WEAPON_SPEAR", 8), ("WEAPON_SHIELD_SMALL", 9), ("WEAPON_CATALYST", 10), ("WEAPON_CLAYMORE", 11),
    ("WEAPON_BOW", 12), ("WEAPON_POLE", 13)]

/-- `FightPropTbl`. -/
def fightPropTbl : List (String × UInt32) :=
  [("FIGHT_PROP_NONE", 0), ("FIGHT_PROP_BASE_HP", 1), ("FIGHT_PROP_HP", 2), ("FIGHT_PROP_HP_PERCENT", 3),
    ("FIGHT_PROP_BASE_ATTACK", 4), ("FIGHT_PROP_ATTACK", 5), ("FIGHT_PROP_ATTACK_PERCENT", 6),
    ("FIGHT_PROP_BASE_DEFENSE", 7), ("FIGHT_PROP_DEFENSE", 8), ("FIGHT_PROP_DEFENSE_PERCENT", 9),
    ("FIGHT_PROP_BASE_SPEED", 10), ("FIGHT_PROP_SPEED_PERCENT", 11), ("FIGHT_PROP_HP_MP_PERCENT", 12),
    ("FIGHT_PROP_ATTACK_MP_PERCENT", 13), ("FIGHT_PROP_CRITICAL", 20), ("FIGHT_PROP_ANTI_CRITICAL", 21),
    ("FIGHT_PROP_CRITICAL_HURT", 22), ("FIGHT_PROP_CHARGE_EFFICIENCY", 23), ("FIGHT_PROP_ADD_HURT", 24),
    ("FIGHT_PROP_SUB_HURT", 25), ("FIGHT_PROP_HEAL_ADD", 26), ("FIGHT_PROP_HEALED_ADD", 27),
    ("FIGHT_PROP_ELEMENT_MASTERY", 28), ("FIGHT_PROP_PHYSICAL_SUB_HURT", 29),
    ("FIGHT_PROP_PHYSICAL_ADD_HURT", 30), ("FIGHT_PROP_DEFENCE_IGNORE_RATIO", 31),
    ("FIGHT_PROP_DEFENCE_IGNORE_DELTA", 32), ("FIGHT_PROP_FIRE_ADD_HURT", 40),
    ("FIGHT_PROP_ELEC_ADD_HURT", 41), ("FIGHT_PROP_WATER_ADD_HURT", 42), ("FIGHT_PROP_GRASS_ADD_HURT", 43),
    ("FIGHT_PROP_WIND_ADD_HURT", 44), ("FIGHT_PROP_ROCK_ADD_HURT", 45), ("FIGHT_PROP_ICE_ADD_HURT", 46),
    ("FIGHT_PROP_HIT_HEAD_ADD_HURT", 47), ("FIGHT_PROP_FIRE_SUB_HURT", 50), ("FIGHT_PROP_ELEC_SUB_HURT", 51),
    ("FIGHT_PROP_WATER_SUB_HURT", 52), ("FIGHT_PROP_GRASS_SUB_HURT", 53), ("FIGHT_PROP_WIND_SUB_HURT", 54),
    ("FIGHT_PROP_ROCK_SUB_HURT", 55), ("FIGHT_PROP_ICE_SUB_HURT", 56), ("FIGHT_PROP_EFFECT_HIT", 60),
    ("FIGHT_PROP_EFFECT_RESIST", 61), ("FIGHT_PROP_FREEZE_RESIST", 62), ("FIGHT_PROP_TORPOR_RESIST", 63),
    ("FIGHT_PROP_DIZZY_RESIST", 64), ("FIGHT_PROP_FREEZE_SHORTEN", 65), ("FIGHT_PROP_TORPOR_SHORTEN", 66),
    ("FIGHT_PROP_DIZZY_SHORTEN", 67), ("FIGHT_PROP_MAX_FIRE_ENERGY", 70), ("FIGHT_PROP_MAX_ELEC_ENERGY", 71),
    ("FIGHT_PROP_MAX_WATER_ENERGY", 72), ("FIGHT_PROP_MAX_GRASS_ENERGY", 73),
    ("FIGHT_PROP_MAX_WIND_ENERGY", 74), ("FIGHT_PROP_MAX_ICE_ENERGY", 75), ("FIGHT_PROP_MAX_ROCK_ENERGY", 76),
    ("FIGHT_PROP_SKILL_CD_MINUS_RATIO", 80), ("FIGHT_PROP_SHIELD_COST_MINUS_RATIO", 81),
    ("FIGHT_PROP_CUR_FIRE_ENERGY", 1000), ("FIGHT_PROP_CUR_ELEC_ENERGY", 1001),
    ("FIGHT_PROP_CUR_WATER_ENERGY", 1002), ("FIGHT_PROP_CUR_GRASS_ENERGY", 1003),
    ("FIGHT_PROP_CUR_WIND_ENERGY", 1004), ("FIGHT_PROP_CUR_ICE_ENERGY", 1005),
    ("FIGHT_PROP_CUR_ROCK_ENERGY", 1006), ("FIGHT_PROP_CUR_HP", 1010), ("FIGHT_PROP_MAX_HP", 2000),
    ("FIGHT_PROP_CUR_ATTACK", 2001), ("FIGHT_PROP_CUR_DEFENSE", 2002), ("FIGHT_PROP_CUR_SPEED", 2003),
    ("FIGHT_PROP_NONEXTRA_ATTACK", 3000), ("FIGHT_PROP_NONEXTRA_DEFENSE", 3001),
    ("FIGHT_PROP_NONEXTRA_CRITICAL", 3002), ("FIGHT_PROP_NONEXTRA_ANTI_CRITICAL", 3003),
    ("FIGHT_PROP_NONEXTRA_CRITICAL_HURT", 3004), ("FIGHT_PROP_NONEXTRA_CHARGE_EFFICIENCY", 3005),
    ("FIGHT_PROP_NONEXTRA_ELEMENT_MASTERY", 3006), ("FIGHT_PROP_NONEXTRA_PHYSICAL_SUB_HURT", 3007),
    ("FIGHT_PROP_NONEXTRA_FIRE_ADD_HURT", 3008), ("FIGHT_PROP_NONEXTRA_ELEC_ADD_HURT", 3009),
    ("FIGHT_PROP_NONEXTRA_WATER_ADD_HURT", 3010), ("FIGHT_PROP_NONEXTRA_GRASS_ADD_HURT", 3011),
    ("FIGHT_PROP_NONEXTRA_WIND_ADD_HURT", 3012), ("FIGHT_PROP_NONEXTRA_ROCK_ADD_HURT", 3013),
    ("FIGHT_PROP_NONEXTRA_ICE_ADD_HURT", 3014), ("FIGHT_PROP_NONEXTRA_FIRE_SUB_HURT", 3015),
    ("FIGHT_PROP_NONEXTRA_ELEC_SUB_HURT", 3016), ("FIGHT_PROP_NONEXTRA_WATER_SUB_HURT", 3017),
    ("FIGHT_PROP_NONEXTRA_GRASS_SUB_HURT", 3018), ("FIGHT_PROP_NONEXTRA_WIND_SUB_HURT", 3019),
    ("FIGHT_PROP_NONEXTRA_ROCK_SUB_HURT", 3020), ("FIGHT_PROP_NONEXTRA_ICE_SUB_HURT", 3021),
    ("FIGHT_PROP_NONEXTRA_SKILL_CD_MINUS_RATIO", 3022), ("FIGHT_PROP_NONEXTRA_SHIELD_COST_MINUS_RATIO", 3023),
    ("FIGHT_PROP_NONEXTRA_PHYSICAL_ADD_HURT", 3024)]

/-- `GrowCurveTbl`. -/
def growCurveTbl : List (String × UInt32) :=
  [("GROW_CURVE_NONE", 0), ("GROW_CURVE_HP", 1), ("GROW_CURVE_ATTACK", 2), ("GROW_CURVE_STAMINA", 3),
    ("GROW_CURVE_STRIKE", 4), ("GROW_CURVE_ANTI_STRIKE", 5), ("GROW_CURVE_ANTI_STRIKE1", 6),
    ("GROW_CURVE_ANTI_STRIKE2", 7), ("GROW_CURVE_ANTI_STRIKE3", 8), ("GROW_CURVE_STRIKE_HURT", 9),
    ("GROW_CURVE_ELEMENT", 10), ("GROW_CURVE_KILL_EXP", 11), ("GROW_CURVE_DEFENSE", 12),
    ("GROW_CURVE_ATTACK_BOMB", 13), ("GROW_CURVE_HP_LITTLEMONSTER", 14), ("GROW_CURVE_ELEMENT_MASTERY", 15),
    ("GROW_CURVE_PROGRESSION", 16), ("GROW_CURVE_DEFENDING", 17), ("GROW_CURVE_MHP", 18),
    ("GROW_CURVE_MATK", 19), ("GROW_CURVE_TOWERATK", 20), ("GROW_CURVE_HP_S5", 21), ("GROW_CURVE_HP_S4", 22),
    ("GROW_CURVE_HP_2", 23), ("GROW_CURVE_ATTACK_S5", 31), ("GROW_CURVE_ATTACK_S4", 32),
    ("GROW_CURVE_ATTACK_S3", 33), ("GROW_CURVE_STRIKE_S5", 34), ("GROW_CURVE_DEFENSE_S5", 41),
    ("GROW_CURVE_DEFENSE_S4", 42), ("GROW_CURVE_ATTACK_101", 1101), ("GROW_CURVE_ATTACK_102", 1102),
    ("GROW_CURVE_ATTACK_103", 1103), ("GROW_CURVE_ATTACK_104", 1104), ("GROW_CURVE_ATTACK_105", 1105),
    ("GROW_CURVE_ATTACK_201", 1201), ("GROW_CURVE_ATTACK_202", 1202), ("GROW_CURVE_ATTACK_203", 1203),
    ("GROW_CURVE_ATTACK_204", 1204), ("GROW_CURVE_ATTACK_205", 1205), ("GROW_CURVE_ATTACK_301", 1301),
    ("GROW_CURVE_ATTACK_302", 1302), ("GROW_CURVE_ATTACK_303", 1303), ("GROW_CURVE_ATTACK_304", 1304),
    ("GROW_CURVE_ATTACK_305", 1305), ("GROW_CURVE_CRITICAL_101", 2101), ("GROW_CURVE_CRITICAL_102", 2102),
    ("GROW_CURVE_CRITICAL_103", 2103), ("GROW_CURVE_CRITICAL_104", 2104), ("GROW_CURVE_CRITICAL_105", 2105),
    ("GROW_CURVE_CRITICAL_201", 2201), ("GROW_CURVE_CRITICAL_202", 2202), ("GROW_CURVE_CRITICAL_203", 2203),
    ("GROW_CURVE_CRITICAL_204", 2204), ("GROW_CURVE_CRITICAL_205", 2205), ("GROW_CURVE_CRITICAL_301", 2301),
    ("GROW_CURVE_CRITICAL_302", 2302), ("GROW_CURVE_CRITICAL_303", 2303), ("GROW_CURVE_CRITICAL_304", 2304),
    ("GROW_CURVE_CRITICAL_305", 2305)]

section Reading

variable (json : JsonC) (invalid : Json → Bool)

/-- A number, or where the conversion reports an error the name of one. -/
def numberOrName (tbl : List (String × UInt32)) (field : Json) : UInt32 :=
  if invalid field then (enumToInt ((json.getString field).getD []) tbl).getD 0
  else (json.getInt field).toUInt32

/-- The conditions of open states are read alike. -/
theorem numberOrName_cond (field : Json) :
    numberOrName json invalid Game.OpenStates.openStateCondTbl field = Game.OpenStates.condType json invalid field :=
  rfl

end Reading

end Yagips.Data
