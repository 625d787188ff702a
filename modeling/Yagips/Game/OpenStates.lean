import Mathlib.Data.List.Basic
import Yagips.Game.Login
import Yagips.Sdk.Body

/-!
# The table of open states

A table is a file of tab-separated lines or a JSON document. A condition that a row leaves out is
read as an adventure rank of at least 0, and a state is open once one of its two conditions is
met. Of a JSON document no row is loaded, because the type of the document is asked for where
that of the row is meant.
-/
namespace Yagips.Game.OpenStates

open Yagips.Lib
open Yagips.Game.Players
open Yagips.Game.Login
open Yagips.Sdk.Body

/-! ## Tables -/

/-- An `excelTableEnt`. -/
abbrev Row := List (String × Bytes)

/-- A missing key reads as the empty string. -/
def tryGetKey (v : Row) (k : String) : Bytes := (v.lookup k).getD []

def toInt (x : Bytes) : UInt32 := ((strtoul x).getD 0).toUInt32

/-- The names of the columns. -/
def fieldNames : List String :=
  ["id", "defaultState", "allowClientOpen", "cond1Type", "cond1Param1", "cond1Param2", "cond2Type",
    "cond2Param1", "cond2Param2", "systemOpenUiId"]

/-- The lines `getline` reads until the end of the file is seen, which is behind one that is
empty where the file ends with a line break. -/
def getlines : Bytes → Bytes → List Bytes
  | line, [] => [line]
  | line, b :: rest =>
    if b = 0x0a then (line ++ [b]) :: getlines [] rest else getlines (line ++ [b]) rest

/-- The cells `strsep` takes of a line, up to the columns there are. -/
def tsvRow (line : Bytes) : Row :=
  fieldNames.zip ((cstr line).splitOnP fun b => b = 0x09 || b = 0x0d || b = 0x0a)

/-- The first line holds the headers. -/
def loadTsvExcelData (content : Bytes) : List Row := (getlines [] content).tail.map tsvRow

variable (json : JsonC)

def isObject : Json → Bool
  | .object _ => true
  | _ => false

/-- The fields of an object as texts. A null one is copied from a null pointer. -/
def jsonRow : Json → Except Fault Row
  | .object fields => fields.mapM fun field => do
    match json.getString field.2 with
    | none => .error .pointer
    | some text => return (field.1, text)
  | _ => .error .pointer

/-- The rows of the document `root`, whose own type is tested at each. -/
def jsonRows (root : Json) : List Json → Except Fault (List Row)
  | [] => return []
  | .null :: rest => jsonRows root rest
  | data :: rest =>
    if !isObject root then jsonRows root rest
    else do return (← jsonRow json data) :: (← jsonRows root rest)

def loadJsonExcelData (content : Bytes) : Except Fault (Option (List Row)) :=
  match json.parse content with
  | some (.array rows) => do return some (← jsonRows json (.array rows) rows)
  | _ => return none

/-! ## Rows -/

/-- `OpenStateCondTbl`. -/
def openStateCondTbl : List (String × UInt32) :=
  [("OPEN_STATE_COND_PLAYER_LEVEL", 0), ("OPEN_STATE_COND_QUEST", 1), ("OPEN_STATE_OFFERING_LEVEL", 2),
    ("OPEN_STATE_CITY_REPUTATION_LEVEL", 3), ("OPEN_STATE_COND_PARENT_QUEST", 4)]

/-- `enumToInt`, or `none` for -1. -/
def enumToInt (str : Bytes) : Option UInt32 :=
  (openStateCondTbl.find? fun ent => ascii ent.1 = cstr str).map (·.2)

/-- A field that is there and not null. -/
def getField (j : Json) (key : String) : Option Json :=
  match j with
  | .object fields =>
    match getEx fields key with
    | some .null => none
    | field => field
  | _ => none

variable (invalid : Json → Bool)

/-- The type of a condition: a number, or where the conversion reports an error a name. -/
def condType (field : Json) : UInt32 :=
  if invalid field then (enumToInt ((json.getString field).getD [])).getD 0
  else (json.getInt field).toUInt32

def intField (j : Json) (key : String) : UInt32 :=
  match getField j key with
  | some field => (json.getInt field).toUInt32
  | none => 0

/-- A condition read over what it was. -/
def readCond (j : Json) (cond : OpenCond) : OpenCond where
  type := match getField j "condType" with
    | some field => condType json invalid field
    | none => cond.type
  param := (intField json j "param", intField json j "param2")

/-- The loop over the conditions of a row, which there are at least two rounds of, and more than
two places in the array for. -/
def condLoop (conds : List Json) : Nat → Nat → OpenCond × OpenCond → Except Fault (OpenCond × OpenCond)
  | 0, _, openCond => return openCond
  | n + 1, j, openCond =>
    match conds[j]? with
    | none | some .null => condLoop conds n (j + 1) openCond
    | some cond =>
      match j with
      | 0 => condLoop conds n 1 (readCond json invalid cond openCond.1, openCond.2)
      | 1 => condLoop conds n 2 (openCond.1, readCond json invalid cond openCond.2)
      | j => .error (.slice j 1)

/-- "At least AR 0". -/
def anyLevel : OpenCond := { type := condPlayerLevel, param := (0, 0) }

def jsonConds (row : Row) : Except Fault (OpenCond × OpenCond) :=
  let v := tryGetKey row "cond"
  if v = [] then return (anyLevel, anyLevel)
  else match json.parse v with
    | some (.array conds) => condLoop json invalid conds (max 2 conds.length) 0 (anyLevel, anyLevel)
    | _ => return (anyLevel, anyLevel)

def tsvConds (row : Row) : OpenCond × OpenCond :=
  let cond := fun type param1 param2 : String => OpenCond.mk (toInt (tryGetKey row type))
    (toInt (tryGetKey row param1), toInt (tryGetKey row param2))
  (cond "cond1Type" "cond1Param1" "cond1Param2", cond "cond2Type" "cond2Param1" "cond2Param2")

/-- A condition on the level, which leaves the second parameter. -/
def OpenCond.atLevel (cond : OpenCond) (level : UInt32) : OpenCond :=
  { type := condPlayerLevel, param := (level, cond.param.2) }

/-- The states that are set whatever the table says. -/
def forced (ent : OpenStateDataEnt) : OpenStateDataEnt :=
  if ent.id = 1 then
    { ent with
      isDefault := 1
      openCond := (OpenCond.atLevel ent.openCond.1 0, OpenCond.atLevel ent.openCond.2 0) }
  else if ent.id = 47 ∨ ent.id = 48 then
    { ent with
      isDefault := 0
      allowClientOpen := 0
      openCond := (OpenCond.atLevel ent.openCond.1 (~~~0), OpenCond.atLevel ent.openCond.2 (~~~0)) }
  else ent

def loadEntry (isJson : Bool) (row : Row) : Except Fault OpenStateDataEnt := do
  let openCond ← if isJson then jsonConds json invalid row else pure (tsvConds row)
  return forced
    { id := toInt (tryGetKey row "id")
      isDefault := toInt (tryGetKey row "defaultState")
      allowClientOpen := toInt (tryGetKey row "allowClientOpen")
      openCond
      -- the column has another name
      uiOpenId := toInt (tryGetKey row "systemUiOpenId") }

/-- The loop of `load`, behind the entries there are. -/
def loadRows (isJson : Bool) : List Row → List OpenStateDataEnt → Except Fault (List OpenStateDataEnt)
  | [], entries => return entries
  | row :: rest, entries => do loadRows isJson rest (entries ++ [← loadEntry json invalid isJson row])

/-- The part of a path from its last dot on. -/
def extension (path : Bytes) : Option Bytes :=
  if 0x2e ∈ path then some (0x2e :: (path.reverse.takeWhile (· ≠ 0x2e)).reverse) else none

def isJsonPath (path : Bytes) : Bool :=
  (extension path).any fun ext => strncmpEqual ext (ascii ".json") 5

/-- `OpenStateData::load(const char*)` of a new object, for the file that the path opens, if any.
`none` where it returns -1. -/
def load (path : Bytes) (file : Option Bytes) : Except Fault (Option (List OpenStateDataEnt)) :=
  match file with
  | none => return none
  | some content => do
    let isJson := isJsonPath path
    let tbl ← if isJson then loadJsonExcelData json content else pure (some (loadTsvExcelData content))
    match tbl with
    | none => return none
    | some tbl => return some (← loadRows json invalid isJson tbl [])

/-! ## What opens -/

/-- Whether an entry opens its state at an adventure rank. -/
def Opens (ar : UInt32) (ent : OpenStateDataEnt) : Prop :=
  ent.isDefault ≠ 0 ∨ (ent.openCond.1.type = condPlayerLevel ∧ ent.openCond.1.param.1 ≤ ar) ∨
    (ent.openCond.2.type = condPlayerLevel ∧ ent.openCond.2.param.1 ≤ ar)

theorem mem_setOpenstate (openstates : List UInt32) (state id : UInt32) :
    id ∈ setOpenstate openstates state ↔ id ∈ openstates ∨ state = id := by
  unfold setOpenstate
  split
  case isTrue h =>
    refine ⟨.inl, ?_⟩
    rintro (hid | rfl)
    · exact hid
    · exact h
  case isFalse => rw [List.mem_append, List.mem_singleton, eq_comm]

theorem mem_openByLevel (ar state id : UInt32) (openstates : List UInt32) (cond : OpenCond) :
    id ∈ openByLevel ar state openstates cond ↔
      id ∈ openstates ∨ state = id ∧ cond.type = condPlayerLevel ∧ cond.param.1 ≤ ar := by
  unfold openByLevel
  split
  case isTrue h => simp [mem_setOpenstate, h]
  case isFalse h => simp [h]

theorem mem_openEntry (ar id : UInt32) (openstates : List UInt32) (ent : OpenStateDataEnt) :
    id ∈ openEntry ar openstates ent ↔ id ∈ openstates ∨ ent.id = id ∧ Opens ar ent := by
  unfold openEntry Opens
  split
  case isTrue h => simp [mem_setOpenstate, h]
  case isFalse h =>
    rw [mem_openByLevel, mem_openByLevel]
    simp only [h, false_or]
    rw [or_assoc, ← and_or_left]

/-- What is open was open, or is opened by an entry. -/
theorem mem_updateOpenstates (entries : List OpenStateDataEnt) (ar id : UInt32)
    (openstates : List UInt32) : id ∈ updateOpenstates (some entries) ar openstates ↔
      id ∈ openstates ∨ ∃ ent ∈ entries, ent.id = id ∧ Opens ar ent := by
  unfold updateOpenstates
  rw [Option.getD_some]
  induction entries generalizing openstates with
  | nil => simp
  | cons ent entries ih =>
    rw [List.foldl_cons, ih, mem_openEntry]
    simp only [List.mem_cons, exists_eq_or_imp, or_assoc]

/-! ## Rows that list one level -/

/-- A row of a state that is neither set by `load` nor open from the start. -/
structure Listed (row : Row) (id : UInt32) : Prop where
  key : toInt (tryGetKey row "id") = id
  free : id ≠ 1 ∧ id ≠ 47 ∧ id ≠ 48
  closed : toInt (tryGetKey row "defaultState") = 0

/-- A row of a text table whose first condition is a level and whose second is not there. -/
structure TsvLevel (row : Row) (level : UInt32) : Prop where
  type : toInt (tryGetKey row "cond1Type") = condPlayerLevel
  level : toInt (tryGetKey row "cond1Param1") = level
  absent : ∀ key ∈ ["cond2Type", "cond2Param1", "cond2Param2"], tryGetKey row key = []

/-- A condition that is null or has neither a type nor a level. -/
def Absent (cond : Json) : Prop :=
  cond = .null ∨ getField cond "condType" = none ∧ getField cond "param" = none

/-- A row of a JSON table whose first condition is a level and whose others are not there. -/
structure JsonLevel (row : Row) (level : UInt32) (cond : Json) (rest : List Json) : Prop where
  listed : tryGetKey row "cond" ≠ [] ∧
    json.parse (tryGetKey row "cond") = some (.array (cond :: rest))
  type : ∃ field, getField cond "condType" = some field ∧ condType json invalid field = condPlayerLevel
  level : intField json cond "param" = level
  absent : ∀ c ∈ rest.head?, Absent c
  others : ∀ c ∈ rest.tail, c = .null

/-- A closed state stays closed below the level, and is opened from it on. -/
def Gates (entries : List OpenStateDataEnt) (ar level id : UInt32) (openstates : List UInt32) : Prop :=
  (ar < level → id ∉ updateOpenstates (some entries) ar openstates) ∧
    (level ≤ ar → id ∈ updateOpenstates (some entries) ar openstates)

/-- A state that is always opened is gated only for those who have the level. -/
theorem gates_of_open {entries : List OpenStateDataEnt} {ar level id : UInt32}
    {openstates : List UInt32} (h : id ∈ updateOpenstates (some entries) ar openstates) :
    Gates entries ar level id openstates ↔ level ≤ ar := by
  refine ⟨fun hg => ?_, fun hle => ⟨fun hlt => absurd hle (UInt32.not_le.mpr hlt), fun _ => h⟩⟩
  exact UInt32.not_lt.mp fun hlt => hg.1 hlt h

theorem gates_of_closed {entries : List OpenStateDataEnt} {ar level id : UInt32}
    {openstates : List UInt32} (h : id ∉ updateOpenstates (some entries) ar openstates) :
    Gates entries ar level id openstates ↔ ar < level := by
  refine ⟨fun hg => ?_, fun hlt => ⟨fun _ => h, fun hle => absurd hle (UInt32.not_le.mpr hlt)⟩⟩
  exact UInt32.not_le.mp fun hle => h (hg.2 hle)

/-! ## Loading -/

theorem forced_free {ent : OpenStateDataEnt} (h : ent.id ≠ 1 ∧ ent.id ≠ 47 ∧ ent.id ≠ 48) :
    forced ent = ent := by
  rw [forced, if_neg h.1, if_neg (not_or.mpr h.2)]

/-- An entry of a state whose second condition is met from rank 0 on. -/
structure Ungated (ent : OpenStateDataEnt) (id : UInt32) : Prop where
  id : ent.id = id
  type : ent.openCond.2.type = condPlayerLevel
  level : ent.openCond.2.param.1 = 0

theorem Ungated.opens {ent : OpenStateDataEnt} {id : UInt32} (h : Ungated ent id) (ar : UInt32) :
    Opens ar ent := by
  refine .inr (.inr ⟨h.type, ?_⟩)
  rw [h.level]
  exact UInt32.zero_le

theorem Ungated.mem {entries : List OpenStateDataEnt} {ent : OpenStateDataEnt} {id : UInt32}
    (h : Ungated ent id) (hent : ent ∈ entries) (ar : UInt32) (openstates : List UInt32) :
    id ∈ updateOpenstates (some entries) ar openstates :=
  (mem_updateOpenstates entries ar id openstates).mpr (.inr ⟨ent, hent, h.id, h.opens ar⟩)

/-- A text row without a second condition. -/
theorem loadEntry_tsv {row : Row} {id level : UInt32} (h : Listed row id) (hlevel : TsvLevel row level) :
    ∃ ent, loadEntry json invalid false row = .ok ent ∧ Ungated ent id := by
  have hempty : toInt [] = 0 := by decide
  have habsent : ∀ key ∈ ["cond2Type", "cond2Param1", "cond2Param2"], toInt (tryGetKey row key) = 0 := by
    intro key hkey
    rw [hlevel.absent key hkey, hempty]
  refine ⟨_, rfl, ?_⟩
  rw [forced_free (by rw [h.key]; exact h.free)]
  exact ⟨h.key, habsent _ (by simp), habsent _ (by simp)⟩

/-- Rounds of the loop on what is not there. -/
theorem condLoop_none {conds : List Json} (n : Nat) {j : Nat} (openCond : OpenCond × OpenCond)
    (h : ∀ i ≥ j, ∀ c ∈ conds[i]?, c = .null) :
    condLoop json invalid conds n j openCond = .ok openCond := by
  induction n generalizing j with
  | zero => rfl
  | succ n ih =>
    have hrest := ih fun i hi => h i (Nat.le_of_succ_le hi)
    rw [condLoop]
    cases hc : conds[j]? with
    | none => exact hrest
    | some c =>
      obtain rfl := h j le_rfl c hc
      exact hrest

theorem readCond_absent {cond : Json} (h : getField cond "condType" = none ∧ getField cond "param" = none) :
    (readCond json invalid cond anyLevel).type = condPlayerLevel ∧
      (readCond json invalid cond anyLevel).param.1 = 0 := by
  constructor
  · simp only [readCond, h.1]
    rfl
  · simp only [readCond, intField, h.2]

theorem condLoop_single {cond : Json} {rest : List Json} (hcond : cond ≠ .null)
    (habsent : ∀ c ∈ rest.head?, Absent c) (hothers : ∀ c ∈ rest.tail, c = .null) :
    ∃ openCond, condLoop json invalid (cond :: rest) (max 2 (cond :: rest).length) 0
        (anyLevel, anyLevel) = .ok openCond ∧
      openCond.2.type = condPlayerLevel ∧ openCond.2.param.1 = 0 := by
  obtain ⟨n, hn⟩ : ∃ n, max 2 (cond :: rest).length = n + 1 + 1 := ⟨max 2 (cond :: rest).length - 2, by omega⟩
  have hfirst : condLoop json invalid (cond :: rest) (n + 1 + 1) 0 (anyLevel, anyLevel) =
      condLoop json invalid (cond :: rest) (n + 1) 1 (readCond json invalid cond anyLevel, anyLevel) := by
    rw [condLoop]
    simp only [List.getElem?_cons_zero]
  have hlater : ∀ i ≥ 2, ∀ c ∈ (cond :: rest)[i]?, c = .null := by
    intro i hi c hc
    apply hothers
    obtain ⟨k, rfl⟩ := Nat.exists_eq_add_of_le hi
    have hget : rest.tail[k]? = some c := by
      rw [List.getElem?_tail, ← hc, Nat.add_comm 2 k]
      rfl
    exact List.mem_of_getElem? hget
  rw [hn, hfirst, condLoop]
  cases rest with
  | nil => exact ⟨_, condLoop_none json invalid n _ hlater, rfl, rfl⟩
  | cons c rest =>
    rcases habsent c rfl with rfl | hfields
    · exact ⟨_, condLoop_none json invalid n _ hlater, rfl, rfl⟩
    · have hread := readCond_absent json invalid hfields
      simp only [List.getElem?_cons_succ, List.getElem?_cons_zero]
      split
      case h_1 h => cases h
      case h_2 h => exact ⟨_, condLoop_none json invalid n _ hlater, rfl, rfl⟩
      case h_3 h =>
        cases h
        exact ⟨_, condLoop_none json invalid n _ hlater, hread⟩

/-- A JSON row without a second condition. -/
theorem loadEntry_json {row : Row} {id level : UInt32} {cond : Json} {rest : List Json}
    (h : Listed row id) (hlevel : JsonLevel json invalid row level cond rest) :
    ∃ ent, loadEntry json invalid true row = .ok ent ∧ Ungated ent id := by
  have hcond : cond ≠ .null := by
    rintro rfl
    obtain ⟨field, hfield, -⟩ := hlevel.type
    cases hfield
  obtain ⟨openCond, hloop, htype, hparam⟩ :=
    condLoop_single json invalid hcond hlevel.absent hlevel.others
  have hconds : jsonConds json invalid row = .ok openCond := by
    simp only [jsonConds, if_neg hlevel.listed.1, hlevel.listed.2, hloop]
  simp only [loadEntry, if_true, hconds, ok_bind, pure_eq_ok]
  refine ⟨_, rfl, ?_⟩
  rw [forced_free (by rw [h.key]; exact h.free)]
  exact ⟨h.key, htype, hparam⟩

/-- Every row of a text table is loaded. -/
theorem loadRows_tsv (rows : List Row) (entries : List OpenStateDataEnt) : ∃ entries',
    loadRows json invalid false rows entries = .ok entries' ∧
      (∀ ent ∈ entries, ent ∈ entries') ∧
      ∀ row ∈ rows, ∀ ent, loadEntry json invalid false row = .ok ent → ent ∈ entries' := by
  induction rows generalizing entries with
  | nil => exact ⟨entries, rfl, fun _ h => h, fun _ h => absurd h List.not_mem_nil⟩
  | cons row rows ih =>
    obtain ⟨ent, hent⟩ : ∃ ent, loadEntry json invalid false row = .ok ent := ⟨_, rfl⟩
    obtain ⟨entries', hload, hkept, hrows⟩ := ih (entries ++ [ent])
    refine ⟨entries', ?_, fun e he => hkept e (List.mem_append_left _ he), ?_⟩
    · rw [loadRows, hent, ok_bind, hload]
    · intro row' hrow' ent' hent'
      rcases List.mem_cons.mp hrow' with rfl | hrow'
      · cases hent.symm.trans hent'
        exact hkept ent (List.mem_append_right _ (List.mem_singleton_self ent))
      · exact hrows row' hrow' ent' hent'

/-- No row of a JSON document is. -/
theorem jsonRows_array (xs rows : List Json) : jsonRows json (.array xs) rows = .ok [] := by
  induction rows with
  | nil => rfl
  | cons data rows ih =>
    cases data <;> exact ih

/-! ## The gate -/

/-- What the gate of a state that is closed, and lists one level, does for a player of some
adventure rank: by a row of a text table, by a JSON document, and by a row of one where it is
given to the loop of `load`. -/
structure GateExact (ar level id : UInt32) (openstates : List UInt32) : Prop where
  tsv : ∀ path content row, isJsonPath path = false → row ∈ loadTsvExcelData content →
    Listed row id → TsvLevel row level →
    ∃ entries, load json invalid path (some content) = .ok (some entries) ∧
      (Gates entries ar level id openstates ↔ level ≤ ar)
  document : ∀ path content rows, isJsonPath path = true → json.parse content = some (.array rows) →
    ∃ entries, load json invalid path (some content) = .ok (some entries) ∧
      (Gates entries ar level id openstates ↔ ar < level)
  row : ∀ row cond rest, Listed row id → JsonLevel json invalid row level cond rest →
    ∃ ent, loadEntry json invalid true row = .ok ent ∧
      (Gates [ent] ar level id openstates ↔ level ≤ ar)

/-- The gate works for those who have the level where the row is loaded, and for the others where
it is not. -/
theorem level_gate_iff (ar level id : UInt32) (openstates : List UInt32) (hclosed : id ∉ openstates) :
    GateExact json invalid ar level id openstates where
  tsv := by
    intro path content row hpath hrow hlisted hlevel
    obtain ⟨ent, hent, hungated⟩ := loadEntry_tsv json invalid hlisted hlevel
    obtain ⟨entries, hload, -, hrows⟩ := loadRows_tsv json invalid (loadTsvExcelData content) []
    refine ⟨entries, ?_, gates_of_open (hungated.mem (hrows row hrow ent hent) ar openstates)⟩
    simp only [load, hpath, Bool.false_eq_true, if_false, pure_eq_ok, ok_bind, hload]
  document := by
    intro path content rows hpath hparse
    have hnone : id ∉ updateOpenstates (some []) ar openstates := hclosed
    refine ⟨[], ?_, gates_of_closed hnone⟩
    simp only [load, hpath, if_true, loadJsonExcelData, hparse, jsonRows_array, ok_bind, pure_eq_ok,
      loadRows]
  row := by
    intro row cond rest hlisted hlevel
    obtain ⟨ent, hent, hungated⟩ := loadEntry_json json invalid hlisted hlevel
    exact ⟨ent, hent, gates_of_open (hungated.mem (List.mem_singleton_self ent) ar openstates)⟩

/-- A parser that knows the empty array. -/
def emptyJson : JsonC where
  parse text := if text = ascii "[]" then some (.array []) else none
  text _ := ascii "[]"
  getInt _ := 0
  getBoolean _ := false

theorem level_gate_five : 5 ∉ ([1, 2] : List UInt32) ∧
    GateExact emptyJson (fun _ => true) 1 10 5 [1, 2] :=
  ⟨by decide, level_gate_iff emptyJson (fun _ => true) 1 10 5 [1, 2] (by decide)⟩

/-- A table of state 5 for players from rank 10 on. -/
def levelTable : Bytes := ascii "id\n5\t0\t0\t0\t10\n"

/-- A player of rank 1 has state 5 open. -/
theorem level_ten_open : ∃ row entries, row ∈ loadTsvExcelData levelTable ∧ Listed row 5 ∧
    TsvLevel row 10 ∧ load emptyJson (fun _ => true) (ascii "a.tsv") (some levelTable) =
      .ok (some entries) ∧ ¬ Gates entries 1 10 5 [] := by
  refine ⟨tsvRow (ascii "5\t0\t0\t0\t10\n"), _, by decide +kernel, ?_, ?_, rfl, ?_⟩
  · exact ⟨by decide +kernel, by decide, by decide +kernel⟩
  · exact ⟨by decide +kernel, by decide +kernel, by decide +kernel⟩
  · intro h
    have hclosed := h.1 (by decide)
    revert hclosed
    decide +kernel

end Yagips.Game.OpenStates
