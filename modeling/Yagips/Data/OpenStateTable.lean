import Yagips.Data.Loading

/-!
# The table of open states, with its tokener

The entries are those of the table as it is read a row at a time. What is added is the tokener of the
conditions, which outlives its row.
-/
namespace Yagips.Data.OpenStateTable

open Yagips.Lib
open Yagips.Sdk.Body
open Yagips.Game.Players
open Yagips.Game.OpenStates

variable (json : JsonC) (invalid : Json → Bool)

/-- A condition is always written, whatever the element has. -/
def cond : Cell (OpenCond × OpenCond) where
  key := "cond"
  rounds := 2
  write j x openCond :=
    match j with
    | 0 => return (readCond json invalid x openCond.1, openCond.2)
    | 1 => return (openCond.1, readCond json invalid x openCond.2)
    | j => .error (.slice j 1)

def rowEnt (row : Row) (openCond : OpenCond × OpenCond) : OpenStateDataEnt :=
  forced
    { id := toInt (tryGetKey row "id")
      isDefault := toInt (tryGetKey row "defaultState")
      allowClientOpen := toInt (tryGetKey row "allowClientOpen")
      openCond
      uiOpenId := toInt (tryGetKey row "systemUiOpenId") }

/-- What `load` keeps from row to row is the tokener. -/
def loadEnt (isJson : Bool) (row : Row) (jtk : TokenerPtr) : Except Fault (OpenStateDataEnt × TokenerPtr) := do
  let (openCond, jtk) ← if isJson then readRow json (cond json invalid) [] row jtk (anyLevel, anyLevel)
    else pure (tsvConds row, jtk)
  return (rowEnt row openCond, jtk)

def load (tok : Tokener) (path : Bytes) (file : Option Bytes) : Except Fault (Option (List OpenStateDataEnt)) :=
  loadTable fieldNames tok json (loadEnt json invalid) .null path file

/-! ## The table without its tokener -/

theorem indexLoop_cond (conds : List Json) (n j : Nat) (openCond : OpenCond × OpenCond) :
    indexLoop (cond json invalid).write conds n j openCond = condLoop json invalid conds n j openCond := by
  induction n generalizing j openCond with
  | zero => rfl
  | succ n ih =>
    rw [indexLoop, condLoop]
    cases conds[j]? with
    | none => exact ih _ _
    | some x =>
      cases x with
      | null => exact ih _ _
      | _ =>
        rcases j with _ | _ | j
        · exact ih _ _
        · exact ih _ _
        · rfl

/-- The conditions of a row with no tokener before it. -/
theorem readRow_cond (row : Row) : ∃ jtk, readRow json (cond json invalid) [] row .null (anyLevel, anyLevel) =
    (jsonConds json invalid row).map fun openCond => (openCond, jtk) := by
  by_cases hv : tryGetKey row "cond" = []
  · refine ⟨.null, ?_⟩
    rw [readRow, readCell_empty hv, jsonConds, if_pos hv]
    rfl
  · have hnew : TokenerPtr.new .null = .ok .live := rfl
    refine ⟨.freed, ?_⟩
    rw [readRow, jsonConds, if_neg hv]
    split
    case h_1 conds hparse =>
      rw [readCell_array hv hnew hparse, indexLoop_cond]
      change (Except.map _ (condLoop json invalid conds (max 2 conds.length) 0 (anyLevel, anyLevel)) >>= _) = _
      cases condLoop json invalid conds (max 2 conds.length) 0 (anyLevel, anyLevel) with
      | error f => rfl
      | ok openCond => rfl
    case h_2 hparse =>
      rw [readCell_other hv hnew hparse]
      rfl

/-- With no tokener before it a row gives the same entry. -/
theorem loadEnt_null (isJson : Bool) (row : Row) : ∃ jtk, loadEnt json invalid isJson row .null =
    (loadEntry json invalid isJson row).map fun ent => (ent, jtk) := by
  cases isJson with
  | false => exact ⟨.null, rfl⟩
  | true =>
    obtain ⟨jtk, hcond⟩ := readRow_cond json invalid row
    refine ⟨jtk, ?_⟩
    rw [loadEnt, loadEntry, if_pos rfl, if_pos rfl, hcond]
    cases jsonConds json invalid row with
    | error f => rfl
    | ok openCond => rfl

/-- A table of text is read to the same entries. -/
theorem rowLoop_tsv (rows : List Row) (entries : List OpenStateDataEnt) :
    rowLoop (loadEnt json invalid false) rows .null entries =
      Game.OpenStates.loadRows json invalid false rows entries := by
  induction rows generalizing entries with
  | nil => rfl
  | cons row rows ih => exact ih _

/-- While its lines can be counted, a file of text gives the table as it is without a tokener. -/
theorem load_tsv (tok : Tokener) {path content : Bytes} (hpath : isJsonPath path = false)
    (hlines : (getlines [] content).length < 2 ^ 32) :
    load json invalid tok path (some content) = Game.OpenStates.load json invalid path (some content) := by
  have hrows : (Game.OpenStates.loadTsvExcelData content).length < 2 ^ 32 := by
    rw [Game.OpenStates.loadTsvExcelData, List.length_map, List.length_tail]
    omega
  rw [load, loadTable, Game.OpenStates.load]
  simp only [hpath, Bool.false_eq_true, if_false, loadTsvExcelData_openStates hlines, ok_bind, pure_eq_ok,
    loadRows_few _ hrows, rowLoop_tsv]

end Yagips.Data.OpenStateTable
