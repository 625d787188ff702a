import Yagips.Game.OpenStates

/-!
# Tables in JSON documents

`loadJsonExcelData` feeds a file to an incremental parser, 4096 bytes at a time, the last of them
filled up with NULs. From the array that comes out it means to take the elements that are objects,
but asks for the type of the array instead.
-/
namespace Yagips.Data

open Yagips.Lib
open Yagips.Sdk.Body
open Yagips.Game.OpenStates (Row isObject jsonRows getField)

/-- What `json_tokener_parse_ex` answers. -/
inductive Parsed where
  | more
  | value (v : Json)
  | error

/-- A tokener, by what it has been fed since it was made. -/
abbrev Tokener := Bytes → Parsed

/-- The loop over the chunks of a file; `none` where the function returns without a value. -/
def readLoop (tok : Tokener) : Nat → Bytes → Bytes → Option Json
  | 0, _, _ => none
  | fuel + 1, fed, file =>
    let fBuf := file.take 4096
    let fed := fed ++ fBuf ++ List.replicate (4096 - fBuf.length) 0
    match tok fed with
    | .error => none
    -- a null value is told apart from an error only in the message
    | .value .null => none
    | .value root => some root
    | .more => if fBuf.length < 4096 then none else readLoop tok fuel fed (file.drop 4096)

/-- The loop over the elements, whose counter is an `unsigned int` and never reaches a length that
is not. -/
def elementLoop (json : JsonC) (root : Json) (rows : List Json) : Except Fault (List Row) :=
  if 2 ^ 32 ≤ rows.length then .error .endless else jsonRows json root rows

def loadJsonExcelData (tok : Tokener) (json : JsonC) (file : Bytes) : Except Fault (Option (List Row)) :=
  match readLoop tok (file.length + 1) [] file with
  | some (.array rows) => do return some (← elementLoop json (.array rows) rows)
  | _ => return none

/-! ## Reading a document -/

/-- The tokener reads a text as a value: a part of it is no error, and what is not the whole of it does
not give another value; behind the whole of it a NUL brings the value out. -/
structure Reads (tok : Tokener) (text : Bytes) (v : Json) : Prop where
  part : ∀ p q, text = p ++ q → tok p = .more ∨ tok p = .value v
  whole : ∀ n, 0 < n → tok (text ++ List.replicate n 0) = .value v

/-- The loop comes to the value of a document of any length. -/
theorem readLoop_reads {tok : Tokener} {v : Json} (hv : v ≠ .null) {fuel : Nat} {fed file : Bytes}
    (h : Reads tok (fed ++ file) v) (hfuel : file.length < fuel) : readLoop tok fuel fed file = some v := by
  induction fuel generalizing fed file with
  | zero => exact absurd hfuel (Nat.not_lt_zero _)
  | succ fuel ih =>
    have hvalue : ∀ rest : Option Json, (match Parsed.value v with
        | .error => none
        | .value .null => none
        | .value root => some root
        | .more => rest) = some v := by
      intro rest
      cases v with
      | null => exact absurd rfl hv
      | _ => rfl
    have hlen : (file.take 4096).length = min 4096 file.length := List.length_take
    rw [readLoop]
    by_cases hlast : file.length < 4096
    · -- the last chunk, with at least one NUL behind it
      have hall : file.take 4096 = file := List.take_of_length_le hlast.le
      rw [hall, h.whole (4096 - file.length) (by omega)]
      exact hvalue _
    · have hfull : (file.take 4096).length = 4096 := by omega
      have hsplit : fed ++ file = fed ++ file.take 4096 ++ file.drop 4096 := by
        rw [List.append_assoc, List.take_append_drop]
      have hnopad : List.replicate (4096 - (file.take 4096).length) (0 : UInt8) = [] := by
        rw [hfull]
        rfl
      rw [hnopad, List.append_nil]
      rcases h.part _ _ hsplit with hmore | hdone
      · rw [hmore]
        dsimp only
        rw [if_neg (by omega)]
        rw [hsplit] at h
        refine ih h ?_
        rw [List.length_drop]
        omega
      · rw [hdone]
        exact hvalue _

/-- No element is taken of an array. -/
theorem jsonRows_array (json : JsonC) (elements rows : List Json) : jsonRows json (.array elements) rows = .ok [] := by
  induction rows with
  | nil => rfl
  | cons data rows ih =>
    cases data with
    | null => exact ih
    | _ => exact ih

theorem loadJsonExcelData_reads {tok : Tokener} (json : JsonC) {file : Bytes} {rows : List Json}
    (h : Reads tok file (.array rows)) :
    loadJsonExcelData tok json file = if 2 ^ 32 ≤ rows.length then .error .endless else .ok (some []) := by
  have hne : Json.array rows ≠ .null := nofun
  have hread : readLoop tok (file.length + 1) [] file = some (.array rows) :=
    readLoop_reads hne h (Nat.lt_succ_self _)
  rw [loadJsonExcelData, hread]
  dsimp only
  rw [elementLoop, jsonRows_array]
  split_ifs
  · rfl
  · rfl

/-- A document is read as where its parser sees all of it at once. -/
theorem loadJsonExcelData_openStates {tok : Tokener} {json : JsonC} {file : Bytes} {rows : List Json}
    (h : Reads tok file (.array rows)) (hparse : json.parse file = some (.array rows)) (hfew : rows.length < 2 ^ 32) :
    loadJsonExcelData tok json file = Game.OpenStates.loadJsonExcelData json file := by
  rw [loadJsonExcelData_reads json h, if_neg (Nat.not_le.mpr hfew), Game.OpenStates.loadJsonExcelData, hparse]
  dsimp only
  rw [jsonRows_array]
  rfl

/-! ## The rows of a document -/

/-- Each key with a value that is not null has its text. -/
def RowOf (json : JsonC) (data : Json) (row : Row) : Prop :=
  ∀ key v, getField data key = some v → row.lookup key = json.getString v

/-- One row for each element that is an object, in order. -/
def LoadsObjects (json : JsonC) (rows : List Json) (tbl : List Row) : Prop :=
  List.Forall₂ (RowOf json) (rows.filter isObject) tbl

/-- The rows of an array in a file of any size are those of its objects exactly where it has none, and
its elements can be counted. -/
theorem json_rows_iff {tok : Tokener} (json : JsonC) {file : Bytes} {rows : List Json}
    (h : Reads tok file (.array rows)) :
    (∃ tbl, loadJsonExcelData tok json file = .ok (some tbl) ∧ LoadsObjects json rows tbl) ↔
      (∀ data ∈ rows, isObject data = false) ∧ rows.length < 2 ^ 32 := by
  rw [loadJsonExcelData_reads json h]
  by_cases hmany : 2 ^ 32 ≤ rows.length
  · rw [if_pos hmany]
    exact iff_of_false (fun ⟨_, h, _⟩ => (nomatch h)) fun hfew => absurd hfew.2 (Nat.not_lt.mpr hmany)
  · rw [if_neg hmany, and_iff_left (Nat.not_le.mp hmany)]
    have hnone : rows.filter isObject = [] ↔ ∀ data ∈ rows, isObject data = false := by
      simp only [List.filter_eq_nil_iff, Bool.not_eq_true]
    rw [← hnone]
    constructor
    · intro ⟨tbl, htbl, hloads⟩
      cases htbl
      exact List.forall₂_nil_right_iff.mp hloads
    · intro hempty
      refine ⟨[], rfl, ?_⟩
      rw [LoadsObjects, hempty]
      exact .nil

/-! ## Documents -/

/-- A tokener that knows one text. -/
def knowing (text : Bytes) (v : Json) : Tokener := fun fed =>
  if text.isPrefixOf fed then .value v else if fed.isPrefixOf text then .more else .error

theorem reads_knowing (text : Bytes) (v : Json) : Reads (knowing text v) text v where
  part p q hsplit := by
    have hp : p.isPrefixOf text = true := List.isPrefixOf_iff_prefix.mpr ⟨q, hsplit.symm⟩
    rw [knowing, if_pos hp]
    split_ifs
    · exact .inr rfl
    · exact .inl rfl
  whole n _ := if_pos (List.isPrefixOf_iff_prefix.mpr (List.prefix_append _ _))

theorem json_rows_number :
    (∃ tbl, loadJsonExcelData (knowing (ascii "[1]") (.array [.int 1])) Game.OpenStates.emptyJson (ascii "[1]") =
      .ok (some tbl) ∧ LoadsObjects Game.OpenStates.emptyJson [.int 1] tbl) ↔
      (∀ data ∈ [Json.int 1], isObject data = false) ∧ 1 < 2 ^ 32 :=
  json_rows_iff Game.OpenStates.emptyJson (reads_knowing (ascii "[1]") (.array [.int 1]))

/-- The object of a document with one gives no row. -/
theorem not_json_rows : ¬ ∀ (tok : Tokener) (json : JsonC) (file : Bytes) (rows : List Json),
    Reads tok file (.array rows) → rows.length < 2 ^ 32 →
    ∃ tbl, loadJsonExcelData tok json file = .ok (some tbl) ∧ LoadsObjects json rows tbl := by
  intro h
  have hreads := reads_knowing (ascii "[\x7b\x7d]") (.array [.object []])
  obtain ⟨tbl, htbl, hloads⟩ := h _ Game.OpenStates.emptyJson _ _ hreads (by decide)
  rw [loadJsonExcelData_reads _ hreads, if_neg (by decide)] at htbl
  cases htbl
  cases List.Forall₂.length_eq hloads

end Yagips.Data
