import Yagips.Data.JsonLoader
import Yagips.Data.Tsv

/-!
# Loading a table

A loader takes an entry of every row. Its variables are declared before the loop over the rows, so a
row finds in them what the row before left there. In a row of a JSON table the cells are documents of
their own, which one tokener reads in turn.
-/
namespace Yagips.Data

open Yagips.Lib
open Yagips.Sdk.Body
open Yagips.Lib.Strsep
open Yagips.Game.OpenStates (Row tryGetKey toInt getField isJsonPath)

/-! ## Rows -/

/-- The loop over the rows, behind the entries there are, with what the variables hold. -/
def rowLoop {V E : Type} (body : Row → V → Except Fault (E × V)) : List Row → V → List E → Except Fault (List E)
  | [], _, entries => return entries
  | row :: rows, vars, entries => do
    let (ent, vars) ← body row vars
    rowLoop body rows vars (entries ++ [ent])

/-- The counter of the rows is an `unsigned int`, and never reaches a number of them that is not. -/
def loadRows {V E : Type} (body : Row → V → Except Fault (E × V)) (rows : List Row) (vars : V) :
    Except Fault (List E) := do
  let entries ← rowLoop body (rows.take (2 ^ 32)) vars []
  if 2 ^ 32 ≤ rows.length then .error .endless else return entries

/-- `load(const char*)` of a new object, for the file that the path opens, if any. `none` where it
returns -1. -/
def loadTable {V E : Type} (names : List String) (tok : Tokener) (json : JsonC)
    (body : Bool → Row → V → Except Fault (E × V)) (vars : V) (path : Bytes) (file : Option Bytes) :
    Except Fault (Option (List E)) :=
  match file with
  | none => return none
  | some content => do
    let isJson := isJsonPath path
    let tbl ← if isJson then loadJsonExcelData tok json content
      else do pure (some (← loadTsvExcelData names content))
    match tbl with
    | none => return none
    | some tbl => return some (← loadRows (body isJson) tbl vars)

theorem rowLoop_next {V E : Type} {body : Row → V → Except Fault (E × V)} {row : Row} {vars vars' : V} {ent : E}
    (h : body row vars = .ok (ent, vars')) (rows : List Row) (entries : List E) :
    rowLoop body (row :: rows) vars entries = rowLoop body rows vars' (entries ++ [ent]) := by
  rw [rowLoop, h]
  rfl

theorem rowLoop_stop {V E : Type} {body : Row → V → Except Fault (E × V)} {row : Row} {vars : V} {f : Fault}
    (h : body row vars = .error f) (rows : List Row) (entries : List E) :
    rowLoop body (row :: rows) vars entries = .error f := by
  rw [rowLoop, h]
  rfl

theorem loadRows_few {V E : Type} (body : Row → V → Except Fault (E × V)) {rows : List Row}
    (h : rows.length < 2 ^ 32) (vars : V) : loadRows body rows vars = rowLoop body rows vars [] := by
  rw [loadRows, List.take_of_length_le h.le]
  simp only [if_neg (Nat.not_le.mpr h)]
  exact bind_pure _

theorem loadRows_ok {V E : Type} {body : Row → V → Except Fault (E × V)} {rows : List Row} {vars : V}
    {out : List E} : loadRows body rows vars = .ok out ↔ rows.length < 2 ^ 32 ∧ rowLoop body rows vars [] = .ok out := by
  by_cases hmany : 2 ^ 32 ≤ rows.length
  · rw [loadRows, bind_eq_ok]
    simp only [if_pos hmany]
    exact iff_of_false (fun ⟨_, _, h⟩ => (nomatch h)) fun h => absurd h.1 (Nat.not_lt.mpr hmany)
  · rw [loadRows_few body (Nat.not_le.mp hmany), and_iff_right (Nat.not_le.mp hmany)]

/-- Of a JSON document no row reaches the loop. -/
theorem loadTable_json {V E : Type} (names : List String) {tok : Tokener} (json : JsonC)
    (body : Bool → Row → V → Except Fault (E × V)) (vars : V) {path content : Bytes} {rows : List Json}
    (hpath : isJsonPath path = true) (h : Reads tok content (.array rows)) (hfew : rows.length < 2 ^ 32) :
    loadTable names tok json body vars path (some content) = .ok (some []) := by
  rw [loadTable]
  simp only [hpath, if_true, loadJsonExcelData_reads json h, if_neg (Nat.not_le.mpr hfew), ok_bind]
  rw [loadRows_few _ (by decide)]
  rfl

/-! ## Lists in a cell -/

def comma (b : UInt8) : Bool := b = 0x2c

/-- The loop over the parts of a text, behind the numbers there are. -/
def idLoop : Nat → Option Bytes → List UInt32 → List UInt32
  | fuel + 1, some s, ids =>
    let (t, p) := strsep comma (some s)
    idLoop fuel p (ids ++ [toInt (t.getD [])])
  | _, _, ids => ids

/-- The numbers a cell of a TSV row lists. -/
def idList (v : Bytes) : List UInt32 :=
  if v = [] then [] else idLoop ((cstr v).length + 1) (some (cstr v)) []

/-- A `struct json_tokener *`: null, or of one that is there, or of one that was freed. -/
inductive TokenerPtr where
  | null
  | live
  | freed
  deriving DecidableEq

namespace TokenerPtr

/-- `json_tokener_new`, whatever the pointer was. -/
def new (_ : TokenerPtr) : Except Fault TokenerPtr := .ok .live

/-- `json_tokener_reset`, or a new one where there is none. -/
def renew : TokenerPtr → Except Fault TokenerPtr
  | .freed => .error .pointer
  | .null | .live => .ok .live

/-- `json_tokener_free`, where the pointer is not null. -/
def free : TokenerPtr → Except Fault TokenerPtr
  | .null => .ok .null
  | .live => .ok .freed
  | .freed => .error .pointer

end TokenerPtr

/-! ## Cells that hold arrays -/

/-- A key of a JSON row that an array is read from: the rounds there are at least, and what is done
with an element. -/
structure Cell (E : Type) where
  key : String
  rounds : Nat
  write : Nat → Json → E → Except Fault E

/-- The rounds over an array, of which the elements that are null or not there are passed over. The
counter does not wrap, for the length of the text that is parsed is an `int`. -/
def indexLoop {E : Type} (write : Nat → Json → E → Except Fault E) (xs : List Json) :
    Nat → Nat → E → Except Fault E
  | 0, _, ent => return ent
  | n + 1, j, ent =>
    match xs[j]? with
    | none | some .null => indexLoop write xs n (j + 1) ent
    | some x => do indexLoop write xs n (j + 1) (← write j x ent)

section Cells

variable {E : Type} (json : JsonC)

/-- Numbers, each written in the place of its element. -/
def numbersCell (key : String) (rounds : Nat) (get : E → List UInt32) (put : E → List UInt32 → E) : Cell E where
  key
  rounds
  write j x ent := do return put ent (← setAt (get ent) j (json.getInt x).toUInt32)

/-- A field of an element, where it has it and it is not null. -/
def writeField {A : Type} (x : Json) (key : String) (set : Json → A → A) (j : Nat) (places : List A) :
    Except Fault (List A) :=
  match getField x key with
  | some field => modifyAt places j (set field)
  | none => return places

/-- Objects with two fields, each written in the place of its element. -/
def fieldsCell {A : Type} (key : String) (rounds : Nat) (first : String × (Json → A → A))
    (second : String × (Json → A → A)) (get : E → List A) (put : E → List A → E) : Cell E where
  key
  rounds
  write j x ent := do
    let places ← writeField x first.1 first.2 j (get ent)
    return put ent (← writeField x second.1 second.2 j places)

/-- A cell, with a tokener that is taken one way or the other. -/
def readCell (take : TokenerPtr → Except Fault TokenerPtr) (cell : Cell E) (row : Row) (jtk : TokenerPtr)
    (ent : E) : Except Fault (TokenerPtr × E) :=
  let v := tryGetKey row cell.key
  if v = [] then return (jtk, ent)
  else do
    let jtk ← take jtk
    match json.parse v with
    | some (.array xs) => return (jtk, ← indexLoop cell.write xs (max cell.rounds xs.length) 0 ent)
    | _ => return (jtk, ent)

section Reading

variable {json} {take : TokenerPtr → Except Fault TokenerPtr} {cell : Cell E} {row : Row} {jtk jtk' : TokenerPtr}

theorem readCell_empty (h : tryGetKey row cell.key = []) (ent : E) :
    readCell json take cell row jtk ent = .ok (jtk, ent) := if_pos h

theorem readCell_array (h : tryGetKey row cell.key ≠ []) (htake : take jtk = .ok jtk') {xs : List Json}
    (hparse : json.parse (tryGetKey row cell.key) = some (.array xs)) (ent : E) :
    readCell json take cell row jtk ent =
      (indexLoop cell.write xs (max cell.rounds xs.length) 0 ent).map fun ent => (jtk', ent) := by
  rw [readCell, if_neg h, htake, ok_bind, hparse]
  dsimp only
  cases indexLoop cell.write xs (max cell.rounds xs.length) 0 ent with
  | error f => rfl
  | ok ent => rfl

/-- Of what is no array nothing is read. -/
theorem readCell_other (h : tryGetKey row cell.key ≠ []) (htake : take jtk = .ok jtk')
    (hparse : ∀ xs, json.parse (tryGetKey row cell.key) ≠ some (.array xs)) (ent : E) :
    readCell json take cell row jtk ent = .ok (jtk', ent) := by
  rw [readCell, if_neg h, htake, ok_bind]
  split
  case h_1 xs heq => exact absurd heq (hparse xs)
  case h_2 => rfl

end Reading

/-- The cells behind the first. -/
def readCells (row : Row) : List (Cell E) → TokenerPtr → E → Except Fault (TokenerPtr × E)
  | [], jtk, ent => return (jtk, ent)
  | cell :: cells, jtk, ent => do
    let (jtk, ent) ← readCell json TokenerPtr.renew cell row jtk ent
    readCells row cells jtk ent

/-- A row: the first cell is always read with a new tokener, and the tokener is freed in the end, but
its pointer stays. -/
def readRow (first : Cell E) (cells : List (Cell E)) (row : Row) (jtk : TokenerPtr) (ent : E) :
    Except Fault (E × TokenerPtr) := do
  let (jtk, ent) ← readCell json TokenerPtr.new first row jtk ent
  let (jtk, ent) ← readCells json row cells jtk ent
  return (ent, ← jtk.free)

end Cells

end Yagips.Data
