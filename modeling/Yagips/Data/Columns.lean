import Yagips.Data.PromoteRewards
import Yagips.Data.OpenStateTable
import Yagips.Data.SkillDepotTable

/-!
# Columns and fields

A field is read under a key, and a key that is no column reads as the empty text. Over the rows that have
a cell for every column, the three loaders are compared with entries whose fields are the columns'.
-/
namespace Yagips.Data

open Yagips.Lib
open Yagips.Sdk.Body
open Yagips.Game.Players
open Yagips.Game.OpenStates (Row tryGetKey toInt forced)

/-- A row with a cell for every column. -/
def declared (names : List String) (cell : String → Bytes) : Row := names.map fun name => (name, cell name)

/-- The numbers of a list between commas. -/
def listed (v : Bytes) : List UInt32 := if v = [] then [] else ((cstr v).splitOnP comma).map toInt

theorem declared_cons (name : String) (names : List String) (cell : String → Bytes) :
    declared (name :: names) cell = (name, cell name) :: declared names cell := rfl

theorem zip_declared {names : List String} (hnames : names.Nodup) {cells : List Bytes}
    (hlen : names.length ≤ cells.length) : ∃ cell, names.zip cells = declared names cell := by
  induction names generalizing cells with
  | nil => exact ⟨fun _ => [], rfl⟩
  | cons name names ih =>
    cases cells with
    | nil => exact absurd hlen (Nat.not_succ_le_zero _)
    | cons c cells =>
      obtain ⟨hname, hnodup⟩ := List.nodup_cons.mp hnames
      obtain ⟨cell, hcell⟩ := ih hnodup (Nat.le_of_succ_le_succ hlen)
      refine ⟨Function.update cell name c, ?_⟩
      have hrest : declared names (Function.update cell name c) = declared names cell := by
        refine List.map_congr_left fun name' hmem => ?_
        have hne : name' ≠ name := fun h => hname (h ▸ hmem)
        rw [Function.update_of_ne hne]
      rw [List.zip_cons_cons, hcell, declared_cons, Function.update_self, hrest]

/-- A line with all its cells gives such a row. -/
theorem tsvEntry_declared {names : List String} (hnames : names.Nodup) (hk : names.length < 2 ^ 32) {line : Bytes}
    (hcells : names.length ≤ ((cstr line).splitOnP tsvDelim).length) :
    ∃ cell, tsvEntry names line = .ok (declared names cell) := by
  obtain ⟨cell, hcell⟩ := zip_declared hnames hcells
  exact ⟨cell, by rw [tsvEntry_eq hnames hk, hcell]⟩

/-! ## Avatars -/

namespace AvatarTable

variable {F : Type} (flt : LongDouble F)

end AvatarTable

/-! ## Skill depots -/

namespace SkillDepotTable

end SkillDepotTable

/-! ## Open states -/

namespace OpenStateTable

open Game.OpenStates (fieldNames)

end OpenStateTable

/-! ## The three tables -/

end Yagips.Data
