import Yagips.Data.AvatarTable
import Yagips.Data.OpenStateTable
import Yagips.Data.SkillDepotTable
import Yagips.Lib.Run

/-!
# Rows of JSON tables

An array in a cell is gone through as far as the longer of itself and the places there are, so that what
lies behind the places is written. The tokener of one row is reset by a later one that does not begin with
a new one, and freed once more.
-/
namespace Yagips.Data

open Yagips.Lib
open Yagips.Lib.Run
open Yagips.Sdk.Body
open Yagips.Game.Players
open Yagips.Game.OpenStates (Row tryGetKey getField isJsonPath)

/-! ## Cells -/

/-- The places for the array of a key, and the elements that are written at all. -/
structure Limit where
  key : String
  size : Nat
  touches : Json → Prop

/-- What is written of an element lies in its place. -/
def Limit.At (limit : Limit) (xs : List Json) (i : Nat) : Prop :=
  ∀ x, xs[i]? = some x → x ≠ .null → limit.touches x → i < limit.size

/-- What is written of the array of a row lies in its places. -/
def Limit.Kept (json : JsonC) (row : Row) (limit : Limit) : Prop :=
  tryGetKey row limit.key ≠ [] → ∀ xs, json.parse (tryGetKey row limit.key) = some (.array xs) → ∀ i, limit.At xs i

variable {E : Type} {inv : E → Prop} {cell : Cell E} {limit : Limit} {json : JsonC} {row : Row}

/-- A row has something under one of the keys. -/
def Uses (row : Row) (keys : List String) : Prop := ∃ key ∈ keys, tryGetKey row key ≠ []

theorem uses_cons {key : String} {keys : List String} :
    Uses row (key :: keys) ↔ tryGetKey row key ≠ [] ∨ Uses row keys := by
  simp only [Uses, List.mem_cons, exists_eq_or_imp]

/-- What becomes of the tokener's pointer over some keys: it stays, unless one of them is used. -/
def Becomes (row : Row) (keys : List String) (used jtk jtk' : TokenerPtr) : Prop :=
  (Uses row keys → jtk' = used) ∧ (¬ Uses row keys → jtk' = jtk)

theorem Becomes.cons {key : String} {keys : List String} {jtk jtk' jtk'' : TokenerPtr}
    (h : jtk' = if tryGetKey row key = [] then jtk else .live) (h' : Becomes row keys .live jtk' jtk'') :
    Becomes row (key :: keys) .live jtk jtk'' := by
  unfold Becomes
  rw [uses_cons]
  by_cases hv : tryGetKey row key = []
  · rw [if_pos hv] at h
    rw [or_iff_right (not_not.mpr hv), ← h]
    exact h'
  · rw [if_neg hv] at h
    refine ⟨fun _ => ?_, fun hnone => absurd (Or.inl hv) hnone⟩
    by_cases huses : Uses row keys
    · exact h'.1 huses
    · exact (h'.2 huses).trans h

/-- A row writes within the limits. -/
def Fits (json : JsonC) (limits : List Limit) (row : Row) : Prop := ∀ limit ∈ limits, limit.Kept json row

/-- What a row does with its variables: it ends where it writes within the limits, and makes a tokener
first where one was freed. -/
def Tokens {V : Type} (json : JsonC) (ptr : V → TokenerPtr) (limit : Limit) (limits : List Limit)
    (body : Row → V → Except Fault (E × V)) : Prop :=
  ∀ row vars, ptr vars ≠ .live →
    Exact (Fits json (limit :: limits) row ∧ (ptr vars = .freed → tryGetKey row limit.key ≠ []))
      (fun s => Becomes row ((limit :: limits).map (·.key)) .freed (ptr vars) (ptr s.2)) (body row vars)

namespace AvatarTable

variable {F : Type} (flt : LongDouble F) (json : JsonC) (invalid : Json → Bool)

end AvatarTable

/-! ## Skill depots -/

namespace SkillDepotTable

variable (json : JsonC)

end SkillDepotTable

/-! ## Open states -/

namespace OpenStateTable

variable (json : JsonC) (invalid : Json → Bool)

end OpenStateTable

/-! ## The three tables -/

end Yagips.Data
