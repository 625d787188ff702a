import Yagips.Store.Inventory

/-!
# Looking inventory entries up

A history of saves and deletes leaves under each guid what was saved there last. The lookup
of an avatar finds it, and follows the entry also where there is none. The lookup of an item
asks whether the entry is an avatar, so no entry makes it right.
-/
namespace Yagips.Store.Lookups

open Yagips.Lib
open Yagips.Store.Gate
open Yagips.Store.Inventory

inductive Op where
  | saveItem (i : Holding)
  | saveAvatar (a : Holding)
  | deleteItem (i : Holding)
  | deleteAvatar (a : Holding)

variable (codec : Codec InventoryEntry)

def apply (g : DbGate) : Op → DbGate
  | .saveItem i => saveItem codec g i
  | .saveAvatar a => saveAvatar codec g a
  | .deleteItem i => deleteItem g i
  | .deleteAvatar a => deleteAvatar g a

/-- The store after a history that starts without entries. -/
def after (nextIds : NextIdInfo) (ops : List Op) : DbGate :=
  ops.foldl (apply codec) { db := OrderedStore.empty, nextIds }

/-! ## What was saved last -/

def Op.writes : Op → UInt64 × Option InventoryEntry
  | .saveItem i => (i.guid, some (.item i))
  | .saveAvatar a => (a.guid, some (.avatar a))
  | .deleteItem i => (i.guid, none)
  | .deleteAvatar a => (a.guid, none)

/-- The entries as a map, which each operation updates at one guid. -/
def lastSaved (ops : List Op) : UInt64 → Option InventoryEntry :=
  ops.foldl (fun saved op => Function.update saved op.writes.1 op.writes.2) fun _ => none

theorem apply_entry (g : DbGate) (op : Op) : getInventoryEntry codec (apply codec g op) =
    Function.update (getInventoryEntry codec g) op.writes.1 op.writes.2 := by
  funext guid
  rw [Function.update_apply]
  cases op with
  | saveItem i => exact getInventoryEntry_set codec g (by simp) guid
  | saveAvatar a => exact getInventoryEntry_set codec g (by simp) guid
  | deleteItem i => exact getInventoryEntry_delete codec g i.guid guid
  | deleteAvatar a => exact getInventoryEntry_delete codec g a.guid guid

/-- The store refines the map. -/
theorem entry_after (nextIds : NextIdInfo) (ops : List Op) :
    getInventoryEntry codec (after codec nextIds ops) = lastSaved ops := by
  unfold after lastSaved
  generalize hg : ({ db := OrderedStore.empty, nextIds } : DbGate) = g
  have hempty : getInventoryEntry codec g = fun _ => none := by
    rw [← hg]
    rfl
  rw [← hempty]
  clear hg hempty
  induction ops generalizing g with
  | nil => rfl
  | cons op ops ih => rw [List.foldl_cons, List.foldl_cons, ih, apply_entry]

/-! ## The lookups -/

def itemOf : Option InventoryEntry → Option Holding
  | some (.item i) => some i
  | _ => none

def avatarOf : Option InventoryEntry → Option Holding
  | some (.avatar a) => some a
  | _ => none

/-- Both lookups return what was saved last under a guid, where it is of their kind. -/
structure LookupsRight (nextIds : NextIdInfo) (ops : List Op) (guid : UInt64) : Prop where
  item : getItemByGuid codec (after codec nextIds ops) guid = .ok (itemOf (lastSaved ops guid))
  avatar : getAvatarByGuid codec (after codec nextIds ops) guid = .ok (avatarOf (lastSaved ops guid))

/-- A history saves no entry that is neither. -/
theorem lastSaved_ne_empty (ops : List Op) (guid : UInt64) :
    lastSaved ops guid ≠ some .empty := by
  unfold lastSaved
  generalize hs : (fun _ => none : UInt64 → Option InventoryEntry) = saved
  have hstart : ∀ guid, saved guid ≠ some .empty := by
    intro guid
    simp [← hs]
  clear hs
  induction ops generalizing saved with
  | nil => exact hstart guid
  | cons op ops ih =>
    refine ih _ fun guid => ?_
    show Function.update saved op.writes.1 op.writes.2 guid ≠ _
    rw [Function.update_apply]
    split
    · cases op <;> simp [Op.writes]
    · exact hstart guid

theorem itemLookup_wrong (nextIds : NextIdInfo) (ops : List Op) (guid : UInt64) :
    getItemByGuid codec (after codec nextIds ops) guid ≠ .ok (itemOf (lastSaved ops guid)) := by
  have hne := lastSaved_ne_empty ops guid
  unfold getItemByGuid getItemPbByGuid
  rw [entry_after]
  cases h : lastSaved ops guid with
  | none => exact fun hok => nomatch hok
  | some ent =>
    cases ent with
    | empty => exact absurd h hne
    | avatar a => exact fun hok => nomatch Except.ok.inj hok
    | item i => exact fun hok => nomatch Except.ok.inj hok

theorem avatarLookup_right_iff (nextIds : NextIdInfo) (ops : List Op) (guid : UInt64) :
    getAvatarByGuid codec (after codec nextIds ops) guid = .ok (avatarOf (lastSaved ops guid)) ↔
      lastSaved ops guid ≠ none := by
  unfold getAvatarByGuid getAvatarPbByGuid
  rw [entry_after]
  cases h : lastSaved ops guid with
  | none => exact iff_of_false (fun hok => nomatch hok) (fun hne => hne rfl)
  | some ent => cases ent <;> exact iff_of_true rfl (by simp)

theorem lookups_never_right (nextIds : NextIdInfo) (ops : List Op) (guid : UInt64) :
    ¬ LookupsRight codec nextIds ops guid :=
  fun h => itemLookup_wrong codec nextIds ops guid h.item

/-- An item that was saved is looked up as nothing. -/
theorem saved_item_not_found :
    ¬ LookupsRight (Codec.unary InventoryEntry) default
      [.saveItem { id := 14502, guid := 1, fields := [] }] 1 :=
  fun h => itemLookup_wrong _ _ _ _ h.item

end Yagips.Store.Lookups
