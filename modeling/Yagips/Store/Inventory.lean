import Yagips.Store.Gate

/-!
# The inventory part of `dbGate`

An avatar or an item is stored as an `InventoryEntry`, a message that holds one of the two,
under the two halves of its guid. The objects are kept as the messages they convert to.
-/
namespace Yagips.Store.Inventory

open Yagips.Lib
open Yagips.Store.Gate

/-- A `proto::AvatarInfo` or a `proto::Item`: its two ids, and its other fields as bytes. -/
structure Holding where
  id : UInt32
  guid : UInt64
  fields : Bytes
  deriving DecidableEq

instance : Inhabited Holding where
  default := { id := 0, guid := 0, fields := [] }

/-- The message `storage::InventoryEntry`, a `oneof`. -/
inductive InventoryEntry where
  | empty
  | avatar (a : Holding)
  | item (i : Holding)
  deriving DecidableEq

instance : Inhabited InventoryEntry where
  default := .empty

def Holding.ofFields : UInt32 × UInt64 × Bytes → Holding
  | (id, guid, fields) => { id, guid, fields }

instance : Encodable Holding :=
  Encodable.ofLeftInverse (fun h => (h.id, h.guid, h.fields)) Holding.ofFields fun _ => rfl

instance : Packed Holding :=
  Packed.ofLeftInverse (fun h => (h.id, h.guid, h.fields)) Holding.ofFields fun _ => rfl

instance : Encodable InventoryEntry :=
  Encodable.ofLeftInverse
    (fun
      | .empty => (none : Option (Holding ⊕ Holding))
      | .avatar a => some (.inl a)
      | .item i => some (.inr i))
    (fun
      | none => .empty
      | some (.inl a) => .avatar a
      | some (.inr i) => .item i)
    fun ent => by cases ent <;> rfl

/-- The number of the field that is set, and the field. -/
def InventoryEntry.tagged : InventoryEntry → UInt8 × Holding
  | .empty => (0, default)
  | .avatar a => (1, a)
  | .item i => (2, i)

def InventoryEntry.ofTagged : UInt8 × Holding → InventoryEntry
  | (1, a) => .avatar a
  | (2, i) => .item i
  | _ => .empty

instance : Packed InventoryEntry :=
  Packed.ofLeftInverse InventoryEntry.tagged InventoryEntry.ofTagged fun ent => by cases ent <;> rfl

namespace InventoryEntry

def hasAvatar : InventoryEntry → Bool
  | .avatar _ => true
  | _ => false

/-! A field that is not set reads as the default message. -/

def avatarField : InventoryEntry → Holding
  | .avatar a => a
  | _ => default

def itemField : InventoryEntry → Holding
  | .item i => i
  | _ => default

def guid : InventoryEntry → UInt64
  | .empty => 0
  | .avatar a => a.guid
  | .item i => i.guid

end InventoryEntry

/-- The key type `INVENTORY`. -/
def inventoryType : Bytes := htobe32 0

def inventoryKey (guid : UInt64) : Bytes :=
  idKey inventoryType (guid >>> 32).toUInt32 ++ htobe32 guid.toUInt32

variable (codec : Codec InventoryEntry)

def getInventoryEntry (g : DbGate) (guid : UInt64) : Option InventoryEntry :=
  let val := g.getLdbObject (inventoryKey guid)
  if val = [] then none else codec.parse val

/-- Both callers fill the entry, so that its assertion holds. -/
def setInventoryEntry (g : DbGate) (ent : InventoryEntry) : DbGate :=
  g.setLdbObject (inventoryKey ent.guid) (codec.serialize ent)

def saveAvatar (g : DbGate) (a : Holding) : DbGate := setInventoryEntry codec g (.avatar a)

def saveItem (g : DbGate) (i : Holding) : DbGate := setInventoryEntry codec g (.item i)

def deleteByGuid (g : DbGate) (guid : UInt64) : DbGate := g.delLdbObject (inventoryKey guid)

def deleteAvatar (g : DbGate) (a : Holding) : DbGate := deleteByGuid g a.guid

def deleteItem (g : DbGate) (i : Holding) : DbGate := deleteByGuid g i.guid

def getAvatarPbByGuid (g : DbGate) (guid : UInt64) : Except Fault (Option Holding) :=
  match getInventoryEntry codec g guid with
  | none => .error .pointer
  | some ent => return if !ent.hasAvatar then none else some ent.avatarField

/-- The test is the one of `getAvatarPbByGuid`. -/
def getItemPbByGuid (g : DbGate) (guid : UInt64) : Except Fault (Option Holding) :=
  match getInventoryEntry codec g guid with
  | none => .error .pointer
  | some ent => return if !ent.hasAvatar then none else some ent.itemField

/-! The object is made from the message, where there is one. -/

def getAvatarByGuid (g : DbGate) (guid : UInt64) : Except Fault (Option Holding) :=
  getAvatarPbByGuid codec g guid

def getItemByGuid (g : DbGate) (guid : UInt64) : Except Fault (Option Holding) :=
  getItemPbByGuid codec g guid

/-! ## Keys -/

theorem guid_halves_inj {x y : UInt64} (hhi : (x >>> 32).toUInt32 = (y >>> 32).toUInt32)
    (hlo : x.toUInt32 = y.toUInt32) : x = y := by
  have hx := x.toNat_lt
  have hy := y.toNat_lt
  have hhi := congrArg UInt32.toNat hhi
  have hlo := congrArg UInt32.toNat hlo
  rw [UInt64.toNat_toUInt32, UInt64.toNat_toUInt32, UInt64.toNat_shiftRight, UInt64.toNat_shiftRight]
    at hhi
  rw [UInt64.toNat_toUInt32, UInt64.toNat_toUInt32] at hlo
  change x.toNat >>> 32 % 2 ^ 32 = y.toNat >>> 32 % 2 ^ 32 at hhi
  rw [Nat.shiftRight_eq_div_pow, Nat.shiftRight_eq_div_pow] at hhi
  rw [← UInt64.toNat_inj]
  omega

theorem inventoryKey_inj {x y : UInt64} (h : inventoryKey x = inventoryKey y) : x = y := by
  have hlen : (idKey inventoryType (x >>> 32).toUInt32).length =
      (idKey inventoryType (y >>> 32).toUInt32).length := by
    simp [idKey, inventoryType, htobe32_length]
  obtain ⟨hhi, hlo⟩ := List.append_inj h hlen
  exact guid_halves_inj (idKey_inj hhi) (htobe32_inj hlo)

theorem inventoryKey_type (guid : UInt64) : (inventoryKey guid).take 4 = inventoryType := by
  rw [inventoryKey, idKey, List.append_assoc]
  exact List.take_left' (htobe32_length 0)

/-! ## Entries -/

theorem serialize_ne_nil {ent : InventoryEntry} (h : ent ≠ .empty) : codec.serialize ent ≠ [] :=
  fun hnil => h ((codec.serialize_nil ent).mp hnil)

/-- A put under a guid's key is a change of that guid's entry only. -/
theorem getInventoryEntry_set (g : DbGate) {ent : InventoryEntry} (hent : ent ≠ .empty)
    (guid : UInt64) : getInventoryEntry codec (setInventoryEntry codec g ent) guid =
      if guid = ent.guid then some ent else getInventoryEntry codec g guid := by
  unfold getInventoryEntry DbGate.getLdbObject setInventoryEntry DbGate.setLdbObject
  by_cases h : guid = ent.guid
  · rw [h, OrderedStore.get_put_self, if_pos rfl, Option.getD_some]
    simp only [if_neg (serialize_ne_nil codec hent), codec.parse_serialize]
  · have hne : inventoryKey guid ≠ inventoryKey ent.guid := fun hk => h (inventoryKey_inj hk)
    rw [OrderedStore.get_put_ne _ hne, if_neg h]

theorem getInventoryEntry_delete (g : DbGate) (deleted guid : UInt64) :
    getInventoryEntry codec (deleteByGuid g deleted) guid =
      if guid = deleted then none else getInventoryEntry codec g guid := by
  unfold getInventoryEntry DbGate.getLdbObject deleteByGuid DbGate.delLdbObject
  by_cases h : guid = deleted
  · rw [h, OrderedStore.get_erase_self, if_pos rfl]
    rfl
  · have hne : inventoryKey guid ≠ inventoryKey deleted := fun hk => h (inventoryKey_inj hk)
    rw [OrderedStore.get_erase_ne _ hne, if_neg h]

end Yagips.Store.Inventory
