import Yagips.Game.Holdings
import Yagips.Store.ArtifactRoundTrip

/-!
# The layout of an item

The two arrays of an item have one slot each in the object, which the padding of the third variant
leaves them. An item is copied into the inventory with what is in the object, and with no more.
-/
namespace Yagips.Game.ItemLayout

open Yagips.Lib
open Yagips.Store.Inventory (Holding)
open Yagips.Store.Items
open Yagips.Store.ArtifactRoundTrip
open Yagips.Game.Players (Player)
open Yagips.Game.Holdings

/-- The union has 16 bytes, those of `Material`. The sub-stats start at byte 10 and the affixes at
byte 12, and both have four bytes each. -/
def x86_64 : Slots where
  subStats := (16 - 10) / 4
  affixes := (16 - 12) / 4

/-! ## Copies in the inventory -/

/-- What a player holds the items with. -/
structure Bag where
  uid : UInt32
  nextGuid : UInt32
  inventory : List Item

/-- `addItem(Item&)`. -/
def Bag.addItem (b : Bag) (item : Item) : Bag :=
  let guid := if highHalf item.guid = 0 then b.uid.toUInt64 <<< 32 else item.guid
  let isNew := lowHalf guid = 0
  { b with
    inventory := b.inventory ++ [{ item with guid := if isNew then guid ||| b.nextGuid.toUInt64 else guid }]
    nextGuid := if isNew then b.nextGuid + 1 else b.nextGuid }

def Bag.addConstItem (b : Bag) (item : Item) : Bag := { b with inventory := b.inventory ++ [item] }

/-- The first item under a guid replaced, or a new one at the end. -/
def setByGuid (guid : UInt64) (item : Item) : List Item → List Item
  | [] => [item]
  | i :: rest => if i.guid = guid then item :: rest else i :: setByGuid guid item rest

/-- `setItem(guid, Item&)`. -/
def Bag.setItem (b : Bag) (guid : UInt64) (item : Item) : Bag :=
  { b with inventory := setByGuid guid { item with guid } b.inventory }

def Bag.setConstItem (b : Bag) (guid : UInt64) (item : Item) : Bag :=
  if item.guid ≠ guid then b else b.setItem guid item

/-- The calls that copy an item. -/
inductive Copying where
  | addItem
  | addConstItem
  | setItem (guid : UInt64)
  | setConstItem (guid : UInt64)

def Bag.after (b : Bag) (item : Item) : Copying → Bag
  | .addItem => b.addItem item
  | .addConstItem => b.addConstItem item
  | .setItem guid => b.setItem guid item
  | .setConstItem guid => b.setConstItem guid item

/-- The copy that is held after a call, if the call has made one. -/
def Bag.copy (b : Bag) (item : Item) : Copying → Option Item
  | .addItem => (b.addItem item).inventory.getLast?
  | .addConstItem => (b.addConstItem item).inventory.getLast?
  | .setItem guid => (b.setItem guid item).inventory.find? (·.guid = guid)
  | .setConstItem guid =>
    if item.guid ≠ guid then none else (b.setConstItem guid item).inventory.find? (·.guid = guid)

theorem find_setByGuid (guid : UInt64) (item : Item) (h : item.guid = guid) (inventory : List Item) :
    (setByGuid guid item inventory).find? (·.guid = guid) = some item := by
  induction inventory with
  | nil => simp [setByGuid, h]
  | cons i rest ih =>
    rw [setByGuid]
    split
    case isTrue => simp [h]
    case isFalse hi => simpa [hi] using ih

/-- A copy is the item, but for its guid. -/
theorem copy_eq {b : Bag} {item : Item} {call : Copying} {copy : Item} (h : b.copy item call = some copy) :
    ∃ guid, copy = { item with guid } := by
  cases call with
  | addItem =>
    rw [Bag.copy, Bag.addItem, List.getLast?_concat] at h
    exact ⟨_, (Option.some.inj h).symm⟩
  | addConstItem =>
    rw [Bag.copy, Bag.addConstItem, List.getLast?_concat] at h
    exact ⟨item.guid, (Option.some.inj h).symm⟩
  | setItem guid =>
    rw [Bag.copy, Bag.setItem, find_setByGuid guid _ rfl] at h
    exact ⟨guid, (Option.some.inj h).symm⟩
  | setConstItem guid =>
    rw [Bag.copy, Bag.setConstItem] at h
    split at h
    · cases h
    · rw [Bag.setItem, find_setByGuid guid _ rfl] at h
      exact ⟨guid, (Option.some.inj h).symm⟩

/-! ## The inventory of a player -/

section

variable (fields : Data → Bytes)

/-- An item as the player's inventory has it, where its data is written as `fields`. -/
def holding (item : Item) : Holding where
  id := item.id
  guid := item.guid
  fields := fields item.data

@[simp] theorem holding_guid (item : Item) : (holding fields item).guid = item.guid := rfl

structure Mirrors (b : Bag) (p : Player) : Prop where
  uid : p.uid = b.uid
  nextGuid : p.nextGuid = b.nextGuid
  inventory : p.inventory = b.inventory.map (holding fields)

def Player.after (p : Player) (i : Holding) : Copying → Player
  | .addItem => Player.addItem p i
  | .addConstItem => Player.addConstItem p i
  | .setItem guid => Player.setItem p guid i
  | .setConstItem guid => Player.setConstItem p guid i

theorem map_setByGuid (guid : UInt64) (item : Item) (inventory : List Item) :
    (setByGuid guid item inventory).map (holding fields) =
      Holdings.setByGuid guid (holding fields item) (inventory.map (holding fields)) := by
  induction inventory with
  | nil => rfl
  | cons i rest ih =>
    rw [setByGuid, List.map_cons, Holdings.setByGuid, holding_guid]
    by_cases hi : i.guid = guid
    · rw [if_pos hi, if_pos hi]
      rfl
    · rw [if_neg hi, if_neg hi, List.map_cons, ih]

/-- The items of a player are copied as the messages they convert to are. -/
theorem mirrors_after {b : Bag} {p : Player} (h : Mirrors fields b p) (item : Item) (call : Copying) :
    Mirrors fields (b.after item call) (Player.after p (holding fields item) call) := by
  have hset : ∀ guid, Mirrors fields (b.setItem guid item) (Player.setItem p guid (holding fields item)) := by
    intro guid
    refine ⟨h.uid, h.nextGuid, ?_⟩
    rw [Bag.setItem, map_setByGuid, ← h.inventory]
    rfl
  cases call with
  | addItem =>
    refine ⟨h.uid, ?_, ?_⟩
    · simp only [Player.after, Player.addItem, Bag.after, Bag.addItem, holding, h.uid, h.nextGuid]
    · simp only [Player.after, Player.addItem, Bag.after, Bag.addItem, holding, h.uid, h.nextGuid,
        h.inventory, List.map_append, List.map_singleton]
  | addConstItem =>
    refine ⟨h.uid, h.nextGuid, ?_⟩
    simp only [Player.after, Player.addConstItem, Bag.after, Bag.addConstItem, h.inventory,
      List.map_append, List.map_singleton]
  | setItem guid => exact hset guid
  | setConstItem guid =>
    by_cases hguid : item.guid = guid
    · have hbag : b.after item (.setConstItem guid) = b.setItem guid item := if_neg (not_not.mpr hguid)
      have hplayer : Player.after p (holding fields item) (.setConstItem guid) =
          Player.setItem p guid (holding fields item) := if_neg (not_not.mpr hguid)
      rw [hbag, hplayer]
      exact hset guid
    · have hbag : b.after item (.setConstItem guid) = b := if_pos hguid
      have hplayer : Player.after p (holding fields item) (.setConstItem guid) = p := if_pos hguid
      rw [hbag, hplayer]
      exact h

end

/-! ## What is asked of an item -/

/-- The sub-stats and the affix keys of a message. -/
def parts (pb : Pb.Item) : List UInt32 × List UInt32 :=
  match pb.detail with
  | .equip { detail := .reliquary r, .. } => (r.appendPropIdList, [])
  | .equip { detail := .weapon w, .. } => ([], w.affixMap.entries.map (·.1))
  | _ => ([], [])

/-- An item is made inside its object, and a copy of it is made the same sub-stats and affixes of. -/
def Owns {slots : Slots} (mem : Memory slots) (pb : Pb.Item) : Prop :=
  ∃ item, Item.ofPb mem pb = .ok item ∧ ∀ (b : Bag) call copy, b.copy item call = some copy →
    ∃ r r', item.toPb = .ok r ∧ copy.toPb = .ok r' ∧ parts r' = parts r

/-- What is read as a variant keeps within one slot. -/
def WithinSlot : Data → Prop
  | .artifact a => a.numSubStats ≤ 1
  | .weapon w => w.numAffixes ≤ 1
  | _ => True

/-- A message has at most one sub-stat or affix, or leaves the memory as it was, which reads as one
that has. -/
def OneSlot (mem : Memory x86_64) (pb : Pb.Item) : Prop :=
  match pb.detail with
  | .material _ => True
  | .equip { detail := .reliquary r, .. } => (slotIds r.appendPropIdList).length ≤ 1
  | .equip { detail := .weapon w, .. } => w.affixMap.entries.length ≤ 1
  | .equip { detail := .unset, .. } => WithinSlot mem.data
  | .unset => WithinSlot mem.data

/-! ## Constructing and converting -/

/-- An item converts where the arrays have the slots it reads. -/
def Readable : Data → Prop
  | .artifact a => a.numSubStats.toNat ≤ a.subStats.length
  | .weapon w => w.numAffixes.toNat ≤ w.affixes.length
  | _ => True

theorem readSlots_iff {S : Type} (n : Nat) (slots : List S) :
    (∃ read, readSlots n slots = .ok read) ↔ n ≤ slots.length := by
  unfold readSlots
  by_cases hn : n ≤ slots.length
  · rw [if_pos hn]
    exact iff_of_true ⟨_, rfl⟩ hn
  · rw [if_neg hn]
    exact iff_of_false nofun hn

theorem saveData_iff (data : Data) : (∃ detail, saveData data = .ok detail) ↔ Readable data := by
  cases data with
  | material m => exact iff_of_true ⟨_, rfl⟩ trivial
  | other type => exact iff_of_true ⟨_, rfl⟩ trivial
  | artifact a => exact (exists_bind_pure fun _ => ⟨_, rfl⟩).trans (readSlots_iff _ _)
  | weapon w => exact (exists_bind_pure fun _ => ⟨_, rfl⟩).trans (readSlots_iff _ _)

/-- Any item that is converted is converted like its copies. -/
theorem owns_iff {slots : Slots} {mem : Memory slots} {pb : Pb.Item} :
    Owns mem pb ↔ ∃ item, Item.ofPb mem pb = .ok item ∧ Readable item.data := by
  constructor
  · intro ⟨item, hitem, hcopies⟩
    obtain ⟨r, -, hr, -, -⟩ := hcopies { uid := 0, nextGuid := 0, inventory := [] } .addConstItem item rfl
    obtain ⟨detail, hdetail, -⟩ := bind_eq_ok.mp hr
    exact ⟨item, hitem, (saveData_iff _).mp ⟨detail, hdetail⟩⟩
  · intro ⟨item, hitem, hreadable⟩
    obtain ⟨detail, hdetail⟩ := (saveData_iff _).mpr hreadable
    refine ⟨item, hitem, fun b call copy hcopy => ?_⟩
    obtain ⟨guid, rfl⟩ := copy_eq hcopy
    have hpb : ∀ guid, Item.toPb { item with guid } = .ok { itemId := item.id, guid, detail } := by
      intro guid
      rw [Item.toPb, hdetail]
      rfl
    exact ⟨_, _, hpb item.guid, hpb guid, rfl⟩

theorem ofPb_readable_iff {slots : Slots} {mem : Memory slots} {pb : Pb.Item} :
    (∃ item, Item.ofPb mem pb = .ok item ∧ Readable item.data) ↔
      ∃ data, loadData mem pb.detail = .ok data ∧ Readable data := by
  constructor
  · intro ⟨item, hitem, hreadable⟩
    obtain ⟨data, hdata, hitem⟩ := bind_eq_ok.mp hitem
    cases hitem
    exact ⟨data, hdata, hreadable⟩
  · intro ⟨data, hdata, hreadable⟩
    exact ⟨_, bind_eq_ok.mpr ⟨data, hdata, rfl⟩, hreadable⟩

theorem left_iff (mem : Memory x86_64) :
    (∃ data, (.ok mem.data : Except Fault Data) = .ok data ∧ Readable data) ↔ WithinSlot mem.data := by
  have hdata : (∃ data, (.ok mem.data : Except Fault Data) = .ok data ∧ Readable data) ↔
      Readable mem.data := by
    constructor
    · intro ⟨data, hdata, hreadable⟩
      cases hdata
      exact hreadable
    · intro hreadable
      exact ⟨_, rfl, hreadable⟩
  rw [hdata]
  have hlaid := mem.laid
  cases hd : mem.data with
  | material m => exact Iff.rfl
  | other type => exact Iff.rfl
  | artifact a =>
    rw [hd] at hlaid
    show a.numSubStats.toNat ≤ a.subStats.length ↔ a.numSubStats ≤ 1
    rw [show a.subStats.length = 1 from hlaid, UInt16.le_iff_toNat_le]
    rfl
  | weapon w =>
    rw [hd] at hlaid
    show w.numAffixes.toNat ≤ w.affixes.length ↔ w.numAffixes ≤ 1
    rw [show w.affixes.length = 1 from hlaid, UInt32.le_iff_toNat_le]
    rfl

theorem reliquary_iff (mem : Memory x86_64) (isLocked : Bool) (r : Pb.Reliquary) :
    (∃ data, loadData mem (.equip { isLocked, detail := .reliquary r }) = .ok data ∧ Readable data) ↔
      (slotIds r.appendPropIdList).length ≤ 1 := by
  rw [show 1 = x86_64.subStats from rfl, ← loadSubStats_iff]
  constructor
  · intro ⟨data, hdata, _⟩
    obtain ⟨subStats, hload, -⟩ := bind_eq_ok.mp hdata
    exact ⟨subStats, hload⟩
  · intro ⟨subStats, hload⟩
    refine ⟨_, bind_eq_ok.mpr ⟨subStats, hload, rfl⟩, ?_⟩
    show (UInt16.ofNat subStats.length).toNat ≤ subStats.length
    rw [UInt16.toNat_ofNat']
    exact Nat.mod_le _ _

theorem weapon_iff (mem : Memory x86_64) (isLocked : Bool) (w : Pb.Weapon) :
    (∃ data, loadData mem (.equip { isLocked, detail := .weapon w }) = .ok data ∧ Readable data) ↔
      w.affixMap.entries.length ≤ 1 := by
  have hload : (∃ affixes, loadAffixes x86_64.affixes (w.affixMap.entries.map (·.1)) = .ok affixes) ↔
      w.affixMap.entries.length ≤ 1 := by
    rw [loadAffixes, List.length_map]
    by_cases hle : w.affixMap.entries.length ≤ 1
    · exact iff_of_true ⟨_, if_pos hle⟩ hle
    · refine iff_of_false (fun ⟨affixes, h⟩ => ?_) hle
      rw [if_neg (show ¬ w.affixMap.entries.length ≤ x86_64.affixes from hle)] at h
      cases h
  rw [← hload]
  constructor
  · intro ⟨data, hdata, _⟩
    obtain ⟨affixes, haffixes, -⟩ := bind_eq_ok.mp hdata
    exact ⟨affixes, haffixes⟩
  · intro ⟨affixes, haffixes⟩
    refine ⟨_, bind_eq_ok.mpr ⟨affixes, haffixes, rfl⟩, ?_⟩
    show (UInt32.ofNat affixes.length).toNat ≤ affixes.length
    rw [UInt32.toNat_ofNat']
    exact Nat.mod_le _ _

/-- An item is made inside its object and copied whole exactly where it needs one slot. -/
theorem owns_iff_oneSlot (mem : Memory x86_64) (pb : Pb.Item) : Owns mem pb ↔ OneSlot mem pb := by
  rw [owns_iff, ofPb_readable_iff]
  obtain ⟨itemId, guid, detail⟩ := pb
  cases detail with
  | unset => exact left_iff mem
  | material m => exact iff_of_true ⟨_, rfl, trivial⟩ trivial
  | equip equip =>
    obtain ⟨isLocked, detail⟩ := equip
    cases detail with
    | unset => exact left_iff mem
    | reliquary r => exact reliquary_iff mem isLocked r
    | weapon w => exact weapon_iff mem isLocked w

/-- Of two sub-stats, the second is not written inside the object. -/
theorem second_subStat_outside : ¬ ∀ (mem : Memory x86_64) pb, Owns mem pb := by
  intro h
  obtain ⟨item, hitem, -⟩ := h (noMemory x86_64) (reliquaryItem 1 2 true (reliquary [7, 9]))
  cases hitem

end Yagips.Game.ItemLayout
