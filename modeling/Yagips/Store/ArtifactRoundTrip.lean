import Mathlib.Data.List.Dedup
import Mathlib.Data.List.Perm.Subperm
import Yagips.Store.Items

/-!
# Sub-stats of an artifact

The ids of a message are grouped, with a count each, and expanded again. An id of 32 bits is put in
one of 16, and so is a count.
-/
namespace Yagips.Store.ArtifactRoundTrip

open Yagips.Lib
open Yagips.Store.Items

/-! ## Grouping -/

/-- The ids that take a slot. -/
def slotIds (propIds : List UInt32) : List UInt16 :=
  ((propIds.map (·.toUInt16)).filter (· ≠ 0)).dedup

/-- How often an id of 16 bits is met. -/
def met (propIds : List UInt32) (id : UInt16) : Nat := propIds.countP (·.toUInt16 = id)

/-- The slots group the ids that were met, each id in one of them, the counts in 16 bits. -/
structure Counted (propIds : List UInt32) (subStats : List ArtifactSubStat) : Prop where
  distinct : (subStats.map (·.id)).Nodup
  ids : ∀ id, id ∈ subStats.map (·.id) ↔ id ∈ slotIds propIds
  counts : ∀ s ∈ subStats, s.count.toNat = met propIds s.id % 2 ^ 16

theorem mem_slotIds {propIds : List UInt32} {id : UInt16} :
    id ∈ slotIds propIds ↔ id ≠ 0 ∧ ∃ x ∈ propIds, x.toUInt16 = id := by
  unfold slotIds
  rw [List.mem_dedup, List.mem_filter, List.mem_map, decide_eq_true_iff, and_comm]

theorem mem_slotIds_append {propIds : List UInt32} {x : UInt32} {id : UInt16} :
    id ∈ slotIds (propIds ++ [x]) ↔ id ∈ slotIds propIds ∨ id ≠ 0 ∧ x.toUInt16 = id := by
  simp only [mem_slotIds, List.mem_append, List.mem_singleton, or_and_right, exists_or, exists_eq_left,
    and_or_left]

theorem met_append (propIds : List UInt32) (x : UInt32) (id : UInt16) :
    met (propIds ++ [x]) id = met propIds id + if x.toUInt16 = id then 1 else 0 := by
  unfold met
  rw [List.countP_append, List.countP_singleton]
  simp only [decide_eq_true_iff]

def counted (id : UInt16) (s : ArtifactSubStat) : ArtifactSubStat :=
  if s.id = id then { s with count := s.count + 1 } else s

theorem counted_id (id : UInt16) (s : ArtifactSubStat) : (counted id s).id = s.id := by
  unfold counted
  split
  · rfl
  · rfl

theorem counted_ids (id : UInt16) (subStats : List ArtifactSubStat) :
    (subStats.map (counted id)).map (·.id) = subStats.map (·.id) := by
  rw [List.map_map]
  exact List.map_congr_left fun s _ => counted_id id s

theorem counted_other {id : UInt16} {subStats : List ArtifactSubStat} (h : id ∉ subStats.map (·.id)) :
    subStats.map (counted id) = subStats := by
  refine (List.map_congr_left fun s hs => ?_).trans (List.map_id subStats)
  exact if_neg fun he => h (List.mem_map.mpr ⟨s, hs, he⟩)

/-- The search finds the slot of an id, which is the only one. -/
theorem bump_eq {id : UInt16} {subStats : List ArtifactSubStat} (h : (subStats.map (·.id)).Nodup) :
    bump id subStats = if id ∈ subStats.map (·.id) then some (subStats.map (counted id)) else none := by
  induction subStats with
  | nil => rfl
  | cons s rest ih =>
    obtain ⟨hhead, hrest⟩ := List.nodup_cons.mp h
    rw [bump, ih hrest]
    by_cases hs : s.id = id
    · have hnot : id ∉ rest.map (·.id) := hs ▸ hhead
      rw [if_pos hs, if_pos (by simp [hs]), List.map_cons, counted_other hnot]
      simp [counted, hs]
    · have hiff : id ∈ (s :: rest).map (·.id) ↔ id ∈ rest.map (·.id) := by
        rw [List.map_cons, List.mem_cons]
        exact or_iff_right fun he => hs he.symm
      simp only [hiff, if_neg hs]
      split
      · simp [counted, hs]
      · rfl

/-! ## The loop -/

theorem counted_nil : Counted [] [] where
  distinct := List.nodup_nil
  ids _ := iff_of_false nofun fun h => by
    obtain ⟨-, x, hx, -⟩ := mem_slotIds.mp h
    cases hx
  counts := nofun

/-- What one pass leaves. -/
theorem addSubStat_eq {propIds : List UInt32} {subStats : List ArtifactSubStat}
    (h : Counted propIds subStats) (slots : Nat) (x : UInt32) : addSubStat slots subStats x =
      if x.toUInt16 ∈ slotIds propIds then .ok (subStats.map (counted x.toUInt16))
      else if x.toUInt16 = 0 then .ok subStats
      else if subStats.length < slots then .ok (subStats ++ [{ id := x.toUInt16, count := 1 }])
      else .error (.slice subStats.length 1) := by
  rw [addSubStat, bump_eq h.distinct]
  simp only [h.ids]
  by_cases hx : x.toUInt16 ∈ slotIds propIds
  · simp only [if_pos hx]
    rfl
  · simp only [if_neg hx]
    rfl

theorem met_zero {propIds : List UInt32} {id : UInt16} (h : id ∉ slotIds propIds) (hid : id ≠ 0) :
    met propIds id = 0 := by
  rw [met, List.countP_eq_zero]
  intro x hx hsame
  exact h (mem_slotIds.mpr ⟨hid, x, hx, of_decide_eq_true hsame⟩)

theorem counted_bump {propIds : List UInt32} {subStats : List ArtifactSubStat} (h : Counted propIds subStats)
    {x : UInt32} (hx : x.toUInt16 ∈ slotIds propIds) :
    Counted (propIds ++ [x]) (subStats.map (counted x.toUInt16)) := by
  refine ⟨?_, fun id => ?_, fun s hs => ?_⟩
  · rw [counted_ids]
    exact h.distinct
  · rw [counted_ids, h.ids, mem_slotIds_append]
    refine (or_iff_left_of_imp fun hid => ?_).symm
    rw [← hid.2]
    exact hx
  · obtain ⟨t, ht, rfl⟩ := List.mem_map.mp hs
    rw [counted_id, met_append]
    unfold counted
    by_cases hid : t.id = x.toUInt16
    · rw [if_pos hid, if_pos hid.symm]
      show (t.count + 1).toNat = _
      rw [UInt16.toNat_add, h.counts t ht]
      exact Nat.mod_add_mod _ _ _
    · rw [if_neg hid, if_neg fun he => hid he.symm]
      exact h.counts t ht

theorem counted_zero {propIds : List UInt32} {subStats : List ArtifactSubStat} (h : Counted propIds subStats)
    {x : UInt32} (hx : x.toUInt16 = 0) : Counted (propIds ++ [x]) subStats := by
  refine ⟨h.distinct, fun id => ?_, fun s hs => ?_⟩
  · rw [h.ids, mem_slotIds_append, hx]
    exact (or_iff_left fun hid => hid.1 hid.2.symm).symm
  · have hid := (mem_slotIds.mp ((h.ids s.id).mp (List.mem_map_of_mem hs))).1
    rw [met_append, hx, if_neg fun he => hid he.symm]
    exact h.counts s hs

theorem counted_push {propIds : List UInt32} {subStats : List ArtifactSubStat} (h : Counted propIds subStats)
    {x : UInt32} (hx : x.toUInt16 ∉ slotIds propIds) (hzero : x.toUInt16 ≠ 0) :
    Counted (propIds ++ [x]) (subStats ++ [{ id := x.toUInt16, count := 1 }]) := by
  refine ⟨?_, fun id => ?_, fun s hs => ?_⟩
  · rw [List.map_append, List.map_singleton, ← List.concat_eq_append, List.nodup_concat]
    exact ⟨fun hmem => hx ((h.ids _).mp hmem), h.distinct⟩
  · rw [List.map_append, List.mem_append, h.ids, mem_slotIds_append, List.map_singleton,
      List.mem_singleton]
    refine or_congr_right ⟨fun hid => ⟨hid ▸ hzero, hid.symm⟩, fun hid => hid.2.symm⟩
  · rw [met_append]
    rcases List.mem_append.mp hs with hs | hs
    · have hid : x.toUInt16 ≠ s.id := fun he =>
        hx (he ▸ (h.ids s.id).mp (List.mem_map_of_mem hs))
      rw [if_neg hid]
      exact h.counts s hs
    · rw [List.mem_singleton.mp hs, if_pos rfl, met_zero hx hzero]
      rfl

theorem counted_step {propIds : List UInt32} {subStats subStats' : List ArtifactSubStat}
    (h : Counted propIds subStats) {slots : Nat} {x : UInt32}
    (hstep : addSubStat slots subStats x = .ok subStats') : Counted (propIds ++ [x]) subStats' := by
  rw [addSubStat_eq h] at hstep
  by_cases hx : x.toUInt16 ∈ slotIds propIds
  · rw [if_pos hx] at hstep
    cases hstep
    exact counted_bump h hx
  rw [if_neg hx] at hstep
  by_cases hzero : x.toUInt16 = 0
  · rw [if_pos hzero] at hstep
    cases hstep
    exact counted_zero h hzero
  rw [if_neg hzero] at hstep
  split at hstep
  · cases hstep
    exact counted_push h hx hzero
  · cases hstep

/-- The slots that are written are those of the ids. -/
theorem Counted.length {propIds : List UInt32} {subStats : List ArtifactSubStat}
    (h : Counted propIds subStats) : subStats.length = (slotIds propIds).length := by
  have hperm : (subStats.map (·.id)).Perm (slotIds propIds) :=
    (List.perm_ext_iff_of_nodup h.distinct (List.nodup_dedup _)).mpr h.ids
  rw [← List.length_map (·.id), hperm.length_eq]

theorem slotIds_length_le (propIds rest : List UInt32) :
    (slotIds propIds).length ≤ (slotIds (propIds ++ rest)).length := by
  refine (List.subperm_of_subset (List.nodup_dedup _) fun id hid => ?_).length_le
  obtain ⟨hne, x, hx, hid⟩ := mem_slotIds.mp hid
  exact mem_slotIds.mpr ⟨hne, x, List.mem_append_left rest hx, hid⟩

/-- A pass writes in the object where the slots suffice for the ids. -/
theorem step_iff {propIds : List UInt32} {subStats : List ArtifactSubStat} (h : Counted propIds subStats)
    {slots : Nat} (hslots : (slotIds propIds).length ≤ slots) (x : UInt32) :
    (∃ subStats', addSubStat slots subStats x = .ok subStats') ↔
      (slotIds (propIds ++ [x])).length ≤ slots := by
  rw [addSubStat_eq h]
  by_cases hx : x.toUInt16 ∈ slotIds propIds
  · rw [if_pos hx, ← (counted_bump h hx).length, List.length_map, h.length]
    exact iff_of_true ⟨_, rfl⟩ hslots
  rw [if_neg hx]
  by_cases hzero : x.toUInt16 = 0
  · rw [if_pos hzero, ← (counted_zero h hzero).length, h.length]
    exact iff_of_true ⟨_, rfl⟩ hslots
  rw [if_neg hzero, ← (counted_push h hx hzero).length, List.length_append, List.length_singleton]
  by_cases hlt : subStats.length < slots
  · rw [if_pos hlt]
    exact iff_of_true ⟨_, rfl⟩ hlt
  · rw [if_neg hlt]
    exact iff_of_false nofun hlt

/-- The loop from where it has met some ids. -/
theorem loop_counted {propIds : List UInt32} {subStats subStats' : List ArtifactSubStat}
    (h : Counted propIds subStats) {slots : Nat} {rest : List UInt32}
    (hrun : rest.foldlM (addSubStat slots) subStats = .ok subStats') : Counted (propIds ++ rest) subStats' := by
  induction rest generalizing propIds subStats with
  | nil =>
    cases hrun
    rw [List.append_nil]
    exact h
  | cons x rest ih =>
    obtain ⟨next, hnext, hrun⟩ := bind_eq_ok.mp hrun
    rw [List.append_cons]
    exact ih (counted_step h hnext) hrun

theorem loop_iff {propIds : List UInt32} {subStats : List ArtifactSubStat} (h : Counted propIds subStats)
    {slots : Nat} (hslots : (slotIds propIds).length ≤ slots) (rest : List UInt32) :
    (∃ subStats', rest.foldlM (addSubStat slots) subStats = .ok subStats') ↔
      (slotIds (propIds ++ rest)).length ≤ slots := by
  induction rest generalizing propIds subStats with
  | nil =>
    rw [List.append_nil]
    exact iff_of_true ⟨subStats, rfl⟩ hslots
  | cons x rest ih =>
    rw [List.append_cons]
    constructor
    · intro ⟨subStats', hrun⟩
      obtain ⟨next, hnext, hrun⟩ := bind_eq_ok.mp hrun
      exact (ih (counted_step h hnext) ((step_iff h hslots x).mp ⟨next, hnext⟩)).mp ⟨_, hrun⟩
    · intro hfit
      have hone : (slotIds (propIds ++ [x])).length ≤ slots :=
        Nat.le_trans (slotIds_length_le _ rest) hfit
      obtain ⟨next, hnext⟩ := (step_iff h hslots x).mpr hone
      obtain ⟨subStats', hrun⟩ := (ih (counted_step h hnext) hone).mpr hfit
      exact ⟨subStats', bind_eq_ok.mpr ⟨next, hnext, hrun⟩⟩

theorem loadSubStats_counted {slots : Nat} {propIds : List UInt32} {subStats : List ArtifactSubStat}
    (h : loadSubStats slots propIds = .ok subStats) : Counted propIds subStats :=
  loop_counted counted_nil h

/-- The constructor writes in the object where it has a slot for each id. -/
theorem loadSubStats_iff (slots : Nat) (propIds : List UInt32) :
    (∃ subStats, loadSubStats slots propIds = .ok subStats) ↔ (slotIds propIds).length ≤ slots :=
  loop_iff counted_nil (Nat.zero_le slots) propIds

/-! ## Expanding -/

theorem mem_expand {subStats : List ArtifactSubStat} {x : UInt32} (hx : x ∈ expand subStats) :
    ∃ s ∈ subStats, x = s.id.toUInt32 := by
  obtain ⟨s, hs, hx⟩ := List.mem_flatMap.mp hx
  exact ⟨s, hs, List.eq_of_mem_replicate hx⟩

theorem count_expand {subStats : List ArtifactSubStat} (h : (subStats.map (·.id)).Nodup)
    {s : ArtifactSubStat} (hs : s ∈ subStats) : (expand subStats).count s.id.toUInt32 = s.count.toNat := by
  induction subStats with
  | nil => cases hs
  | cons t rest ih =>
    obtain ⟨hhead, hrest⟩ := List.nodup_cons.mp h
    rw [expand, List.flatMap_cons, List.count_append, List.count_replicate]
    change _ + (expand rest).count s.id.toUInt32 = _
    rcases List.mem_cons.mp hs with rfl | hs
    · have hnone : (expand rest).count s.id.toUInt32 = 0 := by
        rw [List.count_eq_zero]
        intro hmem
        obtain ⟨t, ht, hid⟩ := mem_expand hmem
        exact hhead (List.mem_map.mpr ⟨t, ht, (UInt16.toUInt32_inj.mp hid).symm⟩)
      rw [hnone, if_pos (beq_self_eq_true _)]
      rfl
    · have hne : ¬ (t.id.toUInt32 == s.id.toUInt32) = true := by
        intro hid
        have hid := UInt16.toUInt32_inj.mp (beq_iff_eq.mp hid)
        exact hhead (List.mem_map.mpr ⟨s, hs, hid.symm⟩)
      rw [if_neg hne, Nat.zero_add]
      exact ih hrest hs

/-- The ids of a message keep their values in 16 bits, and so do their numbers. -/
def Narrow (propIds : List UInt32) : Prop :=
  ∀ x ∈ propIds, 0 < x.toNat ∧ x.toNat < 2 ^ 16 ∧ propIds.count x < 2 ^ 16

theorem narrow_iff (x : UInt32) : x.toUInt16.toUInt32 = x ↔ x.toNat < 2 ^ 16 := by
  rw [← UInt32.toNat_inj, UInt16.toNat_toUInt32, UInt32.toNat_toUInt16]
  omega

theorem met_narrow {propIds : List UInt32} (h : ∀ y ∈ propIds, y.toNat < 2 ^ 16) {x : UInt32}
    (hx : x.toNat < 2 ^ 16) : met propIds x.toUInt16 = propIds.count x := by
  unfold met
  rw [List.count_eq_countP]
  refine List.countP_congr fun y hy => ?_
  rw [decide_eq_true_iff, beq_iff_eq]
  constructor
  · intro hsame
    rw [← (narrow_iff y).mpr (h y hy), hsame, (narrow_iff x).mpr hx]
  · intro hsame
    rw [hsame]

theorem expand_perm_iff {propIds : List UInt32} {subStats : List ArtifactSubStat}
    (h : Counted propIds subStats) : (expand subStats).Perm propIds ↔ Narrow propIds := by
  constructor
  · intro hperm x hx
    obtain ⟨s, hs, hxs⟩ := mem_expand (hperm.mem_iff.mpr hx)
    have hzero := (mem_slotIds.mp ((h.ids s.id).mp (List.mem_map_of_mem hs))).1
    have hpos : s.id.toNat ≠ 0 := fun he => hzero (UInt16.toNat_inj.mp he)
    rw [← hperm.count_eq, hxs, count_expand h.distinct hs, UInt16.toNat_toUInt32]
    exact ⟨Nat.pos_of_ne_zero hpos, s.id.toNat_lt, s.count.toNat_lt⟩
  · intro hnarrow
    have hlt : ∀ y ∈ propIds, y.toNat < 2 ^ 16 := fun y hy => (hnarrow y hy).2.1
    rw [List.perm_iff_count]
    intro x
    by_cases hx : x ∈ propIds
    · obtain ⟨hpos, hx16, hcount⟩ := hnarrow x hx
      have hback := (narrow_iff x).mpr hx16
      have hne : x.toUInt16 ≠ 0 := by
        intro he
        rw [← hback, he] at hpos
        exact Nat.lt_irrefl 0 hpos
      obtain ⟨s, hs, hid⟩ := List.mem_map.mp ((h.ids x.toUInt16).mpr (mem_slotIds.mpr ⟨hne, x, hx, rfl⟩))
      rw [← hback, ← hid, count_expand h.distinct hs, h.counts s hs, hid, hback, met_narrow hlt hx16,
        Nat.mod_eq_of_lt hcount]
    · rw [List.count_eq_zero.mpr hx, List.count_eq_zero]
      intro hmem
      obtain ⟨s, hs, hxs⟩ := mem_expand hmem
      obtain ⟨-, y, hy, hid⟩ := mem_slotIds.mp ((h.ids s.id).mp (List.mem_map_of_mem hs))
      have hyx : y = x := by rw [hxs, ← hid, (narrow_iff y).mpr (hlt y hy)]
      exact hx (hyx ▸ hy)

/-! ## Converting -/

/-- There are fewer ids of 16 bits that are not 0. -/
theorem slotIds_lt (propIds : List UInt32) : (slotIds propIds).length < 2 ^ 16 := by
  have hnodup : ((0 :: slotIds propIds).map (·.toNat)).Nodup := by
    refine List.Nodup.map (fun _ _ => UInt16.toNat_inj.mp) (List.nodup_cons.mpr ⟨?_, List.nodup_dedup _⟩)
    intro hmem
    exact (mem_slotIds.mp hmem).1 rfl
  have hsub : (0 :: slotIds propIds).map (·.toNat) ⊆ List.range (2 ^ 16) := by
    intro n hn
    obtain ⟨id, -, rfl⟩ := List.mem_map.mp hn
    exact List.mem_range.mpr id.toNat_lt
  have hle := (List.subperm_of_subset hnodup hsub).length_le
  rwa [List.length_map, List.length_range] at hle

/-- The conversion of what is made of a reliquary. -/
def converted (r : Pb.Reliquary) (subStats : List ArtifactSubStat) : Pb.Reliquary where
  level := r.level.toUInt8.toUInt32
  exp := r.exp
  promoteLevel := (r.level.toUInt8 / 4).toUInt32
  mainPropId := r.mainPropId.toUInt16.toUInt32
  appendPropIdList := expand subStats

theorem boolByte_ne (b : Bool) : decide (boolByte b ≠ 0) = b := by
  cases b with
  | false => rfl
  | true => rfl

def reliquaryItem (itemId : UInt32) (guid : UInt64) (isLocked : Bool) (r : Pb.Reliquary) : Pb.Item where
  itemId := itemId
  guid := guid
  detail := .equip { isLocked, detail := .reliquary r }

theorem toPb_ofPb {slots : Slots} {mem : Memory slots} {itemId : UInt32} {guid : UInt64} {isLocked : Bool}
    {r : Pb.Reliquary} {subStats : List ArtifactSubStat}
    (h : loadSubStats slots.subStats r.appendPropIdList = .ok subStats) :
    Item.ofPb mem (reliquaryItem itemId guid isLocked r) >>= Item.toPb =
      .ok (reliquaryItem itemId guid isLocked (converted r subStats)) := by
  have hlen : (UInt16.ofNat subStats.length).toNat = subStats.length := by
    rw [(loadSubStats_counted h).length]
    exact UInt16.toNat_ofNat_of_lt' (slotIds_lt _)
  have hread : readSlots (UInt16.ofNat subStats.length).toNat subStats = .ok subStats := by
    rw [hlen, readSlots, if_pos le_rfl, List.take_length]
    rfl
  have hload : Item.ofPb mem (reliquaryItem itemId guid isLocked r) = .ok {
      id := itemId, guid, data := .artifact {
        exp := r.exp, locked := boolByte isLocked, level := r.level.toUInt8
        mainStat := r.mainPropId.toUInt16, numSubStats := UInt16.ofNat subStats.length, subStats } } := by
    simp only [Item.ofPb, reliquaryItem, loadData, h, ok_bind]
    rfl
  rw [hload, ok_bind]
  simp only [Item.toPb, saveData, hread, ok_bind, boolByte_ne]
  rfl

/-- A reliquary is made an item and a reliquary again, with what is asked to be kept. -/
def RoundTrips {slots : Slots} (mem : Memory slots) (itemId : UInt32) (guid : UInt64) (isLocked : Bool)
    (r : Pb.Reliquary) : Prop :=
  ∃ r', Item.ofPb mem (reliquaryItem itemId guid isLocked r) >>= Item.toPb =
      .ok (reliquaryItem itemId guid isLocked r') ∧
    r'.level = r.level ∧ r'.exp = r.exp ∧ r'.mainPropId = r.mainPropId ∧
    r'.appendPropIdList.Perm r.appendPropIdList

theorem reliquaryItem_inj {itemId : UInt32} {guid : UInt64} {isLocked : Bool} {r r' : Pb.Reliquary}
    (h : reliquaryItem itemId guid isLocked r = reliquaryItem itemId guid isLocked r') : r = r' := by
  have hdetail := congrArg Pb.Item.detail h
  injection hdetail with hequip
  have hdetail := congrArg Pb.Equip.detail hequip
  injection hdetail

/-- With slots enough and a level of 8 bits, a reliquary comes back exactly where its main stat has 16
bits and its sub-stats are narrow. -/
theorem artifact_round_trip_iff {slots : Slots} (mem : Memory slots) (itemId : UInt32) (guid : UInt64)
    (isLocked : Bool) {r : Pb.Reliquary} (hslots : r.appendPropIdList.length ≤ slots.subStats)
    (hlevel : r.level.toNat < 256) : RoundTrips mem itemId guid isLocked r ↔
      r.mainPropId.toNat < 2 ^ 16 ∧ Narrow r.appendPropIdList := by
  have hfit : (slotIds r.appendPropIdList).length ≤ slots.subStats := by
    refine Nat.le_trans (List.dedup_sublist _).length_le (Nat.le_trans (List.length_filter_le _ _) ?_)
    rwa [List.length_map]
  obtain ⟨subStats, hload⟩ := (loadSubStats_iff slots.subStats r.appendPropIdList).mpr hfit
  have hback : r.level.toUInt8.toUInt32 = r.level := by
    rw [← UInt32.toNat_inj, UInt8.toNat_toUInt32, UInt32.toNat_toUInt8]
    exact Nat.mod_eq_of_lt hlevel
  unfold RoundTrips
  rw [toPb_ofPb hload, ← narrow_iff, ← expand_perm_iff (loadSubStats_counted hload)]
  constructor
  · intro ⟨r', hr', _, _, hmain, hperm⟩
    cases reliquaryItem_inj (Except.ok.inj hr')
    exact ⟨hmain, hperm⟩
  · intro ⟨hmain, hperm⟩
    exact ⟨converted r subStats, rfl, hback, rfl, hmain, hperm⟩

def noMemory (slots : Slots) : Memory slots where
  data := .other 3
  expireTime := 0
  laid := trivial

/-- A reliquary without a main stat. -/
def reliquary (propIds : List UInt32) : Pb.Reliquary where
  level := 20
  exp := 0
  promoteLevel := 5
  mainPropId := 0
  appendPropIdList := propIds

theorem repeated_subStat : RoundTrips (noMemory { subStats := 3, affixes := 0 }) 1 2 true
    (reliquary [7, 9, 7]) ↔ (0 : UInt32).toNat < 2 ^ 16 ∧ Narrow [7, 9, 7] :=
  artifact_round_trip_iff (noMemory _) 1 2 true (by decide) (by decide)

/-- The sub-stat 2^16 + 1 comes back as 1. -/
theorem subStat_narrowed : ¬ ∀ (slots : Slots) (mem : Memory slots) itemId guid isLocked (r : Pb.Reliquary),
    r.appendPropIdList.length ≤ slots.subStats → r.level.toNat < 256 →
    RoundTrips mem itemId guid isLocked r := by
  intro h
  obtain ⟨r', hr', -, -, -, hperm⟩ :=
    h { subStats := 1, affixes := 0 } (noMemory _) 1 2 true (reliquary [65537]) (by decide) (by decide)
  have hone : reliquaryItem 1 2 true (converted (reliquary [65537]) [{ id := 1, count := 1 }]) =
      reliquaryItem 1 2 true r' := Except.ok.inj hr'
  cases reliquaryItem_inj hone
  exact absurd hperm (by decide)

end Yagips.Store.ArtifactRoundTrip
