import Yagips.Game.Avatars

/-!
# Loading an avatar and saving it

The constructor keeps the guids of the equipment in a list and leaves the pointers to it as they are.
The conversion that saving uses reads the pointers.
-/
namespace Yagips.Game.AvatarRoundTrip

open Yagips.Lib
open Yagips.Store.Items (Item Data)
open Yagips.Game.Avatars

/-! ## What is asked of the conversions -/

/-- What is to be kept of a message. -/
structure Keeps (pb pb' : AvatarInfo) : Prop where
  avatarId : pb'.avatarId = pb.avatarId
  guid : pb'.guid = pb.guid
  bornTime : pb'.bornTime = pb.bornTime
  skillDepotId : pb'.skillDepotId = pb.skillDepotId
  wearingFlycloakId : pb'.wearingFlycloakId = pb.wearingFlycloakId
  fetterLevel : pb'.fetterInfo.expLevel = pb.fetterInfo.expLevel
  talents : pb'.talentIdList.length = pb.talentIdList.length
  equipGuidList : pb'.equipGuidList = pb.equipGuidList

/-- An avatar made of a message in some memory is made a message that keeps it. -/
def RoundTripsIn (tables : GameData) (pb : AvatarInfo) (mem : Avatar) : Prop :=
  ∃ pb', (Avatar.ofInfo tables pb mem).toConstInfo = .ok pb' ∧ Keeps pb pb'

/-- It does whatever the memory held, since no member that was left as it was is read. -/
def RoundTrips (tables : GameData) (pb : AvatarInfo) : Prop := ∀ mem, RoundTripsIn tables pb mem

/-- A message of an avatar in the tables, with its six talents at most and a fetter level. -/
structure Valid (tables : GameData) (pb : AvatarInfo) : Prop where
  avatar : (tables.avatar pb.avatarId).isSome
  skillDepot : (tables.skillDepot pb.skillDepotId).isSome
  talents : pb.talentIdList.length ≤ 6
  fetterLevel : 1 ≤ pb.fetterInfo.expLevel ∧ pb.fetterInfo.expLevel ≤ 10
  fetterExp : pb.fetterInfo.expLevel = 10 → pb.fetterInfo.expNumber = 6325 ∨ pb.fetterInfo.expNumber = 0

/-! ## The conversion -/

/-- At most six talents are read in the object. -/
theorem talents_ok (depot : AvatarSkillDepotDataEnt) {n : Nat} (hn : n ≤ 6) :
    ∃ talents, (List.range n).mapM (talentId (some depot)) = .ok talents ∧ talents.length = n := by
  refine ⟨_, mapM_ok (g := fun i => depot.constellationSkills[i]!) fun i hi => ?_, ?_⟩
  · have hlt : i < 6 := Nat.lt_of_lt_of_le (List.mem_range.mp hi) hn
    show (if h : i < 6 then _ else _) = _
    rw [dif_pos hlt]
    show Except.ok _ = Except.ok _
    rw [getElem!_pos depot.constellationSkills i hlt]
  · rw [List.length_map, List.length_range]

theorem roundTripsIn_equip {tables : GameData} {pb : AvatarInfo} {mem : Avatar}
    (h : RoundTripsIn tables pb mem) :
    equipGuidList (mem.weapon :: mem.artifacts.toList) = .ok pb.equipGuidList := by
  obtain ⟨pb', hpb', hkeeps⟩ := h
  obtain ⟨equips, hequips, hpb'⟩ := bind_eq_ok.mp hpb'
  obtain ⟨talents, -, hpb'⟩ := bind_eq_ok.mp hpb'
  cases hpb'
  rw [← hkeeps.equipGuidList]
  exact hequips

/-- Of a valid message all but the equipment is kept, which is read from the memory's pointers. -/
theorem roundTripsIn_iff {tables : GameData} {pb : AvatarInfo} (h : Valid tables pb) (mem : Avatar) :
    RoundTripsIn tables pb mem ↔
      equipGuidList (mem.weapon :: mem.artifacts.toList) = .ok pb.equipGuidList := by
  refine ⟨roundTripsIn_equip, fun hequips => ?_⟩
  obtain ⟨depot, hdepot⟩ := Option.isSome_iff_exists.mp h.skillDepot
  obtain ⟨talents, htalents, hlen⟩ := talents_ok depot h.talents
  have hcount : (Avatar.ofInfo tables pb mem).constellation.toNat = pb.talentIdList.length := by
    have hsix := h.talents
    exact UInt32.toNat_ofNat_of_lt' (show pb.talentIdList.length < 2 ^ 32 by omega)
  have hread : (List.range (Avatar.ofInfo tables pb mem).constellation.toNat).mapM
      (talentId (Avatar.ofInfo tables pb mem).skillDepot) = .ok talents := by
    rw [hcount, show (Avatar.ofInfo tables pb mem).skillDepot = some depot from hdepot]
    exact htalents
  refine ⟨_, bind_eq_ok.mpr ⟨_, hequips, bind_eq_ok.mpr ⟨talents, hread, rfl⟩⟩, ?_⟩
  exact {
    avatarId := rfl, guid := rfl, bornTime := UInt32.toUInt32_toUInt64 _, skillDepotId := rfl
    wearingFlycloakId := rfl, fetterLevel := rfl, talents := hlen, equipGuidList := rfl }

/-! ## What the memory holds -/

/-- No message survives being loaded and saved: a pointer that was not set is read. The rest of a
valid one is kept, so it survives in the memory whose pointers are those to its equipment. -/
theorem never_round_trips (tables : GameData) (pb : AvatarInfo) : ¬ RoundTrips tables pb ∧
    (Valid tables pb → ∀ mem, RoundTripsIn tables pb mem ↔
      equipGuidList (mem.weapon :: mem.artifacts.toList) = .ok pb.equipGuidList) := by
  refine ⟨fun h => ?_, fun hvalid => roundTripsIn_iff hvalid⟩
  have hwild : Except.error Fault.pointer = Except.ok pb.equipGuidList :=
    roundTripsIn_equip (h (zeros .wild))
  cases hwild

/-- An avatar with a weapon. -/
def equipped : AvatarInfo where
  avatarId := 10000029
  guid := 0x100000001
  lifeState := 1
  equipGuidList := [0x100000002]
  talentIdList := []
  skillDepotId := 2901
  fetterInfo := { expNumber := 0, expLevel := 1 }
  wearingFlycloakId := 140001
  bornTime := 0

def oneAvatar : GameData where
  avatarData := [{ id := 10000029, skillDepotId := 2901 }]
  avatarSkillDepotData := [{ id := 2901, constellationSkills := Vector.replicate 6 0 }]

/-- A record with a weapon is saved without it, where the memory was all zeros. -/
theorem weapon_lost : ¬ ∀ tables pb, Valid tables pb → RoundTrips tables pb := by
  intro h
  have hvalid : Valid oneAvatar equipped := by
    refine ⟨by decide, by decide, by decide, by decide, fun h => absurd h (by decide)⟩
  have hnone : Except.ok [] = Except.ok equipped.equipGuidList :=
    roundTripsIn_equip (h oneAvatar equipped hvalid (zeros .null))
  cases hnone

/-! ## The conversion that loads the equipment -/

/-- The pointers of an avatar are null or to items under some guids. -/
def Holds (guids : List UInt64) (a : Avatar) : Prop :=
  ∀ p ∈ a.weapon :: a.artifacts.toList, p = .null ∨ ∃ i, p = .item i ∧ i.guid ∈ guids

theorem equipGuidList_subset {guids : List UInt64} {ps : List ItemPtr}
    (h : ∀ p ∈ ps, p = .null ∨ ∃ i, p = .item i ∧ i.guid ∈ guids) :
    ∃ l, equipGuidList ps = .ok l ∧ l ⊆ guids := by
  induction ps with
  | nil => exact ⟨[], rfl, List.nil_subset guids⟩
  | cons p ps ih =>
    obtain ⟨hp, hps⟩ := List.forall_mem_cons.mp h
    obtain ⟨l, hl, hsub⟩ := ih hps
    rw [equipGuidList, hl]
    rcases hp with rfl | ⟨i, rfl, hi⟩
    · exact ⟨l, rfl, hsub⟩
    · exact ⟨i.guid :: l, rfl, List.cons_subset.mpr ⟨hi, hsub⟩⟩

theorem holds_weapon {guids : List UInt64} {a : Avatar} (h : Holds guids a) {w : Item} (hw : w.guid ∈ guids) :
    Holds guids (a.setWeaponIfNull w) := by
  obtain ⟨hweapon, hartifacts⟩ := List.forall_mem_cons.mp h
  unfold Avatar.setWeaponIfNull
  split
  · exact List.forall_mem_cons.mpr ⟨.inr ⟨w, rfl, hw⟩, hartifacts⟩
  · exact h

theorem holds_artifact {guids : List UInt64} {a : Avatar} (h : Holds guids a) {item : Item}
    (hitem : item.guid ∈ guids) : Holds guids (a.setArtifactIfNull item) := by
  obtain ⟨hweapon, hartifacts⟩ := List.forall_mem_cons.mp h
  unfold Avatar.setArtifactIfNull
  dsimp only
  split
  case isFalse => exact h
  case isTrue hidx =>
    split
    · refine List.forall_mem_cons.mpr ⟨hweapon, fun p hp => ?_⟩
      have hmem : p ∈ a.artifacts.set _ (.item item) hidx := Vector.mem_toList_iff.mp hp
      rcases Vector.mem_or_eq_of_mem_set hmem with hp | rfl
      · exact hartifacts p (Vector.mem_toList_iff.mpr hp)
      · exact .inr ⟨item, rfl, hitem⟩
    · exact h

/-- One pass puts in an item under the guid it is given. -/
theorem holds_equip {guids : List UInt64} {a : Avatar} (h : Holds guids a) (inventory : List Item)
    {guid : UInt64} (hguid : guid ∈ guids) : Holds guids (a.equip inventory guid) := by
  unfold Avatar.equip
  cases hfind : inventory.find? (·.guid = guid) with
  | none => exact h
  | some t =>
    have ht : t.guid ∈ guids := by
      have hsame : t.guid = guid := by simpa using List.find?_some hfind
      rwa [hsame]
    dsimp only
    split
    · exact holds_weapon h ht
    · exact holds_artifact h ht
    · exact h

theorem holds_loop {guids rest : List UInt64} {a : Avatar} (h : Holds guids a) (inventory : List Item)
    (hrest : rest ⊆ guids) : Holds guids (rest.foldl (Avatar.equip inventory) a) := by
  induction rest generalizing a with
  | nil => exact h
  | cons guid rest ih =>
    obtain ⟨hguid, hrest⟩ := List.cons_subset.mp hrest
    exact ih (holds_equip h inventory hguid) hrest

theorem holds_loadEquips {a : Avatar} (h : Holds a.equipGuids a) (owners : UInt32 → Option (List Item)) :
    Holds a.equipGuids (a.loadEquips owners) := by
  unfold Avatar.loadEquips
  split
  · exact h
  · split
    · exact h
    · exact holds_loop h _ (List.Subset.refl _)

/-- In memory without pointers, the conversion that loads the equipment gives a message none that its
record has not. -/
theorem toInfo_equip_subset {tables : GameData} {pb pb' : AvatarInfo} {mem a : Avatar}
    (hmem : ∀ p ∈ mem.weapon :: mem.artifacts.toList, p = .null) {owners : UInt32 → Option (List Item)}
    (h : (Avatar.ofInfo tables pb mem).toInfo owners = .ok (a, pb')) :
    pb'.equipGuidList ⊆ pb.equipGuidList := by
  have hstart : Holds pb.equipGuidList (Avatar.ofInfo tables pb mem) := fun p hp => .inl (hmem p hp)
  have hloaded : Holds pb.equipGuidList ((Avatar.ofInfo tables pb mem).loadEquips owners) :=
    holds_loadEquips hstart owners
  obtain ⟨info, hinfo, hout⟩ := bind_eq_ok.mp h
  cases hout
  obtain ⟨equips, hequips, hinfo⟩ := bind_eq_ok.mp hinfo
  obtain ⟨talents, -, hinfo⟩ := bind_eq_ok.mp hinfo
  cases hinfo
  obtain ⟨l, hl, hsub⟩ := equipGuidList_subset hloaded
  have hsame : equipGuidList (((Avatar.ofInfo tables pb mem).loadEquips owners).weapon ::
      ((Avatar.ofInfo tables pb mem).loadEquips owners).artifacts.toList) = .ok equips := hequips
  rw [hl] at hsame
  cases hsame
  exact hsub

end Yagips.Game.AvatarRoundTrip
