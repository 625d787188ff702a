import Yagips.Game.Holdings
import Yagips.Lib.Run
import Yagips.Store.Lookups

/-!
# Saving and loading what a player holds

Saving writes what the lists hold and deletes nothing, loading asks for the guids below
the counter. So what comes back is what was held where the store holds nothing else below
the counter, and the player nothing above it.
-/
namespace Yagips.Game.InventoryReload

open Yagips.Lib
open Yagips.Lib.Run
open Yagips.Store.Gate
open Yagips.Store.Inventory
open Yagips.Store.Lookups (avatarOf itemOf)
open Yagips.Game.Players
open Yagips.Game.PlayerStore
open Yagips.Game.Holdings

/-! ## Histories -/

inductive Call where
  | addAvatar (a : Holding)
  | addItem (i : Holding)
  | addConstAvatar (a : Holding)
  | addConstItem (i : Holding)
  | addThroughEnd
  | setAvatar (guid : UInt64) (a : Holding)
  | setItem (guid : UInt64) (i : Holding)
  | setConstAvatar (guid : UInt64) (a : Holding)
  | setConstItem (guid : UInt64) (i : Holding)
  | delAvatarById (id : UInt32)
  | delAvatarByGuid (guid : UInt64)
  | delItemById (id : UInt32)
  | delItemByGuid (guid : UInt64)
  | onLogin (connected : Bool)
  | saveInventoryAndAvatars

structure World where
  player : Player
  gate : DbGate

variable (e : Env) (starter : Starter)

def step (w : World) : Call → Except Fault World
  | .addAvatar a => return { w with player := Player.addAvatar w.player a }
  | .addItem i => return { w with player := Player.addItem w.player i }
  | .addConstAvatar a => return { w with player := Player.addConstAvatar w.player a }
  | .addConstItem i => return { w with player := Player.addConstItem w.player i }
  -- the calls that return a pointer read the end of the list
  | .addThroughEnd => .error .pointer
  | .setAvatar guid a => return { w with player := Player.setAvatar w.player guid a }
  | .setItem guid i => return { w with player := Player.setItem w.player guid i }
  | .setConstAvatar guid a => return { w with player := Player.setConstAvatar w.player guid a }
  | .setConstItem guid i => return { w with player := Player.setConstItem w.player guid i }
  | .delAvatarById id => return { w with player := Player.delAvatar w.player (·.id = id) }
  | .delAvatarByGuid guid => return { w with player := Player.delAvatar w.player (·.guid = guid) }
  | .delItemById id => return { w with player := Player.delItem w.player (·.id = id) }
  | .delItemByGuid guid => return { w with player := Player.delItem w.player (·.guid = guid) }
  | .onLogin connected => do
    return { w with player := ← Player.onLogin e starter connected w.player }
  | .saveInventoryAndAvatars => return { w with gate := saveInventoryAndAvatars e w.gate w.player }

/-! ## What is held and what is stored -/

def avatarGuids (p : Player) : List UInt64 := p.avatars.map (·.guid)

def itemGuids (p : Player) : List UInt64 := p.inventory.map (·.guid)

/-- Every entry is stored under its own guid. -/
def EntriesKeyed (g : DbGate) : Prop :=
  ∀ guid ent, getInventoryEntry e.entry g guid = some ent → ent.guid = guid ∧ ent ≠ .empty

/-- A player with the same id and counter and empty lists, loaded from the store that was
saved to, holds the guids of the player that was saved. -/
def RoundTrips (w : World) : Prop :=
  ∀ q : Player, q.uid = w.player.uid → q.nextGuid = w.player.nextGuid → q.avatars = [] →
    q.inventory = [] → ∀ guid,
    let loaded := loadInventoryAndAvatars e (saveInventoryAndAvatars e w.gate w.player) q
    (guid ∈ avatarGuids loaded ↔ guid ∈ avatarGuids w.player) ∧
    (guid ∈ itemGuids loaded ↔ guid ∈ itemGuids w.player)

/-- A guid that loading asks for. -/
def AskedFor (p : Player) (guid : UInt64) : Prop :=
  highHalf guid = p.uid ∧ (lowHalf guid).toNat < p.nextGuid.toNat

/-- Nothing held is out of reach, nothing is held as both, and nothing within reach is
stored that is not held. -/
structure Recoverable (w : World) : Prop where
  askedFor : ∀ guid, guid ∈ avatarGuids w.player ∨ guid ∈ itemGuids w.player → AskedFor w.player guid
  apart : ∀ guid, guid ∈ avatarGuids w.player → guid ∉ itemGuids w.player
  noneLeft : ∀ guid, AskedFor w.player guid → (getInventoryEntry e.entry w.gate guid).isSome →
    guid ∈ avatarGuids w.player ∨ guid ∈ itemGuids w.player

/-! ## Saving -/

/-- The last one under a guid. -/
def lastUnder (guid : UInt64) (hs : List Holding) : Option Holding :=
  hs.reverse.find? (·.guid = guid)

theorem lastUnder_guid {guid : UInt64} {hs : List Holding} {h : Holding}
    (hlast : lastUnder guid hs = some h) : h.guid = guid := by
  have hguid := List.find?_some hlast
  simpa using hguid

theorem lastUnder_isSome (guid : UInt64) (hs : List Holding) :
    (lastUnder guid hs).isSome ↔ guid ∈ hs.map (·.guid) := by
  simp [lastUnder, List.find?_isSome]

theorem getInventoryEntry_foldl {put : Holding → InventoryEntry} (hput : ∀ h, (put h).guid = h.guid)
    (hne : ∀ h, put h ≠ .empty) (g : DbGate) (hs : List Holding) (guid : UInt64) :
    getInventoryEntry e.entry (hs.foldl (fun g h => setInventoryEntry e.entry g (put h)) g) guid =
      ((lastUnder guid hs).map put).or (getInventoryEntry e.entry g guid) := by
  induction hs generalizing g with
  | nil => rfl
  | cons h hs ih =>
    rw [List.foldl_cons, ih, getInventoryEntry_set _ _ (hne h), hput]
    unfold lastUnder
    rw [List.reverse_cons, List.find?_append]
    cases hs.reverse.find? (·.guid = guid) with
    | some h' => rfl
    | none =>
      by_cases heq : guid = h.guid
      · simp [heq]
      · simp [heq, Ne.symm heq]

/-- Items are saved last. -/
theorem getInventoryEntry_saved (g : DbGate) (p : Player) (guid : UInt64) :
    getInventoryEntry e.entry (saveInventoryAndAvatars e g p) guid =
      ((lastUnder guid p.inventory).map .item).or
        (((lastUnder guid p.avatars).map .avatar).or (getInventoryEntry e.entry g guid)) := by
  show getInventoryEntry e.entry (p.inventory.foldl
    (fun g h => setInventoryEntry e.entry g (.item h)) (p.avatars.foldl
      (fun g h => setInventoryEntry e.entry g (.avatar h)) g)) guid = _
  rw [getInventoryEntry_foldl e (fun _ => rfl) (by simp),
    getInventoryEntry_foldl e (fun _ => rfl) (by simp)]

theorem entriesKeyed_saved {g : DbGate} (hg : EntriesKeyed e g) (p : Player) :
    EntriesKeyed e (saveInventoryAndAvatars e g p) := by
  intro guid ent h
  rw [getInventoryEntry_saved] at h
  rcases Option.or_eq_some_iff.mp h with h | ⟨-, h⟩
  · obtain ⟨i, hi, rfl⟩ := Option.map_eq_some_iff.mp h
    exact ⟨lastUnder_guid hi, by simp⟩
  · rcases Option.or_eq_some_iff.mp h with h | ⟨-, h⟩
    · obtain ⟨a, ha, rfl⟩ := Option.map_eq_some_iff.mp h
      exact ⟨lastUnder_guid ha, by simp⟩
    · exact hg guid ent h

theorem step_entriesKeyed {w w' : World} {call : Call} (hw : EntriesKeyed e w.gate)
    (h : step e starter w call = .ok w') : EntriesKeyed e w'.gate := by
  cases call with
  | addThroughEnd => cases h
  | onLogin connected =>
    obtain ⟨p, -, h⟩ := bind_eq_ok.mp h
    cases h
    exact hw
  | saveInventoryAndAvatars =>
    cases h
    exact entriesKeyed_saved e hw w.player
  | _ =>
    cases h
    exact hw

/-! ## Loading -/

theorem askedFor_iff (p : Player) (guid : UInt64) :
    AskedFor p guid ↔ ∃ i < p.nextGuid.toNat, askedGuid p.uid i = guid := by
  have hnext := p.nextGuid.toNat_lt
  constructor
  · intro ⟨hhigh, hlow⟩
    refine ⟨(lowHalf guid).toNat, hlow, ?_⟩
    apply UInt64.toNat_inj.mp
    rw [askedGuid_toNat _ (lowHalf guid).toNat_lt, ← hhigh, highHalf_toNat, lowHalf_toNat]
    omega
  · rintro ⟨i, hi, rfl⟩
    have huid := p.uid.toNat_lt
    have hguid := askedGuid_toNat p.uid (i := i) (by omega)
    constructor
    · apply UInt32.toNat_inj.mp
      rw [highHalf_toNat, hguid]
      omega
    · rw [lowHalf_toNat, hguid]
      omega

theorem loadEntry_eq (g : DbGate) (q : Player) (i : Nat) :
    let ent := getInventoryEntry e.entry g (askedGuid q.uid i)
    (loadEntry e g q i).uid = q.uid ∧
      (loadEntry e g q i).avatars = q.avatars ++ (avatarOf ent).toList ∧
      (loadEntry e g q i).inventory = q.inventory ++ (itemOf ent).toList := by
  unfold loadEntry
  dsimp only
  cases getInventoryEntry e.entry g (askedGuid q.uid i) with
  | none => simp [avatarOf, itemOf]
  | some ent => cases ent <;> simp [avatarOf, itemOf, Player.addConstAvatar, Player.addConstItem]

/-- Loading adds the entries under the guids it asks for. -/
theorem mem_loaded (g : DbGate) (q : Player) (is : List Nat) (h : Holding) :
    (h ∈ (is.foldl (loadEntry e g) q).avatars ↔ h ∈ q.avatars ∨
      ∃ i ∈ is, getInventoryEntry e.entry g (askedGuid q.uid i) = some (.avatar h)) ∧
    (h ∈ (is.foldl (loadEntry e g) q).inventory ↔ h ∈ q.inventory ∨
      ∃ i ∈ is, getInventoryEntry e.entry g (askedGuid q.uid i) = some (.item h)) := by
  induction is generalizing q with
  | nil => simp
  | cons i is ih =>
    obtain ⟨huid, havatars, hitems⟩ := loadEntry_eq e g q i
    obtain ⟨ha, hi⟩ := ih (loadEntry e g q i)
    rw [List.foldl_cons, ha, hi, huid, havatars, hitems]
    have hof : ∀ ent : Option InventoryEntry, (h ∈ (avatarOf ent).toList ↔ ent = some (.avatar h)) ∧
        (h ∈ (itemOf ent).toList ↔ ent = some (.item h)) := by
      intro ent
      cases ent with
      | none => simp [avatarOf, itemOf]
      | some ent => cases ent <;> simp [avatarOf, itemOf, eq_comm]
    simp only [List.mem_append, (hof _).1, (hof _).2, List.mem_cons, exists_eq_or_imp, or_assoc,
      and_self]

/-! ## Both -/

theorem saved_avatar_iff (g : DbGate) (p : Player) (guid : UInt64) :
    (∃ a, getInventoryEntry e.entry (saveInventoryAndAvatars e g p) guid = some (.avatar a)) ↔
      guid ∉ itemGuids p ∧
        (guid ∈ avatarGuids p ∨ ∃ a, getInventoryEntry e.entry g guid = some (.avatar a)) := by
  rw [getInventoryEntry_saved, itemGuids, avatarGuids, ← lastUnder_isSome, ← lastUnder_isSome]
  cases lastUnder guid p.inventory with
  | some i => simp
  | none =>
    cases lastUnder guid p.avatars with
    | some a => simp
    | none => simp

theorem saved_item_iff (g : DbGate) (p : Player) (guid : UInt64) :
    (∃ i, getInventoryEntry e.entry (saveInventoryAndAvatars e g p) guid = some (.item i)) ↔
      guid ∈ itemGuids p ∨
        guid ∉ avatarGuids p ∧ ∃ i, getInventoryEntry e.entry g guid = some (.item i) := by
  rw [getInventoryEntry_saved, itemGuids, avatarGuids, ← lastUnder_isSome, ← lastUnder_isSome]
  cases lastUnder guid p.inventory with
  | some i => simp
  | none =>
    cases lastUnder guid p.avatars with
    | some a => simp
    | none => simp

/-- What comes back from an empty start is what is stored under the guids asked for. -/
theorem loaded_guids {g : DbGate} (hg : EntriesKeyed e g) {p q : Player} (huid : q.uid = p.uid)
    (hnext : q.nextGuid = p.nextGuid) (havatars : q.avatars = []) (hitems : q.inventory = [])
    (guid : UInt64) :
    (guid ∈ avatarGuids (loadInventoryAndAvatars e g q) ↔
      AskedFor p guid ∧ ∃ a, getInventoryEntry e.entry g guid = some (.avatar a)) ∧
    (guid ∈ itemGuids (loadInventoryAndAvatars e g q) ↔
      AskedFor p guid ∧ ∃ i, getInventoryEntry e.entry g guid = some (.item i)) := by
  have hmem := mem_loaded e g q (List.range q.nextGuid.toNat)
  simp only [havatars, hitems, List.not_mem_nil, false_or, List.mem_range, huid, hnext] at hmem
  rw [askedFor_iff, avatarGuids, itemGuids, List.mem_map, List.mem_map, loadInventoryAndAvatars, hnext]
  constructor
  · constructor
    · rintro ⟨a, ha, rfl⟩
      obtain ⟨i, hi, hent⟩ := (hmem a).1.mp ha
      have hguid := (hg _ _ hent).1
      have hguid : a.guid = askedGuid p.uid i := hguid
      exact ⟨⟨i, hi, hguid.symm⟩, a, by rw [hguid, hent]⟩
    · rintro ⟨⟨i, hi, rfl⟩, a, hent⟩
      exact ⟨a, (hmem a).1.mpr ⟨i, hi, hent⟩, (hg _ _ hent).1⟩
  · constructor
    · rintro ⟨a, ha, rfl⟩
      obtain ⟨i, hi, hent⟩ := (hmem a).2.mp ha
      have hguid := (hg _ _ hent).1
      have hguid : a.guid = askedGuid p.uid i := hguid
      exact ⟨⟨i, hi, hguid.symm⟩, a, by rw [hguid, hent]⟩
    · rintro ⟨⟨i, hi, rfl⟩, a, hent⟩
      exact ⟨a, (hmem a).2.mpr ⟨i, hi, hent⟩, (hg _ _ hent).1⟩

theorem roundTrips_iff {w : World} (hw : EntriesKeyed e w.gate) : RoundTrips e w ↔ Recoverable e w := by
  have hloaded : ∀ q : Player, q.uid = w.player.uid → q.nextGuid = w.player.nextGuid → q.avatars = [] →
      q.inventory = [] → ∀ guid, _ := fun q huid hnext ha hi guid =>
    loaded_guids e (entriesKeyed_saved e hw w.player) huid hnext ha hi guid
  simp only [saved_avatar_iff, saved_item_iff] at hloaded
  have hkind : ∀ guid, (getInventoryEntry e.entry w.gate guid).isSome ↔
      (∃ a, getInventoryEntry e.entry w.gate guid = some (.avatar a)) ∨
        ∃ i, getInventoryEntry e.entry w.gate guid = some (.item i) := by
    intro guid
    cases hent : getInventoryEntry e.entry w.gate guid with
    | none => simp
    | some ent =>
      have hne := (hw guid ent hent).2
      cases ent with
      | empty => exact absurd rfl hne
      | avatar a => simp
      | item i => simp
  constructor
  · intro h
    have hback : ∀ guid, _ := h { w.player with avatars := [], inventory := [] } rfl rfl rfl rfl
    have hone : ∀ guid, _ := hloaded { w.player with avatars := [], inventory := [] } rfl rfl rfl rfl
    constructor
    · rintro guid (hmem | hmem)
      · exact ((hone guid).1.mp ((hback guid).1.mpr hmem)).1
      · exact ((hone guid).2.mp ((hback guid).2.mpr hmem)).1
    · intro guid hmem
      exact ((hone guid).1.mp ((hback guid).1.mpr hmem)).2.1
    · intro guid hasked hstored
      by_cases ha : guid ∈ avatarGuids w.player
      · exact .inl ha
      by_cases hi : guid ∈ itemGuids w.player
      · exact .inr hi
      rcases (hkind guid).mp hstored with hent | hent
      · exact .inl ((hback guid).1.mp ((hone guid).1.mpr ⟨hasked, hi, .inr hent⟩))
      · exact .inr ((hback guid).2.mp ((hone guid).2.mpr ⟨hasked, .inr ⟨ha, hent⟩⟩))
  · intro h q huid hnext hqa hqi guid
    obtain ⟨ha, hi⟩ := hloaded q huid hnext hqa hqi guid
    refine ⟨ha.trans ⟨?_, fun hmem => ?_⟩, hi.trans ⟨?_, fun hmem => ?_⟩⟩
    · rintro ⟨hasked, hnot, hmem | hent⟩
      · exact hmem
      · exact (h.noneLeft guid hasked ((hkind guid).mpr (.inl hent))).resolve_right hnot
    · exact ⟨h.askedFor guid (.inl hmem), h.apart guid hmem, .inl hmem⟩
    · rintro ⟨hasked, hmem | ⟨hnot, hent⟩⟩
      · exact hmem
      · exact (h.noneLeft guid hasked ((hkind guid).mpr (.inr hent))).resolve_left hnot
    · exact ⟨h.askedFor guid (.inr hmem), .inl hmem⟩

/-- After any history over entries under their own guids. -/
theorem inventory_round_trip_iff {w w' : World} {calls : List Call} (hw : EntriesKeyed e w.gate)
    (h : run (step e starter) w calls = .ok w') : RoundTrips e w' ↔ Recoverable e w' :=
  roundTrips_iff e (run_invariant (fun w => EntriesKeyed e w.gate)
    (fun _ _ _ hkeyed hstep => step_entriesKeyed e starter hkeyed hstep) hw h)

/-- A new player with the id 1. -/
def newcomer : World where
  player := Player.fresh packedEnv 1
  gate := { db := OrderedStore.empty, nextIds := default }

theorem newcomer_keyed : EntriesKeyed packedEnv newcomer.gate := by
  intro guid ent h
  cases h

theorem newcomer_round_trip : ∃ w', run (step packedEnv { weapon := [], avatar := some [] }) newcomer
    [.addAvatar { id := 10000029, guid := 0, fields := [] }, .saveInventoryAndAvatars] = .ok w' ∧
      (RoundTrips packedEnv w' ↔ Recoverable packedEnv w') := by
  obtain ⟨w', hw', -⟩ : ∃ w', run (step packedEnv { weapon := [], avatar := some [] }) newcomer
      [.addAvatar { id := 10000029, guid := 0, fields := [] }, .saveInventoryAndAvatars] = .ok w' ∧
        w'.player.nextGuid = 2 := map_eq_ok.mp (by decide +kernel)
  exact ⟨w', hw', inventory_round_trip_iff packedEnv _ newcomer_keyed hw'⟩

/-- The avatar and the weapon of a login do not come back. -/
theorem login_lost : ∃ w', run (step packedEnv { weapon := [], avatar := some [] }) newcomer
    [.onLogin true] = .ok w' ∧ ¬ RoundTrips packedEnv w' := by
  obtain ⟨w', hw', hheld⟩ : ∃ w', run (step packedEnv { weapon := [], avatar := some [] }) newcomer
      [.onLogin true] = .ok w' ∧ (avatarGuids w'.player, w'.player.nextGuid) = ([starterGuid 1], 1) :=
    map_eq_ok.mp (by decide +kernel)
  obtain ⟨havatars, hnext⟩ := Prod.mk.inj hheld
  have hkeyed : EntriesKeyed packedEnv w'.gate :=
    run_invariant (fun w => EntriesKeyed packedEnv w.gate)
      (fun _ _ _ hkeyed hstep => step_entriesKeyed packedEnv _ hkeyed hstep) newcomer_keyed hw'
  refine ⟨w', hw', fun h => ?_⟩
  have hasked := ((roundTrips_iff packedEnv hkeyed).mp h).askedFor (starterGuid 1)
    (.inl (by rw [havatars]; exact List.mem_singleton_self _))
  have hlow : (lowHalf (starterGuid 1)).toNat < 1 := by
    have hlow := hasked.2
    rwa [hnext] at hlow
  exact absurd hlow (by decide)

end Yagips.Game.InventoryReload
