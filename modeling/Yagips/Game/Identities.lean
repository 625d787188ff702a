import Yagips.Game.KeySpace

/-!
# Identities

A counter holds the id handed out last, and the next id is the first free one from there
on. Deleting an account leaves its players in the store, and deleting a player its avatars
and items. So a new account or player is without a past where the id handed out last is
still in use or has left nothing, as long as the ids have not run out.
-/
namespace Yagips.Game.Identities

open Yagips.Lib
open Yagips.Lib.Run
open Yagips.Store.Accounts
open Yagips.Store.Gate
open Yagips.Store.Inventory
open Yagips.Game.Players
open Yagips.Game.PlayerStore
open Yagips.Game.KeySpace

inductive Op where
  | createAccount (username : Option Bytes) (stale : Stale)
  | deleteAccount (account : Account)
  | newPlayer
  | saveToDb (player : Player)
  | deletePlayer (player : Player)
  | saveAvatar (a : Holding)
  | saveItem (i : Holding)
  | restart

variable (e : Env) (sessions : PlayerStore.Sessions)

def step (g : DbGate) : Op → Except Fault DbGate
  | .createAccount username stale => do (← g.createAccount e.codecs username stale).gate
  | .deleteAccount account => return g.deleteAccount account
  | .newPlayer => do return (← newPlayer e g sessions).2
  | .saveToDb player => saveToDb e g sessions player
  | .deletePlayer player => return deletePlayer g player
  | .saveAvatar a => return saveAvatar e.entry g a
  | .saveItem i => return saveItem e.entry g i
  -- the destructor saves the counters
  | .restart => return opened e.codecs (g.save e.codecs).db

/-! ## What is left of an identity -/

/-- The id in the high half of a guid. -/
def guidUid (guid : UInt64) : UInt32 := (guid >>> 32).toUInt32

/-- A player record names an account. -/
def Named (g : DbGate) (aid : UInt32) : Prop :=
  ∃ key val i, g.db.get key = some val ∧ key.take 4 = playerType ∧ e.player.parse val = some i ∧ i.aid = aid

/-- An inventory entry is stored under a player's id. -/
def Owned (g : DbGate) (uid : UInt32) : Prop :=
  ∃ guid, guidUid guid = uid ∧ g.getLdbObject (inventoryKey guid) ≠ []

/-- A new account has no player, a new player no avatars and items. -/
def InheritsNothing (g : DbGate) : Op → Prop
  | .createAccount username stale => g.accountNamed e.codecs username = .ok none →
    ∀ a g', g.createAccount e.codecs username stale = .ok (.account a g') →
      getPlayerByAccount e g' sessions a = .ok none
  | .newPlayer => ∀ p g', newPlayer e g sessions = .ok (p, g') →
    ∀ guid, guidUid guid = p.uid → getInventoryEntry e.entry g' guid = none
  | _ => True

/-! ## Handing out ids -/

section HandingOut

/-! The records of one kind, by their ids, and the counter of that kind. -/

variable (g : DbGate) (recordOf : UInt32 → RecordId) (last : UInt32)

def InUse (id : UInt32) : Prop := g.getLdbObject (recordOf id).key ≠ []

/-- An id the counter has come to or that is in use. -/
def Known (id : UInt32) : Prop := id ≤ last ∨ InUse g recordOf id

def firstTried : UInt32 := if last = 0 then 1 else last

/-- No id that the search comes to again has left anything: not the one handed out last,
and none of the free ones where there is no free one ahead. -/
structure NothingLeft (left : UInt32 → Prop) : Prop where
  again : ¬ InUse g recordOf (firstTried last) → ¬ left (firstTried last)
  around : (∀ id, firstTried last ≤ id → InUse g recordOf id) →
    ∀ id, ¬ InUse g recordOf id → ¬ left id

variable {g last}

theorem le_firstTried : last ≤ firstTried last := by
  unfold firstTried
  split
  case isTrue h =>
    rw [h]
    decide
  case isFalse => exact UInt32.le_refl _

theorem search_found {left : UInt32 → Prop} {id : UInt32}
    (hfound : g.freeId (fun id => (recordOf id).key) (2 ^ 32) (firstTried last) = some id)
    (hleft : ∀ id, left id → Known g recordOf last id) (hnothing : NothingLeft g recordOf last left) :
    ¬ left id ∧ ∀ id', left id' → id' ≤ id ∨ InUse g recordOf id' := by
  have hfree : ¬ InUse g recordOf id := not_not.mpr (freeId_free hfound)
  obtain ⟨k, hk, rfl, hpassed⟩ := freeId_some hfound
  have hsum : (firstTried last + UInt32.ofNat k).toNat = ((firstTried last).toNat + k) % 2 ^ 32 := by
    rw [UInt32.toNat_add, UInt32.toNat_ofNat', Nat.mod_eq_of_lt hk]
  have hlast : last.toNat ≤ (firstTried last).toNat := le_firstTried
  by_cases hwrap : (firstTried last).toNat + k < 2 ^ 32
  · rw [Nat.mod_eq_of_lt hwrap] at hsum
    refine ⟨fun hl => ?_, fun id' hl => (hleft id' hl).imp_left fun hle => ?_⟩
    · cases k with
      | zero =>
        have hzero : firstTried last + UInt32.ofNat 0 = firstTried last := UInt32.add_zero _
        rw [hzero] at hl hfree
        exact hnothing.again hfree hl
      | succ k =>
        rcases hleft _ hl with hle | huse
        · have hle : (firstTried last + UInt32.ofNat (k + 1)).toNat ≤ last.toNat := hle
          omega
        · exact hfree huse
    · have hle : id'.toNat ≤ last.toNat := hle
      show id'.toNat ≤ (firstTried last + UInt32.ofNat k).toNat
      omega
  · -- the search has passed every id ahead of it
    have hahead : ∀ id, firstTried last ≤ id → InUse g recordOf id := by
      intro id hle
      have hle : (firstTried last).toNat ≤ id.toNat := hle
      have hid := id.toNat_lt
      have hj := hpassed (id.toNat - (firstTried last).toNat) (by omega)
      have heq : firstTried last + UInt32.ofNat (id.toNat - (firstTried last).toNat) = id := by
        apply UInt32.toNat_inj.mp
        rw [UInt32.toNat_add, UInt32.toNat_ofNat', Nat.mod_eq_of_lt (by omega), Nat.mod_eq_of_lt (by omega)]
        omega
      rwa [heq] at hj
    have haround := hnothing.around hahead
    exact ⟨haround _ hfree, fun id' hl => .inr (not_not.mp fun hnot => haround id' hnot hl)⟩

end HandingOut

/-! ## Runs -/

/-- The condition on a step. -/
def Safe (g : DbGate) : Op → Prop
  | .createAccount username _ => g.accountNamed e.codecs username = .ok none →
    NothingLeft g .account g.nextIds.nextAid (Named e g)
  | .deleteAccount account => account.aid ≤ g.nextIds.nextAid ∨ ¬ Named e g account.aid
  | .newPlayer => NothingLeft g .player g.nextIds.nextUid (Owned g)
  | .saveToDb player =>
    (∀ a, player.account = some a → Known g .account g.nextIds.nextAid a.aid) ∧
    ∀ h ∈ player.avatars ++ player.inventory,
      guidUid h.guid = player.uid ∨ Known g .player g.nextIds.nextUid (guidUid h.guid)
  | .deletePlayer player => player.uid ≤ g.nextIds.nextUid ∨ ¬ Owned g player.uid
  | .saveAvatar h | .saveItem h => Known g .player g.nextIds.nextUid (guidUid h.guid)
  | .restart => True

/-- Only ids that were handed out or are in use have left anything. -/
structure Settled (g : DbGate) : Prop where
  named : ∀ aid, Named e g aid → Known g .account g.nextIds.nextAid aid
  owned : ∀ uid, Owned g uid → Known g .player g.nextIds.nextUid uid

/-! ### What a write leaves -/

theorem named_set {g : DbGate} (id : RecordId) {val : Bytes} {aid : UInt32}
    (h : Named e (g.setLdbObject id.key val) aid) :
    Named e g aid ∨ ∃ uid i, id = .player uid ∧ e.player.parse val = some i ∧ i.aid = aid := by
  obtain ⟨key, val', i, hget, htype, hparse, haid⟩ := h
  unfold DbGate.setLdbObject at hget
  by_cases hkey : key = id.key
  · subst hkey
    rw [OrderedStore.get_put_self] at hget
    cases hget
    obtain ⟨uid, huid⟩ := (kind_player_iff id).mp ((key_of_kind id .player).mp htype)
    exact .inr ⟨uid, i, huid, hparse, haid⟩
  · rw [OrderedStore.get_put_ne _ hkey] at hget
    exact .inl ⟨key, val', i, hget, htype, hparse, haid⟩

theorem named_del {g : DbGate} {key : Bytes} {aid : UInt32} (h : Named e (g.delLdbObject key) aid) :
    Named e g aid := by
  obtain ⟨key', val, i, hget, hi⟩ := h
  unfold DbGate.delLdbObject at hget
  by_cases hkey : key' = key
  · rw [hkey, OrderedStore.get_erase_self] at hget
    cases hget
  · rw [OrderedStore.get_erase_ne _ hkey] at hget
    exact ⟨key', val, i, hget, hi⟩

theorem owned_set {g : DbGate} (id : RecordId) {val : Bytes} {uid : UInt32}
    (h : Owned (g.setLdbObject id.key val) uid) :
    Owned g uid ∨ ∃ guid, id = .inventory guid ∧ guidUid guid = uid := by
  obtain ⟨guid, huid, hne⟩ := h
  have hget := getLdbObject_set g id (.inventory guid) val
  by_cases hid : id = .inventory guid
  · exact .inr ⟨guid, hid, huid⟩
  · rw [if_neg (Ne.symm hid)] at hget
    exact .inl ⟨guid, huid, fun hnil => hne (hget.trans hnil)⟩

theorem owned_del {g : DbGate} (id : RecordId) {uid : UInt32}
    (h : Owned (g.delLdbObject id.key) uid) : Owned g uid := by
  obtain ⟨guid, huid, hne⟩ := h
  have hget := getLdbObject_del g id (.inventory guid)
  refine ⟨guid, huid, fun hnil => hne (hget.trans ?_)⟩
  split
  · rfl
  · exact hnil

/-- A write takes no id out of use, unless it empties its record. -/
theorem inUse_set {g : DbGate} {written : RecordId} {val : Bytes}
    (hval : val = [] → g.getLdbObject written.key = []) {recordOf : UInt32 → RecordId} {id : UInt32}
    (h : InUse g recordOf id) : InUse (g.setLdbObject written.key val) recordOf id := by
  intro hnil
  rw [getLdbObject_set] at hnil
  split at hnil
  case isTrue hid => exact h (hid ▸ hval hnil)
  case isFalse => exact h hnil

theorem known_set {g : DbGate} (written : RecordId) {val : Bytes}
    (hval : val = [] → g.getLdbObject written.key = []) {recordOf : UInt32 → RecordId}
    {last id : UInt32} (h : Known g recordOf last id) :
    Known (g.setLdbObject written.key val) recordOf last id := h.imp_right (inUse_set hval)

theorem known_del {g : DbGate} (deleted : RecordId) {recordOf : UInt32 → RecordId}
    {last id : UInt32} (hne : recordOf id ≠ deleted) (h : Known g recordOf last id) :
    Known (g.delLdbObject deleted.key) recordOf last id := by
  refine h.imp_right fun huse hnil => huse ?_
  rwa [getLdbObject_del, if_neg hne] at hnil

/-- The counters' own record is no account, no player and no entry. -/
theorem settled_save {g : DbGate} (hg : Settled e g) : Settled e (g.save e.codecs) := by
  have hused : ∀ (recordOf : UInt32 → RecordId) id, recordOf id ≠ .nextIds → ∀ last,
      Known g recordOf last id → Known (g.save e.codecs) recordOf last id := by
    intro recordOf id hne last h
    refine h.imp_right fun huse hnil => huse ?_
    have hget := getLdbObject_set g .nextIds (recordOf id) (e.codecs.nextIds.serialize g.nextIds)
    rw [if_neg hne] at hget
    exact hget.symm.trans hnil
  constructor
  · intro aid h
    rcases named_set e .nextIds h with h | ⟨_, _, hid, _⟩
    · exact hused .account aid (by simp) _ (hg.named aid h)
    · cases hid
  · intro uid h
    rcases owned_set .nextIds h with h | ⟨_, hid, _⟩
    · exact hused .player uid (by simp) _ (hg.owned uid h)
    · cases hid

theorem opened_save (g : DbGate) : opened e.codecs (g.save e.codecs).db = g.save e.codecs := by
  have hget : DbGate.getLdbObject { db := (g.save e.codecs).db, nextIds := default } nextIdKey =
      e.codecs.nextIds.serialize g.nextIds := by
    unfold DbGate.getLdbObject DbGate.save DbGate.setLdbObject
    rw [OrderedStore.get_put_self, Option.getD_some]
  unfold opened DbGate.load
  dsimp only
  rw [hget]
  split
  case isTrue hnil =>
    rw [← (e.codecs.nextIds.serialize_nil _).mp hnil]
    rfl
  case isFalse =>
    rw [e.codecs.nextIds.parse_serialize]
    rfl

/-! ### Avatars and items -/

/-- One store is the other with entries put under some guids. -/
structure EntriesPut (g g' : DbGate) (guids : List UInt64) : Prop where
  nextIds : g'.nextIds = g.nextIds
  named : ∀ aid, Named e g' aid → Named e g aid
  owned : ∀ uid, Owned g' uid → Owned g uid ∨ ∃ guid ∈ guids, guidUid guid = uid
  others : ∀ id : RecordId, id.kind ≠ .inventory → g'.getLdbObject id.key = g.getLdbObject id.key

theorem entriesPut_one (g : DbGate) (ent : InventoryEntry) :
    EntriesPut e g (setInventoryEntry e.entry g ent) [ent.guid] := by
  constructor
  · rfl
  · intro aid h
    rcases named_set e (.inventory ent.guid) h with h | ⟨_, _, hid, _⟩
    · exact h
    · cases hid
  · intro uid h
    rcases owned_set (.inventory ent.guid) h with h | ⟨guid, hid, huid⟩
    · exact .inl h
    · cases hid
      exact .inr ⟨ent.guid, List.mem_singleton_self _, huid⟩
  · intro id hkind
    have hget := getLdbObject_set g (.inventory ent.guid) id (e.entry.serialize ent)
    rwa [if_neg fun hid => hkind (by rw [hid]; rfl)] at hget

theorem EntriesPut.trans {g g' g'' : DbGate} {guids guids' : List UInt64}
    (h : EntriesPut e g g' guids) (h' : EntriesPut e g' g'' guids') :
    EntriesPut e g g'' (guids ++ guids') := by
  constructor
  · rw [h'.nextIds, h.nextIds]
  · exact fun aid hnamed => h.named aid (h'.named aid hnamed)
  · intro uid howned
    rcases h'.owned uid howned with howned | ⟨guid, hmem, huid⟩
    · refine (h.owned uid howned).imp_right ?_
      intro ⟨guid, hmem, huid⟩
      exact ⟨guid, List.mem_append_left _ hmem, huid⟩
    · exact .inr ⟨guid, List.mem_append_right _ hmem, huid⟩
  · intro id hkind
    rw [h'.others id hkind, h.others id hkind]

theorem entriesPut_foldl (put : Holding → InventoryEntry) (hput : ∀ h, (put h).guid = h.guid)
    (g : DbGate) (hs : List Holding) :
    EntriesPut e g (hs.foldl (fun g h => setInventoryEntry e.entry g (put h)) g) (hs.map (·.guid)) := by
  induction hs generalizing g with
  | nil => exact ⟨rfl, fun _ h => h, fun _ h => .inl h, fun _ _ => rfl⟩
  | cons h hs ih =>
    have hone := entriesPut_one e g (put h)
    rw [hput] at hone
    exact hone.trans e (ih _)

theorem saveInventory_entries (g : DbGate) (p : Player) : EntriesPut e g (saveInventoryAndAvatars e g p)
    (p.avatars.map (·.guid) ++ p.inventory.map (·.guid)) :=
  (entriesPut_foldl e .avatar (fun _ => rfl) g p.avatars).trans e
    (entriesPut_foldl e .item (fun _ => rfl) _ p.inventory)

theorem EntriesPut.known {g g' : DbGate} {guids : List UInt64} (h : EntriesPut e g g' guids)
    {recordOf : UInt32 → RecordId} {last id : UInt32} (hkind : (recordOf id).kind ≠ .inventory)
    (hknown : Known g recordOf last id) : Known g' recordOf last id := by
  refine hknown.imp_right fun huse hnil => huse ?_
  rwa [h.others _ hkind] at hnil

/-- Entries may be put under ids that are known. -/
theorem EntriesPut.settled {g g' : DbGate} {guids : List UInt64} (h : EntriesPut e g g' guids)
    (hg : Settled e g)
    (hguids : ∀ guid ∈ guids, Known g .player g.nextIds.nextUid (guidUid guid)) : Settled e g' := by
  constructor
  · intro aid hnamed
    rw [h.nextIds]
    exact h.known e (by simp [RecordId.kind]) (hg.named aid (h.named aid hnamed))
  · intro uid howned
    rw [h.nextIds]
    rcases h.owned uid howned with howned | ⟨guid, hmem, rfl⟩
    · exact h.known e (by simp [RecordId.kind]) (hg.owned uid howned)
    · exact h.known e (by simp [RecordId.kind]) (hguids guid hmem)

/-! ### Steps -/

theorem settled_newAccount {g : DbGate} (hg : Settled e g) {p : AccountInfo}
    (hfound : g.freeId accountKey (2 ^ 32) (firstTried g.nextIds.nextAid) = some p.id)
    (hnothing : NothingLeft g .account g.nextIds.nextAid (Named e g)) :
    ¬ Named e g p.id ∧ Settled e ((g.setNextAid p.id).setLdbObject (accountKey p.id)
      (e.codecs.account.serialize p)) := by
  have hfree : (g.setNextAid p.id).getLdbObject (RecordId.account p.id).key = [] := freeId_free hfound
  obtain ⟨hnot, hall⟩ := search_found .account hfound hg.named hnothing
  refine ⟨hnot, ?_, ?_⟩
  · intro aid h
    rcases named_set e (.account p.id) h with h | ⟨_, _, hid, _⟩
    · exact known_set (.account p.id) (fun _ => hfree) (hall aid h)
    · cases hid
  · intro uid h
    rcases owned_set (.account p.id) h with h | ⟨_, hid, _⟩
    · exact known_set (.account p.id) (fun _ => hfree) (hg.owned uid h)
    · cases hid

theorem settled_newPlayer {g : DbGate} (hg : Settled e g) {uid : UInt32} {i : PlayerInfo}
    {p : Player} (haccount : p.account = none) (hback : i.toReadBack = p.readBack)
    (hfound : g.freeId playerKey (2 ^ 32) (firstTried g.nextIds.nextUid) = some uid)
    (hnothing : NothingLeft g .player g.nextIds.nextUid (Owned g)) :
    ¬ Owned g uid ∧ Settled e ((setNextUid g uid).setLdbObject (playerKey uid) (e.player.serialize i)) := by
  have hval := playerInfo_serialized (e := e) hback
  obtain ⟨hnot, hall⟩ := search_found .player hfound hg.owned hnothing
  refine ⟨hnot, ?_, ?_⟩
  · intro aid h
    rcases named_set e (.player uid) h with h | ⟨_, i', _, hparse, haid⟩
    · exact known_set (.player uid) (absurd · hval) (hg.named aid h)
    · -- the record of a new player names no account
      rw [e.player.parse_serialize] at hparse
      cases hparse
      have hzero : i.aid = 0 := by
        have haid := congrArg ReadBack.aid hback
        rwa [Player.readBack, haccount] at haid
      rw [← haid, hzero]
      exact .inl UInt32.zero_le
  · intro uid' h
    rcases owned_set (.player uid) h with h | ⟨_, hid, _⟩
    · exact known_set (.player uid) (absurd · hval) (hall uid' h)
    · cases hid

theorem settled_saveToDb {g g' : DbGate} (hg : Settled e g) {p : Player}
    (hsafe : Safe e g (.saveToDb p)) (h : saveToDb e g sessions p = .ok g') : Settled e g' := by
  obtain ⟨haccount, hheld⟩ := hsafe
  have hput := saveInventory_entries e g p
  obtain ⟨i, hback, rfl⟩ := savePlayer_ok h
  have hval := playerInfo_serialized (e := e) hback
  have hknown : ∀ (recordOf : UInt32 → RecordId) id last, (recordOf id).kind ≠ .inventory →
      Known g recordOf last id → Known ((saveInventoryAndAvatars e g p).setLdbObject (playerKey p.uid)
        (e.player.serialize i)) recordOf last id := fun recordOf id last hkind hk =>
    known_set (.player p.uid) (absurd · hval) (hput.known e hkind hk)
  constructor
  · intro aid hnamed
    show Known _ _ (saveInventoryAndAvatars e g p).nextIds.nextAid aid
    rw [hput.nextIds]
    refine hknown .account aid _ (by simp [RecordId.kind]) ?_
    rcases named_set e (.player p.uid) hnamed with hnamed | ⟨_, i', _, hparse, haid⟩
    · exact hg.named aid (hput.named aid hnamed)
    · rw [e.player.parse_serialize] at hparse
      cases hparse
      have hread : i.aid = (p.account.map (·.aid)).getD 0 := congrArg ReadBack.aid hback
      rw [← haid, hread]
      cases ha : p.account with
      | none => exact .inl UInt32.zero_le
      | some a => exact haccount a ha
  · intro uid howned
    show Known _ _ (saveInventoryAndAvatars e g p).nextIds.nextUid uid
    rw [hput.nextIds]
    rcases owned_set (.player p.uid) howned with howned | ⟨_, hid, _⟩
    · rcases hput.owned uid howned with howned | ⟨guid, hmem, rfl⟩
      · exact hknown .player uid _ (by simp [RecordId.kind]) (hg.owned uid howned)
      · obtain ⟨held, hin, rfl⟩ : ∃ held ∈ p.avatars ++ p.inventory, held.guid = guid := by
          rw [← List.map_append] at hmem
          exact List.mem_map.mp hmem
        rcases hheld held hin with huid | hk
        · rw [huid]
          have hput := getLdbObject_set (saveInventoryAndAvatars e g p) (.player p.uid) (.player p.uid)
            (e.player.serialize i)
          rw [if_pos rfl] at hput
          exact .inr fun hnil => hval (hput.symm.trans hnil)
        · exact hknown .player _ _ (by simp [RecordId.kind]) hk
    · cases hid

theorem settled_deleteAccount {g : DbGate} (hg : Settled e g) {a : Account}
    (hsafe : Safe e g (.deleteAccount a)) : Settled e (g.deleteAccount a) := by
  constructor
  · intro aid h
    have hnamed := named_del e h
    by_cases haid : aid = a.aid
    · exact .inl (haid ▸ hsafe.resolve_right fun hnot => hnot (haid ▸ hnamed))
    · exact known_del (.account a.aid) (by simpa using haid) (hg.named aid hnamed)
  · intro uid h
    exact known_del (.account a.aid) (by simp)
      (hg.owned uid (owned_del (.account a.aid) h))

theorem settled_deletePlayer {g : DbGate} (hg : Settled e g) {p : Player}
    (hsafe : Safe e g (.deletePlayer p)) : Settled e (deletePlayer g p) := by
  constructor
  · intro aid h
    exact known_del (.player p.uid) (by simp) (hg.named aid (named_del e h))
  · intro uid h
    have howned := owned_del (.player p.uid) h
    by_cases huid : uid = p.uid
    · exact .inl (huid ▸ hsafe.resolve_right fun hnot => hnot (huid ▸ howned))
    · exact known_del (.player p.uid) (by simpa using huid) (hg.owned uid howned)

theorem settled_put {g : DbGate} (hg : Settled e g) {ent : InventoryEntry}
    (hknown : Known g .player g.nextIds.nextUid (guidUid ent.guid)) :
    Settled e (setInventoryEntry e.entry g ent) := by
  refine (entriesPut_one e g ent).settled e hg fun guid hmem => ?_
  rw [List.mem_singleton.mp hmem]
  exact hknown

theorem step_settled {g g' : DbGate} {op : Op} (hg : Settled e g) (hsafe : Safe e g op)
    (h : step e sessions g op = .ok g') : Settled e g' := by
  cases op with
  | createAccount username stale =>
    obtain ⟨created, hcreate, h⟩ := bind_eq_ok.mp h
    cases created with
    | hangs => cases h
    | account a g'' =>
      cases h
      rcases createAccount_ok _ hcreate with ⟨-, rfl⟩ | ⟨hnone, p, -, hfound, -, rfl⟩
      · exact hg
      · exact settled_save e (settled_newAccount e hg hfound (hsafe hnone)).2
  | newPlayer =>
    obtain ⟨⟨p, g''⟩, hnew, h⟩ := bind_eq_ok.mp h
    cases h
    obtain ⟨uid, i, hfound, rfl, hback, rfl⟩ := newPlayer_ok hnew
    exact settled_save e (settled_newPlayer e hg rfl hback hfound hsafe).2
  | saveToDb p => exact settled_saveToDb e sessions hg hsafe h
  | deleteAccount a =>
    cases h
    exact settled_deleteAccount e hg hsafe
  | deletePlayer p =>
    cases h
    exact settled_deletePlayer e hg hsafe
  | saveAvatar a =>
    cases h
    exact settled_put e hg hsafe
  | saveItem i =>
    cases h
    exact settled_put e hg hsafe
  | restart =>
    cases h
    rw [opened_save]
    exact settled_save e hg

/-! ### What a new identity finds -/

theorem no_player_of_not_named {g : DbGate} {a : Account} (h : ¬ Named e g a.aid) :
    getPlayerByAccount e g sessions a = .ok none := by
  have hnone : playerInfoByAid e g a.aid = none := by
    cases hi : playerInfoByAid e g a.aid with
    | none => rfl
    | some i =>
      obtain ⟨key, val, hmem, htype, hparse, haid⟩ := firstRecord_some hi
      exact absurd ⟨key, val, i, g.db.mem_entries_iff.mp hmem, htype, hparse, of_decide_eq_true haid⟩ h
  rw [getPlayerByAccount, getPlayerByAid, hnone]
  rfl

theorem no_entry_of_not_owned {g : DbGate} {guid : UInt64} (h : ¬ Owned g (guidUid guid)) :
    getInventoryEntry e.entry g guid = none := by
  have hnil : g.getLdbObject (inventoryKey guid) = [] := not_not.mp fun hne => h ⟨guid, rfl, hne⟩
  rw [getInventoryEntry, hnil]
  rfl

theorem inheritsNothing {g : DbGate} (hg : Settled e g) {op : Op} (hsafe : Safe e g op) :
    InheritsNothing e sessions g op := by
  cases op with
  | createAccount username stale =>
    intro hnone a g' hcreate
    rcases createAccount_ok _ hcreate with ⟨hsome, -⟩ | ⟨-, p, rfl, hfound, -, rfl⟩
    · rw [hnone] at hsome
      cases hsome
    · have hnot := (settled_newAccount e hg hfound (hsafe hnone)).1
      refine no_player_of_not_named e sessions fun h => hnot ?_
      rcases named_set e .nextIds h with h | ⟨_, _, hid, _⟩
      · rcases named_set e (.account p.id) h with h | ⟨_, _, hid, _⟩
        · exact h
        · cases hid
      · cases hid
  | newPlayer =>
    intro p g' hnew guid huid
    obtain ⟨uid, i, hfound, rfl, hback, rfl⟩ := newPlayer_ok hnew
    have hnot := (settled_newPlayer e hg rfl hback hfound hsafe).1
    refine no_entry_of_not_owned e fun h => hnot ?_
    rw [huid] at h
    rcases owned_set .nextIds h with h | ⟨_, hid, _⟩
    · rcases owned_set (.player uid) h with h | ⟨_, hid, _⟩
      · exact h
      · cases hid
    · cases hid
  | deleteAccount account => trivial
  | saveToDb player => trivial
  | deletePlayer player => trivial
  | saveAvatar a => trivial
  | saveItem i => trivial
  | restart => trivial

def start : DbGate where
  db := OrderedStore.empty
  nextIds := default

theorem settled_start : Settled e start := by
  constructor
  · rintro aid ⟨key, val, i, hget, -⟩
    cases hget
  · rintro uid ⟨guid, -, hne⟩
    exact absurd rfl hne

/-- In a run whose steps meet the condition every new identity is without a past. -/
theorem identities_inherit_nothing {ops : List Op}
    (hsafe : Along (step e sessions) (Safe e) start ops) :
    Along (step e sessions) (InheritsNothing e sessions) start ops :=
  along_of (fun _ _ _ hg hop hstep => step_settled e sessions hg hop hstep)
    (fun _ _ hg hop => inheritsNothing e sessions hg hop) (settled_start e) hsafe

/-! ## An account and its heir -/

def owner : Account := newAccount (some [0x61]) blank 1

theorem deleted_account_inherits_nothing : Along (step packedEnv []) (InheritsNothing packedEnv [])
    start [.createAccount (some [0x61]) blank, .deleteAccount owner] := by
  refine identities_inherit_nothing packedEnv [] ⟨fun _ => ?_, fun g hg => ⟨.inl ?_, fun _ _ => trivial⟩⟩
  · have hnone : ∀ aid, ¬ Named packedEnv start aid := by
      rintro aid ⟨key, val, i, hget, -⟩
      cases hget
    exact ⟨fun _ => hnone _, fun _ id _ => hnone id⟩
  · obtain ⟨g', hg', hnext⟩ : ∃ g, step packedEnv [] start (.createAccount (some [0x61]) blank) = .ok g ∧
        g.nextIds.nextAid = 1 := map_eq_ok.mp (by decide +kernel)
    cases hg.symm.trans hg'
    rw [hnext]
    decide

/-- The player of the owner, who deletes the account. -/
def orphaned : List Op :=
  [.createAccount (some [0x61]) blank, .newPlayer,
    .saveToDb { Player.fresh packedEnv 1 with account := some owner }, .deleteAccount owner]

/-- The next account has the id of the one deleted, and its player. -/
theorem heir_has_player : ¬ Along (step packedEnv []) (InheritsNothing packedEnv []) start
    (orphaned ++ [.createAccount none blank]) := by
  intro h
  obtain ⟨g, hg, hheir⟩ : ∃ g, run (step packedEnv []) start orphaned = .ok g ∧
      (g.freeId accountKey (2 ^ 32) (if g.nextIds.nextAid = 0 then 1 else g.nextIds.nextAid),
        (step packedEnv [] g (.createAccount none blank)).map fun g' =>
          (getPlayerByAid packedEnv g' [] 1).map Option.isSome) = (some 1, .ok (.ok true)) :=
    map_eq_ok.mp (by decide +kernel)
  obtain ⟨hfree, hstep⟩ := Prod.mk.inj hheir
  obtain ⟨g', hstep, hfound⟩ := map_eq_ok.mp hstep
  obtain ⟨created, hcreate, hgate⟩ := bind_eq_ok.mp hstep
  cases created with
  | hangs => cases hgate
  | account a g'' =>
    cases hgate
    have haid : a.aid = 1 := by
      rcases createAccount_ok _ hcreate with ⟨hnamed, -⟩ | ⟨-, p, rfl, hid, -⟩
      · cases hnamed
      · exact Option.some.inj (hid.symm.trans hfree)
    obtain ⟨p, hp, hsome⟩ := map_eq_ok.mp hfound
    have hnone := along_at h hg rfl a g' hcreate
    rw [getPlayerByAccount, haid, hp] at hnone
    cases hnone
    cases hsome

end Yagips.Game.Identities
