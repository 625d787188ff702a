import Yagips.Game.PlayerStore
import Yagips.Lib.Run

/-!
# The key space of the store

Accounts, players and inventory entries are stored under keys of their kind, the counters
under a text. No two records share a key, whatever their ids spell. So a write changes one
record, and a scan for a kind looks at the records of that kind.
-/
namespace Yagips.Game.KeySpace

open Yagips.Lib
open Yagips.Lib.Run
open Yagips.Store.Accounts
open Yagips.Store.Gate
open Yagips.Store.Inventory
open Yagips.Game.Players
open Yagips.Game.PlayerStore

/-- A record of the store, by its kind and id. -/
inductive RecordId where
  | account (aid : UInt32)
  | player (uid : UInt32)
  | inventory (guid : UInt64)
  | nextIds
  deriving DecidableEq

def RecordId.key : RecordId → Bytes
  | .account aid => accountKey aid
  | .player uid => playerKey uid
  | .inventory guid => inventoryKey guid
  | .nextIds => nextIdKey

/-- The writes and deletes of `dbGate`. -/
inductive Write where
  | saveAccount (account : Account)
  | savePlayer (player : Player)
  | setInventoryEntry (ent : InventoryEntry)
  | deleteAccount (account : Account)
  | deletePlayer (player : Player)
  | deleteByGuid (guid : UInt64)
  | save

def Write.target : Write → RecordId
  | .saveAccount account => .account account.aid
  | .savePlayer player => .player player.uid
  | .setInventoryEntry ent => .inventory ent.guid
  | .deleteAccount account => .account account.aid
  | .deletePlayer player => .player player.uid
  | .deleteByGuid guid => .inventory guid
  | .save => .nextIds

variable (e : Env) (sessions : PlayerStore.Sessions)

def apply (g : DbGate) : Write → Except Fault DbGate
  | .saveAccount account => g.saveAccount e.codecs account
  | .savePlayer player => savePlayer e g sessions player
  | .setInventoryEntry ent => return setInventoryEntry e.entry g ent
  | .deleteAccount account => return g.deleteAccount account
  | .deletePlayer player => return deletePlayer g player
  | .deleteByGuid guid => return deleteByGuid g guid
  | .save => return g.save e.codecs

/-! ## What the claims about one write and one scan are -/

/-- Every record but one reads as before. -/
structure Separated (g g' : DbGate) (target : RecordId) : Prop where
  accounts : ∀ aid, .account aid ≠ target →
    g'.getAccountByAid e.codecs aid = g.getAccountByAid e.codecs aid
  players : ∀ uid, .player uid ≠ target → playerInfoByUid e g' uid = playerInfoByUid e g uid
  entries : ∀ guid, .inventory guid ≠ target →
    getInventoryEntry e.entry g' guid = getInventoryEntry e.entry g guid
  nextIds : .nextIds ≠ target → g'.getLdbObject nextIdKey = g.getLdbObject nextIdKey

/-- The entries whose key starts with the four bytes of a kind. -/
def examined (g : DbGate) (kind : Bytes) : List (Bytes × Bytes) :=
  g.db.entries.filter fun entry => entry.1.take 4 = kind

def scannedAccounts (g : DbGate) : List AccountInfo :=
  (examined g accountType).filterMap fun entry => e.codecs.account.parse entry.2

def scannedPlayers (g : DbGate) : List PlayerInfo :=
  (examined g playerType).filterMap fun entry => e.player.parse entry.2

/-- The scans return the first match, in key order, among the records of their kind. -/
structure ScansOwnKind (g : DbGate) : Prop where
  usernames : ∀ name, g.getAccountByUsername e.codecs name =
    match (scannedAccounts e g).find? (fun i => i.username = cstr name) with
    | none => .ok none
    | some i => (Account.ofInfo i).map some
  binderTokens : ∀ token, g.getAccountByBinderToken e.codecs token =
    match (scannedAccounts e g).find? (fun i => i.bindToken = cstr token) with
    | none => .ok none
    | some i => (Account.ofInfo i).map some
  aids : ∀ aid, getPlayerByAid e g sessions aid =
    match (scannedPlayers e g).find? (fun i => i.aid = aid) with
    | none => .ok none
    | some i => (Player.ofInfo e g sessions i).map some
  accountsOnly : ∀ (id : RecordId) val, g.db.get id.key = some val →
    ((id.key, val) ∈ examined g accountType ↔ ∃ aid, id = .account aid)
  playersOnly : ∀ (id : RecordId) val, g.db.get id.key = some val →
    ((id.key, val) ∈ examined g playerType ↔ ∃ uid, id = .player uid)

/-- Every key of the store is one of a record. -/
def OwnKeys (g : DbGate) : Prop := ∀ key val, g.db.get key = some val → ∃ id : RecordId, key = id.key

/-! ## Keys -/

inductive Kind where
  | account
  | player
  | inventory
  | nextIds
  deriving DecidableEq

/-- The first four bytes of a key of a kind. -/
def Kind.bytes : Kind → Bytes
  | .account => accountType
  | .player => playerType
  | .inventory => inventoryType
  | .nextIds => nextIdKey.take 4

theorem kind_bytes_inj {a b : Kind} (h : a.bytes = b.bytes) : a = b := by
  cases a <;> cases b <;> first | rfl | exact absurd h (by decide)

def RecordId.kind : RecordId → Kind
  | .account _ => .account
  | .player _ => .player
  | .inventory _ => .inventory
  | .nextIds => .nextIds

theorem key_kind (id : RecordId) : id.key.take 4 = id.kind.bytes := by
  cases id with
  | account aid => exact accountKey_type aid
  | player uid => exact List.take_left' (htobe32_length 2)
  | inventory guid => exact inventoryKey_type guid
  | nextIds => rfl

theorem key_of_kind (id : RecordId) (kind : Kind) : id.key.take 4 = kind.bytes ↔ id.kind = kind := by
  rw [key_kind]
  exact ⟨kind_bytes_inj, congrArg Kind.bytes⟩

theorem kind_account_iff (id : RecordId) : id.kind = .account ↔ ∃ aid, id = .account aid := by
  cases id <;> simp [RecordId.kind]

theorem kind_player_iff (id : RecordId) : id.kind = .player ↔ ∃ uid, id = .player uid := by
  cases id <;> simp [RecordId.kind]

/-- The first four bytes tell the kinds apart, and within a kind the key spells the id. -/
theorem key_inj {a b : RecordId} (h : a.key = b.key) : a = b := by
  have hkind : a.kind = b.kind := by
    rw [← key_of_kind, h]
    exact key_kind b
  cases a <;> cases b <;> cases hkind
  case account => exact congrArg RecordId.account (accountKey_inj h)
  case player => exact congrArg RecordId.player (idKey_inj h)
  case inventory => exact congrArg RecordId.inventory (inventoryKey_inj h)
  case nextIds => rfl

/-! ## Writes -/

theorem getLdbObject_set (g : DbGate) (written id : RecordId) (val : Bytes) :
    (g.setLdbObject written.key val).getLdbObject id.key =
      if id = written then val else g.getLdbObject id.key := by
  unfold DbGate.getLdbObject DbGate.setLdbObject
  by_cases h : id = written
  · rw [h, if_pos rfl, OrderedStore.get_put_self, Option.getD_some]
  · rw [if_neg h, OrderedStore.get_put_ne _ fun hkey => h (key_inj hkey)]

theorem getLdbObject_del (g : DbGate) (deleted id : RecordId) :
    (g.delLdbObject deleted.key).getLdbObject id.key =
      if id = deleted then [] else g.getLdbObject id.key := by
  unfold DbGate.getLdbObject DbGate.delLdbObject
  by_cases h : id = deleted
  · rw [h, if_pos rfl, OrderedStore.get_erase_self, Option.getD_none]
  · rw [if_neg h, OrderedStore.get_erase_ne _ fun hkey => h (key_inj hkey)]

/-- A write puts or erases its target's key and does nothing else to the database. -/
theorem apply_db {g g' : DbGate} {op : Write} (h : apply e sessions g op = .ok g') :
    (∃ val, g'.db = g.db.put op.target.key val) ∨ g'.db = g.db.erase op.target.key := by
  cases op with
  | saveAccount account =>
    obtain ⟨i, -, hput⟩ := bind_eq_ok.mp h
    cases hput
    exact .inl ⟨_, rfl⟩
  | savePlayer player =>
    obtain ⟨i, -, hput⟩ := bind_eq_ok.mp h
    cases hput
    exact .inl ⟨_, rfl⟩
  | setInventoryEntry ent =>
    cases h
    exact .inl ⟨_, rfl⟩
  | deleteAccount account =>
    cases h
    exact .inr rfl
  | deletePlayer player =>
    cases h
    exact .inr rfl
  | deleteByGuid guid =>
    cases h
    exact .inr rfl
  | save =>
    cases h
    exact .inl ⟨_, rfl⟩

theorem apply_other {g g' : DbGate} {op : Write} (h : apply e sessions g op = .ok g') {key : Bytes}
    (hne : key ≠ op.target.key) : g'.db.get key = g.db.get key := by
  rcases apply_db e sessions h with ⟨val, hput⟩ | herase
  · rw [hput, OrderedStore.get_put_ne _ hne]
  · rw [herase, OrderedStore.get_erase_ne _ hne]

theorem apply_separated {g g' : DbGate} {op : Write} (h : apply e sessions g op = .ok g') :
    Separated e g g' op.target := by
  have hother : ∀ id : RecordId, id ≠ op.target → g'.getLdbObject id.key = g.getLdbObject id.key := by
    intro id hid
    unfold DbGate.getLdbObject
    rw [apply_other e sessions h fun hkey => hid (key_inj hkey)]
  constructor
  · intro aid hid
    have hsame : g'.getLdbObject (accountKey aid) = g.getLdbObject (accountKey aid) := hother _ hid
    simp only [DbGate.getAccountByAid, hsame]
  · intro uid hid
    have hsame : g'.getLdbObject (playerKey uid) = g.getLdbObject (playerKey uid) := hother _ hid
    simp only [playerInfoByUid, hsame]
  · intro guid hid
    have hsame : g'.getLdbObject (inventoryKey guid) = g.getLdbObject (inventoryKey guid) := hother _ hid
    simp only [getInventoryEntry, hsame]
  · exact hother .nextIds

theorem apply_ownKeys {g g' : DbGate} {op : Write} (hg : OwnKeys g)
    (h : apply e sessions g op = .ok g') : OwnKeys g' := by
  intro key val hget
  by_cases hkey : key = op.target.key
  · exact ⟨op.target, hkey⟩
  · rw [apply_other e sessions h hkey] at hget
    exact hg key val hget

theorem ownKeys_empty (nextIds : NextIdInfo) : OwnKeys { db := OrderedStore.empty, nextIds } := by
  intro key val hget
  cases hget

theorem run_ownKeys {nextIds : NextIdInfo} {ops : List Write} {g : DbGate}
    (h : run (apply e sessions) { db := OrderedStore.empty, nextIds } ops = .ok g) : OwnKeys g :=
  run_invariant _ (fun _ _ _ hg happly => apply_ownKeys e sessions hg happly) (ownKeys_empty nextIds) h

/-! ## Scans -/

theorem firstRecord_eq {M : Type} [Inhabited M] (codec : Codec M) (kind : Bytes) (test : M → Bool)
    (entries : List (Bytes × Bytes)) : firstRecord codec kind test entries =
      ((entries.filter fun entry => entry.1.take 4 = kind).filterMap
        fun entry => codec.parse entry.2).find? test := by
  induction entries with
  | nil => rfl
  | cons entry rest ih =>
    obtain ⟨key, val⟩ := entry
    unfold firstRecord
    by_cases hkind : key.take 4 = kind
    · rw [if_neg (not_not.mpr hkind), List.filter_cons_of_pos (by simpa using hkind), List.filterMap_cons]
      cases codec.parse val with
      | none => exact ih
      | some i => simp only [List.find?_cons, ih]; split <;> simp_all
    · rw [if_pos hkind, List.filter_cons_of_neg (by simpa using hkind)]
      exact ih

theorem mem_examined {g : DbGate} {kind : Kind} {id : RecordId} {val : Bytes}
    (hget : g.db.get id.key = some val) : (id.key, val) ∈ examined g kind.bytes ↔ id.kind = kind := by
  rw [examined, List.mem_filter, decide_eq_true_iff, key_of_kind]
  exact and_iff_right (g.db.mem_entries_iff.mpr hget)

theorem scansOwnKind (g : DbGate) : ScansOwnKind e sessions g := by
  have haccounts : ∀ test, g.scanAccounts e.codecs test =
      match (scannedAccounts e g).find? test with
      | none => .ok none
      | some i => (Account.ofInfo i).map some := by
    intro test
    rw [DbGate.scanAccounts, firstRecord_eq]
    rfl
  constructor
  · intro name
    exact haccounts _
  · intro token
    exact haccounts _
  · intro aid
    rw [getPlayerByAid, playerInfoByAid, firstRecord_eq]
    rfl
  · intro id val hget
    exact (mem_examined hget).trans (kind_account_iff id)
  · intro id val hget
    exact (mem_examined hget).trans (kind_player_iff id)

/-- On any store at all, a write changes what it targets and a scan looks at the records of
its kind. On one that holds what was written through these operations, at nothing else. -/
theorem keys_separate (g : DbGate) :
    (∀ op g', apply e sessions g op = .ok g' → Separated e g g' op.target) ∧
    ScansOwnKind e sessions g ∧
    ∀ nextIds ops, run (apply e sessions) { db := OrderedStore.empty, nextIds } ops = .ok g →
      (∀ entry ∈ examined g accountType, ∃ aid, entry.1 = accountKey aid) ∧
      ∀ entry ∈ examined g playerType, ∃ uid, entry.1 = playerKey uid := by
  refine ⟨fun op g' h => apply_separated e sessions h, scansOwnKind e sessions g, fun nextIds ops h => ?_⟩
  have hown : ∀ kind : Kind, ∀ entry ∈ examined g kind.bytes,
      ∃ id : RecordId, entry.1 = id.key ∧ id.kind = kind := by
    intro kind entry hentry
    obtain ⟨hmem, hkind⟩ := List.mem_filter.mp hentry
    obtain ⟨id, hid⟩ := run_ownKeys e sessions h _ _ (g.db.mem_entries_iff.mp hmem)
    refine ⟨id, hid, ?_⟩
    rw [← key_of_kind, ← hid]
    exact of_decide_eq_true hkind
  constructor
  · intro entry hentry
    obtain ⟨id, hid, hkind⟩ := hown .account entry hentry
    obtain ⟨aid, rfl⟩ := (kind_account_iff id).mp hkind
    exact ⟨aid, hid⟩
  · intro entry hentry
    obtain ⟨id, hid, hkind⟩ := hown .player entry hentry
    obtain ⟨uid, rfl⟩ := (kind_player_iff id).mp hkind
    exact ⟨uid, hid⟩

/-- Saving the counters of a new store. -/
theorem save_separate : Separated unaryEnv { db := OrderedStore.empty, nextIds := default }
    (DbGate.save unaryCodecs { db := OrderedStore.empty, nextIds := default }) .nextIds :=
  (keys_separate unaryEnv [] { db := OrderedStore.empty, nextIds := default }).1 .save _ rfl

end Yagips.Game.KeySpace
