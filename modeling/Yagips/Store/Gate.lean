import Yagips.Lib.OrderedStore
import Yagips.Store.Accounts

/-!
# The account part of `dbGate`

One ordered store of byte strings holds records of every kind. The key of an account
record is its type and the account's id, both big-endian, and the record is an
`AccountInfo` message. Looking an account up by anything but its id scans the store.
-/
namespace Yagips.Store.Gate

open Yagips.Lib
open Yagips.Store.Accounts
open Yagips.Util.B64

/-- The message `storage::NextIdInfo`. -/
structure NextIdInfo where
  nextAid : UInt32
  nextUid : UInt32
  nextGacha : UInt32
  nextMail : UInt32
  deriving DecidableEq

instance : Inhabited NextIdInfo where
  default := { nextAid := 0, nextUid := 0, nextGacha := 0, nextMail := 0 }

def NextIdInfo.fields (n : NextIdInfo) := (n.nextAid, n.nextUid, n.nextGacha, n.nextMail)

def NextIdInfo.ofFields : UInt32 × UInt32 × UInt32 × UInt32 → NextIdInfo
  | (nextAid, nextUid, nextGacha, nextMail) => { nextAid, nextUid, nextGacha, nextMail }

instance : Encodable NextIdInfo :=
  Encodable.ofLeftInverse NextIdInfo.fields NextIdInfo.ofFields fun _ => rfl

instance : Packed NextIdInfo :=
  Packed.ofLeftInverse NextIdInfo.fields NextIdInfo.ofFields fun _ => rfl

/-- The message codecs, which are protobuf's. -/
structure Codecs where
  account : Codec AccountInfo
  nextIds : Codec NextIdInfo

def unaryCodecs : Codecs where
  account := Codec.unary AccountInfo
  nextIds := Codec.unary NextIdInfo

def packedCodecs : Codecs where
  account := Codec.packed AccountInfo
  nextIds := Codec.packed NextIdInfo

structure DbGate where
  db : OrderedStore Bytes Bytes
  nextIds : NextIdInfo

def htobe32 (x : UInt32) : Bytes := (leBytes 4 x.toNat).reverse

/-- The key type `ACCOUNT`. -/
def accountType : Bytes := htobe32 1

/-- A key type and an id, both big-endian. -/
def idKey (kind : Bytes) (id : UInt32) : Bytes := kind ++ htobe32 id

def accountKey (aid : UInt32) : Bytes := idKey accountType aid

/-- The key `nextID`. -/
def nextIdKey : Bytes := [0x6e, 0x65, 0x78, 0x74, 0x49, 0x44]

/-- An absent key reads as the empty string. -/
def DbGate.getLdbObject (g : DbGate) (key : Bytes) : Bytes := (g.db.get key).getD []

def DbGate.setLdbObject (g : DbGate) (key val : Bytes) : DbGate := { g with db := g.db.put key val }

def DbGate.delLdbObject (g : DbGate) (key : Bytes) : DbGate := { g with db := g.db.erase key }

variable (c : Codecs)

def DbGate.getAccountByAid (g : DbGate) (aid : UInt32) : Except Fault (Option Account) :=
  let val := g.getLdbObject (accountKey aid)
  if val = [] then return none
  else match c.account.parse val with
    | none => return none
    | some p => do return some (← Account.ofInfo p)

/-- The first record of a kind, in key order, that satisfies a test. Every stored key has
the four bytes of a kind. -/
def firstRecord {M : Type} [Inhabited M] (codec : Codec M) (kind : Bytes) (test : M → Bool) :
    List (Bytes × Bytes) → Option M
  | [] => none
  | (key, val) :: rest =>
    if key.take 4 ≠ kind then firstRecord codec kind test rest
    else match codec.parse val with
      | none => firstRecord codec kind test rest
      | some p => if test p then some p else firstRecord codec kind test rest

def DbGate.scanAccounts (g : DbGate) (test : AccountInfo → Bool) : Except Fault (Option Account) :=
  match firstRecord c.account accountType test g.db.entries with
  | none => return none
  | some p => do return some (← Account.ofInfo p)

/-! The pointer arguments of the lookups are C strings. -/

def DbGate.getAccountByUsername (g : DbGate) (username : Bytes) : Except Fault (Option Account) :=
  g.scanAccounts c fun p => p.username = cstr username

def DbGate.getAccountByBinderToken (g : DbGate) (token : Bytes) : Except Fault (Option Account) :=
  g.scanAccounts c fun p => p.bindToken = cstr token

def DbGate.getAccountByDeviceId (g : DbGate) (deviceId : Bytes) : Except Fault (Option Account) :=
  g.scanAccounts c fun p => p.deviceId = cstr deviceId

def DbGate.saveAccount (g : DbGate) (account : Account) : Except Fault DbGate := do
  let p ← account.toInfo
  return g.setLdbObject (accountKey account.aid) (c.account.serialize p)

def DbGate.deleteAccount (g : DbGate) (account : Account) : DbGate :=
  g.delLdbObject (accountKey account.aid)

def DbGate.save (g : DbGate) : DbGate := g.setLdbObject nextIdKey (c.nextIds.serialize g.nextIds)

/-- `load`, which leaves the counters as they are where the record is empty or ill formed. -/
def DbGate.load (g : DbGate) : DbGate :=
  let val := g.getLdbObject nextIdKey
  if val = [] then g
  else match c.nextIds.parse val with
    | none => g
    | some nextIds => { g with nextIds }

/-- The object constructed over a database. -/
def opened (db : OrderedStore Bytes Bytes) : DbGate :=
  DbGate.load c { db, nextIds := default }

/-- The search for an id whose key reads as empty, over as many ids as there are. -/
def DbGate.freeId (g : DbGate) (keyOf : UInt32 → Bytes) : Nat → UInt32 → Option UInt32
  | 0, _ => none
  | n + 1, id => if g.getLdbObject (keyOf id) = [] then some id else g.freeId keyOf n (id + 1)

/-- The members of an `Account` that its default constructor leaves as they are. -/
structure Stale where
  authTokenTimestamp : Int64
  binderTokenTimestamp : Int64

def blank : Stale where
  authTokenTimestamp := 0
  binderTokenTimestamp := 0

/-- What `createAccount` returns, or that its search never ends. -/
inductive Created where
  | account (a : Account) (g : DbGate)
  | hangs

/-- The store after `createAccount`. -/
def Created.gate : Created → Except Fault DbGate
  | .account _ g => return g
  | .hangs => .error .endless

/-- The account `createAccount` finds under a name that is not null. -/
def DbGate.accountNamed (g : DbGate) (username : Option Bytes) : Except Fault (Option Account) :=
  match username with
  | none => return none
  | some username => g.getAccountByUsername c username

/-- What `createAccount` fills a default account with. -/
def newAccount (username : Option Bytes) (stale : Stale) (aid : UInt32) : Account where
  username := (username.map cstr).getD []
  passwordHash := []
  deviceId := []
  email := []
  realName := []
  idNumber := []
  authToken := []
  comboToken := []
  binderToken := []
  aid := aid
  guest := username.isNone
  authTokenTimestamp := stale.authTokenTimestamp
  binderTokenTimestamp := stale.binderTokenTimestamp
  permissions := []

def DbGate.setNextAid (g : DbGate) (aid : UInt32) : DbGate :=
  { g with nextIds := { g.nextIds with nextAid := aid } }

def DbGate.createAccount (g : DbGate) (username : Option Bytes) (stale : Stale) :
    Except Fault Created := do
  match ← g.accountNamed c username with
  | some account => return .account account g
  | none =>
    let next := if g.nextIds.nextAid = 0 then 1 else g.nextIds.nextAid
    match g.freeId accountKey (2 ^ 32) next with
    | none => return .hangs
    | some aid =>
      let account := newAccount username stale aid
      let g ← (g.setNextAid aid).saveAccount c account
      return .account account (g.save c)

/-! ## Keys -/

theorem leBytes_four_inj {x y : UInt32} (h : leBytes 4 x.toNat = leBytes 4 y.toNat) : x = y := by
  have hx := x.toNat_lt
  have hy := y.toNat_lt
  have hnat := congrArg leNat h
  rw [leNat_leBytes, leNat_leBytes, Nat.mod_eq_of_lt (by omega), Nat.mod_eq_of_lt (by omega)] at hnat
  exact UInt32.toNat_inj.mp hnat

theorem htobe32_length (x : UInt32) : (htobe32 x).length = 4 := by
  rw [htobe32, List.length_reverse, leBytes_length]

theorem htobe32_inj {x y : UInt32} (h : htobe32 x = htobe32 y) : x = y :=
  leBytes_four_inj (List.reverse_injective h)

theorem idKey_inj {kind : Bytes} {x y : UInt32} (h : idKey kind x = idKey kind y) : x = y :=
  htobe32_inj (List.append_cancel_left h)

theorem accountKey_inj {x y : UInt32} (h : accountKey x = accountKey y) : x = y := idKey_inj h

theorem accountKey_type (aid : UInt32) : (accountKey aid).take 4 = accountType :=
  List.take_left' (htobe32_length 1)

/-- The account record of an id. -/
def DbGate.record (g : DbGate) (aid : UInt32) : Option AccountInfo :=
  (g.db.get (accountKey aid)).bind c.account.parse

/-- Every account record is a message stored under its own id. -/
def DbGate.Keyed (g : DbGate) : Prop :=
  ∀ key val, g.db.get key = some val → key.take 4 = accountType →
    ∃ p, key = accountKey p.id ∧ val = c.account.serialize p

/-- A put under an account's key is a change of that account's record only. -/
theorem record_put (g : DbGate) (aid aid' : UInt32) (p : AccountInfo) :
    (g.setLdbObject (accountKey aid) (c.account.serialize p)).record c aid' =
      if aid' = aid then some p else g.record c aid' := by
  unfold DbGate.record DbGate.setLdbObject
  by_cases h : aid' = aid
  · rw [if_pos h, h, OrderedStore.get_put_self]
    exact c.account.parse_serialize p
  · have hne : accountKey aid' ≠ accountKey aid := fun hk => h (accountKey_inj hk)
    rw [if_neg h, OrderedStore.get_put_ne _ hne]

theorem keyed_put {g : DbGate} (hg : g.Keyed c) (p : AccountInfo) :
    (g.setLdbObject (accountKey p.id) (c.account.serialize p)).Keyed c := by
  intro key val hval htype
  by_cases h : key = accountKey p.id
  · rw [h, DbGate.setLdbObject, OrderedStore.get_put_self] at hval
    cases hval
    exact ⟨p, h, rfl⟩
  · rw [DbGate.setLdbObject, OrderedStore.get_put_ne _ h] at hval
    exact hg key val hval htype

theorem firstRecord_some {M : Type} [Inhabited M] {codec : Codec M} {kind : Bytes} {test : M → Bool}
    {l : List (Bytes × Bytes)} {p : M} (h : firstRecord codec kind test l = some p) :
    ∃ key val, (key, val) ∈ l ∧ key.take 4 = kind ∧ codec.parse val = some p ∧ test p = true := by
  induction l with
  | nil => cases h
  | cons e rest ih =>
    obtain ⟨key, val⟩ := e
    have hrest : firstRecord codec kind test rest = some p → ∃ key' val',
        (key', val') ∈ (key, val) :: rest ∧ key'.take 4 = kind ∧ codec.parse val' = some p ∧
          test p = true := by
      intro hr
      obtain ⟨key', val', hmem, hp⟩ := ih hr
      exact ⟨key', val', List.mem_cons_of_mem _ hmem, hp⟩
    unfold firstRecord at h
    split at h
    case isTrue => exact hrest h
    case isFalse htype =>
      split at h
      case h_1 => exact hrest h
      case h_2 q hq =>
        split at h
        case isTrue ht =>
          cases h
          exact ⟨key, val, List.mem_cons_self, not_not.mp htype, hq, ht⟩
        case isFalse => exact hrest h

theorem firstRecord_none {M : Type} [Inhabited M] {codec : Codec M} {kind : Bytes} {test : M → Bool}
    {l : List (Bytes × Bytes)} (h : firstRecord codec kind test l = none) {key val : Bytes}
    (hmem : (key, val) ∈ l) (htype : key.take 4 = kind) {p : M} (hp : codec.parse val = some p) :
    test p = false := by
  induction l with
  | nil => cases hmem
  | cons e rest ih =>
    obtain ⟨key', val'⟩ := e
    unfold firstRecord at h
    rcases List.mem_cons.mp hmem with he | he
    · cases he
      rw [if_neg (not_not.mpr htype), hp] at h
      cases ht : test p with
      | false => rfl
      | true => simp [ht] at h
    · apply ih _ he
      split at h
      case isTrue => exact h
      case isFalse =>
        split at h
        case h_1 => exact h
        case h_2 =>
          split at h
          case isTrue => cases h
          case isFalse => exact h

/-- A lookup by id loads the record of that id, if its value is not empty. -/
theorem byAid_cases (g : DbGate) (aid : UInt32) :
    (∃ p a, g.record c aid = some p ∧ Loaded p a ∧ g.getAccountByAid c aid = .ok (some a)) ∨
    g.getAccountByAid c aid = .ok none := by
  unfold DbGate.getAccountByAid DbGate.getLdbObject DbGate.record
  cases hget : g.db.get (accountKey aid) with
  | none => exact Or.inr rfl
  | some val =>
    simp only [Option.getD_some, Option.bind_some]
    split
    case isTrue => exact Or.inr rfl
    case isFalse =>
      cases hp : c.account.parse val with
      | none => exact Or.inr rfl
      | some p =>
        obtain ⟨a, ha, hload⟩ := ofInfo_loaded p
        refine Or.inl ⟨p, a, rfl, hload, ?_⟩
        simp only [ha, ok_bind]
        rfl

theorem byAid_found {g : DbGate} {aid : UInt32} {p : AccountInfo} (h : g.record c aid = some p)
    (hp : p ≠ default) : ∃ a, Loaded p a ∧ g.getAccountByAid c aid = .ok (some a) := by
  obtain ⟨val, hval, hparse⟩ := Option.bind_eq_some_iff.mp h
  have hne : val ≠ [] := by
    intro hnil
    rw [hnil, ← (c.account.serialize_nil default).mpr rfl, c.account.parse_serialize] at hparse
    exact hp (Option.some.inj hparse).symm
  obtain ⟨a, ha, hload⟩ := ofInfo_loaded p
  refine ⟨a, hload, ?_⟩
  simp only [DbGate.getAccountByAid, DbGate.getLdbObject, hval, Option.getD_some, if_neg hne, hparse,
    ha, ok_bind]
  rfl

/-- Saving replaces the record of the account's id. -/
theorem saveAccount_spec (g : DbGate) {a : Account} (hauth : Readable a.authToken)
    (hbind : Readable a.binderToken) : ∃ p g', g.saveAccount c a = .ok g' ∧ p.id = a.aid ∧
      b64dec a.binderToken = .ok p.bindToken ∧ g'.nextIds = g.nextIds ∧
      (g.Keyed c → g'.Keyed c) ∧
      ∀ aid, g'.record c aid = if aid = a.aid then some p else g.record c aid := by
  obtain ⟨p, hp, hid, htoken⟩ := toInfo_ok hauth hbind
  refine ⟨p, g.setLdbObject (accountKey a.aid) (c.account.serialize p), ?_, hid, htoken, rfl, ?_, ?_⟩
  · rw [DbGate.saveAccount, hp, ok_bind]
    rfl
  · intro hg
    rw [← hid]
    exact keyed_put c hg p
  · intro aid
    exact record_put c g a.aid aid p

/-! ## Creation -/

theorem readable_nil : Readable [] := ⟨[], rfl⟩

theorem next_ofNat_succ (next : UInt32) (k : Nat) :
    next + UInt32.ofNat (k + 1) = next + 1 + UInt32.ofNat k := by
  rw [UInt32.ofNat_add, UInt32.add_assoc, UInt32.add_comm 1]
  rfl

theorem freeId_free {g : DbGate} {keyOf : UInt32 → Bytes} {n : Nat} {next id : UInt32}
    (h : g.freeId keyOf n next = some id) : g.getLdbObject (keyOf id) = [] := by
  induction n generalizing next with
  | zero => cases h
  | succ n ih =>
    unfold DbGate.freeId at h
    split at h
    case isTrue hfree =>
      cases h
      exact hfree
    case isFalse => exact ih h

theorem freeId_some {g : DbGate} {keyOf : UInt32 → Bytes} {n : Nat} {next id : UInt32}
    (h : g.freeId keyOf n next = some id) : ∃ k < n, id = next + UInt32.ofNat k ∧
      ∀ j < k, g.getLdbObject (keyOf (next + UInt32.ofNat j)) ≠ [] := by
  induction n generalizing next with
  | zero => cases h
  | succ n ih =>
    unfold DbGate.freeId at h
    split at h
    case isTrue =>
      cases h
      exact ⟨0, n.succ_pos, (UInt32.add_zero _).symm, fun j hj => absurd hj j.not_lt_zero⟩
    case isFalse hused =>
      obtain ⟨k, hk, rfl, hpassed⟩ := ih h
      refine ⟨k + 1, Nat.succ_lt_succ hk, (next_ofNat_succ _ k).symm, fun j hj => ?_⟩
      cases j with
      | zero => simpa using hused
      | succ j =>
        rw [next_ofNat_succ]
        exact hpassed j (Nat.lt_of_succ_lt_succ hj)

theorem saveAccount_eq {g g' : DbGate} {a : Account} (h : g.saveAccount c a = .ok g') :
    ∃ p, p.id = a.aid ∧ p.username = a.username ∧
      g' = g.setLdbObject (accountKey p.id) (c.account.serialize p) := by
  obtain ⟨p, hp, hput⟩ := bind_eq_ok.mp h
  obtain ⟨hid, hname⟩ := toInfo_identity hp
  cases hput
  exact ⟨p, hid, hname, by rw [hid]⟩

/-- What `createAccount` leaves where it ends: nothing new, or a record under a free id. -/
theorem createAccount_ok {g g' : DbGate} {username : Option Bytes} {stale : Stale} {a : Account}
    (h : g.createAccount c username stale = .ok (.account a g')) :
    g.accountNamed c username = .ok (some a) ∧ g' = g ∨
    g.accountNamed c username = .ok none ∧ ∃ p, a = newAccount username stale p.id ∧
      g.freeId accountKey (2 ^ 32) (if g.nextIds.nextAid = 0 then 1 else g.nextIds.nextAid) = some p.id ∧
      p.username = a.username ∧
      g' = ((g.setNextAid p.id).setLdbObject (accountKey p.id) (c.account.serialize p)).save c := by
  obtain ⟨named, hnamed, h⟩ := bind_eq_ok.mp h
  cases named with
  | some account =>
    cases h
    exact .inl ⟨hnamed, rfl⟩
  | none =>
    refine .inr ⟨hnamed, ?_⟩
    cases hfree : g.freeId accountKey (2 ^ 32) (if g.nextIds.nextAid = 0 then 1 else g.nextIds.nextAid) with
    | none =>
      simp only [hfree] at h
      cases h
    | some aid =>
      simp only [hfree] at h
      obtain ⟨g'', hsave, h⟩ := bind_eq_ok.mp h
      cases h
      obtain ⟨p, hid, hname, hput⟩ := saveAccount_eq c hsave
      have hid : p.id = aid := hid
      subst hid
      exact ⟨p, rfl, rfl, hname, by rw [hput]⟩

end Yagips.Store.Gate
