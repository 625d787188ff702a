import Yagips.Toml.Strings

/-!
# Tables

What the parser builds: tables of values, arrays and tables, each under a key. A table that is found or made
is known by its place, and no key is in one table twice.
-/
namespace Yagips.Toml

open Yagips.Lib

structure Keyval where
  key : Bytes
  val : Bytes
  deriving DecidableEq

/-- What the elements of an array are. -/
inductive Kind where
  | unset
  | value
  | array
  | table
  | mixed
  deriving DecidableEq

mutual

/-- A table that is not in another has no key. -/
structure Table where
  key : Bytes := []
  implicit : Bool := false
  readonly : Bool := false
  kval : List Keyval := []
  arr : List Arr := []
  tab : List Table := []

structure Arr where
  key : Bytes := []
  kind : Kind := .unset
  item : List Item := []

inductive Item where
  | val (v : Bytes)
  | arr (a : Arr)
  | tab (t : Table)

end

/-- Where `check_key` finds a key. -/
inductive Found where
  | kval (i : Nat)
  | arr (i : Nat)
  | tab (i : Nat)

/-- Keys are compared as C strings. -/
def sameKey (key key' : Bytes) : Bool := cstr key = cstr key'

def tomlTableArray (tab : Table) (key : Bytes) : Option Nat := tab.arr.findIdx? fun a => sameKey key a.key

def tomlTableTable (tab : Table) (key : Bytes) : Option Nat := tab.tab.findIdx? fun t => sameKey key t.key

def checkKey (tab : Table) (key : Bytes) : Option Found :=
  match tab.kval.findIdx? fun kv => sameKey key kv.key with
  | some i => some (.kval i)
  | none =>
    match tomlTableArray tab key with
    | some i => some (.arr i)
    | none => (tomlTableTable tab key).map .tab

/-! ## New entries -/

/-- The value is set right after the entry is made. -/
def createKeyvalInTable (tab : Table) (keytok : Token) (val : Bytes) : Except Stop Table := do
  let newkey ← normalizeKey keytok
  if (checkKey tab newkey).isSome then eKeyexists keytok.lineno
  else return { tab with kval := tab.kval ++ [{ key := newkey, val }] }

/-- The table's place and the changed table. An implicit table of the key becomes explicit. -/
def createKeytableInTable (tab : Table) (keytok : Token) : Except Stop (Nat × Table) := do
  let newkey ← normalizeKey keytok
  match checkKey tab newkey with
  | none => return (tab.tab.length, { tab with tab := tab.tab ++ [{ key := newkey }] })
  | some (.tab i) =>
    match tab.tab[i]? with
    | some dest =>
      if dest.implicit then return (i, { tab with tab := tab.tab.set i { dest with implicit := false } })
      else eKeyexists keytok.lineno
    | none => .error .null
  | some _ => eKeyexists keytok.lineno

def createKeyarrayInTable (tab : Table) (keytok : Token) (kind : Kind) : Except Stop (Nat × Table) := do
  let newkey ← normalizeKey keytok
  if (checkKey tab newkey).isSome then eKeyexists keytok.lineno
  else return (tab.arr.length, { tab with arr := tab.arr ++ [{ key := newkey, kind }] })

/-! ## Through pointers -/

/-- Work on the table at a place. -/
def Table.onTab {α : Type} (tab : Table) (i : Nat) (f : Table → Except Stop (α × Table)) : Except Stop (α × Table) :=
  match tab.tab[i]? with
  | none => .error .null
  | some t => do
    let (a, t) ← f t
    return (a, { tab with tab := tab.tab.set i t })

/-- Work on the array at a place. -/
def Table.onArr {α : Type} (tab : Table) (i : Nat) (f : Arr → Except Stop (α × Arr)) : Except Stop (α × Table) :=
  match tab.arr[i]? with
  | none => .error .null
  | some a => do
    let (b, a) ← f a
    return (b, { tab with arr := tab.arr.set i a })

/-- Work on the table that is an element of an array. -/
def Arr.onItem {α : Type} (arr : Arr) (j : Nat) (f : Table → Except Stop (α × Table)) : Except Stop (α × Arr) :=
  match arr.item[j]? with
  | some (.tab t) => do
    let (a, t) ← f t
    return (a, { arr with item := arr.item.set j (.tab t) })
  | _ => .error .null

/-- From a table to one in it, or to one in an array in it. -/
inductive Step where
  | tab (i : Nat)
  | item (i j : Nat)
  deriving DecidableEq

/-- Work on the table that a pointer points to, as the steps from the root. -/
def Table.onPath {α : Type} : List Step → (Table → Except Stop (α × Table)) → Table → Except Stop (α × Table)
  | [], f, t => f t
  | .tab i :: path, f, t => t.onTab i (Table.onPath path f)
  | .item i j :: path, f, t => t.onArr i fun a => a.onItem j (Table.onPath path f)

/-! ## Valid tables -/

/-- All keys of a table, as their readers see them. -/
def Table.keys (t : Table) : List Bytes :=
  t.kval.map (fun kv => cstr kv.key) ++ t.arr.map (fun a => cstr a.key) ++ t.tab.map fun s => cstr s.key

mutual

/-- No key is in the table twice, and what is in it is valid. -/
inductive Table.Valid : Table → Prop where
  | mk {t : Table} (keys : t.keys.Nodup) (arr : ∀ a ∈ t.arr, a.Valid) (tab : ∀ s ∈ t.tab, s.Valid) : t.Valid

/-- The kind of an array is that of its elements. -/
inductive Arr.Valid : Arr → Prop where
  | mk {a : Arr} (unset : a.kind = .unset → a.item = []) (tables : a.kind = .table → ∀ i ∈ a.item, ∃ t, i = .tab t)
      (item : ∀ i ∈ a.item, i.Valid) : a.Valid

inductive Item.Valid : Item → Prop where
  | val (v : Bytes) : Item.Valid (.val v)
  | arr {a : Arr} (h : a.Valid) : Item.Valid (.arr a)
  | tab {t : Table} (h : t.Valid) : Item.Valid (.tab t)

end

theorem Table.Valid.keys {t : Table} (h : t.Valid) : t.keys.Nodup := by
  cases h with
  | mk keys _ _ => exact keys

theorem Table.Valid.arr {t : Table} (h : t.Valid) : ∀ a ∈ t.arr, a.Valid := by
  cases h with
  | mk _ arr _ => exact arr

theorem Table.Valid.tab {t : Table} (h : t.Valid) : ∀ s ∈ t.tab, s.Valid := by
  cases h with
  | mk _ _ tab => exact tab

theorem Arr.Valid.unset {a : Arr} (h : a.Valid) : a.kind = .unset → a.item = [] := by
  cases h with
  | mk unset _ _ => exact unset

theorem Arr.Valid.tables {a : Arr} (h : a.Valid) : a.kind = .table → ∀ i ∈ a.item, ∃ t, i = .tab t := by
  cases h with
  | mk _ tables _ => exact tables

theorem Arr.Valid.item {a : Arr} (h : a.Valid) : ∀ i ∈ a.item, i.Valid := by
  cases h with
  | mk _ _ item => exact item

/-- A table of its own is valid and has no entry. -/
theorem Table.valid_empty (key : Bytes) (implicit : Bool) : Table.Valid { key, implicit } :=
  ⟨List.nodup_nil, by simp, by simp⟩

theorem Arr.valid_empty (key : Bytes) (kind : Kind) : Arr.Valid { key, kind } := ⟨fun _ => rfl, by simp, by simp⟩

section Find

variable {α : Type} {l : List α} {f : α → Bytes} {key : Bytes}

theorem find_none_iff : (l.findIdx? fun x => sameKey key (f x)) = none ↔ cstr key ∉ l.map fun x => cstr (f x) := by
  rw [List.findIdx?_eq_none_iff, List.mem_map, not_exists]
  refine forall_congr' fun x => ?_
  rw [not_and, sameKey, decide_eq_false_iff_not, eq_comm]

/-- A key that is new is found where it is put. -/
theorem find_append_new (hnew : (l.findIdx? fun x => sameKey key (f x)) = none) {x : α} (hx : f x = key) :
    ((l ++ [x]).findIdx? fun x => sameKey key (f x)) = some l.length := by
  rw [List.findIdx?_append, hnew]
  simp [sameKey, hx]

end Find

/-- A key that is not found is under none of the three kinds. -/
theorem checkKey_eq_none_iff {t : Table} {key : Bytes} : checkKey t key = none ↔
    (t.kval.findIdx? fun kv => sameKey key kv.key) = none ∧ tomlTableArray t key = none ∧ tomlTableTable t key = none := by
  rw [checkKey]
  cases t.kval.findIdx? fun kv => sameKey key kv.key with
  | some i => simp
  | none =>
    cases tomlTableArray t key with
    | some i => simp
    | none => simp

theorem checkKey_cases {t : Table} {key : Bytes} {found : Found} (h : checkKey t key = some found) :
    (∃ i, found = .kval i ∧ (t.kval.findIdx? fun kv => sameKey key kv.key) = some i) ∨
      (∃ i, found = .arr i ∧ tomlTableArray t key = some i) ∨ ∃ i, found = .tab i ∧ tomlTableTable t key = some i := by
  rw [checkKey] at h
  split at h
  case h_1 i hi =>
    cases h
    exact .inl ⟨i, rfl, hi⟩
  case h_2 =>
    split at h
    case h_1 i hi =>
      cases h
      exact .inr (.inl ⟨i, rfl, hi⟩)
    case h_2 =>
      obtain ⟨i, hi, heq⟩ := Option.map_eq_some_iff.mp h
      cases heq
      exact .inr (.inr ⟨i, rfl, hi⟩)

/-- A key that is not found is not in the table. -/
theorem checkKey_none_iff {t : Table} {key : Bytes} : checkKey t key = none ↔ cstr key ∉ t.keys := by
  rw [checkKey_eq_none_iff, Table.keys, List.mem_append, List.mem_append, not_or, not_or, and_assoc]
  exact and_congr find_none_iff (and_congr find_none_iff find_none_iff)

/-- A table that is found is there. -/
theorem tomlTableTable_lt {t : Table} {key : Bytes} {i : Nat} (h : tomlTableTable t key = some i) : i < t.tab.length :=
  (List.findIdx?_eq_some_iff_getElem.mp h).1

theorem tomlTableArray_lt {t : Table} {key : Bytes} {i : Nat} (h : tomlTableArray t key = some i) : i < t.arr.length :=
  (List.findIdx?_eq_some_iff_getElem.mp h).1

theorem checkKey_tab {t : Table} {key : Bytes} {i : Nat} (h : checkKey t key = some (.tab i)) : tomlTableTable t key = some i := by
  obtain ⟨j, heq, -⟩ | ⟨j, heq, -⟩ | ⟨j, heq, hj⟩ := checkKey_cases h
  all_goals cases heq
  exact hj

theorem checkKey_arr {t : Table} {key : Bytes} {i : Nat} (h : checkKey t key = some (.arr i)) : tomlTableArray t key = some i := by
  obtain ⟨j, heq, -⟩ | ⟨j, heq, hj⟩ | ⟨j, heq, -⟩ := checkKey_cases h
  all_goals cases heq
  exact hj

theorem checkKey_kval {t : Table} {key : Bytes} {i : Nat} (h : checkKey t key = some (.kval i)) :
    (t.kval.findIdx? fun kv => sameKey key kv.key) = some i := by
  obtain ⟨j, heq, hj⟩ | ⟨j, heq, -⟩ | ⟨j, heq, -⟩ := checkKey_cases h
  all_goals cases heq
  exact hj

/-! ## Entries keep tables valid -/

/-- A table after work on it: valid, and under the same key. -/
structure Table.Keeps (t t' : Table) : Prop where
  valid : t'.Valid
  key : t'.key = t.key

structure Arr.Keeps (a a' : Arr) : Prop where
  valid : a'.Valid
  key : a'.key = a.key

/-- A new key goes to the end of one of the lists. -/
theorem nodup_insert {l l' : List Bytes} {key : Bytes} (h : (l ++ l').Nodup) (hkey : key ∉ l ++ l') : (l ++ [key] ++ l').Nodup := by
  have hperm : (l ++ [key] ++ l').Perm (key :: (l ++ l')) := by
    rw [List.append_assoc]
    exact List.perm_middle
  exact hperm.nodup_iff.mpr (List.nodup_cons.mpr ⟨hkey, h⟩)

theorem Table.Valid.add_kval {t : Table} (h : t.Valid) {key : Bytes} (hkey : checkKey t key = none) (val : Bytes) :
    Table.Valid { t with kval := t.kval ++ [{ key, val }] } := by
  have hnew := checkKey_none_iff.mp hkey
  have hkeys := h.keys
  refine ⟨?_, h.arr, h.tab⟩
  rw [Table.keys, List.append_assoc] at hnew hkeys ⊢
  rw [List.map_append]
  exact nodup_insert hkeys hnew

theorem Table.Valid.add_arr {t : Table} (h : t.Valid) {key : Bytes} (hkey : checkKey t key = none) {a : Arr} (ha : a.Valid)
    (hsame : a.key = key) : Table.Valid { t with arr := t.arr ++ [a] } := by
  have hnew := checkKey_none_iff.mp hkey
  have hkeys := h.keys
  refine ⟨?_, fun b hb => ?_, h.tab⟩
  · rw [Table.keys] at hnew hkeys ⊢
    dsimp only
    rw [List.map_append, List.map_singleton, hsame, ← List.append_assoc (t.kval.map _)]
    exact nodup_insert hkeys hnew
  · rcases List.mem_append.mp hb with hold | hone
    · exact h.arr b hold
    · rwa [List.mem_singleton.mp hone]

theorem Table.Valid.add_tab {t : Table} (h : t.Valid) {key : Bytes} (hkey : checkKey t key = none) {s : Table} (hs : s.Valid)
    (hsame : cstr s.key = cstr key) : Table.Valid { t with tab := t.tab ++ [s] } := by
  have hnew := checkKey_none_iff.mp hkey
  have hkeys := h.keys
  refine ⟨?_, h.arr, fun b hb => ?_⟩
  · have hinsert : (t.keys ++ [cstr key] ++ []).Nodup := nodup_insert (by rwa [List.append_nil]) (by rwa [List.append_nil])
    rw [List.append_nil, Table.keys, List.append_assoc] at hinsert
    rw [Table.keys]
    dsimp only
    rwa [List.map_append, List.map_singleton, hsame]
  · rcases List.mem_append.mp hb with hold | hone
    · exact h.tab b hold
    · rwa [List.mem_singleton.mp hone]

theorem map_set {α β : Type} (f : α → β) {l : List α} {i : Nat} {x y : α} (hx : l[i]? = some x) (h : f y = f x) :
    (l.set i y).map f = l.map f := by
  obtain ⟨hi, rfl⟩ := List.getElem?_eq_some_iff.mp hx
  rw [List.map_set, h, ← List.getElem_map f (h := by rwa [List.length_map])]
  exact List.set_getElem_self _

theorem mem_set {α : Type} {P : α → Prop} {l : List α} (h : ∀ x ∈ l, P x) {y : α} (hy : P y) (i : Nat) : ∀ x ∈ l.set i y, P x := by
  intro x hx
  rcases List.mem_or_eq_of_mem_set hx with hold | rfl
  · exact h x hold
  · exact hy

theorem Table.Valid.set_tab {t : Table} (h : t.Valid) {i : Nat} {s s' : Table} (hs : t.tab[i]? = some s) (hk : s.Keeps s') :
    Table.Keeps t { t with tab := t.tab.set i s' } := by
  refine ⟨⟨?_, h.arr, mem_set h.tab hk.valid i⟩, rfl⟩
  have hkeys := h.keys
  rw [Table.keys] at hkeys ⊢
  dsimp only
  rwa [map_set _ hs (congrArg cstr hk.key)]

theorem Table.Valid.set_arr {t : Table} (h : t.Valid) {i : Nat} {a a' : Arr} (ha : t.arr[i]? = some a) (hk : a.Keeps a') :
    Table.Keeps t { t with arr := t.arr.set i a' } := by
  refine ⟨⟨?_, mem_set h.arr hk.valid i, h.tab⟩, rfl⟩
  have hkeys := h.keys
  rw [Table.keys] at hkeys ⊢
  dsimp only
  rwa [map_set _ ha (congrArg cstr hk.key)]

theorem Arr.Valid.set_item {a : Arr} (h : a.Valid) {j : Nat} {s s' : Table} (hs : a.item[j]? = some (.tab s)) (hk : s.Keeps s') :
    Arr.Keeps a { a with item := a.item.set j (.tab s') } := by
  refine ⟨⟨fun hunset => ?_, fun hkind => mem_set (h.tables hkind) ⟨s', rfl⟩ j, mem_set h.item (.tab hk.valid) j⟩, rfl⟩
  rw [h.unset hunset] at hs
  cases hs

section Creating

variable {text : Bytes} {t : Table} {keytok : Token}

theorem createKeyvalInTable_meets (ht : t.Valid) (hkey : keytok.In text) (val : Bytes) :
    Meets (Stop.Names text) t.Keeps (createKeyvalInTable t keytok val) := by
  refine (normalizeKey_meets hkey).bind fun newkey _ => ?_
  split
  case isTrue => exact hkey.stops _
  case isFalse hnone => exact ⟨ht.add_kval (Option.not_isSome_iff_eq_none.mp hnone) val, rfl⟩

theorem createKeytableInTable_meets (ht : t.Valid) (hkey : keytok.In text) :
    Meets (Stop.Names text) (fun p => p.1 < p.2.tab.length ∧ t.Keeps p.2) (createKeytableInTable t keytok) := by
  refine (normalizeKey_meets hkey).bind fun newkey _ => ?_
  split
  case h_1 hnone =>
    refine ⟨?_, ht.add_tab hnone (Table.valid_empty newkey false) rfl, rfl⟩
    rw [List.length_append]
    exact Nat.lt_succ_self _
  case h_2 i hfound =>
    have hlt := tomlTableTable_lt (checkKey_tab hfound)
    rw [List.getElem?_eq_getElem hlt]
    dsimp only
    split
    · have hdest := List.getElem?_eq_getElem hlt
      have hsame : Table.Keeps t.tab[i] { t.tab[i] with implicit := false } := by
        have hvalid := ht.tab _ (List.getElem_mem hlt)
        exact ⟨⟨hvalid.keys, hvalid.arr, hvalid.tab⟩, rfl⟩
      exact ⟨by simpa using hlt, ht.set_tab hdest hsame⟩
    · exact hkey.stops _
  case h_3 => exact hkey.stops _

theorem createKeyarrayInTable_meets (ht : t.Valid) (hkey : keytok.In text) (kind : Kind) :
    Meets (Stop.Names text) (fun p => p.1 < p.2.arr.length ∧ t.Keeps p.2) (createKeyarrayInTable t keytok kind) := by
  refine (normalizeKey_meets hkey).bind fun newkey _ => ?_
  split
  case isTrue => exact hkey.stops _
  case isFalse hnone =>
    refine ⟨?_, ht.add_arr (Option.not_isSome_iff_eq_none.mp hnone) (Arr.valid_empty newkey kind) rfl, rfl⟩
    rw [List.length_append]
    exact Nat.lt_succ_self _

end Creating

/-! ## Work through pointers -/

/-- A pointer, as the steps from a table, that points to a table of a kind. -/
def Table.At : List Step → (Table → Prop) → Table → Prop
  | [], P, t => P t
  | .tab i :: path, P, t => ∃ s, t.tab[i]? = some s ∧ s.At path P
  | .item i j :: path, P, t => ∃ a s, t.arr[i]? = some a ∧ a.item[j]? = some (.tab s) ∧ s.At path P

theorem Table.At.append {path rest : List Step} {P : Table → Prop} {t : Table} (h : t.At path fun s => s.At rest P) :
    t.At (path ++ rest) P := by
  induction path generalizing t with
  | nil => exact h
  | cons step path ih =>
    cases step with
    | tab i =>
      obtain ⟨s, hs, hat⟩ := h
      exact ⟨s, hs, ih hat⟩
    | item i j =>
      obtain ⟨a, s, ha, hs, hat⟩ := h
      exact ⟨a, s, ha, hs, ih hat⟩

theorem Table.At.imp {path : List Step} {P Q : Table → Prop} (hPQ : ∀ s, P s → Q s) {t : Table} (h : t.At path P) :
    t.At path Q := by
  induction path generalizing t with
  | nil => exact hPQ t h
  | cons step path ih =>
    cases step with
    | tab i =>
      obtain ⟨s, hs, hat⟩ := h
      exact ⟨s, hs, ih hat⟩
    | item i j =>
      obtain ⟨a, s, ha, hs, hat⟩ := h
      exact ⟨a, s, ha, hs, ih hat⟩

/-- What holds whatever the table is. -/
theorem Table.At.reached {path : List Step} {p : Prop} {t : Table} (h : t.At path fun _ => p) : p := by
  induction path generalizing t with
  | nil => exact h
  | cons step path ih =>
    cases step with
    | tab i =>
      obtain ⟨s, -, hat⟩ := h
      exact ih hat
    | item i j =>
      obtain ⟨a, s, -, -, hat⟩ := h
      exact ih hat

section Pointers

variable {α : Type} {E : Stop → Prop} {Q : α → Table → Prop} {t : Table}

theorem Table.Valid.onTab (ht : t.Valid) {i : Nat} {s : Table} (hs : t.tab[i]? = some s) {f : Table → Except Stop (α × Table)}
    (hf : s.Valid → Meets E (fun p => s.Keeps p.2 ∧ Q p.1 p.2) (f s)) :
    Meets E (fun p => t.Keeps p.2 ∧ ∃ s, p.2.tab[i]? = some s ∧ Q p.1 s) (t.onTab i f) := by
  rw [Table.onTab, hs]
  refine (hf (ht.tab s (List.mem_of_getElem? hs))).ret fun p hp => ⟨ht.set_tab hs hp.1, p.2, ?_, hp.2⟩
  exact List.getElem?_set_self (List.getElem?_eq_some_iff.mp hs).1

theorem Table.Valid.onArr (ht : t.Valid) {i : Nat} {a : Arr} (ha : t.arr[i]? = some a) {R : α → Arr → Prop}
    {f : Arr → Except Stop (α × Arr)} (hf : a.Valid → Meets E (fun p => a.Keeps p.2 ∧ R p.1 p.2) (f a)) :
    Meets E (fun p => t.Keeps p.2 ∧ ∃ a, p.2.arr[i]? = some a ∧ R p.1 a) (t.onArr i f) := by
  rw [Table.onArr, ha]
  refine (hf (ht.arr a (List.mem_of_getElem? ha))).ret fun p hp => ⟨ht.set_arr ha hp.1, p.2, ?_, hp.2⟩
  exact List.getElem?_set_self (List.getElem?_eq_some_iff.mp ha).1

theorem Arr.Valid.onItem {a : Arr} (ha : a.Valid) {j : Nat} {s : Table} (hs : a.item[j]? = some (.tab s))
    {f : Table → Except Stop (α × Table)} (hf : s.Valid → Meets E (fun p => s.Keeps p.2 ∧ Q p.1 p.2) (f s)) :
    Meets E (fun p => a.Keeps p.2 ∧ ∃ s, p.2.item[j]? = some (.tab s) ∧ Q p.1 s) (a.onItem j f) := by
  have hvalid : s.Valid := by
    cases ha.item _ (List.mem_of_getElem? hs) with
    | tab h => exact h
  rw [Arr.onItem, hs]
  refine (hf hvalid).ret fun p hp => ⟨ha.set_item hs hp.1, p.2, ?_, hp.2⟩
  exact List.getElem?_set_self (List.getElem?_eq_some_iff.mp hs).1

/-- Work on the table that a pointer points to keeps the pointer. -/
theorem Table.Valid.onPath {path : List Step} {f : Table → Except Stop (α × Table)}
    (hf : ∀ s, s.Valid → Meets E (fun p => s.Keeps p.2 ∧ Q p.1 p.2) (f s)) (ht : t.Valid) (hat : t.At path fun _ => True) :
    Meets E (fun p => t.Keeps p.2 ∧ p.2.At path (Q p.1)) (Table.onPath path f t) := by
  induction path generalizing t with
  | nil => exact hf t ht
  | cons step path ih =>
    cases step with
    | tab i =>
      obtain ⟨s, hs, hat⟩ := hat
      exact ht.onTab (Q := fun a s => s.At path (Q a)) hs fun hvalid => ih hvalid hat
    | item i j =>
      obtain ⟨a, s, ha, hs, hat⟩ := hat
      refine (ht.onArr (R := fun x a => ∃ s, a.item[j]? = some (.tab s) ∧ s.At path (Q x)) ha fun hvalid => ?_).post ?_
      · exact hvalid.onItem (Q := fun a s => s.At path (Q a)) hs fun hvalid => ih hvalid hat
      · rintro p ⟨hkeeps, a', ha', s', hs', hat'⟩
        exact ⟨hkeeps, a', s', ha', hs', hat'⟩

end Pointers

end Yagips.Toml
