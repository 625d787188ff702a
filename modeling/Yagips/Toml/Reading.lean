import Yagips.Config.Toml
import Yagips.Toml.RoundTrip

/-!
# What a document says is read from its table

Through the accessors, every string, number and boolean of a document is found in the table it is parsed to,
under its key and in its place, and under no other keys anything is.
-/
namespace Yagips.Toml

open Yagips.Lib
open Yagips.Config.Toml (tomlValueInt tomlValueBool tomlValueInt_toString)

/-- What a table has under a key, for `toml_table_unparsed`, `toml_table_array` or `toml_table_table`. -/
def Table.get (t : Table) (key : Bytes) : Option Item :=
  match checkKey t key with
  | some (.kval i) => t.kval[i]?.map fun kv => .val kv.val
  | some (.arr i) => t.arr[i]?.map .arr
  | some (.tab i) => t.tab[i]?.map .tab
  | none => none

/-- What the accessors convert a text to. -/
def Scalar.In (raw : Bytes) : Scalar → Prop
  | .string s => tomlValueString raw = some s.val
  | .int i => tomlValueInt (some raw) = some i
  | .bool b => tomlValueBool (some raw) = some b

mutual

def Value.In : Value → Item → Prop
  | .scalar s, .val raw => s.In raw
  | .array elems, .arr a => elemsIn elems a.item
  | .table entries, .tab t => (∀ x, x ∈ t.keys ↔ x ∈ entries.map fun e => cstr e.1.val) ∧ entriesIn entries t
  | _, _ => False

def elemsIn : List Value → List Item → Prop
  | [], [] => True
  | v :: elems, i :: items => v.In i ∧ elemsIn elems items
  | _, _ => False

def entriesIn : List (Text × Value) → Table → Prop
  | [], _ => True
  | (key, v) :: entries, t => (∃ item, t.get key.val = some item ∧ v.In item) ∧ entriesIn entries t

end

/-- The keys of a body, as their readers see them. -/
def Body.keys : Body → List Bytes
  | .mk entries parts => (entries.map fun e => cstr e.1.val) ++ parts.map fun p => cstr p.key.val

mutual

def Body.In : Body → Table → Prop
  | .mk entries parts, t => (∀ x, x ∈ t.keys ↔ x ∈ (Body.mk entries parts).keys) ∧ entriesIn entries t ∧ partsIn parts t

def Part.In : Part → Item → Prop
  | .table _ body, .tab t => body.In t
  | .tables _ bodies, .arr a => bodiesIn bodies a.item
  | _, _ => False

def bodiesIn : List Body → List Item → Prop
  | [], [] => True
  | body :: bodies, .tab t :: items => body.In t ∧ bodiesIn bodies items
  | _, _ => False

def partsIn : List Part → Table → Prop
  | [], _ => True
  | part :: parts, t => (∃ item, t.get part.key.val = some item ∧ part.In item) ∧ partsIn parts t

end

/-- A scalar is in a table as a value that has not been converted. -/
theorem Value.scalar_in {s : Scalar} {item : Item} (h : (Value.scalar s).In item) : ∃ raw, item = .val raw ∧ s.In raw := by
  cases item with
  | val raw =>
    rw [Value.In] at h
    exact ⟨raw, rfl, h⟩
  | arr a =>
    rw [Value.In] at h
    · cases h
    all_goals simp
  | tab t =>
    rw [Value.In] at h
    · cases h
    all_goals simp

/-- A table is under its key as a table, an array of tables as an array. -/
theorem Part.table_in {key : Text} {body : Body} {item : Item} (h : (Part.table key body).In item) : ∃ t, item = .tab t ∧ body.In t := by
  cases item with
  | tab t =>
    rw [Part.In] at h
    exact ⟨t, rfl, h⟩
  | val raw =>
    rw [Part.In] at h
    · cases h
    all_goals simp
  | arr a =>
    rw [Part.In] at h
    · cases h
    all_goals simp

theorem Part.tables_in {key : Text} {bodies : List Body} {item : Item} (h : (Part.tables key bodies).In item) :
    ∃ a, item = .arr a ∧ bodiesIn bodies a.item := by
  cases item with
  | arr a =>
    rw [Part.In] at h
    exact ⟨a, rfl, h⟩
  | val raw =>
    rw [Part.In] at h
    · cases h
    all_goals simp
  | tab t =>
    rw [Part.In] at h
    · cases h
    all_goals simp

/-- The elements of an array of tables are the tables, in their order. -/
theorem bodiesIn_forall₂ {bodies : List Body} {items : List Item} (h : bodiesIn bodies items) :
    List.Forall₂ (fun body item => ∃ t, item = .tab t ∧ body.In t) bodies items := by
  induction bodies generalizing items with
  | nil =>
    cases items with
    | nil => exact .nil
    | cons item items =>
      rw [bodiesIn] at h
      · cases h
      all_goals simp
  | cons body bodies ih =>
    cases items with
    | nil =>
      rw [bodiesIn] at h
      · cases h
      all_goals simp
    | cons item items =>
      cases item with
      | tab t =>
        rw [bodiesIn] at h
        exact .cons ⟨t, rfl, h.1⟩ (ih h.2)
      | val raw =>
        rw [bodiesIn] at h
        · cases h
        all_goals simp
      | arr a =>
        rw [bodiesIn] at h
        · cases h
        all_goals simp

/-! ## New entries are found -/

/-- A table with one more entry. -/
inductive Table.Adds (t : Table) (key : Bytes) : Item → Table → Prop where
  | val (v : Bytes) : Adds t key (.val v) { t with kval := t.kval ++ [{ key, val := v }] }
  | arr {a : Arr} (h : a.key = key) : Adds t key (.arr a) { t with arr := t.arr ++ [a] }
  | tab {u : Table} (h : u.key = key) : Adds t key (.tab u) { t with tab := t.tab ++ [u] }

theorem checkKey_add_kval {t : Table} {key : Bytes} (hnew : checkKey t key = none) (val : Bytes) :
    checkKey { t with kval := t.kval ++ [{ key, val }] } key = some (.kval t.kval.length) := by
  have hkval := find_append_new (f := Keyval.key) (x := { key, val }) (checkKey_eq_none_iff.mp hnew).1 rfl
  rw [checkKey, hkval]

/-- What is under a key is the entry that its kind has there. -/
theorem Table.get_cases {t : Table} {key : Bytes} {item : Item} (h : t.get key = some item) :
    (∃ i kv, (t.kval.findIdx? fun kv => sameKey key kv.key) = some i ∧ t.kval[i]? = some kv ∧ item = .val kv.val) ∨
      (∃ i a, tomlTableArray t key = some i ∧ t.arr[i]? = some a ∧ item = .arr a) ∨
      ∃ i u, tomlTableTable t key = some i ∧ t.tab[i]? = some u ∧ item = .tab u := by
  rw [Table.get] at h
  cases hfound : checkKey t key with
  | none =>
    rw [hfound] at h
    cases h
  | some found =>
    rw [hfound] at h
    cases found with
    | kval i =>
      obtain ⟨kv, hkv, rfl⟩ := Option.map_eq_some_iff.mp h
      exact .inl ⟨i, kv, checkKey_kval hfound, hkv, rfl⟩
    | arr i =>
      obtain ⟨a, ha, rfl⟩ := Option.map_eq_some_iff.mp h
      exact .inr (.inl ⟨i, a, checkKey_arr hfound, ha, rfl⟩)
    | tab i =>
      obtain ⟨u, hu, rfl⟩ := Option.map_eq_some_iff.mp h
      exact .inr (.inr ⟨i, u, checkKey_tab hfound, hu, rfl⟩)

section Adds

variable {t t' : Table} {key : Bytes} {item : Item}

theorem Table.Adds.get_same (h : t.Adds key item t') (hnew : checkKey t key = none) : t'.get key = some item := by
  cases h with
  | val v =>
    rw [Table.get, checkKey_add_kval hnew]
    dsimp only
    rw [List.getElem?_concat_length]
    rfl
  | arr ha =>
    rw [Table.get, checkKey_add_arr hnew ha]
    dsimp only
    rw [List.getElem?_concat_length]
    rfl
  | tab hu =>
    rw [Table.get, checkKey_add_tab hnew hu]
    dsimp only
    rw [List.getElem?_concat_length]
    rfl

theorem Table.Adds.checkKey_other (h : t.Adds key item t') {k : Bytes} (hne : cstr k ≠ cstr key) : checkKey t' k = checkKey t k := by
  cases h with
  | val v => simp [checkKey, tomlTableArray, tomlTableTable, List.findIdx?_append, sameKey, hne]
  | arr ha => simp [checkKey, tomlTableArray, tomlTableTable, List.findIdx?_append, sameKey, ha, hne]
  | tab hu => simp [checkKey, tomlTableArray, tomlTableTable, List.findIdx?_append, sameKey, hu, hne]

theorem Table.Adds.get_other (h : t.Adds key item t') {k : Bytes} (hne : cstr k ≠ cstr key) : t'.get k = t.get k := by
  rw [Table.get, Table.get, h.checkKey_other hne]
  cases hfound : checkKey t k with
  | none => rfl
  | some found =>
    cases found with
    | kval i =>
      have hlt := (List.findIdx?_eq_some_iff_getElem.mp (checkKey_kval hfound)).1
      cases h with
      | val v =>
        dsimp only
        rw [List.getElem?_append_left hlt]
      | arr => rfl
      | tab => rfl
    | arr i =>
      have hlt := tomlTableArray_lt (checkKey_arr hfound)
      cases h with
      | val v => rfl
      | arr =>
        dsimp only
        rw [List.getElem?_append_left hlt]
      | tab => rfl
    | tab i =>
      have hlt := tomlTableTable_lt (checkKey_tab hfound)
      cases h with
      | val v => rfl
      | arr => rfl
      | tab =>
        dsimp only
        rw [List.getElem?_append_left hlt]

end Adds

/-- What stands under a key for a value. -/
def Value.under (key : Bytes) : Value → Item
  | .scalar s => .val s.print
  | .array elems => .arr (Arr.pushAll { key } elems)
  | .table entries => .tab { Table.putAll { key } entries with readonly := true }

theorem Value.item_eq (v : Value) : v.item = v.under [] := by
  cases v <;> rw [Value.item, Value.under]

theorem Table.put_adds (t : Table) (key : Bytes) (v : Value) : t.Adds key (v.under key) (t.put key v) := by
  cases v with
  | scalar s =>
    rw [Table.put, Value.under]
    exact .val _
  | array elems =>
    rw [Table.put, Value.under]
    exact .arr (Arr.pushAll_key elems _)
  | table entries =>
    rw [Table.put, Value.under]
    exact .tab (Table.putAll_key entries _)

theorem Table.get_putAll_other {entries : List (Text × Value)} {t : Table} {k : Bytes}
    (hk : cstr k ∉ entries.map fun e => cstr e.1.val) : (t.putAll entries).get k = t.get k := by
  induction entries generalizing t with
  | nil => rw [Table.putAll]
  | cons e entries ih =>
    obtain ⟨key, v⟩ := e
    rw [List.map_cons, List.mem_cons, not_or] at hk
    rw [Table.putAll, ih hk.2, (t.put_adds key.val v).get_other hk.1]

theorem Table.Takes.get {entries : List (Text × Value)} {t : Table} (h : t.Takes entries) :
    ∀ e ∈ entries, (t.putAll entries).get e.1.val = some (e.2.under e.1.val) := by
  induction entries generalizing t with
  | nil => simp
  | cons e entries ih =>
    obtain ⟨key, v⟩ := e
    rw [Table.putAll]
    refine List.forall_mem_cons.mpr ⟨?_, ih h.tail⟩
    rw [Table.get_putAll_other (List.nodup_cons.mp h.keys).1]
    exact (t.put_adds key.val v).get_same h.head

/-! ## Values -/

theorem Scalar.in_print (s : Scalar) : s.In s.print := by
  cases s with
  | string s => exact tomlValueString_quote s.property
  | int i => exact tomlValueInt_toString i
  | bool b =>
    cases b with
    | true => exact (by decide : tomlValueBool (some (ascii "true")) = some true)
    | false => exact (by decide : tomlValueBool (some (ascii "false")) = some false)

theorem Arr.pushAll_item (elems : List Value) (arr : Arr) : (arr.pushAll elems).item = arr.item ++ elems.map Value.item := by
  induction elems generalizing arr with
  | nil => rw [Arr.pushAll, List.map_nil, List.append_nil]
  | cons v elems ih => rw [Arr.pushAll, ih, Arr.push, List.map_cons, List.append_assoc, List.singleton_append]

theorem elemsIn_items {elems : List Value} (h : ∀ v ∈ elems, v.In v.item) : elemsIn elems (elems.map Value.item) := by
  induction elems with
  | nil => simp [elemsIn]
  | cons v elems ih =>
    rw [List.map_cons, elemsIn]
    exact ⟨h v List.mem_cons_self, ih fun w hw => h w (List.mem_cons_of_mem v hw)⟩

theorem entriesIn_iff {entries : List (Text × Value)} {t : Table} :
    entriesIn entries t ↔ ∀ e ∈ entries, ∃ item, t.get e.1.val = some item ∧ e.2.In item := by
  induction entries with
  | nil => simp [entriesIn]
  | cons e entries ih =>
    obtain ⟨key, v⟩ := e
    rw [entriesIn, ih, List.forall_mem_cons]

theorem Value.Unique.in_under {v : Value} (h : v.Unique) (key : Bytes) : v.In (v.under key) := by
  induction h generalizing key with
  | scalar s =>
    rw [Value.under, Value.In]
    exact s.in_print
  | array _ ih =>
    rw [Value.under, Value.In, Arr.pushAll_item]
    exact elemsIn_items fun v hv => v.item_eq ▸ ih v hv []
  | @table entries keys _ ih =>
    rw [Value.under, Value.In]
    have htakes : Table.Takes { key } entries := Table.takes_empty keys
    refine ⟨fun x => ?_, entriesIn_iff.mpr fun e he => ⟨_, htakes.get e he, ih e he _⟩⟩
    have hkeys : x ∈ (Table.putAll { key } entries).keys ↔ _ := Table.mem_putAll_keys
    simpa [Table.keys] using hkeys

/-! ## Tables with lines of their own -/

/-- What stands under the key of a part. -/
def Part.item : Part → Item
  | .table key body => .tab (body.build { key := key.val })
  | .tables key bodies => .arr { key := key.val, kind := .table, item := buildBodies bodies }

theorem Table.part_adds (t : Table) (part : Part) : t.Adds part.key.val part.item (part.build t) := by
  cases part with
  | table key body =>
    rw [Part.build, Part.item, Part.key]
    exact .tab (Body.build_key body _)
  | tables key bodies =>
    rw [Part.build, Part.item, Part.key]
    exact .arr rfl

theorem Table.get_buildParts_other {parts : List Part} {t : Table} {k : Bytes} (hk : cstr k ∉ parts.map fun p => cstr p.key.val) :
    (buildParts parts t).get k = t.get k := by
  induction parts generalizing t with
  | nil => rw [buildParts]
  | cons part parts ih =>
    rw [List.map_cons, List.mem_cons, not_or] at hk
    rw [buildParts, ih hk.2, (t.part_adds part).get_other hk.1]

theorem Table.get_buildParts {parts : List Part} {t : Table} (hnew : ∀ part ∈ parts, cstr part.key.val ∉ t.keys)
    (hkeys : (parts.map fun p => cstr p.key.val).Nodup) : ∀ part ∈ parts, (buildParts parts t).get part.key.val = some part.item := by
  induction parts generalizing t with
  | nil => simp
  | cons part parts ih =>
    have hnodup := List.nodup_cons.mp hkeys
    rw [buildParts]
    refine List.forall_mem_cons.mpr ⟨?_, ih (fun q hq hin => ?_) hnodup.2⟩
    · rw [Table.get_buildParts_other hnodup.1]
      exact (t.part_adds part).get_same (checkKey_none_iff.mpr (hnew part List.mem_cons_self))
    · rcases Part.mem_build_keys.mp hin with hold | heq
      · exact hnew q (List.mem_cons_of_mem part hq) hold
      · exact hnodup.1 (List.mem_map.mpr ⟨q, hq, heq⟩)

theorem mem_buildParts_keys {parts : List Part} {t : Table} {x : Bytes} :
    x ∈ (buildParts parts t).keys ↔ x ∈ t.keys ∨ x ∈ parts.map fun p => cstr p.key.val := by
  induction parts generalizing t with
  | nil => simp [buildParts]
  | cons part parts ih => rw [buildParts, ih, Part.mem_build_keys, List.map_cons, List.mem_cons, or_assoc]

theorem partsIn_iff {parts : List Part} {t : Table} :
    partsIn parts t ↔ ∀ part ∈ parts, ∃ item, t.get part.key.val = some item ∧ part.In item := by
  induction parts with
  | nil => simp [partsIn]
  | cons part parts ih => rw [partsIn, ih, List.forall_mem_cons]

theorem bodiesIn_build {bodies : List Body} (h : ∀ body ∈ bodies, body.In (body.build anonymous)) :
    bodiesIn bodies (buildBodies bodies) := by
  induction bodies with
  | nil => simp [bodiesIn, buildBodies]
  | cons body bodies ih =>
    rw [buildBodies, bodiesIn]
    exact ⟨h body List.mem_cons_self, ih fun b hb => h b (List.mem_cons_of_mem body hb)⟩

/-- All that a document says is in the table it stands for. -/
theorem Body.Fits.in_build {depth : Nat} {body : Body} (h : body.Fits depth) {s : Table} (hopen : s.readonly = false)
    (hempty : s.keys = []) :
    body.In (body.build s) := by
  induction h generalizing s with
  | @mk depth entries parts keys values _ _ _ _ table tables =>
    obtain ⟨hentries, hparts, hdisjoint⟩ := List.nodup_append.mp keys
    have hnone : ∀ x, x ∉ s.keys := fun x hx => absurd (hempty ▸ hx) List.not_mem_nil
    have htakes : s.Takes entries := ⟨hopen, fun e _ => hnone _, hentries⟩
    have hnew : ∀ part ∈ parts, cstr part.key.val ∉ (s.putAll entries).keys := by
      intro part hpart hin
      rcases Table.mem_putAll_keys.mp hin with hold | hentry
      · exact hnone _ hold
      · exact hdisjoint _ hentry _ (List.mem_map.mpr ⟨part, hpart, rfl⟩) rfl
    rw [Body.build, Body.In]
    refine ⟨fun x => ?_, entriesIn_iff.mpr fun e he => ⟨e.2.under e.1.val, ?_, (values e he).in_under _⟩,
      partsIn_iff.mpr fun part hpart => ?_⟩
    · rw [mem_buildParts_keys, Table.mem_putAll_keys, hempty, Body.keys, List.mem_append]
      simp
    · rw [Table.get_buildParts_other]
      · exact htakes.get e he
      · exact fun hin => hdisjoint _ (List.mem_map.mpr ⟨e, he, rfl⟩) _ hin rfl
    · refine ⟨part.item, Table.get_buildParts hnew hparts part hpart, ?_⟩
      cases part with
      | table key body =>
        rw [Part.item, Part.In]
        exact table key body hpart rfl rfl
      | tables key bodies =>
        rw [Part.item, Part.In]
        exact bodiesIn_build fun body hbody => tables key bodies hpart body hbody rfl rfl

/-! ## Files -/

theorem escapeByte_no_nul (c : UInt8) : 0 ∉ escapeByte c := by
  revert c
  apply forall_byte
  decide +kernel

theorem quote_no_nul (s : Bytes) : 0 ∉ quote s := by
  have hbody : 0 ∉ s.flatMap escapeByte := by
    rw [List.mem_flatMap]
    rintro ⟨c, -, hc⟩
    exact escapeByte_no_nul c hc
  simp [quote, hbody]

theorem isBare_no_nul {c : UInt8} (hc : isBare c = true) : c ≠ 0 := by
  rintro rfl
  exact absurd hc (by decide)

theorem Text.no_nul (key : Text) : 0 ∉ key.printKey := by
  rw [Text.printKey]
  split
  case isTrue hword =>
    obtain ⟨c, p, hkey, -, hbare⟩ := isWord_spec hword
    rw [hkey]
    exact fun hin => isBare_no_nul (hbare 0 hin) rfl
  case isFalse => exact quote_no_nul key.val

theorem Scalar.no_nul (s : Scalar) : 0 ∉ s.print := by
  cases s with
  | string s => exact quote_no_nul s.val
  | int i =>
    obtain ⟨sign, digits, htext, hsign, -, hdigits⟩ := number_text i
    rw [Scalar.print, htext, List.mem_append]
    rintro (hin | hin)
    · rcases hsign with rfl | rfl
      · cases hin
      · exact absurd hin (by decide)
    · exact absurd (hdigits 0 hin) (by decide)
  | bool b =>
    cases b with
    | true => exact (by decide : 0 ∉ ascii "true")
    | false => exact (by decide : 0 ∉ ascii "false")

theorem moreElems_no_nul {elems : List Value} (h : ∀ v ∈ elems, 0 ∉ v.print) : 0 ∉ moreElems elems := by
  induction elems with
  | nil => rw [moreElems]; decide
  | cons v elems ih =>
    have hsep : (0 : UInt8) ∉ ascii ", " := by decide
    rw [moreElems, List.mem_append, List.mem_append]
    rintro (hin | hin | hin)
    · exact hsep hin
    · exact h v List.mem_cons_self hin
    · exact ih (fun w hw => h w (List.mem_cons_of_mem v hw)) hin

theorem moreEntries_no_nul {entries : List (Text × Value)} (h : ∀ e ∈ entries, 0 ∉ e.2.print) : 0 ∉ moreEntries entries := by
  induction entries with
  | nil => rw [moreEntries]; decide
  | cons e entries ih =>
    obtain ⟨key, v⟩ := e
    have hsep : (0 : UInt8) ∉ ascii ", " := by decide
    have hequal : (0 : UInt8) ∉ ascii " = " := by decide
    rw [moreEntries]
    simp only [List.mem_append]
    rintro (hin | hin | hin | hin | hin)
    · exact hsep hin
    · exact key.no_nul hin
    · exact hequal hin
    · exact h _ List.mem_cons_self hin
    · exact ih (fun w hw => h w (List.mem_cons_of_mem _ hw)) hin

theorem Value.Unique.no_nul {v : Value} (h : v.Unique) : 0 ∉ v.print := by
  induction h with
  | scalar s =>
    rw [Value.print]
    exact s.no_nul
  | @array elems _ ih =>
    have hopen : (0 : UInt8) ∉ ascii "[" := by decide
    rw [Value.print, List.mem_append]
    rintro (hin | hin)
    · exact hopen hin
    · cases elems with
      | nil =>
        rw [firstElems] at hin
        exact absurd hin (by decide)
      | cons v elems =>
        rw [firstElems, List.mem_append] at hin
        rcases hin with hin | hin
        · exact ih v List.mem_cons_self hin
        · exact moreElems_no_nul (fun w hw => ih w (List.mem_cons_of_mem v hw)) hin
  | @table entries _ _ ih =>
    have hopen : (0 : UInt8) ∉ ascii "\x7b" := by decide
    have hequal : (0 : UInt8) ∉ ascii " = " := by decide
    rw [Value.print, List.mem_append]
    rintro (hin | hin)
    · exact hopen hin
    · cases entries with
      | nil =>
        rw [firstEntries] at hin
        exact absurd hin (by decide)
      | cons e entries =>
        obtain ⟨key, v⟩ := e
        rw [firstEntries] at hin
        simp only [List.mem_append] at hin
        rcases hin with hin | hin | hin | hin
        · exact key.no_nul hin
        · exact hequal hin
        · exact ih _ List.mem_cons_self hin
        · exact moreEntries_no_nul (fun w hw => ih w (List.mem_cons_of_mem _ hw)) hin

theorem printPath_no_nul (keys : List Text) : 0 ∉ printPath keys := by
  have hdot : (0 : UInt8) ∉ ascii "." := by decide
  have hmore : ∀ keys, 0 ∉ morePath keys := by
    intro keys hin
    obtain ⟨key, -, hkey⟩ := List.mem_flatMap.mp hin
    rcases List.mem_append.mp hkey with hin | hin
    · exact hdot hin
    · exact key.no_nul hin
  cases keys with
  | nil => exact List.not_mem_nil
  | cons key keys =>
    rw [printPath, List.mem_append]
    rintro (hin | hin)
    · exact key.no_nul hin
    · exact hmore keys hin

theorem printLines_no_nul {entries : List (Text × Value)} (h : ∀ e ∈ entries, 0 ∉ e.2.print) : 0 ∉ printLines entries := by
  have hequal : (0 : UInt8) ∉ ascii " = " := by decide
  have hline : (0 : UInt8) ∉ ascii "\n" := by decide
  intro hin
  obtain ⟨e, he, hin⟩ := List.mem_flatMap.mp hin
  simp only [List.mem_append] at hin
  rcases hin with hin | hin | hin | hin
  · exact e.1.no_nul hin
  · exact hequal hin
  · exact h e he hin
  · exact hline hin

theorem printBodies_no_nul {bodies : List Body} {keys : List Text} (h : ∀ body ∈ bodies, 0 ∉ body.print keys) :
    0 ∉ printBodies keys bodies := by
  induction bodies with
  | nil =>
    rw [printBodies]
    exact List.not_mem_nil
  | cons body bodies ih =>
    have hopen : (0 : UInt8) ∉ ascii "[[" := by decide
    have hclose : (0 : UInt8) ∉ ascii "]]\n" := by decide
    rw [printBodies]
    simp only [List.mem_append]
    rintro (hin | hin | hin | hin | hin)
    · exact hopen hin
    · exact printPath_no_nul keys hin
    · exact hclose hin
    · exact h body List.mem_cons_self hin
    · exact ih (fun b hb => h b (List.mem_cons_of_mem body hb)) hin

theorem printParts_no_nul {parts : List Part} {keys : List Text} (h : ∀ part ∈ parts, 0 ∉ part.print keys) :
    0 ∉ printParts keys parts := by
  induction parts with
  | nil =>
    rw [printParts]
    exact List.not_mem_nil
  | cons part parts ih =>
    rw [printParts, List.mem_append]
    rintro (hin | hin)
    · exact h part List.mem_cons_self hin
    · exact ih (fun q hq => h q (List.mem_cons_of_mem part hq)) hin

/-- No byte of a document ends the text that is read of its file. -/
theorem Body.Fits.no_nul {depth : Nat} {body : Body} (h : body.Fits depth) (keys : List Text) : 0 ∉ body.print keys := by
  induction h generalizing keys with
  | @mk depth entries parts _ values _ _ _ _ table tables =>
    rw [Body.print, List.mem_append]
    rintro (hin | hin)
    · exact printLines_no_nul (fun e he => (values e he).no_nul) hin
    · refine printParts_no_nul (fun part hpart => ?_) hin
      cases part with
      | table key body =>
        have hopen : (0 : UInt8) ∉ ascii "[" := by decide
        have hclose : (0 : UInt8) ∉ ascii "]\n" := by decide
        rw [Part.print]
        simp only [List.mem_append]
        rintro (hin | hin | hin | hin)
        · exact hopen hin
        · exact printPath_no_nul _ hin
        · exact hclose hin
        · exact table key body hpart _ hin
      | tables key bodies =>
        rw [Part.print]
        exact printBodies_no_nul fun body hbody => tables key bodies hpart body hbody _

/-- A file with a document is parsed to the table that it stands for, and all that it says is read there. -/
theorem document_read {document : Body} (h : document.Fits 0) :
    tomlParseFile (document.print []) = .ok (document.build {}) ∧ document.In (document.build {}) := by
  have hcstr : cstr (document.print []) = document.print [] := cstr_eq_self_iff.mpr (h.no_nul [])
  refine ⟨?_, h.in_build rfl rfl⟩
  rw [tomlParseFile, hcstr]
  exact tomlParse_print h

theorem Grouped.of_ascii {s : Bytes} (h : s.all (· < 0x80) = true) : Grouped s := by
  induction s with
  | nil => exact .nil
  | cons c s ih =>
    obtain ⟨hc, hs⟩ := Bool.and_eq_true_iff.mp h
    exact .byte (of_decide_eq_true hc) (ih hs)

/-- The address and the port of the gate server, in their section. -/
def gateserverDocument : Body :=
  .mk [] [.table ⟨ascii "dispatch", .of_ascii rfl⟩ (.mk
    [(⟨ascii "gateserverIp", .of_ascii rfl⟩, .scalar (.string ⟨ascii "10.0.0.1", .of_ascii rfl⟩)),
      (⟨ascii "gateserverPort", .of_ascii rfl⟩, .scalar (.int 22101))] [])]

theorem gateserverDocument_fits : gateserverDocument.Fits 0 := by
  refine .mk (by decide) (by simp) (by decide) (by simp) ?_ (by simp)
  intro key body hin
  cases List.mem_singleton.mp hin
  refine .mk (by decide) ?_ (fun h => absurd rfl h) (by simp) (by simp) (by simp)
  exact List.forall_mem_cons.mpr ⟨.scalar _, List.forall_mem_singleton.mpr (.scalar _)⟩

theorem document_read_gateserver : tomlParseFile (gateserverDocument.print []) = .ok (gateserverDocument.build {}) ∧
    gateserverDocument.In (gateserverDocument.build {}) :=
  document_read gateserverDocument_fits

end Yagips.Toml
