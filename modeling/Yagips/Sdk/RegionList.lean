import Yagips.Sdk.ServedRegion

/-!
# The list of regions

`getQueryRegionListHttpRsp` lists the regions of a file that are for the version of a client, or one of its own
where none are configured.
-/
namespace Yagips.Sdk.RegionList

open Yagips.Lib
open Yagips.Toml (Table Item Text Value Body Part Arr tomlParseFile bodiesIn partsIn_iff tomlTableTable tomlTableArray)
open Yagips.Config.Toml (TomlTable)
open Yagips.Config.ConfigFile
open Yagips.Sdk.Body
open Yagips.Sdk.ServedRegion (dispatch_grouped address_grouped)
open Yagips.Sdk.CurrRegion (Version Client Region scanVersion)

/-! ## The configuration -/

structure RegionListEntry where
  name : Option Bytes
  title : Option Bytes
  url : Option Bytes
  type : Option Bytes
  version : Option Bytes

def loadEntry (tab : TomlTable) : RegionListEntry where
  name := tomlC.tableString tab "name"
  title := tomlC.tableString tab "title"
  url := tomlC.tableString tab "url"
  type := tomlC.tableString tab "type"
  version := tomlC.tableString tab "version"

/-- `toml_array_table`, which is null where the element is no table. -/
def arrayTable : Item → Option Table
  | .tab t => some t
  | _ => none

/-- `regions` of the section `dispatch`, with memory for all of them; `none` is a null pointer. -/
def loadRegions (root : Table) : Option (List (Option RegionListEntry)) := do
  let dispatch ← root.tab[← tomlTableTable root (ascii "dispatch")]?
  let regions ← dispatch.arr[← tomlTableArray dispatch (ascii "regions")]?
  if regions.item = [] then none else some (regions.item.map fun item => (arrayTable item).map fun t => loadEntry (forget t))

/-! ## The response -/

structure RegionSimpleInfo where
  name : Bytes
  title : Bytes
  type : Bytes
  dispatchUrl : Bytes
  deriving DecidableEq

structure QueryRegionListHttpRsp where
  retcode : Int32
  regionList : List RegionSimpleInfo
  deriving DecidableEq

/-- `LIVE_MAJOR` and `LIVE_MINOR` are both 5. -/
def Version.valid (v : Version) : Bool :=
  v.iclient.isSome && v.iregion.isSome && !(v.major < 1 || v.major > 5) && !(v.major = 1 && v.minor > 6) &&
    !(v.major = 5 && v.minor > 5) && !(v.minor > 8) && !(v.patch > 54) && !(v.patch > 1 && v.patch < 50)

/-- The version of a request, if it can be read and is one. -/
def readRequest (json : JsonC) (tokener : Bool) (post : Option Bytes) : Option Version := do
  let post ← post
  if !tokener then none
  else
    match json.parse (cstr post) with
    | some (.object fields) => do
      let v ← scanVersion (cstr (← json.getString (← getEx fields "version")))
      if Version.valid v then some v else none
    | _ => none

def decimal (n : Nat) : Bytes := ascii (toString n)

/-- `"%d.%d"` of a version that is valid. -/
def shortVersion (v : Version) : Bytes := decimal v.major.toNat ++ ascii "." ++ decimal v.minor.toNat

def ownUrl : Bytes := ascii "http://osusadispatch.yuanshen.com/query_curr_region"

section Response

variable (package : Bytes)

/-- A region of its own, where none are configured. -/
def ownRegion : RegionSimpleInfo where
  name := ascii "os_usa"
  title := package
  type := ascii "DEV_PUBLIC"
  dispatchUrl := ownUrl

def message (i : Nat) (e : RegionListEntry) : RegionSimpleInfo where
  name := e.name.getD (if i = 0 then ascii "os_usa" else ascii "os_usa." ++ decimal i)
  title := e.title.getD (if i = 0 then package else package ++ ascii " " ++ decimal i)
  type := e.type.getD (ascii "DEV_PUBLIC")
  dispatchUrl := e.url.getD ownUrl

/-- The version of a region is that of the client, if it has one. -/
def sameVersion (v : Version) (e : RegionListEntry) : Bool :=
  match e.version with
  | some version => strncmpEqual (shortVersion v) version 1024
  | none => true

/-- The loop over the configured regions, from the one at `i`. -/
def regionLoop (v : Version) : Nat → List (Option RegionListEntry) → List RegionSimpleInfo
  | _, [] => []
  | i, none :: regions => regionLoop v (i + 1) regions
  | i, some e :: regions =>
    if i = 0 ∧ e.url = none then regionLoop v (i + 1) regions
    else if !sameVersion v e then regionLoop v (i + 1) regions
    else message package i e :: regionLoop v (i + 1) regions

def regionList (v : Version) (regions : Option (List (Option RegionListEntry))) : List RegionSimpleInfo :=
  match regions with
  | none | some [] => [ownRegion package]
  | some regions => regionLoop package v 0 regions

/-- `getQueryRegionListHttpRsp` up to the seed of the list. -/
def getQueryRegionListHttpRsp (json : JsonC) (tokener : Bool) (regions : Option (List (Option RegionListEntry))) (post : Option Bytes) :
    QueryRegionListHttpRsp :=
  match readRequest json tokener post with
  | none => { retcode := -1, regionList := [] }
  | some v =>
    match regionList package v regions with
    | [] => { retcode := -1, regionList := [] }
    | list => { retcode := 0, regionList := list }

/-! ## What is listed -/

/-- What the loop makes of the region at `i`. -/
def sent (v : Version) (i : Nat) (region : Option RegionListEntry) : Option RegionSimpleInfo :=
  region.bind fun e => if ¬ (i = 0 ∧ e.url = none) ∧ sameVersion v e = true then some (message package i e) else none

variable {package}

theorem regionLoop_eq (v : Version) (i : Nat) (regions : List (Option RegionListEntry)) :
    regionLoop package v i regions = (regions.zipIdx i).filterMap fun p => sent package v p.2 p.1 := by
  induction regions generalizing i with
  | nil => rfl
  | cons region regions ih =>
    rw [List.zipIdx_cons, List.filterMap_cons]
    cases region with
    | none =>
      rw [regionLoop, ih]
      rfl
    | some e =>
      rw [regionLoop, ih, sent, Option.bind_some]
      by_cases hurl : i = 0 ∧ e.url = none
      · rw [if_pos hurl, if_neg fun h => h.1 hurl]
      · cases hversion : sameVersion v e with
        | true => simp [hurl]
        | false => simp [hurl]

end Response

def entryTexts : List (String × (RegionListEntry → Option Bytes)) :=
  [("name", (·.name)), ("title", (·.title)), ("url", (·.url)), ("type", (·.type)), ("version", (·.version))]

/-- A region is configured as its section says, and has nothing that the section has no key for. -/
structure Enters (body : Body) (e : RegionListEntry) : Prop where
  text : ∀ f ∈ entryTexts, ∀ entries parts key s, body = .mk entries parts → name key.val = f.1 →
    (key, Value.scalar (.string s)) ∈ entries → f.2 e = some (cstr s.val)
  silent : ∀ f ∈ entryTexts, (∀ key ∈ body.keys, name key ≠ f.1) → f.2 e = none

theorem unparsed_key {t : Table} {k : String} {raw : Bytes} (h : Config.Toml.tomlTableUnparsed (forget t) k = some raw) :
    ∃ key ∈ t.keys, name key = k := by
  cases t with
  | mk _ _ _ kval arr tab =>
    have hlookup : (kval.map fun kv => (name kv.key, kv.val)).lookup k = some raw := h
    obtain ⟨before, behind, hsplit, -⟩ := List.lookup_eq_some_iff.mp hlookup
    have hmem : (k, raw) ∈ kval.map fun kv => (name kv.key, kv.val) := hsplit ▸ List.mem_append_right _ List.mem_cons_self
    obtain ⟨kv, hkv, heq⟩ := List.mem_map.mp hmem
    have hname : name (cstr kv.key) = name kv.key := name_inj.mpr List.takeWhile_idem
    refine ⟨cstr kv.key, ?_, hname.trans (Prod.mk.inj heq).1⟩
    rw [Table.keys, List.mem_append, List.mem_append]
    exact .inl (.inl (List.mem_map.mpr ⟨kv, hkv, rfl⟩))

theorem loadEntry_enters {body : Body} {t : Table} (hin : body.In t) : Enters body (loadEntry (forget t)) where
  text f hf entries parts key s hbody hkey hentry := by
    subst hbody
    rw [Body.In] at hin
    have hgives := gives_of_in hin.2.1
    revert f
    simp only [entryTexts, List.forall_mem_cons]
    refine ⟨?_, ?_, ?_, ?_, ?_, by simp⟩
    all_goals exact fun hkey => hgives.tableString hkey hentry
  silent f hf hkeys := by
    have hnone : ∀ k, (∀ key ∈ body.keys, name key ≠ k) → tomlC.tableString (forget t) k = none := by
      intro k hk
      rw [Config.Toml.TomlC.tableString]
      cases hraw : Config.Toml.tomlTableUnparsed (forget t) k with
      | none => rfl
      | some raw =>
        obtain ⟨key, hmem, hname⟩ := unparsed_key hraw
        cases body with
        | mk entries parts =>
          rw [Body.In] at hin
          exact absurd hname (hk key ((hin.1 key).mp hmem))
    revert f
    simp only [entryTexts, List.forall_mem_cons]
    refine ⟨?_, ?_, ?_, ?_, ?_, by simp⟩
    all_goals exact hnone _

/-- The regions of a section, in their order. -/
theorem bodiesIn_enters {bodies : List Body} {items : List Item} (h : bodiesIn bodies items) :
    List.Forall₂ (fun body region => ∃ e, region = some e ∧ Enters body e) bodies
      (items.map fun item => (arrayTable item).map fun t => loadEntry (forget t)) := by
  refine List.forall₂_map_right_iff.mpr ((Toml.bodiesIn_forall₂ h).imp ?_)
  rintro body item ⟨t, rfl, hin⟩
  exact ⟨_, rfl, loadEntry_enters hin⟩

/-- The array of the regions in a section of a document. -/
structure Lists (document : Body) (dispatch regions : Text) (bodies : List Body) : Prop where
  named : name dispatch.val = "dispatch" ∧ name regions.val = "regions"
  listed : ∃ entries parts lines sections, document = .mk entries parts ∧ Part.table dispatch (.mk lines sections) ∈ parts ∧
    Part.tables regions bodies ∈ sections

theorem found_congr {t : Table} {key key' : Bytes} (h : name key = name key') :
    tomlTableTable t key = tomlTableTable t key' ∧ tomlTableArray t key = tomlTableArray t key' := by
  have hcstr := name_inj.mp h
  simp only [tomlTableTable, tomlTableArray, Toml.sameKey, hcstr, and_self]

theorem loadRegions_enters {document : Body} {root : Table} (hin : document.In root) {dispatch regions : Text} {bodies : List Body}
    (hlists : Lists document dispatch regions bodies) (hne : bodies ≠ []) : ∃ l, loadRegions root = some l ∧
      List.Forall₂ (fun body region => ∃ e, region = some e ∧ Enters body e) bodies l := by
  obtain ⟨⟨hdispatch, hregions⟩, entries, parts, lines, sections, rfl, hpart, htables⟩ := hlists
  rw [Body.In] at hin
  obtain ⟨item, hget, hitem⟩ := partsIn_iff.mp hin.2.2 _ hpart
  obtain ⟨d, rfl, hsection⟩ := Part.table_in hitem
  obtain ⟨i, kv, -, -, heq⟩ | ⟨i, a, -, -, heq⟩ | ⟨i, d, hi, hd, heq⟩ := Table.get_cases hget
  all_goals cases heq
  rw [Body.In] at hsection
  obtain ⟨item, hget, hitem⟩ := partsIn_iff.mp hsection.2.2 _ htables
  obtain ⟨a, rfl, hbodies⟩ := Part.tables_in hitem
  obtain ⟨j, kv, -, -, heq⟩ | ⟨j, a, hj, ha, heq⟩ | ⟨j, u, -, -, heq⟩ := Table.get_cases hget
  all_goals cases heq
  have henters := bodiesIn_enters hbodies
  have hdispatch' : name dispatch.val = name (ascii "dispatch") := hdispatch.trans (by decide +kernel)
  have hregions' : name regions.val = name (ascii "regions") := hregions.trans (by decide +kernel)
  rw [Part.key, (found_congr hdispatch').1] at hi
  rw [Part.key, (found_congr hregions').2] at hj
  have hfilled : a.item ≠ [] := by
    intro hempty
    rw [hempty] at henters
    cases henters
    exact hne rfl
  refine ⟨_, ?_, henters⟩
  rw [loadRegions, hi]
  simp only [Option.bind_eq_bind, Option.bind_some, hd, hj, ha]
  rw [if_neg hfilled]

/-- The response's list for regions that are configured. -/
theorem getQueryRegionListHttpRsp_list {package : Bytes} {json : JsonC} {tokener : Bool} {regions : List (Option RegionListEntry)}
    (hne : regions ≠ []) (post : Option Bytes) :
    (getQueryRegionListHttpRsp package json tokener (some regions) post).regionList =
      match readRequest json tokener post with
      | none => []
      | some v => regions.zipIdx.filterMap fun p => sent package v p.2 p.1 := by
  rw [getQueryRegionListHttpRsp]
  cases readRequest json tokener post with
  | none => rfl
  | some v =>
    have hlist : regionList package v (some regions) = regions.zipIdx.filterMap fun p => sent package v p.2 p.1 := by
      cases regions with
      | nil => exact absurd rfl hne
      | cons region regions => exact regionLoop_eq v 0 _
    dsimp only
    rw [hlist]
    split
    case h_1 hnil => exact hnil.symm
    case h_2 => rfl

/-- The regions of a file are those that a client is sent, in their order, but for the ones of another version and
for a first without a url. -/
theorem regions_from_file {document : Body} (h : document.Fits 0) {dispatch regions : Text} {bodies : List Body}
    (hlists : Lists document dispatch regions bodies) (hne : bodies ≠ []) :
    ∃ root l, tomlParseFile (document.print []) = .ok root ∧ loadRegions root = some l ∧
      List.Forall₂ (fun body region => ∃ e, region = some e ∧ Enters body e) bodies l ∧
      ∀ package json tokener post, (getQueryRegionListHttpRsp package json tokener (some l) post).regionList =
        match readRequest json tokener post with
        | none => []
        | some v => l.zipIdx.filterMap fun p => sent package v p.2 p.1 := by
  obtain ⟨hparse, hin⟩ := parsed_in h
  obtain ⟨l, hload, henters⟩ := loadRegions_enters hin hlists hne
  have hfilled : l ≠ [] := by
    rintro rfl
    cases henters
    exact hne rfl
  exact ⟨_, l, hparse, hload, henters, fun package json tokener post => getQueryRegionListHttpRsp_list hfilled post⟩

theorem regions_grouped : Toml.Grouped (ascii "regions") := .of_ascii rfl

theorem url_grouped : Toml.Grouped (ascii "url") := .of_ascii rfl

/-- The section `dispatch` with one region. -/
def regionsDocument : Body :=
  .mk [] [.table ⟨ascii "dispatch", dispatch_grouped⟩ (.mk [] [.tables ⟨ascii "regions", regions_grouped⟩
    [.mk [(⟨ascii "url", url_grouped⟩, .scalar (.string ⟨ascii "http://10.0.0.1/", address_grouped⟩))] []]])]

theorem regionsDocument_fits : regionsDocument.Fits 0 := by
  refine .mk (by decide) (by simp) (by decide) (by simp) ?_ (by simp)
  intro key body hin
  cases List.mem_singleton.mp hin
  have hfilled : ∀ key regions url, Part.tables key [] ∉ [Part.tables regions [url]] := by
    intro key regions url hin
    cases List.mem_singleton.mp hin
  refine .mk (by decide) (by simp) (by decide) (fun key => hfilled key _ _) (by simp) ?_
  intro key bodies hin body hbody
  cases List.mem_singleton.mp hin
  cases List.mem_singleton.mp hbody
  exact .mk (by decide) (List.forall_mem_singleton.mpr (.scalar _)) (fun h => absurd rfl h) (by simp) (by simp) (by simp)

theorem regions_from_file_one : ∃ root l, tomlParseFile (regionsDocument.print []) = .ok root ∧ loadRegions root = some l ∧
    ∀ package json tokener post v, readRequest json tokener post = some v →
      (getQueryRegionListHttpRsp package json tokener (some l) post).regionList.map (·.dispatchUrl) = [ascii "http://10.0.0.1/"] := by
  have hlists : Lists regionsDocument ⟨ascii "dispatch", dispatch_grouped⟩ ⟨ascii "regions", regions_grouped⟩ [_] :=
    ⟨⟨by decide +kernel, by decide +kernel⟩, _, _, _, _, rfl, List.mem_singleton_self _, List.mem_singleton_self _⟩
  obtain ⟨root, l, hparse, hload, henters, hlist⟩ := regions_from_file regionsDocument_fits hlists (by simp)
  refine ⟨root, l, hparse, hload, fun package json tokener post v hv => ?_⟩
  obtain ⟨region, rest, ⟨e, rfl, hentry⟩, hrest, rfl⟩ := List.forall₂_cons_left_iff.mp henters
  cases hrest
  have hurl : e.url = some (ascii "http://10.0.0.1/") :=
    hentry.text ("url", (·.url)) (by simp [entryTexts]) _ _ _ _ rfl (by decide +kernel) List.mem_cons_self
  have hversion : e.version = none :=
    hentry.silent ("version", (·.version)) (by simp [entryTexts]) (List.forall_mem_singleton.mpr (by decide +kernel))
  rw [hlist, hv]
  simp [sent, sameVersion, message, hurl, hversion]

end Yagips.Sdk.RegionList
