import Yagips.Config.RunConfig
import Yagips.Toml.Reading

/-!
# Configurations from files

The table that the parser builds is the one that the configuration is read from: what a document says in a
section is what the accessors return there, and what the server is configured with.
-/
namespace Yagips.Config.ConfigFile

open Yagips.Lib
open Yagips.Toml (Table Item Keyval Text Scalar Value Body Part sameKey checkKey tomlParseFile tomlValueString)
open Yagips.Config.Toml (TomlTable TomlC)
open Yagips.Config.RunConfig

/-- A key as it stands in the source of its readers. -/
def name (key : Bytes) : String := String.ofList ((cstr key).map fun b => Char.ofNat b.toNat)

mutual

/-- The values and tables of a table; the configuration has no arrays. -/
def forget : Table → TomlTable
  | .mk _ _ _ kval _ tab => .mk (kval.map fun kv => (name kv.key, kv.val)) (forgetAll tab)

def forgetAll : List Table → List (String × TomlTable)
  | [] => []
  | t :: tab => (name t.key, forget t) :: forgetAll tab

end

/-- The accessors are those of the parser's library. -/
def tomlC : TomlC := { string := tomlValueString }

theorem char_inj {a b : UInt8} (h : Char.ofNat a.toNat = Char.ofNat b.toNat) : a = b := by
  have hchar : ∀ c : UInt8, (Char.ofNat c.toNat).toNat = c.toNat := by
    apply forall_byte
    decide +kernel
  have hnat := congrArg Char.toNat h
  rw [hchar, hchar] at hnat
  exact UInt8.toNat_inj.mp hnat

theorem name_inj {key key' : Bytes} : name key = name key' ↔ cstr key = cstr key' := by
  constructor
  · intro h
    have hlist := String.ofList_injective h
    exact List.map_injective_iff.mpr (fun a b => char_inj) hlist
  · intro h
    rw [name, name, h]

/-! ## What is found -/

theorem name_beq (key key' : Bytes) : (name key == name key') = sameKey key key' := by
  rw [sameKey, Bool.eq_iff_iff, beq_iff_eq, decide_eq_true_eq]
  exact name_inj

theorem lookup_kval {l : List Keyval} {key : Bytes} {i : Nat} {kv : Keyval} (hi : (l.findIdx? fun kv => sameKey key kv.key) = some i)
    (hkv : l[i]? = some kv) : (l.map fun kv => (name kv.key, kv.val)).lookup (name key) = some kv.val := by
  induction l generalizing i with
  | nil => cases hi
  | cons x l ih =>
    rw [List.findIdx?_cons] at hi
    rw [List.map_cons, List.lookup_cons, name_beq]
    cases hsame : sameKey key x.key with
    | true =>
      rw [hsame] at hi
      cases hi
      cases hkv
      rfl
    | false =>
      rw [hsame] at hi
      obtain ⟨j, hj, rfl⟩ := Option.map_eq_some_iff.mp hi
      exact ih hj hkv

theorem lookup_tab {l : List Table} {key : Bytes} {i : Nat} {t : Table} (hi : (l.findIdx? fun t => sameKey key t.key) = some i)
    (ht : l[i]? = some t) : (forgetAll l).lookup (name key) = some (forget t) := by
  induction l generalizing i with
  | nil => cases hi
  | cons x l ih =>
    rw [List.findIdx?_cons] at hi
    rw [forgetAll, List.lookup_cons, name_beq]
    cases hsame : sameKey key x.key with
    | true =>
      rw [hsame] at hi
      cases hi
      cases ht
      rfl
    | false =>
      rw [hsame] at hi
      obtain ⟨j, hj, rfl⟩ := Option.map_eq_some_iff.mp hi
      exact ih hj ht

section Get

variable {t s : Table} {key raw : Bytes}

theorem unparsed_get (h : t.get key = some (.val raw)) : Config.Toml.tomlTableUnparsed (forget t) (name key) = some raw := by
  obtain ⟨i, kv, hi, hkv, heq⟩ | ⟨i, a, -, -, heq⟩ | ⟨i, u, -, -, heq⟩ := Table.get_cases h
  all_goals cases heq
  cases t
  exact lookup_kval hi hkv

theorem table_get (h : t.get key = some (.tab s)) : Config.Toml.tomlTableTable (forget t) (name key) = some (forget s) := by
  obtain ⟨i, kv, -, -, heq⟩ | ⟨i, a, -, -, heq⟩ | ⟨i, u, hi, hu, heq⟩ := Table.get_cases h
  all_goals cases heq
  cases t
  exact lookup_tab hi hu

end Get

/-! ## What a document says -/

/-- A section with its entries, by the keys that lead to it. -/
inductive Says : Body → List Text → List (Text × Value) → Prop where
  | here (entries : List (Text × Value)) (parts : List Part) : Says (.mk entries parts) [] entries
  | there {entries : List (Text × Value)} {parts : List Part} {key : Text} {body : Body} {path : List Text} {lines : List (Text × Value)}
      (hpart : Part.table key body ∈ parts) (h : Says body path lines) : Says (.mk entries parts) (key :: path) lines

/-- The section that names lead to. -/
def follow : List String → TomlTable → Option TomlTable
  | [], t => some t
  | key :: path, t => Config.Toml.tomlTableTable t key >>= follow path

/-- The accessors give what the entries say. -/
structure Gives (t : TomlTable) (entries : List (Text × Value)) : Prop where
  string : ∀ key s, (key, Value.scalar (.string s)) ∈ entries → tomlC.tableString t (name key.val) = some (cstr s.val)
  int : ∀ key i, (key, Value.scalar (.int i)) ∈ entries → Config.Toml.tomlTableInt t (name key.val) = some i
  bool : ∀ key b, (key, Value.scalar (.bool b)) ∈ entries → Config.Toml.tomlTableBool t (name key.val) = some b

theorem gives_of_in {t : Table} {entries : List (Text × Value)} (h : Yagips.Toml.entriesIn entries t) : Gives (forget t) entries := by
  have hraw : ∀ key s, (key, Value.scalar s) ∈ entries →
      ∃ raw, Config.Toml.tomlTableUnparsed (forget t) (name key.val) = some raw ∧ s.In raw := by
    intro key s hentry
    obtain ⟨item, hget, hin⟩ := Yagips.Toml.entriesIn_iff.mp h _ hentry
    obtain ⟨raw, rfl, hraw⟩ := Value.scalar_in hin
    exact ⟨raw, unparsed_get hget, hraw⟩
  refine ⟨fun key s hentry => ?_, fun key i hentry => ?_, fun key b hentry => ?_⟩
  · obtain ⟨raw, hunparsed, hin⟩ := hraw key _ hentry
    have hstring : tomlValueString raw = some s.val := hin
    rw [TomlC.tableString, hunparsed]
    exact congrArg (Option.map cstr) hstring
  · obtain ⟨raw, hunparsed, hin⟩ := hraw key _ hentry
    rw [Config.Toml.tomlTableInt, hunparsed]
    exact hin
  · obtain ⟨raw, hunparsed, hin⟩ := hraw key _ hentry
    rw [Config.Toml.tomlTableBool, hunparsed]
    exact hin

theorem Says.gives {body : Body} {path : List Text} {entries : List (Text × Value)} (h : Says body path entries) {t : Table}
    (hin : body.In t) :
    ∃ d, follow (path.map fun key => name key.val) (forget t) = some d ∧ Gives d entries := by
  induction h generalizing t with
  | here entries parts =>
    rw [Body.In] at hin
    exact ⟨forget t, rfl, gives_of_in hin.2.1⟩
  | @there entries parts key body path lines hpart _ ih =>
    rw [Body.In] at hin
    obtain ⟨item, hget, hitem⟩ := Yagips.Toml.partsIn_iff.mp hin.2.2 _ hpart
    obtain ⟨s, rfl, hbody⟩ := Part.table_in hitem
    obtain ⟨d, hd, hgives⟩ := ih hbody
    refine ⟨d, ?_, hgives⟩
    have hsection := table_get hget
    rw [Part.key] at hsection
    rw [List.map_cons, follow, hsection]
    exact hd

/-! ## The region that is configured -/

/-- The addresses of a region that are read as they are. -/
def urls : List (String × (RegionInfo → Option Bytes)) :=
  [("feedbackUrl", (·.feedbackUrl)), ("bulletinUrl", (·.bulletinUrl)), ("handbookUrl", (·.handbookUrl)), ("communityUrl", (·.communityUrl)),
    ("userCenterUrl", (·.userCenterUrl)), ("privacyPolicyUrl", (·.privacyPolicyUrl)), ("accountBindUrl", (·.accountBindUrl)),
    ("cdKeyUrl", (·.cdKeyUrl)), ("payCbUrl", (·.payCbUrl)), ("forceUpdateUrl", (·.forceUpdateUrl))]

/-- A region is configured as the entries of its section say. -/
structure Shows (entries : List (Text × Value)) (r : RegionInfo) : Prop where
  url : ∀ f ∈ urls, ∀ key s, name key.val = f.1 → (key, Value.scalar (.string s)) ∈ entries → f.2 r = some (cstr s.val)
  ip : ∀ key s, name key.val = "gateserverIp" → (key, Value.scalar (.string s)) ∈ entries → r.gateserverIp = cstr s.val
  port : ∀ key i, name key.val = "gateserverPort" → (key, Value.scalar (.int i)) ∈ entries → r.gateserverPort = i.toUInt64.toUInt16
  domain : ∀ key b, name key.val = "gateserverIpIsDomain" → (key, Value.scalar (.bool b)) ∈ entries →
    r.gateserverIpIsDomainName = if b then 1 else 0
  mode : ∀ key i, name key.val = "sendStopServerOrForceUpdate" → (key, Value.scalar (.int i)) ∈ entries →
    r.sendStopServerOrForceUpdate = sendMode (some i)

/-- A notice of maintenance is configured as the entries of its section say. -/
structure Announces (entries : List (Text × Value)) (notice : StopServer) : Prop where
  start : ∀ key i, name key.val = "start" → (key, Value.scalar (.int i)) ∈ entries → notice.start = i.toUInt64
  stop : ∀ key i, name key.val = "end" → (key, Value.scalar (.int i)) ∈ entries → notice.stop = i.toUInt64
  url : ∀ key s, name key.val = "url" → (key, Value.scalar (.string s)) ∈ entries → notice.url = some (cstr s.val)
  msg : ∀ key s, name key.val = "msg" → (key, Value.scalar (.string s)) ∈ entries → notice.msg = some (cstr s.val)

/-- The texts of a version that are read as they are; the section `next` has no addresses of its own. -/
def versionUrls : List (String × (ResVersionConfig → Option Bytes)) :=
  [("resourceUrl", (·.resourceUrl)), ("dataUrl", (·.dataUrl))]

def versionTexts : List (String × (ResVersionConfig → Option Bytes)) :=
  [("resourceSuffix", (·.resourceSuffix)), ("dataSuffix", (·.dataSuffix)), ("silenceSuffix", (·.silenceSuffix)), ("branch", (·.branch)),
    ("scriptVersion", (·.scriptVersion)), ("releaseTotalSize", (·.releaseTotalSize)), ("resourceRes", (·.resourceRes)),
    ("dataRes", (·.dataRes)), ("silenceRes", (·.silenceRes))]

def versionNumbers : List (String × (ResVersionConfig → UInt32)) :=
  [("resVersion", (·.resVersion)), ("dataVersion", (·.dataVersion)), ("silenceVersion", (·.silenceVersion)), ("relogin", (·.relogin))]

/-- A version is configured as the entries of its section say, but for the addresses. -/
structure Describes (entries : List (Text × Value)) (version : ResVersionConfig) : Prop where
  text : ∀ f ∈ versionTexts, ∀ key s, name key.val = f.1 → (key, Value.scalar (.string s)) ∈ entries → f.2 version = some (cstr s.val)
  number : ∀ f ∈ versionNumbers, ∀ key i, name key.val = f.1 → (key, Value.scalar (.int i)) ∈ entries → f.2 version = i.toUInt64.toUInt32

def Addresses (entries : List (Text × Value)) (version : ResVersionConfig) : Prop :=
  ∀ f ∈ versionUrls, ∀ key s, name key.val = f.1 → (key, Value.scalar (.string s)) ∈ entries → f.2 version = some (cstr s.val)

/-- A region is configured as its section of a document says, with the sections in it. -/
structure Configures (document : Body) (dispatch : Text) (r : RegionInfo) : Prop where
  region : ∀ entries, Says document [dispatch] entries → Shows entries r
  notice : ∀ stop entries, name stop.val = "stop" → Says document [dispatch, stop] entries →
    ∃ notice, r.stopServer = some notice ∧ Announces entries notice
  version : ∀ res entries, name res.val = "res" → Says document [dispatch, res] entries →
    ∃ version, r.res = some version ∧ Describes entries version ∧ Addresses entries version
  next : ∀ res next entries, name res.val = "res" → name next.val = "next" → Says document [dispatch, res, next] entries →
    ∃ version following, r.res = some version ∧ r.resNext = some following ∧ Describes entries following ∧
      following.resourceUrl = version.resourceUrl ∧ following.dataUrl = version.dataUrl

/-- The path of the data is the one of the section `core`. -/
def Locates (document : Body) (dataPath : Bytes) : Prop :=
  ∀ core entries key s, name core.val = "core" → Says document [core] entries → name key.val = "dataPath" →
    (key, Value.scalar (.string s)) ∈ entries → dataPath = cstr s.val

/-- There is memory for all that a file can configure. -/
structure Ample (heap : Heap) : Prop where
  regionInfo : heap.regionInfo = true
  res : heap.res = true
  resNext : heap.resNext = true
  stopServer : heap.stopServer = true

section Region

variable {t : TomlTable} {entries : List (Text × Value)} {key : Text} {k : String}

theorem Gives.tableString (h : Gives t entries) {s : Text} (hkey : name key.val = k) (hentry : (key, Value.scalar (.string s)) ∈ entries) :
    tomlC.tableString t k = some (cstr s.val) := by
  rw [← hkey]
  exact h.string key s hentry

theorem Gives.tableInt (h : Gives t entries) {i : Int64} (hkey : name key.val = k) (hentry : (key, Value.scalar (.int i)) ∈ entries) :
    Config.Toml.tomlTableInt t k = some i := by
  rw [← hkey]
  exact h.int key i hentry

theorem Gives.tableBool (h : Gives t entries) {b : Bool} (hkey : name key.val = k) (hentry : (key, Value.scalar (.bool b)) ∈ entries) :
    Config.Toml.tomlTableBool t k = some b := by
  rw [← hkey]
  exact h.bool key b hentry

/-- With memory for both, the resources of a region are those of their sections. -/
theorem loadResources_ample {heap : Heap} (hheap : Ample heap) (d : TomlTable) :
    loadResources tomlC heap d = .ok (match Config.Toml.tomlTableTable d "res" with
      | none => (none, none)
      | some sub => (some (loadRes tomlC sub),
        (Config.Toml.tomlTableTable sub "next").map (loadResNext tomlC (loadRes tomlC sub)))) := by
  rw [loadResources]
  cases Config.Toml.tomlTableTable d "res" with
  | none => rfl
  | some sub =>
    dsimp only
    rw [hheap.res, hheap.resNext]
    cases Config.Toml.tomlTableTable sub "next" with
    | none => rfl
    | some sub => rfl

theorem loadRegionInfo_shows {heap : Heap} {r : RegionInfo} (hload : loadRegionInfo tomlC heap t = .ok r) (h : Gives t entries) :
    Shows entries r := by
  obtain ⟨⟨res, resNext⟩, -, heq⟩ := bind_eq_ok.mp hload
  cases heq
  refine ⟨?_, fun key s hkey hentry => ?_, fun key i hkey hentry => ?_, fun key b hkey hentry => ?_, fun key i hkey hentry => ?_⟩
  · simp only [urls, List.forall_mem_cons]
    refine ⟨?_, ?_, ?_, ?_, ?_, ?_, ?_, ?_, ?_, ?_, by simp⟩
    all_goals exact fun key s hkey hentry => h.tableString hkey hentry
  · exact congrArg (Option.getD · _) (h.tableString hkey hentry)
  · exact congrArg (fun v => (Option.getD v 22102).toUInt64.toUInt16) (h.tableInt hkey hentry)
  · exact congrArg (fun v => (Option.map (fun b => if b = true then 1 else 0) v).getD heap.staleDomainName) (h.tableBool hkey hentry)
  · exact congrArg sendMode (h.tableInt hkey hentry)

theorem loadStopServer_announces (h : Gives t entries) : Announces entries (loadStopServer tomlC t) where
  start _ _ hkey hentry := congrArg (fun v => (Option.getD v 0).toUInt64) (h.tableInt hkey hentry)
  stop _ _ hkey hentry := congrArg (fun v => (Option.getD v 0).toUInt64) (h.tableInt hkey hentry)
  url _ _ hkey hentry := h.tableString hkey hentry
  msg _ _ hkey hentry := h.tableString hkey hentry

theorem loadRes_describes (h : Gives t entries) : Describes entries (loadRes tomlC t) where
  text := by
    simp only [versionTexts, List.forall_mem_cons]
    refine ⟨?_, ?_, ?_, ?_, ?_, ?_, ?_, ?_, ?_, by simp⟩
    all_goals exact fun key s hkey hentry => h.tableString hkey hentry
  number := by
    simp only [versionNumbers, List.forall_mem_cons]
    refine ⟨?_, ?_, ?_, ?_, by simp⟩
    all_goals exact fun key i hkey hentry => congrArg (fun v => (Option.getD v 0).toUInt64.toUInt32) (h.tableInt hkey hentry)

theorem loadRes_addresses (h : Gives t entries) : Addresses entries (loadRes tomlC t) := by
  simp only [Addresses, versionUrls, List.forall_mem_cons]
  refine ⟨?_, ?_, by simp⟩
  all_goals exact fun key s hkey hentry => h.tableString hkey hentry

theorem Describes.next {version : ResVersionConfig} (h : Describes entries version) (resourceUrl dataUrl : Option Bytes) :
    Describes entries { version with resourceUrl, dataUrl } where
  text f hf key s hkey hentry := by
    have hsame : ∀ f ∈ versionTexts, f.2 { version with resourceUrl, dataUrl } = f.2 version := by simp [versionTexts]
    rw [hsame f hf]
    exact h.text f hf key s hkey hentry
  number f hf key i hkey hentry := by
    have hsame : ∀ f ∈ versionNumbers, f.2 { version with resourceUrl, dataUrl } = f.2 version := by simp [versionNumbers]
    rw [hsame f hf]
    exact h.number f hf key i hkey hentry

end Region

/-! ## The file that is read -/

theorem parsed_in {document : Body} (h : document.Fits 0) :
    tomlParseFile (document.print []) = .ok (document.build {}) ∧ document.In (document.build {}) := by
  refine ⟨?_, h.in_build rfl rfl⟩
  rw [tomlParseFile, cstr_eq_self_iff.mpr (h.no_nul [])]
  exact Yagips.Toml.tomlParse_print h

@[simp] theorem follow_cons (k : String) (path : List String) (u : TomlTable) :
    follow (k :: path) u = (Config.Toml.tomlTableTable u k).bind (follow path) := rfl

@[simp] theorem follow_nil (u : TomlTable) : follow [] u = some u := rfl

section

variable {document : Body} {root : Table} {dispatch : Text} {d : TomlTable} {heap : Heap} {r : RegionInfo}

theorem loadRegionInfo_sections (hheap : Ample heap) (hload : loadRegionInfo tomlC heap d = .ok r) :
    r.stopServer = (Config.Toml.tomlTableTable d "stop").map (loadStopServer tomlC) ∧
    (r.res, r.resNext) = match Config.Toml.tomlTableTable d "res" with
      | none => (none, none)
      | some sub => (some (loadRes tomlC sub), (Config.Toml.tomlTableTable sub "next").map (loadResNext tomlC (loadRes tomlC sub))) := by
  obtain ⟨⟨res, resNext⟩, hres, heq⟩ := bind_eq_ok.mp hload
  cases heq
  rw [loadResources_ample hheap] at hres
  refine ⟨?_, (Except.ok.inj hres).symm⟩
  cases Config.Toml.tomlTableTable d "stop" with
  | none => rfl
  | some sub => exact if_pos hheap.stopServer

/-- The region is loaded from the section, which is the only one of its name. -/
theorem loadRegionInfo_configures (hin : document.In root) (hname : name dispatch.val = "dispatch")
    (hd : Config.Toml.tomlTableTable (forget root) "dispatch" = some d) (hheap : Ample heap) (hload : loadRegionInfo tomlC heap d = .ok r) :
    Configures document dispatch r := by
  obtain ⟨hnotice, hresources⟩ := loadRegionInfo_sections hheap hload
  refine ⟨fun entries hsection => ?_, fun stop entries hstop hsection => ?_, fun res entries hres hsection => ?_,
    fun res next entries hres hnext hsection => ?_⟩
  all_goals
    obtain ⟨u, hu, hgives⟩ := hsection.gives hin
    simp only [List.map_cons, List.map_nil, follow_cons, hname, hd, Option.bind_some] at hu
  case refine_1 =>
    cases hu
    exact loadRegionInfo_shows hload hgives
  case refine_2 =>
    rw [hstop, Option.bind_eq_some_iff] at hu
    obtain ⟨sub, hsub, hu⟩ := hu
    cases hu
    rw [hsub] at hnotice
    exact ⟨_, hnotice, loadStopServer_announces hgives⟩
  case refine_3 =>
    rw [hres, Option.bind_eq_some_iff] at hu
    obtain ⟨sub, hsub, hu⟩ := hu
    cases hu
    rw [hsub] at hresources
    exact ⟨_, congrArg Prod.fst hresources, loadRes_describes hgives, loadRes_addresses hgives⟩
  case refine_4 =>
    rw [hres, hnext, Option.bind_eq_some_iff] at hu
    obtain ⟨sub, hsub, hu⟩ := hu
    obtain ⟨following, hfollowing, hu⟩ := Option.bind_eq_some_iff.mp hu
    cases hu
    rw [hsub] at hresources
    dsimp only at hresources
    rw [hfollowing] at hresources
    exact ⟨_, _, congrArg Prod.fst hresources, congrArg Prod.snd hresources, (loadRes_describes hgives).next _ _, rfl, rfl⟩

theorem config_region (hheap : Ample heap) (dataDir : Bytes) {rootConfig : TomlTable}
    (hd : Config.Toml.tomlTableTable rootConfig "dispatch" = some d) :
    ∃ r, loadRegionInfo tomlC heap d = .ok r ∧ config tomlC heap dataDir (some rootConfig) = .ok {
      dataPath :=
        match Config.Toml.tomlTableTable rootConfig "core" with
        | some core => (tomlC.tableString core "dataPath").getD dataDir
        | none => dataDir
      regionInfo := some r } := by
  obtain ⟨r, hload⟩ : ∃ r, loadRegionInfo tomlC heap d = .ok r := by
    rw [loadRegionInfo, loadResources_ample hheap]
    exact ⟨_, rfl⟩
  refine ⟨r, hload, ?_⟩
  rw [config, hd]
  dsimp only
  rw [if_pos hheap.regionInfo, hload]
  rfl

theorem dataPath_locates (hin : document.In root) (dataDir : Bytes) :
    Locates document (match Config.Toml.tomlTableTable (forget root) "core" with
      | some core => (tomlC.tableString core "dataPath").getD dataDir
      | none => dataDir) := by
  intro core entries key s hname hsection hkey hentry
  obtain ⟨u, hu, hgives⟩ := hsection.gives hin
  rw [List.map_cons, hname, List.map_nil, follow_cons, Option.bind_eq_some_iff] at hu
  obtain ⟨sub, hsub, hu⟩ := hu
  cases hu
  rw [hsub]
  exact congrArg (Option.getD · dataDir) (hgives.tableString hkey hentry)

end

/-- What a file says of the region and of its data is what the server is configured with, whatever else it says. -/
theorem config_from_file {document : Body} (h : document.Fits 0) {dispatch : Text} (hname : name dispatch.val = "dispatch")
    {entries : List (Text × Value)} (hsection : Says document [dispatch] entries) {heap : Heap} (hheap : Ample heap) (dataDir : Bytes) :
    ∃ root c r, tomlParseFile (document.print []) = .ok root ∧ config tomlC heap dataDir (some (forget root)) = .ok c ∧
      Locates document c.dataPath ∧ c.regionInfo = some r ∧ Configures document dispatch r := by
  obtain ⟨hparse, hin⟩ := parsed_in h
  obtain ⟨d, hd, -⟩ := hsection.gives hin
  rw [List.map_cons, hname, List.map_nil, follow_cons, Option.bind_eq_some_iff] at hd
  obtain ⟨d, hd, -⟩ := hd
  obtain ⟨r, hload, hconfig⟩ := config_region hheap dataDir hd
  exact ⟨document.build {}, _, r, hparse, hconfig, dataPath_locates hin dataDir, rfl,
    loadRegionInfo_configures hin hname hd hheap hload⟩

end Yagips.Config.ConfigFile
