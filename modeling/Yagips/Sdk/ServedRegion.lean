import Yagips.Config.ConfigSearch
import Yagips.Sdk.CurrRegion

/-!
# From the file to the client

What the first file that is a document says of the region is what a response with region info carries: the
addresses in every one, the game server and the versions in those to a client that is served.
-/
namespace Yagips.Sdk.ServedRegion

open Yagips.Lib
open Yagips.Toml (Text Value Body)
open Yagips.Config
open Yagips.Config.ConfigFile
open Yagips.Config.ConfigSearch (Place load load_some configFileName gateserverPlace ampleHeap ampleHeap_ample)
open Yagips.Sdk.CurrRegion

/-! ## What the message takes from the configuration -/

/-- The addresses of a message, by their keys and as the configuration has them. -/
def sentUrls : List (String × (RunConfig.RegionInfo → Option Bytes) × (RegionInfo → Bytes)) :=
  [("feedbackUrl", (·.feedbackUrl), (·.feedbackUrl)), ("bulletinUrl", (·.bulletinUrl), (·.bulletinUrl)),
    ("handbookUrl", (·.handbookUrl), (·.handbookUrl)), ("communityUrl", (·.communityUrl), (·.officialCommunityUrl)),
    ("userCenterUrl", (·.userCenterUrl), (·.userCenterUrl)), ("privacyPolicyUrl", (·.privacyPolicyUrl), (·.privacyPolicyUrl)),
    ("accountBindUrl", (·.accountBindUrl), (·.accountBindUrl)), ("cdKeyUrl", (·.cdKeyUrl), (·.cdkeyUrl)),
    ("payCbUrl", (·.payCbUrl), (·.payCallbackUrl))]

/-- The texts of the current version beside its own message. -/
def sentTexts : List (String × (RunConfig.ResVersionConfig → Option Bytes) × (RegionInfo → Bytes)) :=
  [("resourceUrl", (·.resourceUrl), (·.resourceUrl)), ("dataUrl", (·.dataUrl), (·.dataUrl)),
    ("dataSuffix", (·.dataSuffix), (·.clientVersionSuffix)), ("dataRes", (·.dataRes), (·.clientDataMd5)),
    ("silenceSuffix", (·.silenceSuffix), (·.clientSilenceVersionSuffix)), ("silenceRes", (·.silenceRes), (·.clientSilenceDataMd5))]

def sentNumbers : List (String × (RunConfig.ResVersionConfig → UInt32) × (RegionInfo → UInt32)) :=
  [("dataVersion", (·.dataVersion), (·.clientDataVersion)), ("silenceVersion", (·.silenceVersion), (·.clientSilenceDataVersion))]

/-- The texts of a version's own message. -/
def messageTexts : List (String × (RunConfig.ResVersionConfig → Option Bytes) × (ResVersionConfig → Bytes)) :=
  [("resourceSuffix", (·.resourceSuffix), (·.versionSuffix)), ("resourceRes", (·.resourceRes), (·.md5)),
    ("branch", (·.branch), (·.branch)), ("releaseTotalSize", (·.releaseTotalSize), (·.releaseTotalSize))]

section Message

variable {env : Env} {c : RunConfig.RegionInfo} {f : Flags}

theorem setGateserver_flags (region : RegionInfo) :
    (setGateserver c f region).1.doResVersionConfig = f.doResVersionConfig := by
  rw [setGateserver]
  split
  · split
    · rfl
    · split
      · rfl
      · rfl
  · rfl

/-- A message is made in these steps, and the key of the dispatch does not touch the rest of it. -/
theorem regionInfo_steps (env : Env) (c : RunConfig.RegionInfo) (f : Flags) : ∃ secretKey, (regionInfo env c f).2 =
    { (if f.doResVersionConfig then setResNext c (setRes c (setUrls c (setGateserver c f {}).2)) else
        setUrls c (setGateserver c f {}).2) with secretKey } := by
  rw [regionInfo]
  dsimp only
  rw [setGateserver_flags]
  cases env.dispatchSeed with
  | some seed => exact ⟨_, rfl⟩
  | none => exact ⟨_, rfl⟩

/-- A field that only the addresses set. -/
theorem sent_urls : ∀ x ∈ sentUrls, x.2.2 (regionInfo env c f).2 = text (x.2.1 c) := by
  obtain ⟨secretKey, hsteps⟩ := regionInfo_steps env c f
  rw [hsteps]
  simp only [sentUrls, List.forall_mem_cons]
  refine ⟨?_, ?_, ?_, ?_, ?_, ?_, ?_, ?_, ?_, by simp⟩
  all_goals
    split
    · rw [setResNext, setRes]
      cases c.resNext <;> cases c.res <;> rfl
    · rfl

theorem sent_version (hdo : f.doResVersionConfig = true) {res : RunConfig.ResVersionConfig} (hres : c.res = some res) :
    (regionInfo env c f).2.resVersionConfig = some (resVersion res []) ∧
    (∀ x ∈ sentTexts, x.2.2 (regionInfo env c f).2 = text (x.2.1 res)) ∧
    ∀ x ∈ sentNumbers, x.2.2 (regionInfo env c f).2 = x.2.1 res := by
  obtain ⟨secretKey, hsteps⟩ := regionInfo_steps env c f
  rw [hsteps, if_pos hdo, setRes, hres, setResNext]
  simp only [sentTexts, sentNumbers, List.forall_mem_cons]
  refine ⟨?_, ⟨?_, ?_, ?_, ?_, ?_, ?_, by simp⟩, ?_, ?_, by simp⟩
  all_goals
    cases c.resNext <;> rfl

theorem sent_next (hdo : f.doResVersionConfig = true) {next : RunConfig.ResVersionConfig} (hnext : c.resNext = some next) :
    (regionInfo env c f).2.nextResVersionConfig = some (resVersion next (text next.scriptVersion)) ∧
    (regionInfo env c f).2.nextResourceUrl = text next.resourceUrl := by
  obtain ⟨secretKey, hsteps⟩ := regionInfo_steps env c f
  rw [hsteps, if_pos hdo, setResNext, hnext]
  exact ⟨rfl, rfl⟩

theorem sent_gateserver (hdo : f.doGateserver = true) (hport : c.gateserverPort ≠ 0) :
    (regionInfo env c f).2.gateserverPort = c.gateserverPort.toUInt32 ∧
    (regionInfo env c f).2.useGateserverDomainName = decide (c.gateserverIpIsDomainName ≠ 0) ∧
    (if c.gateserverIpIsDomainName ≠ 0 then (regionInfo env c f).2.gateserverDomainName else (regionInfo env c f).2.gateserverIp) =
      c.gateserverIp := by
  obtain ⟨secretKey, hsteps⟩ := regionInfo_steps env c f
  rw [hsteps, setGateserver, if_pos hdo, if_neg hport, setResNext, setRes]
  by_cases hdomain : c.gateserverIpIsDomainName ≠ 0
  · rw [if_pos hdomain, if_pos hdomain, decide_eq_true hdomain]
    cases f.doResVersionConfig <;> cases c.resNext <;> cases c.res <;> exact ⟨rfl, rfl, rfl⟩
  · rw [if_neg hdomain, if_neg hdomain, decide_eq_false hdomain]
    cases f.doResVersionConfig <;> cases c.resNext <;> cases c.res <;> exact ⟨rfl, rfl, rfl⟩

end Message

/-! ## What a document says is sent -/

/-- A version's message as the entries of its section say. -/
structure Tells (entries : List (Text × Value)) (m : ResVersionConfig) : Prop where
  text : ∀ x ∈ messageTexts, ∀ key s, name key.val = x.1 → (key, Value.scalar (.string s)) ∈ entries → x.2.2 m = cstr s.val
  version : ∀ key i, name key.val = "resVersion" → (key, Value.scalar (.int i)) ∈ entries → m.version = i.toUInt64.toUInt32
  relogin : ∀ key i, name key.val = "relogin" → (key, Value.scalar (.int i)) ∈ entries → m.relogin = decide (i.toUInt64.toUInt32 ≠ 0)

/-- The entries of a game server: its address, its port and whether the address is a name. -/
structure Gateserver (entries : List (Text × Value)) (ip : Text) (port : Int64) (domain : Bool) : Prop where
  ip : ∃ key, name key.val = "gateserverIp" ∧ (key, Value.scalar (.string ip)) ∈ entries
  port : ∃ key, name key.val = "gateserverPort" ∧ (key, Value.scalar (.int port)) ∈ entries
  domain : ∃ key, name key.val = "gateserverIpIsDomain" ∧ (key, Value.scalar (.bool domain)) ∈ entries

/-- The region info of a response is what a document says, as far as the flags of the request let it. -/
structure Serves (document : Body) (dispatch : Text) (f : Flags) (region : RegionInfo) : Prop where
  urls : ∀ x ∈ sentUrls, ∀ entries key s, Says document [dispatch] entries → name key.val = x.1 →
    (key, Value.scalar (.string s)) ∈ entries → x.2.2 region = cstr s.val
  gateserver : f.doGateserver = true → ∀ entries ip port domain, Says document [dispatch] entries → Gateserver entries ip port domain →
    port.toUInt64.toUInt16 ≠ 0 → region.gateserverPort = port.toUInt64.toUInt16.toUInt32 ∧ region.useGateserverDomainName = domain ∧
      (if domain then region.gateserverDomainName else region.gateserverIp) = cstr ip.val
  version : f.doResVersionConfig = true → ∀ res entries, name res.val = "res" → Says document [dispatch, res] entries →
    ∃ m, region.resVersionConfig = some m ∧ Tells entries m ∧
      (∀ x ∈ sentTexts, ∀ key s, name key.val = x.1 → (key, Value.scalar (.string s)) ∈ entries → x.2.2 region = cstr s.val) ∧
      ∀ x ∈ sentNumbers, ∀ key i, name key.val = x.1 → (key, Value.scalar (.int i)) ∈ entries → x.2.2 region = i.toUInt64.toUInt32
  next : f.doResVersionConfig = true → ∀ res next entries, name res.val = "res" → name next.val = "next" →
    Says document [dispatch, res, next] entries → ∃ m, region.nextResVersionConfig = some m ∧ Tells entries m ∧
      (∀ key s, name key.val = "scriptVersion" → (key, Value.scalar (.string s)) ∈ entries → m.nextScriptVersion = cstr s.val) ∧
      ∀ lines key s, Says document [dispatch, res] lines → name key.val = "resourceUrl" → (key, Value.scalar (.string s)) ∈ lines →
        region.nextResourceUrl = cstr s.val

theorem describes_tells {entries : List (Text × Value)} {version : RunConfig.ResVersionConfig} (h : Describes entries version)
    (nextScriptVersion : Bytes) : Tells entries (resVersion version nextScriptVersion) where
  text x hx key s hkey hentry := by
    have htext : ∀ x ∈ messageTexts, (x.1, x.2.1) ∈ versionTexts ∧
        x.2.2 (resVersion version nextScriptVersion) = text (x.2.1 version) := by
      simp [messageTexts, versionTexts, resVersion]
    obtain ⟨hmem, hsent⟩ := htext x hx
    rw [hsent]
    exact congrArg CurrRegion.text (h.text _ hmem key s hkey hentry)
  version key i hkey hentry := h.number ("resVersion", (·.resVersion)) (by simp [versionNumbers]) key i hkey hentry
  relogin key i hkey hentry :=
    congrArg (fun n : UInt32 => decide (n ≠ 0)) (h.number ("relogin", (·.relogin)) (by simp [versionNumbers]) key i hkey hentry)

/-- The message of a configured region serves what configures it. -/
theorem configures_serves {document : Body} {dispatch : Text} {c : RunConfig.RegionInfo} (h : Configures document dispatch c) (env : Env)
    (f : Flags) : Serves document dispatch f (regionInfo env c f).2 where
  urls x hx entries key s hsection hkey hentry := by
    have hmem : ∀ x ∈ sentUrls, (x.1, x.2.1) ∈ urls := by simp [sentUrls, urls]
    rw [sent_urls x hx]
    exact congrArg text ((h.region entries hsection).url _ (hmem x hx) key s hkey hentry)
  gateserver hdo entries ip port domain hsection hgate hport := by
    have hshows := h.region entries hsection
    obtain ⟨kip, hkip, hip⟩ := hgate.ip
    obtain ⟨kport, hkport, hport'⟩ := hgate.port
    obtain ⟨kdomain, hkdomain, hdomain⟩ := hgate.domain
    have hsentIp := hshows.ip kip ip hkip hip
    have hsentPort := hshows.port kport port hkport hport'
    have hsentDomain := hshows.domain kdomain domain hkdomain hdomain
    rw [← hsentPort] at hport
    obtain ⟨hp, huse, hname⟩ := @sent_gateserver env c f hdo hport
    rw [hsentPort] at hp
    rw [hsentIp] at hname
    rw [hsentDomain] at huse hname
    refine ⟨hp, ?_⟩
    cases domain with
    | true => exact ⟨huse, hname⟩
    | false => exact ⟨huse, hname⟩
  version hdo res entries hres hsection := by
    obtain ⟨version, hversion, hdescribes, haddresses⟩ := h.version res entries hres hsection
    obtain ⟨hm, htexts, hnumbers⟩ := @sent_version env c f hdo version hversion
    refine ⟨_, hm, describes_tells hdescribes [], fun x hx key s hkey hentry => ?_, fun x hx key i hkey hentry => ?_⟩
    · have hmem : ∀ x ∈ sentTexts, (x.1, x.2.1) ∈ versionUrls ∨ (x.1, x.2.1) ∈ versionTexts := by
        simp [sentTexts, versionUrls, versionTexts]
      rw [htexts x hx]
      rcases hmem x hx with hurl | htext
      · exact congrArg text (haddresses _ hurl key s hkey hentry)
      · exact congrArg text (hdescribes.text _ htext key s hkey hentry)
    · have hmem : ∀ x ∈ sentNumbers, (x.1, x.2.1) ∈ versionNumbers := by simp [sentNumbers, versionNumbers]
      rw [hnumbers x hx]
      exact hdescribes.number _ (hmem x hx) key i hkey hentry
  next hdo res next entries hres hnext hsection := by
    obtain ⟨version, following, hversion, hfollowing, hdescribes, hurl, -⟩ := h.next res next entries hres hnext hsection
    obtain ⟨hm, hsentUrl⟩ := @sent_next env c f hdo following hfollowing
    refine ⟨_, hm, describes_tells hdescribes _, fun key s hkey hentry => ?_, fun lines key s hlines hkey hentry => ?_⟩
    · exact congrArg text (hdescribes.text ("scriptVersion", (·.scriptVersion)) (by simp [versionTexts]) key s hkey hentry)
    · obtain ⟨version', hversion', -, haddresses⟩ := h.version res lines hres hlines
      cases hversion.symm.trans hversion'
      rw [hsentUrl, hurl]
      exact congrArg text (haddresses ("resourceUrl", (·.resourceUrl)) (by simp [versionUrls]) key s hkey hentry)

/-- What the first file that is a document says of the region is what every response to a client carries. -/
theorem served_from_file {place : Place} {fopen : Bytes → Option Bytes} {earlier later : List Bytes} {path : Bytes}
    (htried : place.tried = earlier ++ path :: later) (hearlier : ∀ p ∈ earlier, load fopen p = none) {document : Body}
    (h : document.Fits 0) (hfile : fopen path = some (document.print [])) {dispatch : Text} (hname : name dispatch.val = "dispatch")
    {entries : List (Text × Value)} (hsection : Says document [dispatch] entries) {heap : RunConfig.Heap} (hheap : Ample heap)
    (dataDir : Bytes) :
    ∃ c, place.construct fopen heap dataDir = .ok c ∧ ∀ env, env.config = c → ∀ seed post f rsp seed',
      currRegionRsp env seed post = .ok (f, rsp, seed') →
        ∃ region, rsp.regionInfo = some region ∧ Serves document dispatch (readRequest env.json env.tokener post) region := by
  obtain ⟨root, c, r, hparse, hconfig, -, hregion, hconfigures⟩ := config_from_file h hname hsection hheap dataDir
  have hroot := Place.rootConfig_first htried hearlier (load_some.mpr ⟨_, hfile, hparse⟩)
  refine ⟨c, (Place.construct_root hroot heap dataDir).trans hconfig, ?_⟩
  intro env henv seed post f rsp seed' hrsp
  rcases fillRsp_cases hrsp with ⟨hnone, -, -⟩ | ⟨r', hr', hinfo, -⟩
  · rw [henv, hregion] at hnone
    cases hnone
  · rw [henv, hregion] at hr'
    cases hr'
    exact ⟨_, hinfo, configures_serves hconfigures env _⟩

theorem dispatch_grouped : Toml.Grouped (ascii "dispatch") := .of_ascii rfl

theorem feedbackUrl_grouped : Toml.Grouped (ascii "feedbackUrl") := .of_ascii rfl

theorem address_grouped : Toml.Grouped (ascii "http://10.0.0.1/") := .of_ascii rfl

/-- The section `dispatch` with one address. -/
def feedbackDocument : Body :=
  .mk [] [.table ⟨ascii "dispatch", dispatch_grouped⟩ (.mk
    [(⟨ascii "feedbackUrl", feedbackUrl_grouped⟩, .scalar (.string ⟨ascii "http://10.0.0.1/", address_grouped⟩))] [])]

theorem feedbackDocument_fits : feedbackDocument.Fits 0 := by
  refine .mk (by decide) (by simp) (by decide) (by simp) ?_ (by simp)
  intro key body hin
  cases List.mem_singleton.mp hin
  exact .mk (by decide) (List.forall_mem_singleton.mpr (.scalar _)) (fun h => absurd rfl h) (by simp) (by simp) (by simp)

def feedbackFile (_ : Bytes) : Option Bytes := some (feedbackDocument.print [])

theorem served_from_file_feedback : ∃ c, gateserverPlace.construct feedbackFile ampleHeap [] = .ok c ∧
      ∀ env, env.config = c → ∀ seed post f rsp seed', currRegionRsp env seed post = .ok (f, rsp, seed') →
        ∃ region, rsp.regionInfo = some region ∧ region.feedbackUrl = ascii "http://10.0.0.1/" := by
  have hsection : Says feedbackDocument [_] _ := .there (List.mem_singleton_self _) (.here _ _)
  have htried : gateserverPlace.tried = [] ++ configFileName :: gateserverPlace.lastPaths := rfl
  have hfile : feedbackFile configFileName = some (feedbackDocument.print []) := rfl
  obtain ⟨c, hconstruct, hserves⟩ :=
    served_from_file htried (by simp) feedbackDocument_fits hfile (by decide +kernel) hsection ampleHeap_ample []
  refine ⟨c, hconstruct, fun env henv seed post f rsp seed' hrsp => ?_⟩
  obtain ⟨region, hregion, hserved⟩ := hserves env henv seed post f rsp seed' hrsp
  exact ⟨region, hregion, hserved.urls _ List.mem_cons_self _ _ _ hsection (by decide +kernel) List.mem_cons_self⟩

end Yagips.Sdk.ServedRegion
