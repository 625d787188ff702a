import Yagips.Config.RunConfig
import Yagips.Crypto.Ec2bObject
import Yagips.Crypto.RsaRoom
import Yagips.Sdk.Body

/-!
# The current region

`getQueryCurrRegionHttpRsp` answers a request with what the configuration says of the region. A request
that cannot be read is answered too, with an error and with most of the same fields.
-/
namespace Yagips.Sdk.CurrRegion

open Yagips.Lib
open Yagips.Crypto.Ec2bObject
open Yagips.Crypto.Rsa (Keys)
open Yagips.Crypto.RsaRoom (encryptRsp)
open Yagips.Sdk.Body
open Yagips.Config
open Yagips.Game.Login (isSpace digitsOf)

/-! ## The messages -/

structure ResVersionConfig where
  version : UInt32
  relogin : Bool
  md5 : Bytes
  releaseTotalSize : Bytes
  versionSuffix : Bytes
  branch : Bytes
  nextScriptVersion : Bytes

structure RegionInfo where
  gateserverIp : Bytes := []
  gateserverPort : UInt32 := 0
  payCallbackUrl : Bytes := []
  resourceUrl : Bytes := []
  dataUrl : Bytes := []
  feedbackUrl : Bytes := []
  bulletinUrl : Bytes := []
  clientDataVersion : UInt32 := 0
  handbookUrl : Bytes := []
  clientSilenceDataVersion : UInt32 := 0
  clientDataMd5 : Bytes := []
  clientSilenceDataMd5 : Bytes := []
  resVersionConfig : Option ResVersionConfig := none
  secretKey : Bytes := []
  officialCommunityUrl : Bytes := []
  clientVersionSuffix : Bytes := []
  clientSilenceVersionSuffix : Bytes := []
  useGateserverDomainName : Bool := false
  gateserverDomainName : Bytes := []
  userCenterUrl : Bytes := []
  accountBindUrl : Bytes := []
  cdkeyUrl : Bytes := []
  privacyPolicyUrl : Bytes := []
  nextResourceUrl : Bytes := []
  nextResVersionConfig : Option ResVersionConfig := none

structure StopServerInfo where
  stopBeginTime : UInt32
  stopEndTime : UInt32
  url : Bytes
  contentMsg : Bytes

structure ForceUpdateInfo where
  forceUpdateUrl : Bytes

/-- The `oneof` of the response: each of its messages takes the place of the other. -/
inductive Detail where
  | forceUdpate (upd : ForceUpdateInfo)
  | stopServer (stop : StopServerInfo)

structure QueryCurrRegionHttpRsp where
  retcode : Int32
  msg : Bytes
  regionInfo : Option RegionInfo := none
  clientSecretKey : Bytes := []
  detail : Option Detail := none

def QueryCurrRegionHttpRsp.stopServer (rsp : QueryCurrRegionHttpRsp) : Option StopServerInfo :=
  match rsp.detail with
  | some (.stopServer stop) => some stop
  | _ => none

def QueryCurrRegionHttpRsp.forceUdpate (rsp : QueryCurrRegionHttpRsp) : Option ForceUpdateInfo :=
  match rsp.detail with
  | some (.forceUdpate upd) => some upd
  | _ => none

/-! ## The version of a client -/

inductive Client where
  | pc | android | ios
  deriving DecidableEq

inductive Region where
  | os | cn
  deriving DecidableEq

structure Version where
  region : Bytes
  client : Bytes
  major : UInt32
  minor : UInt32
  patch : UInt32
  deriving DecidableEq

/-- The conversion `%d`, as `strtol` makes it, cut to an `int`. -/
def scanInt (s : Bytes) : Option (UInt32 × Bytes) :=
  let t := s.dropWhile isSpace
  let negative : Bool := t.head? = some 0x2d
  let t := if negative ∨ t.head? = some 0x2b then t.tail else t
  match digitsOf 10 t with
  | [] => none
  | digits =>
    let magnitude : Nat := digits.foldl (fun n d => n * 10 + d) 0
    let value : Int := if negative then -magnitude else magnitude
    let long := Int64.ofInt (max (-2 ^ 63) (min value (2 ^ 63 - 1)))
    some (long.toUInt64.toUInt32, t.drop digits.length)

/-- The literal of a format. -/
def scanText (text s : Bytes) : Option Bytes := if text <+: s then some (s.drop text.length) else none

/-- `sscanf` with `%2cREL%31[^0-9.]%d.%d.%d`, where it makes all five conversions. -/
def scanVersion (data : Bytes) : Option Version := do
  if data.length < 2 then none
  let s ← scanText (ascii "REL") (data.drop 2)
  let client := (s.takeWhile fun b => ¬ (0x30 ≤ b ∧ b ≤ 0x39) ∧ b ≠ 0x2e).take 31
  if client = [] then none
  let (major, s) ← scanInt (s.drop client.length)
  let s ← scanText (ascii ".") s
  let (minor, s) ← scanInt s
  let s ← scanText (ascii ".") s
  let (patch, _) ← scanInt s
  return { region := data.take 2, client, major, minor, patch }

def Version.iregion (v : Version) : Option Region :=
  if strncmpEqual v.region (ascii "OS") 3 then some .os
  else if strncmpEqual v.region (ascii "CN") 3 then some .cn
  else none

def Version.iclient (v : Version) : Option Client :=
  if strncmpEqual v.client (ascii "Win") 31 then some .pc
  else if strncmpEqual v.client (ascii "Android") 31 then some .android
  else if strncmpEqual v.client (ascii "iOS") 31 then some .ios
  else none

/-- Versions up to the live 2.7 do not sign. -/
def Version.signs (v : Version) : Bool :=
  v.major ≥ 3 || (v.major = 2 && (v.minor ≥ 8 || (v.minor = 7 && v.patch ≥ 50)))

/-- The version is served: `CUR_MAJOR`, `CUR_MINOR`, and no beta client. -/
def Version.served (v : Version) : Bool :=
  v.iclient.isSome && v.iregion.isSome && v.major = 1 && v.minor = 3 && v.patch ≤ 1

/-! ## The request -/

/-- The local variables that the fields of the request decide. -/
structure Flags where
  retcode : Int32 := 0
  msg : Bytes := ascii "ok"
  doResVersionConfig : Bool := false
  doGateserver : Bool := false
  doSign : Bool := false
  doEnc : Int32 := 0

def Flags.fail (f : Flags) (msg : String) : Flags := { f with retcode := -1, msg := ascii msg }

/-- Up to `set_fields2`, from the field `version`. -/
def readVersion (json : JsonC) (fields : Fields) : Flags :=
  match getEx fields "version" with
  | none => Flags.fail {} "Version is not set"
  | some dobj =>
    match json.getString dobj with
    | none => Flags.fail {} "Version is null"
    | some data =>
      match scanVersion (cstr data) with
      | none => Flags.fail {} "Version format is invalid"
      | some v =>
        if v.served then { doSign := v.signs, doResVersionConfig := true, doGateserver := true }
        else Flags.fail { doSign := v.signs } "Version mismatch"

/-- From `set_fields2`, the fields `skipSign` and `key_id`. -/
def readKeys (json : JsonC) (fields : Fields) (f : Flags) : Flags :=
  let f : Flags :=
    match getEx fields "skipSign" with
    | some dobj => { f with doSign := !json.getBoolean dobj }
    | none => f
  let f : Flags :=
    match getEx fields "key_id" with
    | some dobj => { f with doEnc := json.getInt dobj }
    | none => f
  if f.doEnc = 1 ∨ f.doEnc > 5 then { f.fail "Invalid key ID" with doEnc := 0 } else f

/-- All that is read of a request. -/
def readRequest (json : JsonC) (tokener : Bool) (post : Option Bytes) : Flags :=
  match post with
  | none => Flags.fail {} "Client is missing POST data"
  | some post =>
    if tokener then
      match json.parse (cstr post) with
      | none | some .null => Flags.fail {} "JSON parse error"
      | some (.object fields) => readKeys json fields (readVersion json fields)
      | some _ => Flags.fail {} "JSON POST data is not an object"
    else Flags.fail {} "JSON tokener alloc fail"

/-! ## The response -/

/-- The static variables behind a response, `none` before the first attempt to read the file. -/
abbrev RegionSeed := Option (Option Bytes)

/-- What a response reads beside the request. -/
structure Env where
  config : RunConfig.ConfigT
  json : JsonC
  tokener : Bool
  /-- `dispatchSeed`, if there is one. -/
  dispatchSeed : Option Ec2bT
  /-- What the file `keys/regionSeed.bin` holds, if it can be opened. -/
  regionSeedFile : Option Bytes
  /-- What the members of a new `Ec2b` hold. -/
  stale : UInt64

/-- What stops a response. -/
inductive Stop where
  | assertion
  | fault (f : Fault)
  deriving DecidableEq

/-- The struct as it lies in memory. -/
def structBytes (t : Ec2bT) : Bytes :=
  leBytes 4 t.magic.toNat ++ leBytes 4 t.keyLen.toNat ++ t.key.toList ++ leBytes 4 t.dataLen.toNat ++ t.data.toList

/-- The key that a client gets from the file, through an object that checks it. -/
def clientSecretKey (stale : UInt64) (regionSeed : Bytes) : Option Bytes := do
  let o ← ofStruct stale (← readStruct regionSeed)
  return structBytes (← toStruct o)

/-- What is set from a pointer that may be null. -/
def text (p : Option Bytes) : Bytes := p.getD []

/-- A configured address, or the error that there is none. -/
def setGateserver (c : RunConfig.RegionInfo) (f : Flags) (region : RegionInfo) : Flags × RegionInfo :=
  if f.doGateserver then
    -- the address has a default and is not null
    if c.gateserverPort = 0 then (f.fail "Server is missing region data", region)
    else if c.gateserverIpIsDomainName ≠ 0 then
      (f, { region with
        useGateserverDomainName := true, gateserverDomainName := c.gateserverIp
        gateserverPort := c.gateserverPort.toUInt32 })
    else (f, { region with gateserverIp := c.gateserverIp, gateserverPort := c.gateserverPort.toUInt32 })
  else (f, region)

def setUrls (c : RunConfig.RegionInfo) (region : RegionInfo) : RegionInfo :=
  { region with
    feedbackUrl := text c.feedbackUrl
    bulletinUrl := text c.bulletinUrl
    handbookUrl := text c.handbookUrl
    officialCommunityUrl := text c.communityUrl
    userCenterUrl := text c.userCenterUrl
    privacyPolicyUrl := text c.privacyPolicyUrl
    accountBindUrl := text c.accountBindUrl
    cdkeyUrl := text c.cdKeyUrl
    payCallbackUrl := text c.payCbUrl }

/-- The message of a version of the resources. Only the next one names its script version. -/
def resVersion (r : RunConfig.ResVersionConfig) (nextScriptVersion : Bytes) : ResVersionConfig where
  version := r.resVersion
  versionSuffix := text r.resourceSuffix
  md5 := text r.resourceRes
  branch := text r.branch
  releaseTotalSize := text r.releaseTotalSize
  relogin := r.relogin ≠ 0
  nextScriptVersion

def setRes (c : RunConfig.RegionInfo) (region : RegionInfo) : RegionInfo :=
  match c.res with
  | none => region
  | some res =>
    { region with
      resourceUrl := text res.resourceUrl
      dataUrl := text res.dataUrl
      clientDataVersion := res.dataVersion
      clientVersionSuffix := text res.dataSuffix
      clientDataMd5 := text res.dataRes
      clientSilenceDataVersion := res.silenceVersion
      clientSilenceVersionSuffix := text res.silenceSuffix
      clientSilenceDataMd5 := text res.silenceRes
      resVersionConfig := some (resVersion res []) }

def setResNext (c : RunConfig.RegionInfo) (region : RegionInfo) : RegionInfo :=
  match c.resNext with
  | none => region
  | some resNext =>
    { region with
      nextResourceUrl := text resNext.resourceUrl
      nextResVersionConfig := some (resVersion resNext (text resNext.scriptVersion)) }

/-- The message `RegionInfo`, and the errors found on the way. -/
def regionInfo (env : Env) (c : RunConfig.RegionInfo) (f : Flags) : Flags × RegionInfo :=
  let (f, region) := setGateserver c f {}
  let region := setUrls c region
  let region := if f.doResVersionConfig then setResNext c (setRes c region) else region
  match env.dispatchSeed with
  | some seed => (f, { region with secretKey := structBytes seed })
  | none => (f, region)

/-- The two `if`s for the maintenance and the update, of which the later takes the place of the other. -/
def setDetail (c : RunConfig.RegionInfo) : Option Detail :=
  let detail :=
    match c.stopServer with
    | some s =>
      if c.sendStopServerOrForceUpdate = 1 then
        some (Detail.stopServer
          { stopBeginTime := s.start.toUInt32, stopEndTime := s.stop.toUInt32, url := text s.url
            contentMsg := text s.msg })
      else none
    | none => none
  match c.forceUpdateUrl with
  | some forceUpdateUrl =>
    if c.sendStopServerOrForceUpdate = 2 then some (.forceUdpate { forceUpdateUrl }) else detail
  | none => detail

/-- The first response with region info looks for the file. -/
def loadRegionSeed (env : Env) : RegionSeed → Option Bytes
  | some seed => seed
  | none => env.regionSeedFile.map fileBuffer

/-- The message of the response and the flags it ends with, for a request whose flags are known. -/
def fillRsp (env : Env) (seed : RegionSeed) (f : Flags) :
    Except Stop (Flags × QueryCurrRegionHttpRsp × RegionSeed) :=
  match env.config.regionInfo with
  | none =>
    let f := f.fail "Server is missing region data"
    return (f, { retcode := f.retcode, msg := f.msg }, seed)
  | some c =>
    let (f, region) := regionInfo env c f
    let rsp := { retcode := f.retcode, msg := f.msg, regionInfo := some region, detail := setDetail c }
    match loadRegionSeed env seed with
    | none => return (f, rsp, some none)
    | some regionSeed =>
      match clientSecretKey env.stale regionSeed with
      | none => .error .assertion
      | some key => return (f, { rsp with clientSecretKey := key }, some (some regionSeed))

/-- `getQueryCurrRegionHttpRsp` up to `build_rsp`. -/
def currRegionRsp (env : Env) (seed : RegionSeed) (post : Option Bytes) :
    Except Stop (Flags × QueryCurrRegionHttpRsp × RegionSeed) :=
  fillRsp env seed (readRequest env.json env.tokener post)

/-! ## What is sent of it -/

/-- protobuf's serializer, OpenSSL's signature with the server's key, the keys of the clients, and the
buffer for the encrypted response. -/
structure Libs where
  serialize : QueryCurrRegionHttpRsp → Option Bytes
  evpSign : Bytes → Option Bytes
  keys : Keys
  tmpbuf : Option Bytes

/-- `none` where it returns a negative length. -/
def hyvCryptRsaSign (evpSign : Bytes → Option Bytes) (ibuf : Bytes) : Option Bytes :=
  if ibuf = [] then none else evpSign ibuf

/-- A response that says it could not be serialized. -/
def notSerialized : Bytes :=
  [0x08, 0xff, 0xff, 0xff, 0xff, 0xff, 0xff, 0xff, 0xff, 0xff, 0x01, 0x12, 0x1c] ++
    ascii "Failed to serialize response"

/-- From `build_rsp`: the response and its signature. -/
def buildRsp (libs : Libs) (f : Flags) (rsp : QueryCurrRegionHttpRsp) (sign : Bytes) :
    Except Stop (Bytes × Bytes) :=
  let ret_enc := (libs.serialize rsp).getD notSerialized
  let sign := if f.doSign then (hyvCryptRsaSign libs.evpSign ret_enc).getD [] else sign
  match encryptRsp libs.keys f.doEnc.toUInt32 ret_enc libs.tmpbuf with
  | .ok sent => .ok (sent, sign)
  | .error e => .error (.fault e)

def getQueryCurrRegionHttpRsp (env : Env) (libs : Libs) (seed : RegionSeed) (sign : Bytes)
    (post : Option Bytes) : Except Stop (Bytes × Bytes × RegionSeed) := do
  let (f, rsp, seed) ← currRegionRsp env seed post
  let (sent, sign) ← buildRsp libs f rsp sign
  return (sent, sign, seed)

/-! ## What a response carries -/

theorem fillRsp_cases {env : Env} {seed seed' : RegionSeed} {f f' : Flags} {rsp : QueryCurrRegionHttpRsp}
    (h : fillRsp env seed f = .ok (f', rsp, seed')) :
    (env.config.regionInfo = none ∧ rsp.regionInfo = none ∧ rsp.detail = none) ∨
    ∃ c, env.config.regionInfo = some c ∧ rsp.regionInfo = some (regionInfo env c f).2 ∧
      rsp.detail = setDetail c := by
  unfold fillRsp at h
  split at h
  case h_1 hnone =>
    cases h
    exact .inl ⟨hnone, rfl, rfl⟩
  case h_2 c hsome =>
    refine .inr ⟨c, hsome, ?_⟩
    dsimp only at h
    split at h
    · cases h
      exact ⟨rfl, rfl⟩
    · split at h
      · cases h
      · cases h
        exact ⟨rfl, rfl⟩

/-- What is sent to a client without a key is the message. -/
theorem getQueryCurrRegionHttpRsp_plain {env : Env} {libs : Libs} {seed seed' : RegionSeed}
    {sign sign' sent : Bytes} {post : Option Bytes}
    (h : getQueryCurrRegionHttpRsp env libs seed sign post = .ok (sent, sign', seed')) :
    ∃ f rsp, currRegionRsp env seed post = .ok (f, rsp, seed') ∧
      (f.doEnc = 0 → sent = (libs.serialize rsp).getD notSerialized) := by
  obtain ⟨⟨f, rsp, seed₁⟩, hrsp, h⟩ := bind_eq_ok.mp h
  obtain ⟨⟨sent₁, sign₁⟩, hbuild, h⟩ := bind_eq_ok.mp h
  cases h
  refine ⟨f, rsp, hrsp, fun henc => ?_⟩
  have hplain : encryptRsp libs.keys f.doEnc.toUInt32 ((libs.serialize rsp).getD notSerialized) libs.tmpbuf =
      .ok ((libs.serialize rsp).getD notSerialized) := if_pos (by rw [henc]; rfl)
  rw [buildRsp, hplain] at hbuild
  cases hbuild
  rfl

end Yagips.Sdk.CurrRegion
