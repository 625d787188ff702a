import Yagips.Config.Toml

/-!
# The configuration

What `Config::Config` keeps of a file for the region that the dispatch server describes: the section
`dispatch` with its subsections, and the path of the server's data.
-/
namespace Yagips.Config.RunConfig

open Yagips.Lib
open Yagips.Config.Toml

structure ResVersionConfig where
  resourceUrl : Option Bytes
  dataUrl : Option Bytes
  resourceSuffix : Option Bytes
  dataSuffix : Option Bytes
  silenceSuffix : Option Bytes
  branch : Option Bytes
  scriptVersion : Option Bytes
  resVersion : UInt32
  dataVersion : UInt32
  silenceVersion : UInt32
  resourceRes : Option Bytes
  dataRes : Option Bytes
  silenceRes : Option Bytes
  relogin : UInt32
  releaseTotalSize : Option Bytes

structure StopServer where
  start : UInt64
  stop : UInt64
  url : Option Bytes
  msg : Option Bytes

structure RegionInfo where
  gateserverIp : Bytes
  gateserverPort : UInt16
  gateserverIpIsDomainName : UInt32
  feedbackUrl : Option Bytes
  bulletinUrl : Option Bytes
  handbookUrl : Option Bytes
  communityUrl : Option Bytes
  userCenterUrl : Option Bytes
  privacyPolicyUrl : Option Bytes
  accountBindUrl : Option Bytes
  cdKeyUrl : Option Bytes
  payCbUrl : Option Bytes
  res : Option ResVersionConfig
  resNext : Option ResVersionConfig
  forceUpdateUrl : Option Bytes
  sendStopServerOrForceUpdate : UInt32
  stopServer : Option StopServer

structure ConfigT where
  dataPath : Bytes
  regionInfo : Option RegionInfo

/-- Which calls of `malloc` succeed, and what the memory of the region holds before. -/
structure Heap where
  regionInfo : Bool
  res : Bool
  resNext : Bool
  stopServer : Bool
  staleDomainName : UInt32

/-! ## The values -/

/-- `val.ok ? val.u.i : i`, for a default that is an integer. -/
def intOr (tab : TomlTable) (key : String) (i : Int64) : Int64 := (tomlTableInt tab key).getD i

/-- `val.ok ? val.u.i > 2u ? val.u.i : 0 : 0`, as it is assigned to an `unsigned int`. -/
def sendMode : Option Int64 → UInt32
  | some i => (if i > 2 then i else 0).toUInt64.toUInt32
  | none => 0

section

variable (toml : TomlC) (heap : Heap)

def loadRes (tab : TomlTable) : ResVersionConfig where
  resourceUrl := toml.tableString tab "resourceUrl"
  dataUrl := toml.tableString tab "dataUrl"
  resourceSuffix := toml.tableString tab "resourceSuffix"
  dataSuffix := toml.tableString tab "dataSuffix"
  silenceSuffix := toml.tableString tab "silenceSuffix"
  resVersion := (intOr tab "resVersion" 0).toUInt64.toUInt32
  dataVersion := (intOr tab "dataVersion" 0).toUInt64.toUInt32
  silenceVersion := (intOr tab "silenceVersion" 0).toUInt64.toUInt32
  branch := toml.tableString tab "branch"
  scriptVersion := toml.tableString tab "scriptVersion"
  releaseTotalSize := toml.tableString tab "releaseTotalSize"
  relogin := (intOr tab "relogin" 0).toUInt64.toUInt32
  resourceRes := toml.tableString tab "resourceRes"
  dataRes := toml.tableString tab "dataRes"
  silenceRes := toml.tableString tab "silenceRes"

/-- The section `next`, which takes its addresses from the other. -/
def loadResNext (res : ResVersionConfig) (tab : TomlTable) : ResVersionConfig :=
  { loadRes toml tab with resourceUrl := res.resourceUrl, dataUrl := res.dataUrl }

def loadStopServer (tab : TomlTable) : StopServer where
  start := (intOr tab "start" 0).toUInt64
  stop := (intOr tab "end" 0).toUInt64
  url := toml.tableString tab "url"
  msg := toml.tableString tab "msg"

/-- `regionInfo->res` and `regionInfo->resNext`. The second follows the first without a check. -/
def loadResources (dispatch : TomlTable) : Except Fault (Option ResVersionConfig × Option ResVersionConfig) :=
  match tomlTableTable dispatch "res" with
  | none => return (none, none)
  | some sub => do
    let res := if heap.res then some (loadRes toml sub) else none
    match tomlTableTable sub "next" with
    | none => return (res, none)
    | some sub =>
      if heap.resNext then
        match res with
        | none => .error .pointer
        | some r => return (res, some (loadResNext toml r sub))
      else return (res, none)

/-- The section `dispatch`, once there is memory for it. -/
def loadRegionInfo (dispatch : TomlTable) : Except Fault RegionInfo := do
  let (res, resNext) ← loadResources toml heap dispatch
  return {
    gateserverIp := (toml.tableString dispatch "gateserverIp").getD (ascii "127.0.0.1")
    gateserverPort := (intOr dispatch "gateserverPort" 22102).toUInt64.toUInt16
    -- where nothing is configured nothing is assigned
    gateserverIpIsDomainName :=
      ((tomlTableBool dispatch "gateserverIpIsDomain").map fun b => if b then 1 else 0).getD heap.staleDomainName
    feedbackUrl := toml.tableString dispatch "feedbackUrl"
    bulletinUrl := toml.tableString dispatch "bulletinUrl"
    handbookUrl := toml.tableString dispatch "handbookUrl"
    communityUrl := toml.tableString dispatch "communityUrl"
    userCenterUrl := toml.tableString dispatch "userCenterUrl"
    privacyPolicyUrl := toml.tableString dispatch "privacyPolicyUrl"
    accountBindUrl := toml.tableString dispatch "accountBindUrl"
    cdKeyUrl := toml.tableString dispatch "cdKeyUrl"
    payCbUrl := toml.tableString dispatch "payCbUrl"
    forceUpdateUrl := toml.tableString dispatch "forceUpdateUrl"
    sendStopServerOrForceUpdate := sendMode (tomlTableInt dispatch "sendStopServerOrForceUpdate")
    res
    resNext
    stopServer :=
      match tomlTableTable dispatch "stop" with
      | none => none
      | some sub => if heap.stopServer then some (loadStopServer toml sub) else none }

/-- `Config::Config` behind the search for a file, with the table it found. -/
def config (dataDir : Bytes) : Option TomlTable → Except Fault ConfigT
  | none => return { dataPath := dataDir, regionInfo := none }
  | some rootConfig => do
    let dataPath :=
      match tomlTableTable rootConfig "core" with
      | some core => (toml.tableString core "dataPath").getD dataDir
      | none => dataDir
    match tomlTableTable rootConfig "dispatch" with
    | none => return { dataPath, regionInfo := none }
    | some dispatch =>
      if heap.regionInfo then return { dataPath, regionInfo := some (← loadRegionInfo toml heap dispatch) }
      else return { dataPath, regionInfo := none }

end

end Yagips.Config.RunConfig
