import Yagips.Sdk.CurrRegion

/-!
# Maintenance and forced update

The configuration keeps the mode only where it is more than 2, and the response knows the modes 1 and 2.
A number reaches them only if it is cut to them on its way into an `unsigned int`.
-/
namespace Yagips.Sdk.Maintenance

open Yagips.Lib
open Yagips.Config.Toml
open Yagips.Config.RunConfig
open Yagips.Sdk.CurrRegion (Env RegionSeed Flags QueryCurrRegionHttpRsp currRegionRsp fillRsp_cases setDetail)

/-! ## What is asked of a configuration -/

/-- A configuration from a file with the number `v` for the mode, and its region. -/
structure Configured (toml : TomlC) (heap : Heap) (dataDir : Bytes) (root dispatch : TomlTable) (v : Int64)
    (c : ConfigT) (info : RegionInfo) : Prop where
  hasDispatch : tomlTableTable root "dispatch" = some dispatch
  mode : tomlTableInt dispatch "sendStopServerOrForceUpdate" = some v
  loaded : config toml heap dataDir (some root) = .ok c
  region : c.regionInfo = some info

/-- The mode is kept where it is one, and every response with region info carries the message that the
mode stands for, if what it tells is configured. -/
structure ReachesClient (toml : TomlC) (dispatch : TomlTable) (v : Int64) (c : ConfigT) (info : RegionInfo) :
    Prop where
  stored : (info.sendStopServerOrForceUpdate.toNat : Int) = if v.toInt ∈ [0, 1, 2] then v.toInt else 0
  sent : ∀ (env : Env) (seed seed' : RegionSeed) (post : Option Bytes) (f : Flags)
    (rsp : QueryCurrRegionHttpRsp), env.config = c → currRegionRsp env seed post = .ok (f, rsp, seed') →
    rsp.regionInfo.isSome →
      (rsp.stopServer.isSome ↔ v.toInt = 1 ∧ (tomlTableTable dispatch "stop").isSome) ∧
      (rsp.forceUdpate.isSome ↔ v.toInt = 2 ∧ (toml.tableString dispatch "forceUpdateUrl").isSome)

/-! ## What is stored -/

/-- The low half of a number above 2, and 0 of any other. -/
theorem sendMode_toInt (v : Int64) :
    ((sendMode (some v)).toNat : Int) = if 2 < v.toInt then v.toInt % 2 ^ 32 else 0 := by
  have hiff : v > 2 ↔ 2 < v.toInt := Int64.lt_iff_toInt_lt
  by_cases h : 2 < v.toInt
  · have hpos : 0 ≤ v := Int64.le_iff_toInt_le.mpr (by rw [Int64.toInt_zero]; omega)
    have hnat : (v.toUInt64.toNat : Int) = v.toInt := by
      rw [Int64.toNat_toUInt64_of_le hpos]
      exact Int.toNat_of_nonneg (by omega)
    rw [if_pos h, sendMode, if_pos (hiff.mpr h), UInt64.toNat_toUInt32, Int.natCast_mod, hnat]
    rfl
  · rw [if_neg h, sendMode, if_neg fun hv => h (hiff.mp hv)]
    rfl

/-- A mode other than 0 is stored of larger numbers only. -/
theorem sendMode_eq_iff (v : Int64) {mode : UInt32} (h : mode ≠ 0) :
    sendMode (some v) = mode ↔ 2 < v.toInt ∧ v.toInt % 2 ^ 32 = mode.toNat := by
  have hsent := sendMode_toInt v
  have hpos : mode.toNat ≠ 0 := fun hzero => h (UInt32.toNat_inj.mp hzero)
  rw [← UInt32.toNat_inj]
  split_ifs at hsent with hlarge
  · rw [← hsent, Int.natCast_inj, and_iff_right hlarge]
  · exact iff_of_false (by omega) fun hboth => hlarge hboth.1

/-- What is stored is the mode where both are 0, and nowhere else. -/
theorem stored_iff (v : Int64) :
    ((sendMode (some v)).toNat : Int) = (if v.toInt ∈ [0, 1, 2] then v.toInt else 0) ↔
      v.toInt ≤ 0 ∨ 2 ^ 32 ∣ v.toInt := by
  have hmodes : v.toInt ∈ [0, 1, 2] ↔ v.toInt = 0 ∨ v.toInt = 1 ∨ v.toInt = 2 := by simp
  rw [sendMode_toInt, Int.dvd_iff_emod_eq_zero]
  simp only [hmodes]
  split_ifs with hlarge hmode
  · omega
  · omega
  · omega
  · omega

theorem loadRegionInfo_spec {toml : TomlC} {heap : Heap} {dispatch : TomlTable} {info : RegionInfo}
    (h : loadRegionInfo toml heap dispatch = .ok info) :
    info.sendStopServerOrForceUpdate = sendMode (tomlTableInt dispatch "sendStopServerOrForceUpdate") ∧
    info.forceUpdateUrl = toml.tableString dispatch "forceUpdateUrl" ∧
    (info.stopServer.isSome ↔ (tomlTableTable dispatch "stop").isSome ∧ heap.stopServer = true) := by
  obtain ⟨⟨res, resNext⟩, -, hinfo⟩ := bind_eq_ok.mp h
  cases hinfo
  refine ⟨rfl, rfl, ?_⟩
  dsimp only
  cases tomlTableTable dispatch "stop" with
  | none => simp
  | some sub => cases heap.stopServer <;> simp

/-! ## What is sent -/

/-- Each of the two messages is sent in its mode, if there is something to tell. -/
theorem setDetail_iff (info : RegionInfo) {rsp : QueryCurrRegionHttpRsp} (h : rsp.detail = setDetail info) :
    (rsp.stopServer.isSome ↔ info.sendStopServerOrForceUpdate = 1 ∧ info.stopServer.isSome) ∧
    (rsp.forceUdpate.isSome ↔ info.sendStopServerOrForceUpdate = 2 ∧ info.forceUpdateUrl.isSome) := by
  rw [QueryCurrRegionHttpRsp.stopServer, QueryCurrRegionHttpRsp.forceUdpate, h, setDetail]
  by_cases hstop : info.sendStopServerOrForceUpdate = 1
  · cases info.stopServer <;> cases info.forceUpdateUrl <;> simp [hstop]
  · by_cases hupdate : info.sendStopServerOrForceUpdate = 2
    · cases info.stopServer <;> cases info.forceUpdateUrl <;> simp [hupdate]
    · cases info.stopServer <;> cases info.forceUpdateUrl <;> simp [hstop, hupdate]

section

variable {toml : TomlC} {heap : Heap} {dataDir : Bytes} {root dispatch : TomlTable} {v : Int64} {c : ConfigT}
  {info : RegionInfo}

theorem Configured.loads (h : Configured toml heap dataDir root dispatch v c info) :
    loadRegionInfo toml heap dispatch = .ok info := by
  have hloaded := h.loaded
  rw [config, h.hasDispatch] at hloaded
  dsimp only at hloaded
  split at hloaded
  case isTrue =>
    obtain ⟨info', hinfo, hc⟩ := bind_eq_ok.mp hloaded
    cases hc
    rw [hinfo, Option.some.inj h.region]
  case isFalse =>
    cases hloaded
    cases h.region

theorem Configured.stored (h : Configured toml heap dataDir root dispatch v c info) :
    info.sendStopServerOrForceUpdate = sendMode (some v) := by
  rw [(loadRegionInfo_spec h.loads).1, h.mode]

/-- What a response with region info carries. -/
theorem Configured.sent_iff (h : Configured toml heap dataDir root dispatch v c info) {env : Env}
    (henv : env.config = c) {seed seed' : RegionSeed} {post : Option Bytes} {f : Flags}
    {rsp : QueryCurrRegionHttpRsp} (hrsp : currRegionRsp env seed post = .ok (f, rsp, seed'))
    (hregion : rsp.regionInfo.isSome) :
    (rsp.stopServer.isSome ↔
      (2 < v.toInt ∧ v.toInt % 2 ^ 32 = 1) ∧ (tomlTableTable dispatch "stop").isSome ∧ heap.stopServer = true) ∧
    (rsp.forceUdpate.isSome ↔
      (2 < v.toInt ∧ v.toInt % 2 ^ 32 = 2) ∧ (toml.tableString dispatch "forceUpdateUrl").isSome) := by
  have hdetail : rsp.detail = setDetail info := by
    rcases fillRsp_cases hrsp with ⟨-, hnone, -⟩ | ⟨info', hinfo, -, hdetail⟩
    · rw [hnone] at hregion
      cases hregion
    · rw [henv, h.region] at hinfo
      cases hinfo
      exact hdetail
  obtain ⟨-, hurl, hserver⟩ := loadRegionInfo_spec h.loads
  obtain ⟨hstop, hupdate⟩ := setDetail_iff info hdetail
  rw [hstop, hupdate, h.stored, sendMode_eq_iff v (by decide), sendMode_eq_iff v (by decide), hserver, hurl]
  exact ⟨Iff.rfl, Iff.rfl⟩

/-- The numbers that stand for a mode, and all below, send neither message. -/
theorem Configured.silent (h : Configured toml heap dataDir root dispatch v c info) (hv : v.toInt ≤ 2)
    {env : Env} (henv : env.config = c) {seed seed' : RegionSeed} {post : Option Bytes} {f : Flags}
    {rsp : QueryCurrRegionHttpRsp} (hrsp : currRegionRsp env seed post = .ok (f, rsp, seed'))
    (hregion : rsp.regionInfo.isSome) : rsp.stopServer = none ∧ rsp.forceUdpate = none := by
  obtain ⟨hstop, hupdate⟩ := h.sent_iff henv hrsp hregion
  have hsmall : ¬ 2 < v.toInt := Int.not_lt.mpr hv
  refine ⟨Option.not_isSome_iff_eq_none.mp fun hs => ?_, Option.not_isSome_iff_eq_none.mp fun hu => ?_⟩
  · exact hsmall (hstop.mp hs).1.1
  · exact hsmall (hupdate.mp hu).1.1

/-- A number that reaches a mode is a larger one than it, so the switch works where it is not used. -/
theorem reaches_client_iff (h : Configured toml heap dataDir root dispatch v c info) :
    ReachesClient toml dispatch v c info ↔ v.toInt ≤ 0 ∨ 2 ^ 32 ∣ v.toInt := by
  constructor
  · intro hreaches
    have hstored := hreaches.stored
    rw [h.stored] at hstored
    exact (stored_iff v).mp hstored
  · intro hv
    refine ⟨by rw [h.stored]; exact (stored_iff v).mpr hv, fun env seed seed' post f rsp henv hrsp hregion => ?_⟩
    obtain ⟨hstop, hupdate⟩ := h.sent_iff henv hrsp hregion
    have hnone : ¬ (2 < v.toInt ∧ v.toInt % 2 ^ 32 = 1) ∧ ¬ (2 < v.toInt ∧ v.toInt % 2 ^ 32 = 2) := by omega
    rw [hstop, hupdate]
    exact ⟨iff_of_false (fun hs => hnone.1 hs.1) (by omega), iff_of_false (fun hu => hnone.2 hu.1) (by omega)⟩

end

/-! ## Configurations with a maintenance period -/

/-- A library that takes the quotes from a string without escapes. -/
def unquoting : TomlC where
  string raw := some (raw.drop 1).dropLast

def allocating : Heap where
  regionInfo := true
  res := true
  resNext := true
  stopServer := true
  staleDomainName := 0

/-- `[dispatch]` with the mode and an address, and `[dispatch.stop]`. -/
def stopping (mode : String) : TomlTable :=
  .mk [("sendStopServerOrForceUpdate", ascii mode), ("forceUpdateUrl", ascii "'http://localhost'")]
    [("stop", .mk [("start", ascii "1700000000")] [])]

def rootOf (dispatch : TomlTable) : TomlTable := .mk [] [("dispatch", dispatch)]

/-- Every number can be configured. -/
theorem configured_any (toml : TomlC) (dataDir : Bytes) (v : Int64) : ∃ c info,
    Configured toml allocating dataDir (rootOf (stopping (toString v.toInt))) (stopping (toString v.toInt)) v
      c info :=
  ⟨_, _, rfl, tomlValueInt_toString v, rfl, rfl⟩

theorem reaches_client_disabled : ∃ c info,
    Configured unquoting allocating [] (rootOf (stopping "0")) (stopping "0") 0 c info ∧
    ReachesClient unquoting (stopping "0") 0 c info :=
  have h : Configured unquoting allocating [] (rootOf (stopping "0")) (stopping "0") 0 _ _ := ⟨rfl, rfl, rfl, rfl⟩
  ⟨_, _, h, (reaches_client_iff h).mpr (.inl (by decide))⟩

/-- The mode for maintenance is stored as 0. -/
theorem not_reaches_client : ¬ ∀ (toml : TomlC) (heap : Heap) (dataDir : Bytes) (root dispatch : TomlTable)
    (v : Int64) (c : ConfigT) (info : RegionInfo), Configured toml heap dataDir root dispatch v c info →
    ReachesClient toml dispatch v c info := by
  intro hall
  have h : Configured unquoting allocating [] (rootOf (stopping "1")) (stopping "1") 1 _ _ := ⟨rfl, rfl, rfl, rfl⟩
  have hstored := (hall _ _ _ _ _ _ _ _ h).stored
  rw [h.stored] at hstored
  exact absurd hstored (by decide)

end Yagips.Sdk.Maintenance
