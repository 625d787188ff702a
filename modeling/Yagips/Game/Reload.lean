import Yagips.Game.Holdings

/-!
# Loading a player and destroying it

The destructor saves what was loaded. The constructor does not read the teams, the number
of the current team and the current avatar, so what is saved for them is what the new
object's memory happened to hold, and no teams.
-/
namespace Yagips.Game.Reload

open Yagips.Lib
open Yagips.Store.Accounts
open Yagips.Store.Gate
open Yagips.Store.Inventory
open Yagips.Game.Players
open Yagips.Game.PlayerStore
open Yagips.Game.Holdings

/-- `getPlayerByUid` and then the destructor, where there is a player. -/
def reload (e : Env) (g : DbGate) (sessions : PlayerStore.Sessions) (uid : UInt32) :
    Except Fault DbGate := do
  match ← getPlayerByUid e g sessions uid with
  | none => return g
  | some p => saveToDb e g sessions p

/-- A record is another but for the session's fields and the open states that are added. -/
def Keeps (e : Env) (r r' : PlayerInfo) : Prop :=
  r' = { r with
    sessionId := r'.sessionId
    sessionSeed := r'.sessionSeed
    sessionExpireTs := r'.sessionExpireTs
    openStates := updateOpenstates e.openstateData r.adventureRank r.openStates }

/-- The record under an id is kept by a reload. -/
def ReloadKeeps (e : Env) (g : DbGate) (sessions : PlayerStore.Sessions) (uid : UInt32)
    (r : PlayerInfo) : Prop :=
  ∃ g' r', reload e g sessions uid = .ok g' ∧ playerRecord e g' uid = some r' ∧ Keeps e r r'

/-- Nothing is stored that is not read, and the new object's memory holds what was stored. -/
structure Unread (e : Env) (p : Player) : Prop where
  teams : p.teams = []
  curTeamIndex : e.stale.curTeamIndex = p.curTeamIndex
  curAvatar : AvatarPtr.getGuid e.stale.curAvatar = AvatarPtr.getGuid p.curAvatar

/-- Looking up the account the record names gives one with that id, or none for the id 0. -/
def AccountThere (e : Env) (g : DbGate) (aid : UInt32) : Prop :=
  ∃ account, g.getAccountByAid e.codecs aid = .ok account ∧ (account.map (·.aid)).getD 0 = aid

/-! ## Open states -/

theorem setOpenstate_grows (openstates : List UInt32) (state : UInt32) :
    openstates <+: setOpenstate openstates state := by
  unfold setOpenstate
  split
  · exact List.prefix_rfl
  · exact List.prefix_append _ _

theorem openByLevel_grows (ar id : UInt32) (openstates : List UInt32) (cond : OpenCond) :
    openstates <+: openByLevel ar id openstates cond := by
  unfold openByLevel
  split
  · exact setOpenstate_grows _ _
  · exact List.prefix_rfl

/-- Loading only adds open states. -/
theorem updateOpenstates_grows (data : Option (List OpenStateDataEnt)) (ar : UInt32)
    (openstates : List UInt32) : openstates <+: updateOpenstates data ar openstates := by
  unfold updateOpenstates
  induction data.getD [] generalizing openstates with
  | nil => exact List.prefix_rfl
  | cons state rest ih =>
    refine List.IsPrefix.trans ?_ (ih _)
    unfold openEntry
    split
    · exact setOpenstate_grows _ _
    · exact (openByLevel_grows _ _ _ _).trans (openByLevel_grows _ _ _ _)

/-! ## What the constructor makes of a record -/

variable {e : Env} {g : DbGate} {sessions : PlayerStore.Sessions}

theorem getSessionById_some {id : UInt64} {slot : Nat}
    (h : getSessionById sessions id = .ok (some slot)) : ∃ s, sessions[slot]? = some (some s) :=
  (findSession_some h).imp fun _ => And.left

theorem loadSession_slot {r : PlayerInfo} {slot : Option Nat} (h : loadSession e sessions r = .ok slot) :
    ∀ i, slot = some i → ∃ s, sessions[i]? = some (some s) := by
  intro i hi
  subst hi
  unfold loadSession at h
  split at h
  · exact getSessionById_some h
  · cases h

/-- The properties of a record are set to what they are. -/
theorem record_store_record (p : Player) :
    p.levels.record (p.levels.store (p.levels.record p.props)) = p.levels.record p.props := by
  rw [record_store_iff p.mirrors]
  intro k hk
  rw [get_record, hk]
  simp

/-- The fields of a loaded record that are read back. -/
theorem ofInfo_back {p n : Player} {r : PlayerInfo} (hback : r.toReadBack = p.readBack)
    (h : Player.ofInfo e g sessions r = .ok n) : n.readBack =
      { r.toReadBack with
        aid := (n.account.map (·.aid)).getD 0
        openStates := updateOpenstates e.openstateData r.adventureRank r.openStates } := by
  rw [(ofInfo_readBack h).2]
  have hlevels : r.levels = p.levels := by
    show Levels.mk r.toReadBack.adventureRank r.toReadBack.adventureExp r.toReadBack.worldLevel = _
    rw [hback]
    rfl
  have hprops : r.levels.record (r.levels.store r.props) = r.props := by
    have hp : r.props = p.levels.record p.props := congrArg ReadBack.props hback
    rw [hlevels, hp, record_store_record]
  have hposition : some (r.position.getD ⟨0, 0, 0⟩) = r.position := by
    have hp : r.position = some p.pos := congrArg ReadBack.position hback
    rw [hp]
    rfl
  rw [hprops, hposition]

/-- The members of a loaded player that are not read. -/
theorem ofInfo_unread {r : PlayerInfo} {n : Player} (h : Player.ofInfo e g sessions r = .ok n) :
    n.uid = r.uid ∧ n.teams = [] ∧ n.avatars = [] ∧ n.inventory = [] ∧
      n.curTeamIndex = e.stale.curTeamIndex ∧ n.curAvatar = e.stale.curAvatar ∧
      loadSession e sessions r = .ok n.session := by
  obtain ⟨account, -, h⟩ := bind_eq_ok.mp h
  obtain ⟨session, hsession, h⟩ := bind_eq_ok.mp h
  cases h
  exact ⟨rfl, rfl, rfl, rfl, rfl, rfl, hsession⟩

theorem ofInfo_ok_iff {r : PlayerInfo} : (∃ n, Player.ofInfo e g sessions r = .ok n) ↔
    (∃ account, g.getAccountByAid e.codecs r.aid = .ok account) ∧
      ∃ slot, loadSession e sessions r = .ok slot := by
  constructor
  · intro ⟨n, h⟩
    obtain ⟨account, haccount, h⟩ := bind_eq_ok.mp h
    obtain ⟨session, hsession, h⟩ := bind_eq_ok.mp h
    exact ⟨⟨account, haccount⟩, session, hsession⟩
  · intro ⟨⟨account, haccount⟩, slot, hslot⟩
    unfold Player.ofInfo
    rw [haccount, ok_bind, hslot]
    exact ⟨_, rfl⟩

/-! ## What the destructor makes of it -/

theorem keeps_iff {r r' : PlayerInfo} : Keeps e r r' ↔
    r'.toReadBack = { r.toReadBack with
      openStates := updateOpenstates e.openstateData r.adventureRank r.openStates } ∧
    r'.teams = r.teams ∧ r'.curTeamId = r.curTeamId ∧ r'.curAvatarGuid = r.curAvatarGuid := by
  constructor
  · intro h
    have hback := congrArg PlayerInfo.toReadBack h
    have hteams := congrArg PlayerInfo.teams h
    have hteam := congrArg PlayerInfo.curTeamId h
    have havatar := congrArg PlayerInfo.curAvatarGuid h
    exact ⟨hback, hteams, hteam, havatar⟩
  · intro ⟨hback, hteams, hteam, havatar⟩
    cases r'
    cases hback
    cases hteams
    cases hteam
    cases havatar
    rfl

/-- Destroying a player that holds nothing puts its record and does nothing else. -/
theorem saveToDb_empty {n : Player} (havatars : n.avatars = []) (hitems : n.inventory = []) :
    saveToDb e g sessions n = savePlayer e g sessions n := by
  rw [saveToDb, saveInventoryAndAvatars, havatars, hitems]
  rfl

theorem playerRecord_put (g : DbGate) (uid : UInt32) (r : PlayerInfo) :
    playerRecord e (g.setLdbObject (playerKey uid) (e.player.serialize r)) uid = some r := by
  unfold playerRecord DbGate.setLdbObject
  rw [OrderedStore.get_put_self]
  exact e.player.parse_serialize r

/-- The record of a player is found and made a player of. -/
theorem reload_eq {p : Player} {r : PlayerInfo} (hback : r.toReadBack = p.readBack)
    (hstored : g.db.get (playerKey p.uid) = some (e.player.serialize r)) :
    reload e g sessions p.uid =
      Player.ofInfo e g sessions r >>= fun n => savePlayer e g sessions n := by
  have hfound : playerInfoByUid e g p.uid = some r := by
    unfold playerInfoByUid DbGate.getLdbObject
    rw [hstored, Option.getD_some]
    simp only [if_neg (playerInfo_serialized (e := e) hback), e.player.parse_serialize]
  unfold reload getPlayerByUid
  rw [hfound]
  cases hn : Player.ofInfo e g sessions r with
  | error f =>
    simp only [hn]
    rfl
  | ok n =>
    obtain ⟨-, -, havatars, hitems, -⟩ := ofInfo_unread hn
    simp only [hn, ok_bind, pure_eq_ok]
    exact saveToDb_empty havatars hitems

/-- A reload keeps a record where what is made of it is stored as that record. -/
theorem reloadKeeps_iff_stored {p : Player} {r : PlayerInfo} (hback : r.toReadBack = p.readBack)
    (hstored : g.db.get (playerKey p.uid) = some (e.player.serialize r)) :
    ReloadKeeps e g sessions p.uid r ↔ ∃ n r', Player.ofInfo e g sessions r = .ok n ∧
      Player.toInfo sessions e.now n = .ok r' ∧ Keeps e r r' := by
  have huid : r.uid = p.uid := congrArg ReadBack.uid hback
  unfold ReloadKeeps
  rw [reload_eq hback hstored]
  constructor
  · intro ⟨g', r', hreload, hrecord, hkeeps⟩
    obtain ⟨n, hn, hsave⟩ := bind_eq_ok.mp hreload
    obtain ⟨r'', hr'', hput⟩ := bind_eq_ok.mp hsave
    cases hput
    rw [← huid, ← (ofInfo_unread hn).1, playerRecord_put] at hrecord
    cases hrecord
    exact ⟨n, r', hn, hr'', hkeeps⟩
  · intro ⟨n, r', hn, hr', hkeeps⟩
    refine ⟨_, r', bind_eq_ok.mpr ⟨n, hn, bind_eq_ok.mpr ⟨r', hr', rfl⟩⟩, ?_, hkeeps⟩
    rw [← huid, ← (ofInfo_unread hn).1, playerRecord_put]

theorem reload_keeps_iff {sessions' : PlayerStore.Sessions} {now : Int64} {p : Player} {r : PlayerInfo}
    (hr : Player.toInfo sessions' now p = .ok r)
    (hstored : g.db.get (playerKey p.uid) = some (e.player.serialize r)) :
    ReloadKeeps e g sessions p.uid r ↔
      Unread e p ∧ AccountThere e g r.aid ∧ ∃ slot, loadSession e sessions r = .ok slot := by
  have hback := toInfo_readBack hr
  obtain ⟨fields, guid, -, hguid, hrecord⟩ := toInfo_eq.mp hr
  have hteams : r.teams = p.teams.map AvatarTeam.toInfo := by rw [hrecord]
  have hteam : r.curTeamId = p.curTeamIndex := by rw [hrecord]
  have havatar : r.curAvatarGuid = guid := by rw [hrecord]
  rw [reloadKeeps_iff_stored hback hstored]
  constructor
  · intro ⟨n, r', hn, hr', hkeeps⟩
    obtain ⟨-, hnteams, -, -, hnteam, hnavatar, hnsession⟩ := ofInfo_unread hn
    obtain ⟨fields', guid', -, hguid', rfl⟩ := toInfo_eq.mp hr'
    obtain ⟨hkback, hkteams, hkteam, hkavatar⟩ := keeps_iff.mp hkeeps
    have haid := congrArg ReadBack.aid ((ofInfo_back hback hn).symm.trans hkback)
    refine ⟨⟨?_, ?_, ?_⟩, ⟨n.account, (ofInfo_readBack hn).1, haid⟩, n.session, hnsession⟩
    · have hnil : [] = p.teams.map AvatarTeam.toInfo := by rw [← hteams, ← hkteams, hnteams]; rfl
      exact List.map_eq_nil_iff.mp hnil.symm
    · rw [← hnteam, ← hteam, ← hkteam]
    · rw [← hnavatar, hguid', hguid, ← havatar, ← hkavatar]
  · intro ⟨⟨hnil, hindex, hptr⟩, ⟨account, haccount, haid⟩, slot, hslot⟩
    obtain ⟨n, hn⟩ := ofInfo_ok_iff.mpr ⟨⟨account, haccount⟩, slot, hslot⟩
    obtain ⟨-, hnteams, -, -, hnteam, hnavatar, hnsession⟩ := ofInfo_unread hn
    obtain ⟨fields', hfields'⟩ := sessionFields_ok (loadSession_slot hnsession) e.now
    have hguid' : AvatarPtr.getGuid n.curAvatar = .ok guid := by rw [hnavatar, hptr, hguid]
    have hr' := toInfo_eq.mpr ⟨fields', guid, hfields', hguid', rfl⟩
    refine ⟨n, _, hn, hr', keeps_iff.mpr ⟨?_, ?_, ?_, havatar.symm⟩⟩
    · have hnaccount : n.account = account := by
        have hsame := (ofInfo_readBack hn).1
        rw [haccount] at hsame
        exact (Except.ok.inj hsame).symm
      rw [toInfo_readBack hr', ofInfo_back hback hn, hnaccount, haid]
    · show n.teams.map AvatarTeam.toInfo = r.teams
      rw [hnteams, hteams, hnil]
    · show n.curTeamIndex = r.curTeamId
      rw [hnteam, hindex, hteam]

/-- The server without game data, where new memory is zero. -/
def zeroEnv : Env :=
  { packedEnv with stale := { curTeamIndex := 0, curAvatar := .null, namecard := 0, pfp := 0 } }

def emptyGate : DbGate where
  db := OrderedStore.empty
  nextIds := default

def newcomer : Player := Player.fresh zeroEnv 1

theorem newcomer_reload : ∃ r g, Player.toInfo [] 0 newcomer = .ok r ∧
    g = emptyGate.setLdbObject (playerKey newcomer.uid) (zeroEnv.player.serialize r) ∧
    (ReloadKeeps zeroEnv g [] newcomer.uid r ↔ Unread zeroEnv newcomer ∧ AccountThere zeroEnv g r.aid ∧
      ∃ slot, loadSession zeroEnv [] r = .ok slot) := by
  obtain ⟨r, hr, -⟩ : ∃ r, Player.toInfo [] 0 newcomer = .ok r ∧ r.uid = 1 :=
    map_eq_ok.mp (by decide +kernel)
  exact ⟨r, _, hr, rfl, reload_keeps_iff hr (OrderedStore.get_put_self _ _ _)⟩

/-- A new player with a new team. -/
def teamed : Player :=
  Player.addAvatarTeam newcomer
    { name := [0x4e, 0x65, 0x77, 0x20, 0x54, 0x65, 0x61, 0x6d], avatars := [] }

/-- Its team is gone once it was loaded and destroyed. -/
theorem team_lost : ∃ r g, Player.toInfo [] 0 teamed = .ok r ∧
    savePlayer zeroEnv emptyGate [] teamed = .ok g ∧ ¬ ReloadKeeps zeroEnv g [] 1 r := by
  obtain ⟨g, hg, hrest⟩ : ∃ g, savePlayer zeroEnv emptyGate [] teamed = .ok g ∧
      (reload zeroEnv g [] 1).map (fun g' => (playerRecord zeroEnv g' 1).map (·.teams)) = .ok (some []) :=
    map_eq_ok.mp (by decide +kernel)
  obtain ⟨r, hr, hteams⟩ : ∃ r, Player.toInfo [] 0 teamed = .ok r ∧ r.teams.length = 1 :=
    map_eq_ok.mp (by decide +kernel)
  refine ⟨r, g, hr, hg, ?_⟩
  intro ⟨g', r', hreload, hrecord, hkeeps⟩
  obtain ⟨g'', hreload', hnil⟩ := map_eq_ok.mp hrest
  cases hreload.symm.trans hreload'
  obtain ⟨r'', hrecord', hnil⟩ := Option.map_eq_some_iff.mp hnil
  cases hrecord.symm.trans hrecord'
  rw [← (keeps_iff.mp hkeeps).2.1, hnil] at hteams
  cases hteams

end Yagips.Game.Reload
