import Yagips.Game.PlayerStore

/-!
# Avatars and items of a player

The calls that change what a player holds. An object passed to be changed gets the halves
of a guid that it lacks, where an avatar whose low half is set keeps it and an item whose
high half is not loses it. An object passed as constant is taken as it is. A pointer that is
not null does what a reference does.
-/
namespace Yagips.Game.Holdings

open Yagips.Lib
open Yagips.Store.Gate
open Yagips.Store.Inventory
open Yagips.Game.Players
open Yagips.Game.PlayerStore

def highHalf (guid : UInt64) : UInt32 := (guid >>> 32).toUInt32

def lowHalf (guid : UInt64) : UInt32 := guid.toUInt32

def ofHalves (high low : UInt32) : UInt64 := high.toUInt64 <<< 32 ||| low.toUInt64

/-! ## Calls -/

/-- `addAvatar(Avatar&)`: a new low half is set together with the high half 0, and then the
high half, where it is 0, to the player's id. -/
def Player.addAvatar (p : Player) (a : Holding) : Player :=
  let isNew := lowHalf a.guid = 0
  let guid := if isNew then p.nextGuid.toUInt64 else a.guid
  let guid := if highHalf guid = 0 then ofHalves p.uid (lowHalf guid) else guid
  { p with
    avatars := p.avatars ++ [{ a with guid }]
    nextGuid := if isNew then p.nextGuid + 1 else p.nextGuid }

/-- `addItem(Item&)`. -/
def Player.addItem (p : Player) (i : Holding) : Player :=
  let guid := if highHalf i.guid = 0 then p.uid.toUInt64 <<< 32 else i.guid
  let isNew := lowHalf guid = 0
  { p with
    inventory := p.inventory ++ [{ i with guid := if isNew then guid ||| p.nextGuid.toUInt64 else guid }]
    nextGuid := if isNew then p.nextGuid + 1 else p.nextGuid }

def Player.addConstAvatar (p : Player) (a : Holding) : Player :=
  { p with avatars := p.avatars ++ [a] }

def Player.addConstItem (p : Player) (i : Holding) : Player :=
  { p with inventory := p.inventory ++ [i] }

/-- The first one under a guid replaced, or a new one at the end. -/
def setByGuid (guid : UInt64) (h : Holding) : List Holding → List Holding
  | [] => [h]
  | h' :: rest => if h'.guid = guid then h :: rest else h' :: setByGuid guid h rest

/-- `setAvatar(guid, Avatar&)`. -/
def Player.setAvatar (p : Player) (guid : UInt64) (a : Holding) : Player :=
  { p with avatars := setByGuid guid { a with guid } p.avatars }

def Player.setItem (p : Player) (guid : UInt64) (i : Holding) : Player :=
  { p with inventory := setByGuid guid { i with guid } p.inventory }

def Player.setConstAvatar (p : Player) (guid : UInt64) (a : Holding) : Player :=
  if a.guid ≠ guid then p else Player.setAvatar p guid a

def Player.setConstItem (p : Player) (guid : UInt64) (i : Holding) : Player :=
  if i.guid ≠ guid then p else Player.setItem p guid i

def Player.delAvatar (p : Player) (test : Holding → Bool) : Player :=
  { p with avatars := p.avatars.eraseP test }

def Player.delItem (p : Player) (test : Holding → Bool) : Player :=
  { p with inventory := p.inventory.eraseP test }

/-! ## Teams -/

def Player.addAvatarTeam (p : Player) (team : AvatarTeam) : Player :=
  { p with teams := p.teams ++ [team] }

/-- `swapToTeam` to the first team that is equal. -/
def Player.swapToTeam (p : Player) (team : AvatarTeam) : Player :=
  match p.teams.findIdx? (· = team) with
  | none => p
  | some i => { p with curTeamIndex := UInt32.ofNat i }

/-! ## Logging in -/

/-- The messages of the weapon and the avatar a login adds, beside their ids. Without the
game data of the avatar there is none. -/
structure Starter where
  weapon : Bytes
  avatar : Option Bytes

def weaponId : UInt32 := 14502
def avatarId : UInt32 := 10000029

/-- The guid a login gives the avatar, and with one bit more the weapon. -/
def starterGuid (uid : UInt32) : UInt64 := uid.toUInt64 <<< 32 ||| 0xd0d0c0

def weaponGuid (uid : UInt32) : UInt64 := starterGuid uid ||| 0x1000000

/-- The text "yagips test team". -/
def teamName : Bytes :=
  [0x79, 0x61, 0x67, 0x69, 0x70, 0x73, 0x20, 0x74, 0x65, 0x73, 0x74, 0x20, 0x74, 0x65, 0x61, 0x6d]

/-- A new team with the avatar under a guid, if there is one. -/
def teamOf (p : Player) (guid : UInt64) : AvatarTeam where
  name := teamName
  avatars := (p.getAvatarByGuid guid).toList.map fun a => some a.guid

/-- `onLogin` for a session whose player this is. It does nothing where the session has no
KCP object. -/
def Player.onLogin (e : Env) (starter : Starter) (connected : Bool) (p : Player) :
    Except Fault Player :=
  if !connected then return p
  else
    let p := Player.addItem p { id := weaponId, guid := weaponGuid p.uid, fields := starter.weapon }
    match starter.avatar with
    | none => .error .pointer
    | some fields =>
      let p := Player.addAvatar p { id := avatarId, guid := starterGuid p.uid, fields }
      let p := p.swapToAvatar (starterGuid p.uid)
      let team := teamOf p (starterGuid p.uid)
      let p := Player.swapToTeam (Player.addAvatarTeam p team) team
      return { p with openstates := updateOpenstates e.openstateData p.levels.ar p.openstates }

/-! ## Loading -/

def askedGuid (uid : UInt32) (i : Nat) : UInt64 := uid.toUInt64 <<< 32 ||| UInt64.ofNat i

/-- The entry under a guid of the player's, if there is one, added as it is stored. -/
def loadEntry (e : Env) (g : DbGate) (p : Player) (i : Nat) : Player :=
  match getInventoryEntry e.entry g (askedGuid p.uid i) with
  | none => p
  | some (.avatar a) => Player.addConstAvatar p a
  | some (.item i) => Player.addConstItem p i
  | some .empty => p

def loadInventoryAndAvatars (e : Env) (g : DbGate) (p : Player) : Player :=
  (List.range p.nextGuid.toNat).foldl (loadEntry e g) p

/-! ## Halves of a guid -/

theorem askedGuid_toNat (uid : UInt32) {i : Nat} (hi : i < 2 ^ 32) :
    (askedGuid uid i).toNat = uid.toNat * 2 ^ 32 + i := by
  have huid := uid.toNat_lt
  have hshift : (uid.toUInt64 <<< 32).toNat = uid.toNat * 2 ^ 32 := by
    rw [UInt64.toNat_shiftLeft, UInt32.toNat_toUInt64]
    show uid.toNat <<< 32 % 2 ^ 64 = _
    rw [Nat.shiftLeft_eq]
    exact Nat.mod_eq_of_lt (by omega)
  have hlow : (UInt64.ofNat i).toNat = i := by
    rw [UInt64.toNat_ofNat']
    exact Nat.mod_eq_of_lt (by omega)
  have hjoin := shift_or_eq uid.toNat i 32 hi
  rw [Nat.shiftLeft_eq] at hjoin
  rw [askedGuid, UInt64.toNat_or, hshift, hlow, hjoin]

theorem highHalf_toNat (guid : UInt64) : (highHalf guid).toNat = guid.toNat / 2 ^ 32 := by
  have h := guid.toNat_lt
  rw [highHalf, UInt64.toNat_toUInt32, UInt64.toNat_shiftRight]
  show guid.toNat >>> 32 % 2 ^ 32 = _
  rw [Nat.shiftRight_eq_div_pow]
  exact Nat.mod_eq_of_lt (by omega)

theorem lowHalf_toNat (guid : UInt64) : (lowHalf guid).toNat = guid.toNat % 2 ^ 32 :=
  UInt64.toNat_toUInt32 guid

theorem halves_asked (uid : UInt32) {i : Nat} (hi : i < 2 ^ 32) :
    highHalf (askedGuid uid i) = uid ∧ lowHalf (askedGuid uid i) = UInt32.ofNat i := by
  have hasked := askedGuid_toNat uid hi
  constructor
  · apply UInt32.toNat_inj.mp
    rw [highHalf_toNat, hasked]
    omega
  · apply UInt32.toNat_inj.mp
    rw [lowHalf_toNat, hasked, UInt32.toNat_ofNat']
    omega

theorem starterGuid_halves (uid : UInt32) :
    highHalf (starterGuid uid) = uid ∧ lowHalf (starterGuid uid) = 0xd0d0c0 :=
  halves_asked uid (i := 0xd0d0c0) (by decide)

/-! ## What a login does -/

/-- The avatar a login adds keeps its guid. -/
theorem addAvatar_starter (p : Player) (fields : Bytes) :
    (Player.addAvatar p { id := avatarId, guid := starterGuid p.uid, fields }).avatars =
      p.avatars ++ [{ id := avatarId, guid := starterGuid p.uid, fields }] := by
  have hlow := (starterGuid_halves p.uid).2
  have hkept : ¬ lowHalf (starterGuid p.uid) = 0 := by
    rw [hlow]
    decide
  have hhalves : ofHalves p.uid (lowHalf (starterGuid p.uid)) = starterGuid p.uid := by
    rw [hlow]
    rfl
  simp only [Player.addAvatar, hkept, if_false, hhalves, ite_self]

theorem swapToAvatar_of_mem {p : Player} {a : Holding} (ha : a ∈ p.avatars) :
    (p.swapToAvatar a.guid).curAvatar = .avatar a.guid := by
  unfold Player.swapToAvatar
  cases hfind : p.getAvatarByGuid a.guid with
  | none =>
    have hne := List.find?_eq_none.mp hfind a ha
    exact absurd (decide_eq_true rfl) hne
  | some a' =>
    have hguid : a'.guid = a.guid := by
      unfold Player.getAvatarByGuid at hfind
      simpa using List.find?_some hfind
    rw [← hguid]

/-- Swapping to an avatar sets the current one and nothing else. -/
theorem swapToAvatar_eq (p : Player) (guid : UInt64) :
    ∃ curAvatar, p.swapToAvatar guid = { p with curAvatar } := by
  unfold Player.swapToAvatar
  split
  · exact ⟨p.curAvatar, rfl⟩
  case h_2 a _ => exact ⟨.avatar a.guid, rfl⟩

theorem swapToTeam_eq (p : Player) (team : AvatarTeam) :
    ∃ curTeamIndex, Player.swapToTeam p team = { p with curTeamIndex } := by
  unfold Player.swapToTeam
  split
  · exact ⟨p.curTeamIndex, rfl⟩
  case h_2 i _ => exact ⟨UInt32.ofNat i, rfl⟩

/-- The player once the weapon and the avatar of a login are added. -/
def withStarter (p : Player) (weapon avatar : Bytes) : Player :=
  Player.addAvatar (Player.addItem p { id := weaponId, guid := weaponGuid p.uid, fields := weapon })
    { id := avatarId, guid := starterGuid p.uid, fields := avatar }

theorem withStarter_avatars (p : Player) (weapon avatar : Bytes) :
    (withStarter p weapon avatar).avatars =
      p.avatars ++ [{ id := avatarId, guid := starterGuid p.uid, fields := avatar }] :=
  addAvatar_starter (Player.addItem p _) avatar

/-- What a login adds becomes current, and beside it only teams and open states change. -/
theorem onLogin_eq {e : Env} {starter : Starter} {p p' : Player}
    (h : Player.onLogin e starter true p = .ok p') : ∃ fields teams curTeamIndex openstates,
      p' = { withStarter p starter.weapon fields with
        curAvatar := .avatar (starterGuid p.uid), teams, curTeamIndex, openstates } := by
  unfold Player.onLogin at h
  simp only [Bool.not_true, Bool.false_eq_true, if_false] at h
  split at h
  case h_1 => cases h
  case h_2 fields _ =>
    have hmem : { id := avatarId, guid := starterGuid p.uid, fields } ∈
        (withStarter p starter.weapon fields).avatars := by
      rw [withStarter_avatars]
      exact List.mem_append_right _ (List.mem_singleton.mpr rfl)
    have hcur := swapToAvatar_of_mem hmem
    obtain ⟨curAvatar, hswap⟩ := swapToAvatar_eq (withStarter p starter.weapon fields) (starterGuid p.uid)
    rw [hswap] at hcur
    cases (show curAvatar = _ from hcur)
    change (Except.ok { Player.swapToTeam (Player.addAvatarTeam
      ((withStarter p starter.weapon fields).swapToAvatar (starterGuid p.uid)) _) _ with
        openstates := _ } : Except Fault Player) = .ok p' at h
    rw [hswap] at h
    generalize teamOf _ _ = team at h
    obtain ⟨index, hteam⟩ := swapToTeam_eq (Player.addAvatarTeam _ team) team
    rw [hteam] at h
    cases h
    exact ⟨fields, _, index, _, rfl⟩

/-- A login keeps the account and the id, and its avatar, added behind the others, is the current one. -/
theorem onLogin_ok {e : Env} {starter : Starter} {p p' : Player}
    (h : Player.onLogin e starter true p = .ok p') : p'.account = p.account ∧ p'.uid = p.uid ∧
      ∃ a, p'.avatars = p.avatars ++ [a] ∧ a.guid = starterGuid p.uid ∧ p'.curAvatar = .avatar a.guid := by
  obtain ⟨fields, teams, index, openstates, rfl⟩ := onLogin_eq h
  refine ⟨rfl, rfl, { id := avatarId, guid := starterGuid p.uid, fields }, ?_, rfl, rfl⟩
  exact withStarter_avatars p starter.weapon fields

end Yagips.Game.Holdings
