import Mathlib.Data.List.Nodup
import Yagips.Game.Holdings
import Yagips.Lib.Run

/-!
# Guids from the counter

New avatars and items count the low half of their guids up together, from 1. A login adds an
avatar and a weapon under two fixed low halves, and the counter neither skips them nor asks
for them.
-/
namespace Yagips.Game.Guids

open Yagips.Lib
open Yagips.Lib.Run
open Yagips.Store.Inventory
open Yagips.Game.Players
open Yagips.Game.PlayerStore
open Yagips.Game.Holdings

/-! ## Runs of a player -/

/-- The calls, of which the first two are given an object with the guid 0. -/
inductive Call where
  | addAvatar (id : UInt32) (fields : Bytes)
  | addItem (id : UInt32) (fields : Bytes)
  | onLogin (starter : Starter) (connected : Bool)

def step (e : Env) (p : Player) : Call → Except Fault Player
  | .addAvatar id fields => return Player.addAvatar p { id, guid := 0, fields }
  | .addItem id fields => return Player.addItem p { id, guid := 0, fields }
  | .onLogin starter connected => Player.onLogin e starter connected p

def Call.adds : Call → Bool
  | .onLogin _ _ => false
  | _ => true

def Call.logsIn : Call → Bool
  | .onLogin _ _ => true
  | _ => false

/-- A login that does something. -/
def Call.connects : Call → Bool
  | .onLogin _ connected => connected
  | _ => false

def allGuids (p : Player) : List UInt64 := (p.avatars ++ p.inventory).map (·.guid)

/-- No guid occurs twice, and all are the player's. -/
structure Unique (p : Player) : Prop where
  nodup : (allGuids p).Nodup
  owned : ∀ guid ∈ allGuids p, highHalf guid = p.uid

/-! ## What is held after a run -/

/-- The low halves of `adds` new objects and of what `logins` logins add. -/
def lows (adds logins : Nat) : List Nat :=
  List.range' 1 adds ++ (List.replicate logins [0xd0d0c0, 0x1d0d0c0]).flatten

structure Held (uid : UInt32) (adds logins : Nat) (p : Player) : Prop where
  owner : p.uid = uid
  next : p.nextGuid = UInt32.ofNat (adds + 1)
  guids : (allGuids p).Perm ((lows adds logins).map (askedGuid uid))

theorem weaponGuid_eq (uid : UInt32) : weaponGuid uid = askedGuid uid 0x1d0d0c0 := by
  have h : (0xd0d0c0 : UInt64) ||| 0x1000000 = UInt64.ofNat 0x1d0d0c0 := by decide
  rw [weaponGuid, starterGuid, UInt64.or_assoc, h]
  rfl

theorem askedGuid_inj (uid : UInt32) {i j : Nat} (hi : i < 2 ^ 32) (hj : j < 2 ^ 32)
    (h : askedGuid uid i = askedGuid uid j) : i = j := by
  have hnat := congrArg UInt64.toNat h
  rw [askedGuid_toNat uid hi, askedGuid_toNat uid hj] at hnat
  omega

/-- A guid of the counter. -/
theorem counted_guid (uid : UInt32) {n : Nat} (hn : n < 2 ^ 32) :
    ofHalves uid (lowHalf (UInt32.ofNat n).toUInt64) = askedGuid uid n ∧
    uid.toUInt64 <<< 32 ||| (UInt32.ofNat n).toUInt64 = askedGuid uid n := by
  have hlow : (UInt32.ofNat n).toUInt64 = UInt64.ofNat n := by
    apply UInt64.toNat_inj.mp
    rw [UInt32.toNat_toUInt64, UInt32.toNat_ofNat', UInt64.toNat_ofNat']
    omega
  have hback : lowHalf (UInt32.ofNat n).toUInt64 = UInt32.ofNat n := by
    apply UInt32.toNat_inj.mp
    rw [lowHalf_toNat, UInt32.toNat_toUInt64]
    exact Nat.mod_eq_of_lt (UInt32.toNat_lt _)
  constructor
  · rw [hback, ofHalves, hlow]
    rfl
  · rw [hlow]
    rfl

theorem guids_addAvatar (p : Player) (a : Holding) {q : Player} (hav : q.avatars = p.avatars ++ [a])
    (hinv : q.inventory = p.inventory) : (allGuids q).Perm (a.guid :: allGuids p) := by
  rw [allGuids, allGuids, hav, hinv, List.append_assoc]
  exact List.Perm.map Holding.guid List.perm_middle

theorem guids_addItem (p : Player) (i : Holding) {q : Player} (hav : q.avatars = p.avatars)
    (hinv : q.inventory = p.inventory ++ [i]) : (allGuids q).Perm (i.guid :: allGuids p) := by
  rw [allGuids, allGuids, hav, hinv, ← List.append_assoc]
  exact List.Perm.map Holding.guid (List.perm_append_singleton i _)

theorem lows_succ (adds logins : Nat) :
    (lows (adds + 1) logins).Perm ((adds + 1) :: lows adds logins) := by
  rw [lows, lows, List.range'_concat, List.append_assoc, Nat.one_mul, Nat.add_comm 1]
  exact List.perm_middle

variable {uid : UInt32} {adds logins : Nat} {p q : Player}

/-- One guid more, from the counter. -/
theorem Held.counted (h : Held uid adds logins p) (howner : q.uid = p.uid)
    (hnext : q.nextGuid = p.nextGuid + 1)
    (hguids : (allGuids q).Perm (askedGuid uid (adds + 1) :: allGuids p)) :
    Held uid (adds + 1) logins q where
  owner := howner.trans h.owner
  next := by
    rw [hnext, h.next, UInt32.ofNat_add (adds + 1) 1]
    rfl
  guids := hguids.trans ((h.guids.cons _).trans ((lows_succ adds logins).map _).symm)

theorem Held.addAvatar (h : Held uid adds logins p) (hadds : adds + 1 < 2 ^ 32) (id : UInt32)
    (fields : Bytes) : Held uid (adds + 1) logins (Player.addAvatar p { id, guid := 0, fields }) := by
  have hhigh : highHalf (UInt32.ofNat (adds + 1)).toUInt64 = 0 := by
    apply UInt32.toNat_inj.mp
    rw [highHalf_toNat, UInt32.toNat_toUInt64]
    exact Nat.div_eq_of_lt (UInt32.toNat_lt _)
  have hnew : lowHalf 0 = 0 := rfl
  have hadded : Player.addAvatar p { id, guid := 0, fields } = { p with
      avatars := p.avatars ++ [{ id, guid := askedGuid uid (adds + 1), fields }]
      nextGuid := p.nextGuid + 1 } := by
    simp only [Player.addAvatar, hnew, if_true, h.next, hhigh, h.owner, (counted_guid uid hadds).1]
  rw [hadded]
  refine h.counted rfl rfl ?_
  exact guids_addAvatar p { id, guid := askedGuid uid (adds + 1), fields } rfl rfl

theorem Held.addItem (h : Held uid adds logins p) (hadds : adds + 1 < 2 ^ 32) (id : UInt32)
    (fields : Bytes) : Held uid (adds + 1) logins (Player.addItem p { id, guid := 0, fields }) := by
  have hlow : lowHalf (p.uid.toUInt64 <<< 32) = 0 := by
    apply UInt32.toNat_inj.mp
    rw [lowHalf_toNat, UInt64.toNat_shiftLeft]
    show p.uid.toUInt64.toNat <<< 32 % 2 ^ 64 % 2 ^ 32 = 0
    rw [Nat.shiftLeft_eq]
    omega
  have hnew : highHalf 0 = 0 := rfl
  have hadded : Player.addItem p { id, guid := 0, fields } = { p with
      inventory := p.inventory ++ [{ id, guid := askedGuid uid (adds + 1), fields }]
      nextGuid := p.nextGuid + 1 } := by
    simp only [Player.addItem, hnew, if_true, hlow, h.next]
    rw [h.owner, (counted_guid uid hadds).2]
  rw [hadded]
  refine h.counted rfl rfl ?_
  exact guids_addItem p { id, guid := askedGuid uid (adds + 1), fields } rfl rfl

theorem addItem_weapon (huid : p.uid ≠ 0) (fields : Bytes) :
    Player.addItem p { id := weaponId, guid := weaponGuid p.uid, fields } = { p with
      inventory := p.inventory ++ [{ id := weaponId, guid := weaponGuid p.uid, fields }] } := by
  obtain ⟨hhigh, hlow⟩ := halves_asked p.uid (i := 0x1d0d0c0) (by decide)
  rw [← weaponGuid_eq] at hhigh hlow
  have hset : ¬ UInt32.ofNat 0x1d0d0c0 = 0 := by decide
  simp only [Player.addItem, hhigh, huid, if_false, hlow, hset]

theorem addAvatar_starter_next (p : Player) (fields : Bytes) :
    (Player.addAvatar p { id := avatarId, guid := starterGuid p.uid, fields }).nextGuid = p.nextGuid := by
  have hset : ¬ lowHalf (starterGuid p.uid) = 0 := by
    rw [(starterGuid_halves p.uid).2]
    decide
  exact if_neg hset

/-- A login adds a weapon and an avatar under its two guids, and leaves the counter. -/
theorem onLogin_held {e : Env} {starter : Starter} (huid : p.uid ≠ 0)
    (h : Player.onLogin e starter true p = .ok q) : q.uid = p.uid ∧ q.nextGuid = p.nextGuid ∧
      ∃ a i, q.avatars = p.avatars ++ [a] ∧ q.inventory = p.inventory ++ [i] ∧
        a.guid = starterGuid p.uid ∧ i.guid = weaponGuid p.uid := by
  obtain ⟨fields, teams, index, openstates, rfl⟩ := onLogin_eq h
  have hitem := addItem_weapon huid starter.weapon
  refine ⟨rfl, ?_, { id := avatarId, guid := starterGuid p.uid, fields },
    { id := weaponId, guid := weaponGuid p.uid, fields := starter.weapon },
    withStarter_avatars p starter.weapon fields, ?_, rfl, rfl⟩
  · refine (addAvatar_starter_next (Player.addItem p _) fields).trans ?_
    rw [hitem]
  · show (Player.addItem p _).inventory = _
    rw [hitem]

theorem Held.onLogin {e : Env} {starter : Starter} (h : Held uid adds logins p) (huid : uid ≠ 0)
    (hlogin : Player.onLogin e starter true p = .ok q) : Held uid adds (logins + 1) q := by
  have howner := h.owner
  obtain ⟨huid', hnext, a, i, hav, hinv, ha, hi⟩ := onLogin_held (by rwa [howner]) hlogin
  rw [howner] at ha hi
  have hguids : (allGuids q).Perm (a.guid :: i.guid :: allGuids p) := by
    let r : Player := { p with inventory := p.inventory ++ [i] }
    have hitem : (allGuids r).Perm (i.guid :: allGuids p) := guids_addItem p i rfl rfl
    have havatar : (allGuids q).Perm (a.guid :: allGuids r) := guids_addAvatar r a hav hinv
    exact havatar.trans (hitem.cons a.guid)
  have hlows : (lows adds (logins + 1)).Perm (0xd0d0c0 :: 0x1d0d0c0 :: lows adds logins) := by
    rw [lows, lows, List.replicate_succ, List.flatten_cons]
    exact List.perm_middle.trans (List.perm_middle.cons 0xd0d0c0)
  refine ⟨huid'.trans howner, hnext.trans h.next, hguids.trans ?_⟩
  rw [ha, hi, weaponGuid_eq]
  exact ((h.guids.cons _).cons _).trans (hlows.map (askedGuid uid)).symm

/-! ## Runs -/

theorem held_fresh (e : Env) (uid : UInt32) : Held uid 0 0 (Player.fresh e uid) where
  owner := rfl
  next := rfl
  guids := .refl []

/-- What one call adds, where the counter does not start over. -/
theorem Held.step {e : Env} (h : Held uid adds logins p) (huid : uid ≠ 0) (call : Call)
    (hadds : adds + [call].countP Call.adds < 2 ^ 32) (hstep : Guids.step e p call = .ok q) :
    Held uid (adds + [call].countP Call.adds) (logins + [call].countP Call.connects) q := by
  cases call with
  | addAvatar id fields =>
    cases hstep
    exact h.addAvatar hadds id fields
  | addItem id fields =>
    cases hstep
    exact h.addItem hadds id fields
  | onLogin starter connected =>
    cases connected with
    | false =>
      cases hstep
      exact h
    | true => exact h.onLogin huid hstep

theorem Held.run {e : Env} {calls : List Call} (h : Held uid adds logins p) (huid : uid ≠ 0)
    (hadds : adds + calls.countP Call.adds < 2 ^ 32) (hrun : Run.run (Guids.step e) p calls = .ok q) :
    Held uid (adds + calls.countP Call.adds) (logins + calls.countP Call.connects) q := by
  induction calls generalizing adds logins p with
  | nil =>
    cases hrun
    exact h
  | cons call calls ih =>
    have hsplit : ∀ f : Call → Bool, (call :: calls).countP f = [call].countP f + calls.countP f :=
      fun f => by rw [← List.countP_append, List.singleton_append]
    rw [hsplit, ← Nat.add_assoc] at hadds
    rw [hsplit, hsplit, ← Nat.add_assoc, ← Nat.add_assoc]
    rw [Run.run] at hrun
    cases hstep : Guids.step e p call with
    | error f =>
      rw [hstep] at hrun
      cases hrun
    | ok r =>
      rw [hstep] at hrun
      exact ih (h.step huid call (by omega) hstep) hadds hrun

/-- The low halves are distinct where the counter stays below the first fixed one. -/
theorem lows_nodup (hlogins : logins ≤ 1) :
    (lows adds logins).Nodup ↔ logins = 0 ∨ adds < 0xd0d0c0 := by
  have hcounted : (List.range' 1 adds).Nodup := List.nodup_range'
  rcases Nat.le_one_iff_eq_zero_or_eq_one.mp hlogins with rfl | rfl
  · rw [lows, List.replicate_zero, List.flatten_nil, List.append_nil]
    exact iff_of_true hcounted (.inl rfl)
  · have hfixed : [0xd0d0c0, 0x1d0d0c0].Nodup := by decide
    rw [lows, List.replicate_one, List.flatten_singleton, List.nodup_append']
    constructor
    · rintro ⟨-, -, hdisjoint⟩
      refine .inr (Nat.lt_of_not_le fun hle => ?_)
      exact hdisjoint (List.mem_range'_1.mpr ⟨by decide, by omega⟩) List.mem_cons_self
    · rintro (hzero | hlt)
      · cases hzero
      · refine ⟨hcounted, hfixed, fun i hi hmem => ?_⟩
        have hi := List.mem_range'_1.mp hi
        simp only [List.mem_cons, List.not_mem_nil, or_false] at hmem
        omega

theorem lows_small (hadds : adds + 1 < 2 ^ 32) (logins : Nat) : ∀ i ∈ lows adds logins, i < 2 ^ 32 := by
  intro i hi
  rcases List.mem_append.mp hi with hi | hi
  · have hi := List.mem_range'_1.mp hi
    omega
  · obtain ⟨pair, hpair, hi⟩ := List.mem_flatten.mp hi
    rw [List.eq_of_mem_replicate hpair] at hi
    simp only [List.mem_cons, List.not_mem_nil, or_false] at hi
    omega

theorem Held.unique_iff (h : Held uid adds logins p) (hadds : adds + 1 < 2 ^ 32)
    (hlogins : logins ≤ 1) : Unique p ↔ logins = 0 ∨ adds < 0xd0d0c0 := by
  have hsmall := lows_small hadds logins
  have howned : ∀ guid ∈ allGuids p, highHalf guid = p.uid := by
    intro guid hguid
    obtain ⟨i, hi, rfl⟩ := List.mem_map.mp (h.guids.mem_iff.mp hguid)
    rw [(halves_asked uid (hsmall i hi)).1, h.owner]
  have hnodup : (allGuids p).Nodup ↔ (lows adds logins).Nodup := by
    rw [h.guids.nodup_iff]
    refine ⟨List.Nodup.of_map _, fun hn => hn.map_on fun i hi j hj heq => ?_⟩
    exact askedGuid_inj uid (hsmall i hi) (hsmall j hj) heq
  rw [← lows_nodup hlogins, ← hnodup]
  exact ⟨fun hu => hu.nodup, fun hn => ⟨hn, howned⟩⟩

/-- Along a run with at most one login, guids are unique and the player's, as long as the counter
does not reach the guid of the login's avatar. -/
theorem guids_unique_iff {e : Env} {calls : List Call} (huid : uid ≠ 0)
    (hlogins : calls.countP Call.logsIn ≤ 1) (hadds : calls.countP Call.adds < 2 ^ 32 - 1)
    (hrun : Run.run (step e) (Player.fresh e uid) calls = .ok p) :
    Unique p ↔ calls.countP Call.connects = 0 ∨ calls.countP Call.adds < 0xd0d0c0 := by
  have hheld := (held_fresh e uid).run huid (by omega) hrun
  rw [Nat.zero_add, Nat.zero_add] at hheld
  have hconnects : calls.countP Call.connects ≤ calls.countP Call.logsIn := by
    apply List.countP_mono_left
    intro call _ hcall
    cases call with
    | onLogin starter connected => rfl
    | addAvatar id fields => cases hcall
    | addItem id fields => cases hcall
  exact hheld.unique_iff (by omega) (hconnects.trans hlogins)

/-- An item and a login. -/
theorem first_login_unique : ∃ p,
    Run.run (step packedEnv) (Player.fresh packedEnv 1)
      [.addItem 1 [], .onLogin { weapon := [], avatar := some [] } true] = .ok p ∧
    (Unique p ↔ [Call.addItem 1 [], .onLogin { weapon := [], avatar := some [] } true].countP
        Call.connects = 0 ∨
      [Call.addItem 1 [], .onLogin { weapon := [], avatar := some [] } true].countP Call.adds < 0xd0d0c0) :=
  ⟨_, rfl, guids_unique_iff (by decide) (by decide) (by decide) rfl⟩

theorem run_items {e : Env} (n : Nat) (p : Player) :
    ∃ q, Run.run (step e) p (.replicate n (.addItem 1 [])) = .ok q := by
  induction n generalizing p with
  | zero => exact ⟨p, rfl⟩
  | succ n ih => exact ih (Player.addItem p { id := 1, guid := 0, fields := [] })

/-- Items behind a login, up to the guid of its avatar. -/
theorem login_clashes {n : Nat} (hn : 0xd0d0c0 ≤ n) (hsmall : n + 1 < 2 ^ 32) :
    ∃ p, Run.run (step packedEnv) (Player.fresh packedEnv 1)
      (.onLogin { weapon := [], avatar := some [] } true :: .replicate n (.addItem 1 [])) = .ok p ∧
      ¬ Unique p := by
  obtain ⟨r, hlogin⟩ : ∃ r, step packedEnv (Player.fresh packedEnv 1)
      (.onLogin { weapon := [], avatar := some [] } true) = .ok r := ⟨_, rfl⟩
  obtain ⟨p, hitems⟩ := @run_items packedEnv n r
  have hone : (1 : UInt32) ≠ 0 := by decide
  have hadds : ∀ m, (List.replicate m (Call.addItem 1 [])).countP Call.adds = m := by
    intro m
    rw [List.countP_replicate]
    rfl
  have hconnects : ∀ m, (List.replicate m (Call.addItem 1 [])).countP Call.connects = 0 := by
    intro m
    rw [List.countP_replicate]
    rfl
  have hfirst : Held 1 0 1 r := (held_fresh packedEnv 1).step hone _ (by decide) hlogin
  have hheld := hfirst.run hone (by rw [hadds]; omega) hitems
  rw [hadds, hconnects, Nat.zero_add] at hheld
  refine ⟨p, ?_, fun hu => ?_⟩
  · rw [Run.run, hlogin]
    exact hitems
  · rcases (hheld.unique_iff hsmall le_rfl).mp hu with hzero | hlt
    · cases hzero
    · omega

/-- The item numbered 13684928 takes the guid of the avatar the login added. -/
theorem starter_clashes : ∃ calls p, calls.countP Call.logsIn ≤ 1 ∧
    calls.countP Call.adds < 2 ^ 32 - 1 ∧
    Run.run (step packedEnv) (Player.fresh packedEnv 1) calls = .ok p ∧ ¬ Unique p := by
  obtain ⟨p, hrun, hnot⟩ := @login_clashes 0xd0d0c0 le_rfl (by decide)
  refine ⟨_, p, ?_, ?_, hrun, hnot⟩
  · rw [List.countP_cons, List.countP_replicate]
    decide
  · rw [List.countP_cons, List.countP_replicate]
    decide

end Yagips.Game.Guids
