import Mathlib.Logic.Function.Basic
import Yagips.Game.Reload
import Yagips.Lib.Run

/-!
# Properties that are kept twice

Three properties mirror members of the player, two of which are narrower than what `setProp` is
given. The map that is sent at login keeps the whole value.
-/
namespace Yagips.Game.MirroredProps

open Yagips.Lib
open Yagips.Lib.Run
open Yagips.Store.Gate
open Yagips.Game.Players
open Yagips.Game.PlayerStore

/-- An absent property reads as zero. -/
def getProp (p : Player) (k : UInt32) : Int64 :=
  match p.levels.mirrored k with
  | some v => v
  | none => (p.props.get k).getD 0

/-! ## Histories -/

inductive Event where
  | setProp (k : UInt32) (v : Int64)
  | saveAndLoad (e : Env) (g : DbGate) (sessions : PlayerStore.Sessions)

/-- A player that was just constructed. -/
inductive Constructed : Player → Prop where
  | fresh (e : Env) (uid : UInt32) : Constructed (Player.fresh e uid)
  | ofInfo {e : Env} {g : DbGate} {sessions : PlayerStore.Sessions} {i : PlayerInfo} {p : Player}
      (h : Player.ofInfo e g sessions i = .ok p) : Constructed p

/-- A player, and the value last set for each property. -/
structure History where
  player : Player
  last : UInt32 → Int64

/-- What the constructor set is what was last set. -/
def History.start (p : Player) : History where
  player := p
  last := getProp p

def saveAndLoad (e : Env) (g : DbGate) (sessions : PlayerStore.Sessions) (p : Player) :
    Except Fault Player := do
  Player.ofInfo e g sessions (← Player.toInfo sessions e.now p)

def step (h : History) : Event → Except Fault History
  | .setProp k v =>
    return { player := h.player.change (.setProp k v), last := Function.update h.last k v }
  | .saveAndLoad e g sessions => do
    return { h with player := ← saveAndLoad e g sessions h.player }

/-- The map holds what is read of the properties that mirror a member, and what is read of every
property is what was last set. -/
structure Agrees (h : History) : Prop where
  mirrored : ∀ k, (h.player.levels.mirrored k).isSome → h.player.props.get k = some (getProp h.player k)
  recent : ∀ k, getProp h.player k = h.last k

/-- A value for the level or the world level is one of 32 bits. -/
def Fits : Event → Prop
  | .setProp k v => k = propPlayerLevel ∨ k = propPlayerWorldLevel → 0 ≤ v.toInt ∧ v.toInt < 2 ^ 32
  | .saveAndLoad .. => True

/-! ## Steps -/

theorem getProp_eq (p : Player) (k : UInt32) :
    getProp p k = (p.levels.mirrored k).getD ((p.props.get k).getD 0) := by
  rw [getProp]
  cases p.levels.mirrored k with
  | none => rfl
  | some v => rfl

/-- What is read of a property after `v` was set. -/
def kept (k : UInt32) (v : Int64) : Int64 :=
  if k = propPlayerLevel ∨ k = propPlayerWorldLevel then v.toUInt64.toUInt32.toUInt64.toInt64 else v

theorem narrowed_iff (v : Int64) :
    v.toUInt64.toUInt32.toUInt64.toInt64 = v ↔ 0 ≤ v.toInt ∧ v.toInt < 2 ^ 32 := by
  have hlt : v.toUInt64.toUInt32.toNat < 2 ^ 32 := UInt32.toNat_lt _
  have hv := Int64.toInt_lt v
  have hv' := Int64.le_toInt v
  have hwide : v.toUInt64.toNat = (v.toInt % 2 ^ 64).toNat := by
    show v.toBitVec.toNat = _
    rw [← Int64.toInt_toBitVec, BitVec.toInt_eq_toNat_cond]
    split <;> omega
  have hnarrow : (v.toUInt64.toUInt32.toUInt64.toInt64).toInt = (v.toUInt64.toUInt32.toNat : Int) := by
    show (v.toUInt64.toUInt32.toUInt64.toBitVec).toInt = _
    rw [BitVec.toInt_eq_toNat_of_lt]
    · rfl
    · show 2 * v.toUInt64.toUInt32.toUInt64.toNat < _
      rw [UInt32.toNat_toUInt64]
      omega
  rw [← Int64.toInt_inj, hnarrow, UInt64.toNat_toUInt32, hwide]
  omega

theorem kept_iff (k : UInt32) (v : Int64) : kept k v = v ↔ Fits (.setProp k v) := by
  unfold kept Fits
  by_cases hk : k = propPlayerLevel ∨ k = propPlayerWorldLevel
  · rw [if_pos hk, narrowed_iff]
    exact ⟨fun h _ => h, fun h => h hk⟩
  · rw [if_neg hk]
    exact iff_of_true rfl fun h => absurd h hk

/-- The member of a property is what is read of it after a value was set. -/
theorem mirrored_setProp (l : Levels) (k q : UInt32) (v : Int64) :
    (l.setProp k v).mirrored q = if q = k then (l.mirrored k).map fun _ => kept k v else l.mirrored q := by
  by_cases hl : k = propPlayerLevel
  · subst hl
    by_cases hq : q = propPlayerLevel
    · rw [if_pos hq, hq]
      rfl
    · simp only [Levels.setProp, Levels.mirrored, if_neg hq, if_true]
  by_cases he : k = propPlayerExp
  · subst he
    by_cases hq : q = propPlayerExp
    · rw [if_pos hq, hq]
      rfl
    · simp only [Levels.setProp, Levels.mirrored, if_neg hq, if_neg hl, if_true]
  by_cases hw : k = propPlayerWorldLevel
  · subst hw
    by_cases hq : q = propPlayerWorldLevel
    · rw [if_pos hq, hq]
      rfl
    · simp only [Levels.setProp, Levels.mirrored, if_neg hq, if_neg hl, if_neg he, if_true]
  · have hk : l.mirrored k = none := by
      simp only [Levels.mirrored, if_neg hl, if_neg he, if_neg hw]
    have hset : l.setProp k v = l := by
      simp only [Levels.setProp, if_neg hl, if_neg he, if_neg hw]
    rw [hset]
    by_cases hq : q = k
    · rw [if_pos hq, hq, hk]
      rfl
    · rw [if_neg hq]

theorem kept_unmirrored {l : Levels} {k : UInt32} (h : l.mirrored k = none) (v : Int64) : kept k v = v := by
  have hk : ¬(k = propPlayerLevel ∨ k = propPlayerWorldLevel) := by
    rintro (hl | hw)
    · rw [hl] at h
      cases h
    · rw [hw] at h
      cases h
  exact if_neg hk

theorem getProp_setProp (p : Player) (k q : UInt32) (v : Int64) :
    getProp (p.change (.setProp k v)) q = if q = k then kept k v else getProp p q := by
  have hget : getProp (p.change (.setProp k v)) q =
      ((p.levels.setProp k v).mirrored q).getD (((p.props.put k v).get q).getD 0) := getProp_eq _ q
  rw [hget, mirrored_setProp]
  by_cases hq : q = k
  · rw [if_pos hq, if_pos hq, hq, OrderedStore.get_put_self]
    cases hm : p.levels.mirrored k with
    | none => exact (kept_unmirrored hm v).symm
    | some w => rfl
  · rw [if_neg hq, if_neg hq, OrderedStore.get_put_ne _ hq, getProp_eq]

/-- Setting a property keeps the two copies alike where the member holds the value. -/
theorem agrees_setProp_iff {h : History} (hh : Agrees h) (k : UInt32) (v : Int64) :
    Agrees { player := h.player.change (.setProp k v), last := Function.update h.last k v } ↔
      Fits (.setProp k v) := by
  rw [← kept_iff]
  constructor
  · intro hagrees
    have hk := hagrees.recent k
    simpa only [getProp_setProp, if_true, Function.update_self] using hk
  · intro hkept
    constructor
    · intro q hq
      show (h.player.props.put k v).get q = _
      rw [getProp_setProp]
      by_cases hqk : q = k
      · rw [if_pos hqk, hqk, hkept, OrderedStore.get_put_self]
      · rw [if_neg hqk, OrderedStore.get_put_ne _ hqk]
        exact hh.mirrored q (by rw [mirrored_isSome _ (h.player.levels.setProp k v)]; exact hq)
    · intro q
      show _ = Function.update h.last k v q
      rw [getProp_setProp]
      by_cases hqk : q = k
      · rw [if_pos hqk, hqk, hkept, Function.update_self]
      · rw [if_neg hqk, Function.update_of_ne hqk]
        exact hh.recent q

/-! ## Loading -/

/-- The members and properties of a loaded player. -/
theorem ofInfo_levels {e : Env} {g : DbGate} {sessions : PlayerStore.Sessions} {i : PlayerInfo}
    {p : Player} (h : Player.ofInfo e g sessions i = .ok p) :
    p.levels = i.levels ∧ p.props = i.levels.store i.props := by
  obtain ⟨account, -, h⟩ := bind_eq_ok.mp h
  obtain ⟨session, -, h⟩ := bind_eq_ok.mp h
  cases h
  exact ⟨rfl, rfl⟩

/-- Every constructor sets the properties from the members. -/
theorem store_mirrored {l : Levels} {props : Props} {p : Player} (hlevels : p.levels = l)
    (hprops : p.props = l.store props) {k : UInt32} (hk : (p.levels.mirrored k).isSome) :
    p.props.get k = some (getProp p k) := by
  obtain ⟨v, hv⟩ := Option.isSome_iff_exists.mp hk
  rw [getProp_eq, hv, hprops, get_store, ← hlevels, hv]
  rfl

theorem agrees_start {p : Player} (h : Constructed p) : Agrees (History.start p) := by
  refine ⟨fun k hk => ?_, fun k => rfl⟩
  cases h with
  | fresh e uid => exact store_mirrored rfl rfl hk
  | ofInfo h =>
    obtain ⟨hlevels, hprops⟩ := ofInfo_levels h
    exact store_mirrored hlevels hprops hk

/-- A record holds what is read of every property. -/
theorem getProp_saveAndLoad {e : Env} {g : DbGate} {sessions : PlayerStore.Sessions} {p n : Player}
    (h : saveAndLoad e g sessions p = .ok n) (k : UInt32) : getProp n k = getProp p k := by
  obtain ⟨i, hi, hn⟩ := bind_eq_ok.mp h
  obtain ⟨hlevels, hprops⟩ := ofInfo_levels hn
  have hback := toInfo_readBack hi
  have hil : i.levels = p.levels := by
    show Levels.mk i.toReadBack.adventureRank i.toReadBack.adventureExp i.toReadBack.worldLevel = _
    rw [hback]
    rfl
  have hip : i.props = p.levels.record p.props := congrArg ReadBack.props hback
  rw [getProp_eq, getProp_eq, hprops, hlevels, hil, get_store, hip, get_record]
  cases p.levels.mirrored k with
  | none => rw [Option.none_or]; cases p.props.get k <;> rfl
  | some v => rfl

theorem agrees_saveAndLoad {e : Env} {g : DbGate} {sessions : PlayerStore.Sessions} {h : History}
    {n : Player} (hh : Agrees h) (hn : saveAndLoad e g sessions h.player = .ok n) :
    Agrees { h with player := n } := by
  obtain ⟨i, hi, hload⟩ := bind_eq_ok.mp hn
  obtain ⟨hlevels, hprops⟩ := ofInfo_levels hload
  exact ⟨fun k hk => store_mirrored hlevels hprops hk,
    fun k => (getProp_saveAndLoad hn k).trans (hh.recent k)⟩

/-! ## Histories -/

theorem agrees_step_iff {h : History} (hh : Agrees h) (e : Event) :
    (∀ h', step h e = .ok h' → Agrees h') ↔ Fits e := by
  cases e with
  | setProp k v =>
    rw [← agrees_setProp_iff hh]
    constructor
    · intro hstep
      exact hstep _ rfl
    · intro hagrees h' hstep
      cases hstep
      exact hagrees
  | saveAndLoad e g sessions =>
    refine iff_of_true (fun h' hstep => ?_) trivial
    obtain ⟨n, hn, hout⟩ := bind_eq_ok.mp hstep
    cases hout
    exact agrees_saveAndLoad hh hn

/-- The two copies never diverge in the histories that set the levels to values of 32 bits. -/
theorem never_diverge_iff {p : Player} (hp : Constructed p) (es : List Event) :
    (∀ done rest h', es = done ++ rest → run step (History.start p) done = .ok h' → Agrees h') ↔
      Along step (fun _ e => Fits e) (History.start p) es := by
  rw [reached_iff (agrees_start hp)]
  refine along_congr Agrees (fun h e h' _ hc hstep => hc h' hstep) (fun h e hh => ?_) (agrees_start hp)
  exact agrees_step_iff hh e

def newPlayerObject : Player := Player.fresh Reload.zeroEnv 1

theorem newPlayerObject_never_diverge :
    (∀ done rest h', [Event.setProp propPlayerLevel 60] = done ++ rest →
      run step (History.start newPlayerObject) done = .ok h' → Agrees h') ↔
      Along step (fun _ e => Fits e) (History.start newPlayerObject) [.setProp propPlayerLevel 60] :=
  never_diverge_iff (.fresh Reload.zeroEnv 1) _

/-- A level of -1 is read as 2^32 - 1. -/
theorem level_diverges : ¬∀ p, Constructed p → ∀ es done rest h', es = done ++ rest →
    run step (History.start p) done = .ok h' → Agrees h' := by
  intro h
  have hagrees := h newPlayerObject (.fresh Reload.zeroEnv 1) [.setProp propPlayerLevel (-1)]
    [.setProp propPlayerLevel (-1)] [] _ (List.append_nil _).symm rfl
  have hread : (4294967295 : Int64) = -1 := hagrees.recent propPlayerLevel
  exact absurd hread (by decide)

end Yagips.Game.MirroredProps
