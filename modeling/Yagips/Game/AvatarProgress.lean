import Yagips.Game.AvatarRoundTrip
import Yagips.Lib.Run

/-!
# The progress of an avatar

Every function that changes a level keeps it in its range. The constructor that reads a message takes
two of the levels from it as they are, and leaves the others to what the memory held.
-/
namespace Yagips.Game.AvatarProgress

open Yagips.Lib
open Yagips.Lib.Run
open Yagips.Game.Avatars

/-! ## Runs of an avatar -/

inductive Construction where
  | new (now : UInt64)
  | ofId (now : UInt64) (id : UInt32)
  | ofInfo (pb : AvatarInfo)

def construct (tables : GameData) (mem : Avatar) : Construction → Except Fault Avatar
  | .new now => return Avatar.new now mem
  | .ofId now id => Avatar.ofId tables now id mem
  | .ofInfo pb => return Avatar.ofInfo tables pb mem

inductive Call where
  | setLevel (l : UInt32)
  | setAscension (x : UInt32)
  | ascend
  | setFriendship (f : UInt32)
  | setTalentLevels (t : Vector UInt32 3)
  | setTalentLevel (l i : UInt32)
  | addTalentLevel (i : UInt32)
  | setConstellation (c : UInt32)
  | addConstellation

def after (a : Avatar) : Call → Avatar
  | .setLevel l => a.setLevel l
  | .setAscension x => a.setAscension x
  | .ascend => a.ascend.1
  | .setFriendship f => a.setFriendship f
  | .setTalentLevels t => a.setTalentLevels t
  | .setTalentLevel l i => (a.setTalentLevel l i).1
  | .addTalentLevel i => (a.addTalentLevel i).1
  | .setConstellation c => a.setConstellation c
  | .addConstellation => a.addConstellation.1

def step (a : Avatar) (call : Call) : Except Empty Avatar := .ok (after a call)

/-! ## What is asked of an avatar -/

structure InRange (a : Avatar) : Prop where
  level : 1 ≤ a.level ∧ a.level ≤ 90
  ascension : a.ascension ≤ 6
  friendship : 1 ≤ a.friendship ∧ a.friendship ≤ 10
  talentLevel : ∀ t ∈ a.talentLevel, 1 ≤ t ∧ t ≤ 15
  constellation : a.constellation ≤ 6

/-- The conversions read no talent outside the six of the depot. -/
def ReadsInside (a : Avatar) : Prop := ∀ i, a.toConstInfo ≠ .error (.read i)

/-- What a message has for the levels, and what the memory held for those it has none for. -/
def StartsInRange (mem : Avatar) : Construction → Prop
  | .ofInfo pb =>
    (1 ≤ pb.fetterInfo.expLevel ∧ pb.fetterInfo.expLevel ≤ 10) ∧
      UInt32.ofNat pb.talentIdList.length ≤ 6 ∧ (1 ≤ mem.level ∧ mem.level ≤ 90) ∧
      mem.ascension ≤ 6 ∧ ∀ t ∈ mem.talentLevel, 1 ≤ t ∧ t ≤ 15
  | _ => True

/-! ## Steps -/

theorem clamp_range {low high : UInt32} (h : low ≤ high) (x : UInt32) :
    low ≤ clamp low high x ∧ clamp low high x ≤ high := by
  unfold clamp
  split
  · exact ⟨UInt32.le_refl low, h⟩
  · split
    · exact ⟨h, UInt32.le_refl high⟩
    · exact ⟨UInt32.not_lt.mp ‹_›, UInt32.not_lt.mp ‹_›⟩

theorem cap_le (high x : UInt32) : cap high x ≤ high := by
  unfold cap
  split
  · exact UInt32.le_refl high
  · exact UInt32.not_lt.mp ‹_›

/-- Counting up below a limit. -/
theorem succ_le {x limit : UInt32} (h : ¬ limit ≤ x) : x + 1 ≤ limit := by
  have hlt := UInt32.lt_iff_toNat_lt.mp (UInt32.not_le.mp h)
  have hlimit := limit.toNat_lt
  rw [UInt32.le_iff_toNat_le, UInt32.toNat_add]
  have hone : (1 : UInt32).toNat = 1 := rfl
  omega

theorem inRange_talent {a : Avatar} (h : InRange a) {i : Nat} (hi : i < 3) {l : UInt32}
    (hl : 1 ≤ l ∧ l ≤ 15) : InRange { a with talentLevel := a.talentLevel.set i l } := by
  refine { h with talentLevel := fun t ht => ?_ }
  have hmem : t ∈ a.talentLevel.set i l hi := ht
  rcases Vector.mem_or_eq_of_mem_set hmem with ht | rfl
  · exact h.talentLevel t ht
  · exact hl

theorem inRange_after {a : Avatar} (h : InRange a) (call : Call) : InRange (after a call) := by
  cases call with
  | setLevel l => exact { h with level := clamp_range (by decide) l }
  | setAscension x => exact { h with ascension := cap_le 6 x }
  | ascend =>
    simp only [after, Avatar.ascend]
    split
    case isTrue => exact h
    case isFalse hlt => exact { h with ascension := succ_le hlt }
  | setFriendship f => exact { h with friendship := clamp_range (by decide) f }
  | setTalentLevels t =>
    refine { h with talentLevel := fun l hl => ?_ }
    obtain ⟨x, -, rfl⟩ := Vector.mem_map.mp hl
    exact clamp_range (by decide) x
  | setTalentLevel l i =>
    simp only [after, Avatar.setTalentLevel]
    split
    case isTrue hi => exact inRange_talent h hi (clamp_range (by decide) l)
    case isFalse => exact h
  | addTalentLevel i =>
    simp only [after, Avatar.addTalentLevel]
    split
    case isFalse => exact h
    case isTrue hi =>
      split
      case isTrue => exact h
      case isFalse hlt =>
        obtain ⟨-, hhigh⟩ := h.talentLevel _ (Vector.getElem_mem hi)
        have hhigh : a.talentLevel[i.toNat].toNat ≤ 15 := UInt32.le_iff_toNat_le.mp hhigh
        refine inRange_talent h hi ⟨UInt32.le_iff_toNat_le.mpr ?_, UInt32.le_of_lt (UInt32.not_le.mp hlt)⟩
        rw [UInt32.toNat_add]
        show 1 ≤ (_ + 1) % 2 ^ 32
        omega
  | setConstellation c => exact { h with constellation := cap_le 6 c }
  | addConstellation =>
    simp only [after, Avatar.addConstellation]
    split
    case isTrue => exact h
    case isFalse hlt => exact { h with constellation := succ_le hlt }

/-! ## Talents in the depot -/

theorem equipGuidList_error {ps : List ItemPtr} {e : Fault} (h : equipGuidList ps = .error e) :
    e = .pointer := by
  induction ps with
  | nil => cases h
  | cons p ps ih =>
    rcases bind_eq_error h with hp | ⟨l, -, h⟩
    · cases p with
      | null => cases hp
      | item i => cases hp
      | wild =>
        cases hp
        rfl
    · rcases bind_eq_error h with hps | ⟨l', -, h⟩
      · exact ih hps
      · cases h

theorem readsInside {a : Avatar} (h : a.constellation ≤ 6) : ReadsInside a := by
  intro i hread
  rcases bind_eq_error hread with hequips | ⟨equips, -, hread⟩
  · cases equipGuidList_error hequips
  rcases bind_eq_error hread with htalents | ⟨talents, -, hread⟩
  · obtain ⟨j, hj, htalent⟩ := mapM_error htalents
    have hsix : a.constellation.toNat ≤ 6 := UInt32.le_iff_toNat_le.mp h
    have hlt : j < 6 := Nat.lt_of_lt_of_le (List.mem_range.mp hj) hsix
    unfold talentId at htalent
    split at htalent
    · cases htalent
    · rw [dif_pos hlt] at htalent
      cases htalent
  · cases hread

/-! ## Constructors -/

theorem new_inRange (now : UInt64) (mem : Avatar) : InRange (Avatar.new now mem) where
  level := (by decide : (1 : UInt32) ≤ 1 ∧ (1 : UInt32) ≤ 90)
  ascension := (by decide : (0 : UInt32) ≤ 6)
  friendship := (by decide : (1 : UInt32) ≤ 1 ∧ (1 : UInt32) ≤ 10)
  talentLevel := by
    intro t ht
    rw [(Vector.mem_replicate.mp ht).2]
    decide
  constellation := (by decide : (0 : UInt32) ≤ 6)

theorem inRange_iff {tables : GameData} {mem a : Avatar} {k : Construction}
    (h : construct tables mem k = .ok a) : InRange a ↔ StartsInRange mem k := by
  cases k with
  | new now =>
    cases h
    exact iff_of_true (new_inRange now mem) trivial
  | ofId now id =>
    change Avatar.ofId tables now id mem = .ok a at h
    unfold Avatar.ofId at h
    cases hdata : tables.avatar id with
    | none =>
      rw [hdata] at h
      cases h
    | some data =>
      rw [hdata] at h
      cases h
      exact iff_of_true { new_inRange now mem with } trivial
  | ofInfo pb =>
    cases h
    constructor
    · intro hrange
      exact ⟨hrange.friendship, hrange.constellation, hrange.level, hrange.ascension, hrange.talentLevel⟩
    · intro ⟨hfriendship, hconstellation, hlevel, hascension, htalents⟩
      exact ⟨hlevel, hascension, hfriendship, htalents, hconstellation⟩

/-- The progress of an avatar is in range after every run exactly where it is when the avatar is
constructed, which a message alone can keep it from. -/
theorem progress_iff {tables : GameData} {mem a : Avatar} {k : Construction}
    (h : construct tables mem k = .ok a) (calls : List Call) :
    (∀ done rest a', calls = done ++ rest → run step a done = .ok a' → InRange a' ∧ ReadsInside a') ↔
      StartsInRange mem k := by
  rw [← inRange_iff h]
  constructor
  · intro hall
    exact (hall [] calls a rfl rfl).1
  · intro hstart done rest a' _ hrun
    have hkeep : ∀ s e s', InRange s → step s e = .ok s' → InRange s' := by
      intro s e s' hs hstep
      cases hstep
      exact inRange_after hs e
    have hrange := run_invariant InRange hkeep hstart hrun
    exact ⟨hrange, readsInside hrange.constellation⟩

theorem newAvatar_progress : (∀ done rest a', [Call.setLevel 100, .addTalentLevel 2] = done ++ rest →
    run step (Avatar.new 0 (zeros .null)) done = .ok a' → InRange a' ∧ ReadsInside a') ↔
      StartsInRange (zeros .null) (.new 0) :=
  progress_iff (show construct AvatarRoundTrip.oneAvatar _ _ = .ok _ from rfl) _

/-- An avatar that is loaded into memory that was zero has the level 0. -/
theorem loaded_level_zero : ¬ ∀ (tables : GameData) (mem a : Avatar) k, construct tables mem k = .ok a →
    ∀ calls done rest a', calls = done ++ rest → run step a done = .ok a' → InRange a' ∧ ReadsInside a' := by
  intro h
  have hzero := h AvatarRoundTrip.oneAvatar (zeros .null) _ (.ofInfo AvatarRoundTrip.equipped) rfl
    [] [] [] _ rfl rfl
  have hlevel : (1 : UInt32) ≤ 0 := hzero.1.level.1
  exact absurd hlevel (by decide)

end Yagips.Game.AvatarProgress
