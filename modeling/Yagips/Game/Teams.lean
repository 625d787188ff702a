import Mathlib.Data.List.InsertIdx
import Mathlib.Data.List.Nodup
import Yagips.Lib.Run

/-!
# Avatar teams

A team is a list of avatars, of which none is null unless a null one was put in. Each loop erases
from the list it walks and then advances the iterator it has erased. The walk goes on here as if
the erased node still held its link, and remembers that it was read.
-/
namespace Yagips.Game.Teams

open Yagips.Lib.Run

variable {A : Type} (guid : A → UInt64)

/-! ## Loops -/

/-- What a loop leaves, what it returns, and whether it advanced an iterator it had erased. -/
structure Walked (A : Type) where
  avatars : List (Option A)
  ret : Int
  stale : Bool

def Walked.keep (m : Option A) (w : Walked A) : Walked A := { w with avatars := m :: w.avatars }

def Walked.erase (w : Walked A) : Walked A := { w with stale := true }

def addLoop [DecidableEq A] (a : A) : Nat → List (Option A) → Walked A
  | ret, [] =>
    if 4 ≤ ret then { avatars := [], ret := -1, stale := false }
    else { avatars := [some a], ret := ret + 1, stale := false }
  | ret, none :: rest => (addLoop a ret rest).erase
  | ret, some m :: rest =>
    if m = a ∨ guid m = guid a then { avatars := some m :: rest, ret, stale := false }
    else (addLoop a (ret + 1) rest).keep (some m)

/-- `addAvatar`. -/
def addAvatar [DecidableEq A] (a : Option A) (avatars : List (Option A)) : Walked A :=
  match a with
  | none => { avatars, ret := -1, stale := false }
  | some a => addLoop guid a 0 avatars

/-- The loop of two of the functions, over null members and those that pass a test. -/
def delLoop (test : A → Bool) : List (Option A) → Walked A
  | [] => { avatars := [], ret := 0, stale := false }
  | m :: rest => if m.all test then (delLoop test rest).erase else (delLoop test rest).keep m

/-- `delAvatar(const Avatar*)`. -/
def delAvatar [DecidableEq A] (a : Option A) (avatars : List (Option A)) : Walked A :=
  match a with
  | none => { avatars, ret := 0, stale := false }
  | some a => delLoop (fun m => m = a || guid m = guid a) avatars

def delIndexLoop (i : Nat) : Nat → List (Option A) → Walked A
  | _, [] => { avatars := [], ret := 0, stale := false }
  | d, m :: rest =>
    if m = none ∨ d = i then (delIndexLoop i (d + 1) rest).erase
    else (delIndexLoop i (d + 1) rest).keep m

/-- `delAvatar(unsigned int)`. -/
def delAvatarAt (i : Nat) (avatars : List (Option A)) : Walked A := delIndexLoop i 0 avatars

/-- `delAvatar(unsigned long long)`. -/
def delAvatarByGuid (g : UInt64) (avatars : List (Option A)) : Walked A :=
  delLoop (fun m => guid m = g) avatars

def setLoop (a : Option A) (i : Nat) : Nat → List (Option A) → Walked A
  | _, [] => { avatars := [], ret := -1, stale := false }
  | ret, none :: rest => (setLoop a i ret rest).erase
  | ret, some m :: rest =>
    if ret = i then { avatars := a :: rest, ret, stale := false }
    else (setLoop a i (ret + 1) rest).keep (some m)

/-- `setAvatar`. -/
def setAvatar (a : Option A) (i : Nat) (avatars : List (Option A)) : Walked A := setLoop a i 0 avatars

/-! ## Members, null or not -/

theorem mem_addLoop [DecidableEq A] {a : A} {ret : Nat} {avatars : List (Option A)} {m : Option A}
    (h : m ∈ (addLoop guid a ret avatars).avatars) : m ∈ avatars ∨ m = some a := by
  induction avatars generalizing ret with
  | nil =>
    unfold addLoop at h
    split at h
    · cases h
    · exact .inr (List.mem_singleton.mp h)
  | cons b avatars ih =>
    cases b with
    | none => exact (ih h).imp_left (List.mem_cons_of_mem _)
    | some b =>
      rw [addLoop] at h
      split at h
      · exact .inl h
      · rcases List.mem_cons.mp h with rfl | h
        · exact .inl List.mem_cons_self
        · exact (ih h).imp_left (List.mem_cons_of_mem _)

/-- Adding puts in no one else. -/
theorem mem_addAvatar [DecidableEq A] {a : Option A} {avatars : List (Option A)} {m : Option A}
    (h : m ∈ (addAvatar guid a avatars).avatars) : m ∈ avatars ∨ m = a ∧ m ≠ none := by
  cases a with
  | none => exact .inl h
  | some a =>
    refine (mem_addLoop guid h).imp_right fun hm => ⟨hm, ?_⟩
    rw [hm]
    exact Option.some_ne_none a

theorem mem_delLoop {test : A → Bool} {avatars : List (Option A)} {m : Option A}
    (h : m ∈ (delLoop test avatars).avatars) : m ∈ avatars := by
  induction avatars with
  | nil => exact h
  | cons b avatars ih =>
    rw [delLoop] at h
    split at h
    · exact List.mem_cons_of_mem _ (ih h)
    · rcases List.mem_cons.mp h with rfl | h
      · exact List.mem_cons_self
      · exact List.mem_cons_of_mem _ (ih h)

/-- Removing puts in no one. -/
theorem mem_delAvatar [DecidableEq A] {a : Option A} {avatars : List (Option A)} {m : Option A}
    (h : m ∈ (delAvatar guid a avatars).avatars) : m ∈ avatars := by
  cases a with
  | none => exact h
  | some a => exact mem_delLoop h

/-! ## Runs -/

/-- The calls, of which `setAvatar` is given an avatar that is not null. -/
inductive Call (A : Type) where
  | addAvatar (a : Option A)
  | setAvatar (a : A) (i : Nat)
  | delAvatar (a : Option A)
  | delAvatarAt (i : Nat)
  | delAvatarByGuid (g : UInt64)

def walk [DecidableEq A] (avatars : List (Option A)) : Call A → Walked A
  | .addAvatar a => addAvatar guid a avatars
  | .setAvatar a i => setAvatar (some a) i avatars
  | .delAvatar a => delAvatar guid a avatars
  | .delAvatarAt i => delAvatarAt i avatars
  | .delAvatarByGuid g => delAvatarByGuid guid g avatars

/-- A step never stops. -/
def step [DecidableEq A] (avatars : List (Option A)) (call : Call A) : Except Empty (List (Option A)) :=
  .ok (walk guid avatars call).avatars

/-- At most four members, no two of them under one guid, and none of them null. -/
structure Represents (avatars : List (Option A)) : Prop where
  size : avatars.length ≤ 4
  distinct : (avatars.map (·.map guid)).Nodup
  nonnull : none ∉ avatars

/-- The members a call to remove one leaves, in order. -/
def remaining [DecidableEq A] (avatars : List (Option A)) : Call A → List (Option A)
  | .delAvatar (some a) => avatars.filter fun m => m ≠ some a ∧ m.map guid ≠ some (guid a)
  | .delAvatarAt i => avatars.eraseIdx i
  | .delAvatarByGuid g => avatars.filter fun m => m.map guid ≠ some g
  | _ => avatars

def Call.removes : Call A → Bool
  | .addAvatar _ => false
  | .setAvatar _ _ => false
  | _ => true

/-- What is asked of a step: the team stays one, exactly the member that is named is removed, and
no iterator is advanced that was erased. -/
structure Clean [DecidableEq A] (avatars : List (Option A)) (call : Call A) : Prop where
  represents : Represents guid (walk guid avatars call).avatars
  exact : call.removes → (walk guid avatars call).avatars = remaining guid avatars call
  valid : (walk guid avatars call).stale = false

/-- A call that removes no member, and puts none beside another under its guid. -/
def Tame (avatars : List (Option A)) : Call A → Prop
  | .addAvatar _ => True
  | .setAvatar a i => i < avatars.length → ∀ j ≠ i, ∀ m ∈ avatars[j]?, m.map guid ≠ some (guid a)
  | .delAvatar none => True
  | .delAvatar (some a) => ∀ m ∈ avatars, m.map guid ≠ some (guid a)
  | .delAvatarAt i => avatars.length ≤ i
  | .delAvatarByGuid g => ∀ m ∈ avatars, m.map guid ≠ some g

/-! ## Loops over members that are not null -/

theorem addLoop_map [DecidableEq A] (a : A) (ret : Nat) (ms : List A) :
    (addLoop guid a ret (ms.map some)).stale = false ∧
    (addLoop guid a ret (ms.map some)).avatars =
      if (∃ m ∈ ms, guid m = guid a) ∨ 4 ≤ ret + ms.length then ms.map some
      else (ms ++ [a]).map some := by
  induction ms generalizing ret with
  | nil =>
    simp only [List.map_nil, addLoop, List.length_nil, Nat.add_zero, List.not_mem_nil, false_and,
      exists_false, false_or]
    split
    · exact ⟨rfl, rfl⟩
    · exact ⟨rfl, rfl⟩
  | cons m ms ih =>
    have hsame : m = a ∨ guid m = guid a ↔ guid m = guid a :=
      or_iff_right_of_imp fun h => congrArg guid h
    simp only [List.map_cons, addLoop, hsame]
    by_cases hm : guid m = guid a
    · rw [if_pos hm, if_pos (.inl ⟨m, List.mem_cons_self, hm⟩)]
      exact ⟨rfl, rfl⟩
    · obtain ⟨hstale, havatars⟩ := ih (ret + 1)
      rw [if_neg hm]
      refine ⟨hstale, ?_⟩
      have hcond : ((∃ x ∈ m :: ms, guid x = guid a) ∨ 4 ≤ ret + (m :: ms).length) ↔
          (∃ x ∈ ms, guid x = guid a) ∨ 4 ≤ ret + 1 + ms.length := by
        rw [List.length_cons, Nat.add_assoc, Nat.add_comm 1]
        simp only [List.mem_cons, exists_eq_or_imp, hm, false_or]
      show some m :: (addLoop guid a (ret + 1) (ms.map some)).avatars = _
      rw [havatars]
      simp only [hcond]
      split
      · rfl
      · rfl

theorem delLoop_map (test : A → Bool) (ms : List A) :
    delLoop test (ms.map some) =
      { avatars := (ms.filter fun m => !test m).map some, ret := 0, stale := ms.any test } := by
  induction ms with
  | nil => rfl
  | cons m ms ih =>
    simp only [List.map_cons, delLoop, ih, Option.all_some]
    cases h : test m with
    | false => simp [Walked.keep, h]
    | true => simp [Walked.erase, h]

theorem delIndexLoop_past {i d : Nat} (h : i < d) (ms : List A) :
    delIndexLoop i d (ms.map some) = { avatars := ms.map some, ret := 0, stale := false } := by
  induction ms generalizing d with
  | nil => rfl
  | cons m ms ih =>
    have hne : ¬ (some m = none ∨ d = i) := by
      simp only [reduceCtorEq, false_or]
      omega
    rw [List.map_cons, delIndexLoop, if_neg hne, ih (by omega)]
    rfl

/-- One member is erased, the one at the index. -/
theorem delIndexLoop_map (k d : Nat) (ms : List A) : delIndexLoop (d + k) d (ms.map some) =
    { avatars := (ms.eraseIdx k).map some, ret := 0, stale := decide (k < ms.length) } := by
  induction ms generalizing k d with
  | nil => rfl
  | cons m ms ih =>
    rw [List.map_cons, delIndexLoop]
    cases k with
    | zero =>
      rw [if_pos (.inr rfl), delIndexLoop_past (by omega)]
      simp [Walked.erase]
    | succ k =>
      have hne : ¬ (some m = none ∨ d = d + (k + 1)) := by
        simp only [reduceCtorEq, false_or]
        omega
      have hnext : d + (k + 1) = d + 1 + k := by omega
      rw [if_neg hne, hnext, ih]
      simp [Walked.keep]

theorem setLoop_map (a : A) (k ret : Nat) (ms : List A) :
    (setLoop (some a) (ret + k) ret (ms.map some)).avatars = (ms.set k a).map some ∧
      (setLoop (some a) (ret + k) ret (ms.map some)).stale = false := by
  induction ms generalizing k ret with
  | nil => exact ⟨rfl, rfl⟩
  | cons m ms ih =>
    rw [List.map_cons, setLoop]
    cases k with
    | zero =>
      rw [if_pos (by omega)]
      exact ⟨rfl, rfl⟩
    | succ k =>
      have hnext : ret + (k + 1) = ret + 1 + k := by omega
      rw [if_neg (by omega), hnext]
      obtain ⟨havatars, hstale⟩ := ih k (ret + 1)
      exact ⟨congrArg (some m :: ·) havatars, hstale⟩

/-! ## One call -/

theorem represents_map (ms : List A) :
    Represents guid (ms.map some) ↔ ms.length ≤ 4 ∧ (ms.map guid).Nodup := by
  have hguids : ((ms.map some).map (·.map guid)).Nodup ↔ (ms.map guid).Nodup := by
    rw [List.map_map]
    show (ms.map (some ∘ guid)).Nodup ↔ _
    rw [← List.map_map, List.nodup_map_iff fun _ _ h => Option.some.inj h]
  constructor
  · intro h
    exact ⟨by simpa using h.size, hguids.mp h.distinct⟩
  · intro ⟨hsize, hdistinct⟩
    exact ⟨by simpa using hsize, hguids.mpr hdistinct, by simp⟩

theorem Represents.members {avatars : List (Option A)} (h : Represents guid avatars) :
    ∃ ms : List A, avatars = ms.map some := by
  refine ⟨avatars.filterMap id, ?_⟩
  have hnonnull := h.nonnull
  clear h
  induction avatars with
  | nil => rfl
  | cons m avatars ih =>
    cases m with
    | none => exact absurd List.mem_cons_self hnonnull
    | some m =>
      have hrest := ih fun hmem => hnonnull (List.mem_cons_of_mem _ hmem)
      simpa using hrest

/-- Replacing one of a list without duplicates. -/
theorem nodup_set_iff {B : Type} {l : List B} (h : l.Nodup) {i : Nat} (x : B) :
    (l.set i x).Nodup ↔ (i < l.length → ∀ j ≠ i, l[j]? ≠ some x) := by
  constructor
  · intro hset hi j hj hx
    have hsame : (l.set i x)[i]? = (l.set i x)[j]? := by
      rw [List.getElem?_set_self hi, List.getElem?_set_ne hj.symm, hx]
    exact hj ((List.getElem?_inj (by rwa [List.length_set]) hset).mp hsame).symm
  · intro hfree
    by_cases hi : i < l.length
    · by_cases hx : x ∈ l
      · obtain ⟨j, hget⟩ := List.mem_iff_getElem?.mp hx
        obtain rfl : j = i := by
          by_contra hj
          exact hfree hi j hj hget
        have hself : l.set j x = l := by
          rw [List.getElem?_eq_getElem hi] at hget
          rw [← Option.some.inj hget, List.set_getElem_self]
        rwa [hself]
      · exact h.set hx
    · rwa [List.set_eq_of_length_le (by omega)]

/-- Fewer members are a team too. -/
theorem represents_sublist {ms ms' : List A} (h : Represents guid (ms.map some)) (hsub : ms'.Sublist ms) :
    Represents guid (ms'.map some) := by
  obtain ⟨hsize, hdistinct⟩ := (represents_map guid ms).mp h
  exact (represents_map guid ms').mpr
    ⟨Nat.le_trans hsub.length_le hsize, hdistinct.sublist (hsub.map guid)⟩

/-- A call that removes the members that pass a test is clean where there are none. -/
theorem clean_del_iff [DecidableEq A] {ms : List A} {call : Call A} (test : A → Bool)
    (h : Represents guid (ms.map some))
    (hwalk : walk guid (ms.map some) call = delLoop test (ms.map some))
    (hremaining : remaining guid (ms.map some) call = (ms.filter fun m => !test m).map some) :
    Clean guid (ms.map some) call ↔ ∀ m ∈ ms, test m = false := by
  rw [delLoop_map] at hwalk
  constructor
  · intro hc
    have hvalid := hc.valid
    rw [hwalk] at hvalid
    simpa using hvalid
  · intro hnone
    refine ⟨?_, fun _ => ?_, ?_⟩
    · rw [hwalk]
      exact represents_sublist guid h List.filter_sublist
    · rw [hwalk, hremaining]
    · rw [hwalk]
      simpa using hnone

theorem clean_addAvatar [DecidableEq A] {ms : List A} (h : Represents guid (ms.map some)) (a : Option A) :
    Clean guid (ms.map some) (.addAvatar a) := by
  obtain ⟨hsize, hdistinct⟩ := (represents_map guid ms).mp h
  cases a with
  | none => exact ⟨h, nofun, rfl⟩
  | some a =>
    obtain ⟨hvalid, hadded⟩ := addLoop_map guid a 0 ms
    refine ⟨?_, nofun, hvalid⟩
    show Represents guid (addLoop guid a 0 (ms.map some)).avatars
    rw [hadded]
    split
    case isTrue => exact h
    case isFalse hnew =>
      obtain ⟨hfree, hroom⟩ := not_or.mp hnew
      refine (represents_map guid _).mpr ⟨?_, ?_⟩
      · rw [List.length_append, List.length_singleton]
        omega
      · rw [List.map_append, List.map_singleton, ← List.concat_eq_append, List.nodup_concat]
        refine ⟨fun hmem => ?_, hdistinct⟩
        obtain ⟨m, hm, hguid⟩ := List.mem_map.mp hmem
        exact hfree ⟨m, hm, hguid⟩

theorem clean_setAvatar_iff [DecidableEq A] {ms : List A} (h : Represents guid (ms.map some)) (a : A) (i : Nat) :
    Clean guid (ms.map some) (.setAvatar a i) ↔ Tame guid (ms.map some) (.setAvatar a i) := by
  obtain ⟨hsize, hdistinct⟩ := (represents_map guid ms).mp h
  have hset := setLoop_map a i 0 ms
  rw [Nat.zero_add] at hset
  have hclean : Clean guid (ms.map some) (.setAvatar a i) ↔ ((ms.map guid).set i (guid a)).Nodup := by
    rw [← List.map_set]
    constructor
    · intro hc
      have hrep := hc.represents
      rw [show (walk guid (ms.map some) (.setAvatar a i)).avatars = _ from hset.1] at hrep
      exact ((represents_map guid _).mp hrep).2
    · intro hn
      refine ⟨?_, nofun, hset.2⟩
      rw [show (walk guid (ms.map some) (.setAvatar a i)).avatars = _ from hset.1]
      exact (represents_map guid _).mpr ⟨by rwa [List.length_set], hn⟩
  rw [hclean, nodup_set_iff hdistinct]
  simp only [Tame, List.length_map, List.getElem?_map, Option.mem_def]
  constructor
  · intro hfree hi j hj m hm hguid
    obtain ⟨b, hb, rfl⟩ := Option.map_eq_some_iff.mp hm
    exact hfree hi j hj (by rw [hb]; exact hguid)
  · intro hfree hi j hj hguid
    obtain ⟨b, hb, hguid⟩ := Option.map_eq_some_iff.mp hguid
    exact hfree hi j hj (some b) (by rw [hb]; rfl) (congrArg some hguid)

theorem clean_delAvatarAt_iff [DecidableEq A] {ms : List A} (h : Represents guid (ms.map some)) (i : Nat) :
    Clean guid (ms.map some) (.delAvatarAt i) ↔ ms.length ≤ i := by
  have hwalk : walk guid (ms.map some) (.delAvatarAt i) =
      { avatars := (ms.eraseIdx i).map some, ret := 0, stale := decide (i < ms.length) } := by
    have hloop := delIndexLoop_map i 0 ms
    rwa [Nat.zero_add] at hloop
  constructor
  · intro hc
    have hvalid := hc.valid
    rw [hwalk] at hvalid
    exact Nat.le_of_not_lt (of_decide_eq_false hvalid)
  · intro hle
    refine ⟨?_, fun _ => ?_, ?_⟩
    · rw [hwalk]
      exact represents_sublist guid h (List.eraseIdx_sublist ms i)
    · rw [hwalk]
      exact (List.eraseIdx_map some ms i).symm
    · rw [hwalk]
      exact decide_eq_false (Nat.not_lt.mpr hle)

/-- Filtering the members is filtering the list of pointers to them. -/
theorem filter_map_some {P : Option A → Prop} [DecidablePred P] {test : A → Bool}
    (htest : ∀ m, P (some m) ↔ test m = false) (ms : List A) :
    (ms.map some).filter (fun m => decide (P m)) = (ms.filter fun m => !test m).map some := by
  rw [List.filter_map]
  congr 1
  apply List.filter_congr
  intro m _
  simp [htest]

/-- From a team, a call is clean where it is tame. -/
theorem clean_iff [DecidableEq A] {avatars : List (Option A)} (h : Represents guid avatars) (call : Call A) :
    Clean guid avatars call ↔ Tame guid avatars call := by
  obtain ⟨ms, rfl⟩ := h.members
  have hmembers : ∀ P : Option A → Prop, (∀ m ∈ ms.map some, P m) ↔ ∀ m ∈ ms, P (some m) := by
    intro P
    simp
  cases call with
  | addAvatar a => exact iff_of_true (clean_addAvatar guid h a) trivial
  | setAvatar a i => exact clean_setAvatar_iff guid h a i
  | delAvatar a =>
    cases a with
    | none => exact iff_of_true ⟨h, fun _ => rfl, rfl⟩ trivial
    | some a =>
      have hremaining : remaining guid (ms.map some) (.delAvatar (some a)) =
          (ms.filter fun m => !(decide (m = a) || decide (guid m = guid a))).map some :=
        filter_map_some (by simp) ms
      rw [clean_del_iff guid (fun m => m = a || guid m = guid a) h rfl hremaining]
      simp only [Tame, hmembers, Option.map_some, ne_eq, Option.some.injEq, Bool.or_eq_false_iff,
        decide_eq_false_iff_not]
      refine forall₂_congr fun m _ => ⟨fun hm => hm.2, fun hm => ⟨fun heq => hm (heq ▸ rfl), hm⟩⟩
  | delAvatarAt i =>
    show _ ↔ (ms.map some).length ≤ i
    rw [List.length_map]
    exact clean_delAvatarAt_iff guid h i
  | delAvatarByGuid g =>
    have hremaining : remaining guid (ms.map some) (.delAvatarByGuid g) =
        (ms.filter fun m => !decide (guid m = g)).map some := filter_map_some (by simp) ms
    rw [clean_del_iff guid (fun m => guid m = g) h rfl hremaining]
    simp only [Tame, hmembers, Option.map_some, ne_eq, Option.some.injEq, decide_eq_false_iff_not]

/-- Exactly along the runs from an empty team that remove nothing, and set no avatar beside another
under its guid, every step is clean. -/
theorem team_clean_iff [DecidableEq A] (calls : List (Call A)) :
    Along (step guid) (Clean guid) [] calls ↔ Along (step guid) (Tame guid) [] calls := by
  refine along_congr (Represents guid) (fun s e s' hs hc hstep => ?_)
    (fun s e hs => clean_iff guid hs e) ?_
  · cases hstep
    exact hc.represents
  · exact (represents_map guid []).mpr ⟨Nat.zero_le 4, by simp⟩

/-- Removing a member, and setting one twice. -/
theorem unclean_calls :
    ¬ Along (step id) (Clean id) [] [.addAvatar (some (1 : UInt64)), .delAvatarByGuid 1] ∧
    ¬ Along (step id) (Clean id) []
      [.addAvatar (some (1 : UInt64)), .addAvatar (some 2), .setAvatar 1 1] := by
  constructor
  · intro h
    have hvalid := (h.2 _ rfl).1.valid
    revert hvalid
    decide
  · intro h
    have hdistinct := ((h.2 _ rfl).2 _ rfl).1.represents.distinct
    revert hdistinct
    decide

end Yagips.Game.Teams
