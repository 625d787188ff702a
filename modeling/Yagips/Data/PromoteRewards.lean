import Yagips.Data.AvatarTable

/-!
# The rewards of a promotion

The walk over the lists asks the pointer for whether there is an id where it means the part it took, so
the id of the last level is never read. A row without lists asks the pointer of the row before.
-/
namespace Yagips.Data.AvatarTable

open Yagips.Lib
open Yagips.Lib.Strsep
open Yagips.Sdk.Body
open Yagips.Game.OpenStates (Row tryGetKey toInt)

/-! ## Lists of rewards -/

/-- The parts of a list. An empty cell lists none. -/
def items (v : Bytes) : List Bytes := if v = [] then [] else (cstr v).splitOnP semicolon

def levels (row : Row) : List Bytes := items (tryGetKey row "avatarPromoteRewardLevelList")

def ids (row : Row) : List Bytes := items (tryGetKey row "avatarPromoteRewardIdList")

/-- The two lists of a row are empty, or of the same length. -/
def Matched (row : Row) : Prop := (levels row).length = (ids row).length

def rewardPairs (levels ids : List Bytes) : List (UInt32 × UInt32) := (levels.map toInt).zip (ids.map toInt)

/-- Each level has its id, and a level that is repeated the last of its ids. -/
def promised (row : Row) : UInt32 → Option UInt32 := fun level =>
  (rewardPairs (levels row) (ids row)).reverse.lookup level

theorem items_eq_nil {v : Bytes} : items v = [] ↔ v = [] := by
  rw [items]
  split_ifs with hv
  · exact iff_of_true rfl hv
  · refine iff_of_false ?_ hv
    rw [splitOnP_eq]
    exact List.cons_ne_nil _ _

/-- A list joined by semicolons has its parts. -/
theorem items_intercalate {cells : List Bytes} (hcells : ∀ c ∈ cells, 0x3b ∉ c ∧ 0 ∉ c)
    (hne : [0x3b].intercalate cells ≠ []) : items ([0x3b].intercalate cells) = cells := by
  have hnul : 0 ∉ [0x3b].intercalate cells := by
    intro hmem
    rcases mem_intercalate hmem with hsep | ⟨c, hc, h0⟩
    · exact absurd hsep (by decide)
    · exact (hcells c hc).2 h0
  have hsome : cells ≠ [] := by
    intro hnil
    rw [hnil] at hne
    exact hne rfl
  rw [items, if_neg hne, cstr_eq_self_iff.mpr hnul]
  exact parts_intercalate semicolon (fun b => decide_eq_true_iff) hsome fun c hc => (hcells c hc).1

/-! ## One row -/

/-- The rewards the loop fills in. -/
def fill (rewards : UInt32 → Option UInt32) : List Bytes → List Bytes → UInt32 → Option UInt32
  | level :: levels, id :: ids =>
    fill (setReward rewards (toInt level) (if ids = [] then 0 else toInt id)) levels ids
  | _, _ => rewards

/-- The walk over lists of the same length ends with both pointers null. -/
theorem rewardLoop_eq {fuel : Nat} {p q : Option Bytes} (hfuel : (parts semicolon p).length < fuel)
    (hlen : (parts semicolon p).length = (parts semicolon q).length) (rewards : UInt32 → Option UInt32) :
    rewardLoop fuel (.ofOption p) (.ofOption q) rewards =
      .ok { rkeyP := .null, rvalP := .null, rewards := fill rewards (parts semicolon p) (parts semicolon q) } := by
  induction fuel generalizing p q rewards with
  | zero => exact absurd hfuel (Nat.not_lt_zero _)
  | succ fuel ih =>
    cases p with
    | none =>
      have hnone : q = none := (parts_eq_nil semicolon).mp (List.length_eq_zero_iff.mp hlen.symm)
      rw [hnone]
      rfl
    | some s =>
      cases q with
      | none =>
        obtain ⟨t, p, -, hparts⟩ := strsep_some semicolon s
        rw [hparts] at hlen
        cases hlen
      | some s' =>
        obtain ⟨t, p, hstrsep, hparts⟩ := strsep_some semicolon s
        obtain ⟨t', q, hstrsep', hparts'⟩ := strsep_some semicolon s'
        rw [hparts, List.length_cons] at hfuel
        rw [hparts, hparts', List.length_cons, List.length_cons] at hlen
        have hid : rewardId (some t') (.ofOption q) = if parts semicolon q = [] then 0 else toInt t' := by
          simp only [parts_eq_nil]
          cases q with
          | none => rfl
          | some s => rfl
        rw [hparts, hparts', fill, ← hid, ← ih (Nat.lt_of_succ_lt_succ hfuel) (Nat.succ.inj hlen)]
        exact rewardLoop_step hstrsep (strsepAt_into hstrsep') fuel rewards

/-- Rewards set one behind the other. -/
def given (rewards : UInt32 → Option UInt32) (pairs : List (UInt32 × UInt32)) : UInt32 → Option UInt32 :=
  pairs.foldl (fun rewards pair => setReward rewards pair.1 pair.2) rewards

theorem setReward_apply (rewards : UInt32 → Option UInt32) (rkeyI rvalI level : UInt32) :
    setReward rewards rkeyI rvalI level = if level = rkeyI then some rvalI else rewards level := rfl

theorem given_concat (rewards : UInt32 → Option UInt32) (pairs : List (UInt32 × UInt32)) (pair : UInt32 × UInt32) :
    given rewards (pairs ++ [pair]) = setReward (given rewards pairs) pair.1 pair.2 := by
  rw [given, List.foldl_concat]
  rfl

theorem given_eq (pairs : List (UInt32 × UInt32)) :
    given (fun _ => none) pairs = fun level => pairs.reverse.lookup level := by
  induction pairs using List.reverseRecOn with
  | nil => rfl
  | append_singleton pairs pair ih =>
    funext level
    rw [given_concat, setReward_apply, ih, List.reverse_concat, List.lookup_cons]
    by_cases hlevel : level = pair.1
    · rw [if_pos hlevel, hlevel, beq_self_eq_true]
    · rw [if_neg hlevel, beq_eq_false_iff_ne.mpr hlevel]

/-- All pairs are set, but for the last, whose level has no id. -/
theorem fill_concat {levels ids : List Bytes} (hlen : levels.length = ids.length) (level id : Bytes)
    (rewards : UInt32 → Option UInt32) : fill rewards (levels ++ [level]) (ids ++ [id]) =
      setReward (given rewards (rewardPairs levels ids)) (toInt level) 0 := by
  induction levels generalizing ids rewards with
  | nil =>
    have hnone : ids = [] := List.length_eq_zero_iff.mp hlen.symm
    rw [hnone]
    rfl
  | cons l levels ih =>
    cases ids with
    | nil => cases hlen
    | cons i ids =>
      have hmore : ids ++ [id] ≠ [] := List.append_ne_nil_of_right_ne_nil _ (List.cons_ne_nil _ _)
      rw [List.cons_append, List.cons_append, fill, if_neg hmore, ih (Nat.succ.inj hlen)]
      rfl

/-- The id that is never read is 0. -/
def LastFree (row : Row) : Prop := ∀ id ∈ (ids row).getLast?, toInt id = 0

/-- The rewards filled in for lists of the same length. -/
theorem fill_eq_promised {row : Row} (h : Matched row) :
    fill (fun _ => none) (levels row) (ids row) = promised row ↔ LastFree row := by
  unfold Matched at h
  unfold promised LastFree
  generalize levels row = levels at h ⊢
  generalize ids row = ids at h ⊢
  rcases levels.eq_nil_or_concat with rfl | ⟨levels, level, rfl⟩
  · have hnone : ids = [] := List.length_eq_zero_iff.mp h.symm
    subst hnone
    exact iff_of_true rfl fun _ h => (nomatch h)
  · rcases ids.eq_nil_or_concat with rfl | ⟨ids, id, rfl⟩
    · rw [List.concat_eq_append, List.length_append] at h
      cases h
    · rw [List.concat_eq_append, List.concat_eq_append] at h ⊢
      have hlen : levels.length = ids.length := by simpa using h
      have hpairs : rewardPairs (levels ++ [level]) (ids ++ [id]) =
          rewardPairs levels ids ++ [(toInt level, toInt id)] := by
        rw [rewardPairs, List.map_append, List.map_append, List.zip_append]
        · rfl
        · rw [List.length_map, List.length_map, hlen]
      have hlast : (ids ++ [id]).getLast? = some id := List.getLast?_concat
      rw [fill_concat hlen, hpairs, ← given_eq, given_concat, hlast]
      constructor
      · intro heq id' hid
        cases hid
        have hat := congrFun heq (toInt level)
        rw [setReward_apply, setReward_apply, if_pos rfl, if_pos rfl] at hat
        exact (Option.some.inj hat).symm
      · intro hfree
        rw [hfree id rfl]

/-! ## The rows of a table -/

section Rows

variable {F : Type} (flt : LongDouble F)

/-- The entry that comes out of a row where it does. -/
def rowEnt (row : Row) : AvatarDataEnt F :=
  { tsvColumns flt row with promoteRewards := fill (fun _ => none) (levels row) (ids row) }

theorem levels_eq_nil {row : Row} :
    levels row = [] ↔ tryGetKey row "avatarPromoteRewardLevelList" = [] := items_eq_nil

/-- A row with lists sets both pointers, whatever they were, and leaves them null. -/
theorem tsvEnt_listed {row : Row} (h : Matched row) (hlisted : levels row ≠ []) (vars : Vars) :
    tsvEnt flt row vars = .ok (rowEnt flt row, { vars with rkeyP := .null, rvalP := .null }) := by
  have hids : ids row ≠ [] := fun hnone => hlisted (List.length_eq_zero_iff.mp (by rw [h, hnone]; rfl))
  have hrkey : tryGetKey row "avatarPromoteRewardLevelList" ≠ [] := fun hnone => hlisted (items_eq_nil.mpr hnone)
  have hrval : tryGetKey row "avatarPromoteRewardIdList" ≠ [] := fun hnone => hids (items_eq_nil.mpr hnone)
  have hlevels : levels row = parts semicolon (some (cstr (tryGetKey row "avatarPromoteRewardLevelList"))) :=
    if_neg hrkey
  have hids : ids row = parts semicolon (some (cstr (tryGetKey row "avatarPromoteRewardIdList"))) := if_neg hrval
  have hfuel : (levels row).length < (cstr (tryGetKey row "avatarPromoteRewardLevelList")).length + 2 := by
    rw [hlevels]
    exact Nat.lt_succ_of_le (parts_length_le semicolon _)
  rw [Matched, hlevels, hids] at h
  rw [hlevels] at hfuel
  have hloop := rewardLoop_eq hfuel h fun _ => none
  have hread : readRewards row vars.rkeyP vars.rvalP =
      .ok { rkeyP := .null, rvalP := .null, rewards := fill (fun _ => none) (levels row) (ids row) } := by
    rw [readRewards, if_neg hrkey, if_neg (not_or.mpr ⟨hrkey, hrval⟩), hlevels, hids]
    exact hloop
  rw [tsvEnt, hread]
  rfl

/-- A row without lists asks the pointer it finds, and has no rewards where it is null. -/
theorem tsvEnt_empty {row : Row} (hempty : levels row = []) {vars : Vars} (hvars : vars.rkeyP = .null) :
    tsvEnt flt row vars = .ok (rowEnt flt row, { vars with rvalP := vars.rvalP.release }) := by
  have hrkey := levels_eq_nil.mp hempty
  rw [tsvEnt, readRewards, if_pos hrkey, if_pos (Or.inl hrkey), hvars, rowEnt, hempty]
  cases vars
  cases hvars
  rfl

theorem tsvEnt_unset {row : Row} (hempty : levels row = []) {vars : Vars} (hvars : vars.rkeyP = .unset) :
    tsvEnt flt row vars = .error .pointer := by
  have hrkey := levels_eq_nil.mp hempty
  rw [tsvEnt, readRewards, if_pos hrkey, if_pos (Or.inl hrkey), hvars]
  rfl

variable (json : JsonC) (invalid : Json → Bool)

/-- Behind a row with lists, every row comes out. -/
theorem rowLoop_null {rows : List Row} (h : ∀ row ∈ rows, Matched row) {vars : Vars} (hvars : vars.rkeyP = .null)
    (entries : List (AvatarDataEnt F)) : rowLoop (loadEnt flt json invalid false) rows vars entries =
      .ok (entries ++ rows.map (rowEnt flt)) := by
  induction rows generalizing vars entries with
  | nil => exact congrArg Except.ok (List.append_nil entries).symm
  | cons row rows ih =>
    have hrow := h row List.mem_cons_self
    have hrows : ∀ row ∈ rows, Matched row := fun row' h' => h row' (List.mem_cons_of_mem row h')
    have hout : entries ++ [rowEnt flt row] ++ rows.map (rowEnt flt) =
        entries ++ (row :: rows).map (rowEnt flt) := by
      rw [List.append_assoc, List.singleton_append, List.map_cons]
    by_cases hempty : levels row = []
    · have hbody : loadEnt flt json invalid false row vars = _ := tsvEnt_empty flt hempty hvars
      rw [rowLoop_next hbody, ← hout]
      refine ih hrows ?_ _
      exact hvars
    · have hbody : loadEnt flt json invalid false row vars = _ := tsvEnt_listed flt hrow hempty vars
      rw [rowLoop_next hbody, ih hrows rfl, hout]

/-- The first row must have lists, for the pointers are not set before. -/
theorem rowLoop_initial {rows : List Row} (h : ∀ row ∈ rows, Matched row) {out : List (AvatarDataEnt F)} :
    rowLoop (loadEnt flt json invalid false) rows Vars.initial [] = .ok out ↔
      (∀ row ∈ rows.head?, levels row ≠ []) ∧ out = rows.map (rowEnt flt) := by
  cases rows with
  | nil =>
    rw [rowLoop]
    constructor
    · intro heq
      cases heq
      refine ⟨?_, rfl⟩
      intro row hrow
      cases hrow
    · rintro ⟨-, hout⟩
      rw [hout]
      rfl
  | cons row rows =>
    have hrow := h row List.mem_cons_self
    have hrows : ∀ row ∈ rows, Matched row := fun row' h' => h row' (List.mem_cons_of_mem row h')
    by_cases hempty : levels row = []
    · have hbody : loadEnt flt json invalid false row Vars.initial = _ := tsvEnt_unset flt hempty rfl
      rw [rowLoop_stop hbody]
      refine iff_of_false ?_ fun hand => hand.1 row rfl hempty
      intro heq
      cases heq
    · have hbody : loadEnt flt json invalid false row Vars.initial = _ := tsvEnt_listed flt hrow hempty Vars.initial
      have hfirst : ∀ row' ∈ (row :: rows).head?, levels row' ≠ [] := by
        intro row' hhead
        cases hhead
        exact hempty
      rw [rowLoop_next hbody, rowLoop_null flt json invalid hrows rfl, and_iff_right hfirst, Except.ok.injEq,
        eq_comm]
      rfl

/-- Each row gets its rewards. -/
def Gives (rows : List Row) : Prop :=
  ∃ entries, loadRows (loadEnt flt json invalid false) rows Vars.initial = .ok entries ∧
    List.Forall₂ (fun row ent => ent.promoteRewards = promised row) rows entries

/-- Each row gets them by itself: whatever the pointers hold before it, if anything, it reads only what
it has set. -/
def OnItsOwn (rows : List Row) : Prop :=
  ∀ row ∈ rows, ∀ vars, ∃ ent vars', loadEnt flt json invalid false row vars = .ok (ent, vars') ∧
    ent.promoteRewards = promised row

theorem gives_iff {rows : List Row} (h : ∀ row ∈ rows, Matched row) : Gives flt json invalid rows ↔
    rows.length < 2 ^ 32 ∧ (∀ row ∈ rows.head?, levels row ≠ []) ∧ ∀ row ∈ rows, LastFree row := by
  have hentries : List.Forall₂ (fun row ent => ent.promoteRewards = promised row) rows (rows.map (rowEnt flt)) ↔
      ∀ row ∈ rows, LastFree row := by
    rw [List.forall₂_map_right_iff, List.forall₂_same]
    exact forall₂_congr fun row hrow => fill_eq_promised (h row hrow)
  constructor
  · intro ⟨entries, hload, hgives⟩
    obtain ⟨hfew, hloop⟩ := loadRows_ok.mp hload
    obtain ⟨hfirst, rfl⟩ := (rowLoop_initial flt json invalid h).mp hloop
    exact ⟨hfew, hfirst, hentries.mp hgives⟩
  · intro ⟨hfew, hfirst, hfree⟩
    refine ⟨rows.map (rowEnt flt), ?_, hentries.mpr hfree⟩
    exact loadRows_ok.mpr ⟨hfew, (rowLoop_initial flt json invalid h).mpr ⟨hfirst, rfl⟩⟩

theorem onItsOwn_iff {rows : List Row} (h : ∀ row ∈ rows, Matched row) : OnItsOwn flt json invalid rows ↔
    ∀ row ∈ rows, levels row ≠ [] ∧ LastFree row := by
  refine forall₂_congr fun row hrow => ?_
  by_cases hempty : levels row = []
  · have hbody : loadEnt flt json invalid false row Vars.initial = _ := tsvEnt_unset flt hempty rfl
    refine iff_of_false (fun hown => ?_) fun hand => hand.1 hempty
    obtain ⟨ent, vars', hok, -⟩ := hown Vars.initial
    cases hbody.symm.trans hok
  · rw [and_iff_right hempty]
    have hbody : ∀ vars, loadEnt flt json invalid false row vars = _ := tsvEnt_listed flt (h row hrow) hempty
    constructor
    · intro hown
      obtain ⟨ent, vars', hok, hrewards⟩ := hown Vars.initial
      cases (hbody Vars.initial).symm.trans hok
      exact (fill_eq_promised (h row hrow)).mp hrewards
    · intro hfree vars
      exact ⟨_, _, hbody vars, (fill_eq_promised (h row hrow)).mpr hfree⟩

/-- The rows of a table get their rewards exactly where they can be counted, the first has lists, and
the last id of each row is 0; and each by itself where all of them have lists. -/
theorem promote_rewards_iff {rows : List Row} (h : ∀ row ∈ rows, Matched row) :
    (Gives flt json invalid rows ↔
      rows.length < 2 ^ 32 ∧ (∀ row ∈ rows.head?, levels row ≠ []) ∧ ∀ row ∈ rows, LastFree row) ∧
    (Gives flt json invalid rows ∧ OnItsOwn flt json invalid rows ↔
      rows.length < 2 ^ 32 ∧ ∀ row ∈ rows, levels row ≠ [] ∧ LastFree row) := by
  refine ⟨gives_iff flt json invalid h, ?_⟩
  rw [gives_iff flt json invalid h, onItsOwn_iff flt json invalid h]
  constructor
  · intro ⟨⟨hfew, _, _⟩, hown⟩
    exact ⟨hfew, hown⟩
  · intro ⟨hfew, hown⟩
    refine ⟨⟨hfew, fun row hrow => (hown row (List.mem_of_head? hrow)).1, fun row hrow => (hown row hrow).2⟩, hown⟩

end Rows

/-! ## Rows with two rewards -/

/-- Whole numbers for `long double`. -/
def wholeNumbers : LongDouble Nat where
  strtold s := (toInt s).toNat
  toUInt n := UInt32.ofNat n

/-- A row with two levels, and the cell of their ids. -/
def twoLevels (idList : String) : Row :=
  [("avatarPromoteRewardLevelList", ascii "1;2"), ("avatarPromoteRewardIdList", ascii idList)]

theorem matched_twoLevels {rows : List Row} (h : ∀ row ∈ rows, row ∈ [twoLevels "10;20", twoLevels "10;0"]) :
    ∀ row ∈ rows, Matched row := by
  intro row hrow
  rcases List.mem_pair.mp (h row hrow) with rfl | rfl
  · rfl
  · rfl

theorem promote_rewards_twoLevels :
    (Gives wholeNumbers Game.OpenStates.emptyJson (fun _ => true) [twoLevels "10;0"] ↔
      [twoLevels "10;0"].length < 2 ^ 32 ∧ (∀ row ∈ [twoLevels "10;0"].head?, levels row ≠ []) ∧
        ∀ row ∈ [twoLevels "10;0"], LastFree row) ∧
    (Gives wholeNumbers Game.OpenStates.emptyJson (fun _ => true) [twoLevels "10;0"] ∧
        OnItsOwn wholeNumbers Game.OpenStates.emptyJson (fun _ => true) [twoLevels "10;0"] ↔
      [twoLevels "10;0"].length < 2 ^ 32 ∧
        ∀ row ∈ [twoLevels "10;0"], levels row ≠ [] ∧ LastFree row) :=
  promote_rewards_iff wholeNumbers Game.OpenStates.emptyJson (fun _ => true)
    (matched_twoLevels fun _ hrow => List.mem_cons_of_mem _ hrow)

/-- The second of two rewards is lost. -/
theorem not_promote_rewards : ¬ ∀ rows : List Row, (∀ row ∈ rows, Matched row) →
    Gives wholeNumbers Game.OpenStates.emptyJson (fun _ => true) rows ∧
      OnItsOwn wholeNumbers Game.OpenStates.emptyJson (fun _ => true) rows := by
  intro h
  have hmatched : ∀ row ∈ [twoLevels "10;20"], Matched row :=
    matched_twoLevels fun _ hrow => List.mem_cons.mpr (.inl (List.mem_singleton.mp hrow))
  obtain ⟨hgives, -⟩ := h [twoLevels "10;20"] hmatched
  obtain ⟨-, -, hfree⟩ := (gives_iff _ _ _ hmatched).mp hgives
  have hlast : toInt (ascii "20") = 0 := hfree (twoLevels "10;20") List.mem_cons_self _ rfl
  exact absurd hlast (by decide)

end Yagips.Data.AvatarTable
