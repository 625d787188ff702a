import Mathlib.Data.Set.Defs
import Yagips.Game.CurrentTeam

/-!
# Comparing teams

The comparison walks two lists of members at once, and advances in one of them twice as fast. It
never ends both walks together, so it never finds two teams equal that do not hold the same pointers.
-/
namespace Yagips.Game.TeamEquality

open Yagips.Lib
open Yagips.Game.References (Team)
open Yagips.Game.CurrentTeam

variable (guid : Nat → Except Fault UInt64)

/-! ## What is asked of the comparison -/

/-- A team without null members, whose avatars are there. -/
def Live (t : Team) : Prop := ∀ m ∈ t.members, ∃ g, getGuid guid m = .ok g

/-- Two teams of one name whose members have the same guids in order. -/
def Alike (a b : Team) : Prop :=
  a.name = b.name ∧ a.members.map (getGuid guid) = b.members.map (getGuid guid)

/-- The comparison ends, and tells whether two teams are alike. -/
def Tells (a b : Team) : Prop := ∃ equal, teamEqual guid a b = .ok equal ∧ (equal = true ↔ Alike guid a b)

/-- A pass of the loop meets two guids that differ. -/
def Meets (is js : List (Option Nat)) : Prop :=
  ∃ k, 2 * k < is.length ∧ is[2 * k]?.map (getGuid guid) ≠ js[k]?.map (getGuid guid)

/-- The loop is not entered, or it is entered with teams that are not alike and meets a difference
or an odd number of members. -/
def Told (a b : Team) : Prop :=
  a.name ≠ b.name ∨ a.members = b.members ∨ a.members.length ≠ b.members.length ∨
    (¬ Alike guid a b ∧ (a.members.length % 2 = 1 ∨ Meets guid a.members b.members))

/-! ## The loop -/

theorem meets_nil (js : List (Option Nat)) : ¬ Meets guid [] js := fun ⟨_, hk, _⟩ => Nat.not_lt_zero _ hk

theorem meets_cons (i x j : Option Nat) (is js : List (Option Nat)) :
    Meets guid (i :: x :: is) (j :: js) ↔ getGuid guid i ≠ getGuid guid j ∨ Meets guid is js := by
  constructor
  · intro ⟨k, hk, hne⟩
    cases k with
    | zero => exact .inl fun heq => hne (congrArg some heq)
    | succ k =>
      have hlen : 2 * k < is.length := by
        simp only [List.length_cons] at hk
        omega
      exact .inr ⟨k, hlen, hne⟩
  · intro h
    rcases h with hne | ⟨k, hk, hne⟩
    · exact ⟨0, Nat.succ_pos _, fun heq => hne (Option.some.inj heq)⟩
    · refine ⟨k + 1, ?_, hne⟩
      simp only [List.length_cons]
      omega

/-- The loop finds no two teams equal. -/
theorem equalLoop_ne_true (is js : List (Option Nat)) : equalLoop guid is js ≠ .ok true := by
  fun_induction equalLoop guid is js with
  | case1 i is j js ih =>
    intro h
    obtain ⟨gi, -, h⟩ := bind_eq_ok.mp h
    obtain ⟨gj, -, h⟩ := bind_eq_ok.mp h
    split at h
    · cases h
    · cases is with
      | nil => cases h
      | cons x is => exact ih h
  | case2 => nofun

theorem equalLoop_false_iff {is js : List (Option Nat)} (hi : ∀ m ∈ is, ∃ g, getGuid guid m = .ok g)
    (hj : ∀ m ∈ js, ∃ g, getGuid guid m = .ok g) (hlen : is.length ≤ js.length) :
    equalLoop guid is js = .ok false ↔ is.length % 2 = 1 ∨ Meets guid is js := by
  fun_induction equalLoop guid is js with
  | case1 i is j js ih =>
    obtain ⟨gi, hgi⟩ := hi i List.mem_cons_self
    obtain ⟨gj, hgj⟩ := hj j List.mem_cons_self
    simp only [hgi, hgj, ok_bind]
    cases is with
    | nil =>
      refine iff_of_true ?_ (.inl rfl)
      split
      · rfl
      · rfl
    | cons x is =>
      have hrest : equalLoop guid is js = .ok false ↔ is.length % 2 = 1 ∨ Meets guid is js := by
        refine ih (fun m hm => hi m (by simp [hm])) (fun m hm => hj m (by simp [hm])) ?_
        simp only [List.length_cons] at hlen
        omega
      have hparity : (i :: x :: is).length % 2 = 1 ↔ is.length % 2 = 1 := by
        simp only [List.length_cons]
        omega
      rw [meets_cons, hgi, hgj, hparity]
      by_cases hne : gi = gj
      · rw [if_neg (not_not.mpr hne), hrest, hne]
        simp only [ne_eq, not_true_eq_false, false_or]
      · rw [if_pos hne]
        exact iff_of_true rfl (.inr (.inl fun heq => hne (Except.ok.inj heq)))
  | case2 is js hnot =>
    cases is with
    | nil =>
      refine iff_of_false nofun ?_
      intro h
      rcases h with h | h
      · cases h
      · exact meets_nil guid js h
    | cons i is =>
      cases js with
      | nil => exact absurd hlen (Nat.not_succ_le_zero _)
      | cons j js => exact absurd rfl (hnot i is j js rfl)

/-! ## The comparison -/

variable {guid}

theorem alike_length {a b : Team} (h : Alike guid a b) : a.members.length = b.members.length := by
  simpa using congrArg List.length h.2

theorem tells_iff {a b : Team} (ha : Live guid a) (hb : Live guid b) : Tells guid a b ↔ Told guid a b := by
  unfold Tells Told teamEqual
  by_cases hname : a.name = b.name
  swap
  · refine iff_of_true ⟨false, if_pos hname, ?_⟩ (.inl hname)
    exact iff_of_false Bool.false_ne_true fun h => hname h.1
  rw [if_neg (not_not.mpr hname)]
  by_cases hsame : a.members = b.members
  · refine iff_of_true ⟨true, if_pos hsame, ?_⟩ (.inr (.inl hsame))
    exact iff_of_true rfl ⟨hname, by rw [hsame]⟩
  rw [if_neg hsame]
  by_cases hlen : a.members.length = b.members.length
  swap
  · refine iff_of_true ⟨false, if_pos hlen, ?_⟩ (.inr (.inr (.inl hlen)))
    exact iff_of_false Bool.false_ne_true fun h => hlen (alike_length h)
  rw [if_neg (not_not.mpr hlen), ← equalLoop_false_iff guid ha hb hlen.le]
  constructor
  · intro ⟨equal, hequal, halike⟩
    cases equal with
    | true => exact absurd hequal (equalLoop_ne_true guid _ _)
    | false => exact .inr (.inr (.inr ⟨fun h => absurd (halike.mpr h) Bool.false_ne_true, hequal⟩))
  · intro h
    rcases h with h | h | h | ⟨hnot, hloop⟩
    · exact absurd hname h
    · exact absurd h hsame
    · exact absurd hlen h
    · exact ⟨false, hloop, iff_of_false Bool.false_ne_true hnot⟩

/-! ## An equivalence -/

/-- The teams the comparison finds equal. -/
def Equal (guid : Nat → Except Fault UInt64) (a b : Team) : Prop := teamEqual guid a b = .ok true

/-- Where the comparison tells, what it finds is that the teams are alike. -/
theorem equal_iff {a b : Team} (h : Tells guid a b) : Equal guid a b ↔ Alike guid a b := by
  obtain ⟨equal, hequal, halike⟩ := h
  rw [← halike, Equal, hequal]
  exact ⟨fun h => Except.ok.inj h, fun h => congrArg Except.ok h⟩

theorem alike_equivalence (guid : Nat → Except Fault UInt64) : Equivalence (Alike guid) where
  refl _ := ⟨rfl, rfl⟩
  symm h := ⟨h.1.symm, h.2.symm⟩
  trans h h' := ⟨h.1.trans h'.1, h.2.trans h'.2⟩

/-- Over teams of which every two are told, the comparison is an equivalence. -/
theorem equal_equivalence {T : Set Team} (h : ∀ a ∈ T, ∀ b ∈ T, Tells guid a b) :
    Equivalence fun a b : T => Equal guid a b := by
  have hiff : (fun a b : T => Equal guid a b) = fun a b : T => Alike guid a b := by
    funext a b
    exact propext (equal_iff (h a a.2 b b.2))
  rw [hiff]
  exact (alike_equivalence guid).comap Subtype.val

/-! ## The first team like another -/

/-- The first of the nodes whose team is like `t`. -/
structure First (guid : Nat → Except Fault UInt64) (t : Team) (nodes : List TeamNode) (i : Nat)
    (n : TeamNode) : Prop where
  here : nodes[i]? = some n
  alike : Alike guid t n.team
  first : ∀ j < i, ∀ m ∈ nodes[j]?, ¬ Alike guid t m.team

/-- `swapToTeam` makes the first team like `t` the current one, and changes nothing where there is
none. -/
def Selects (guid : Nat → Except Fault UInt64) (s : Squad) (ptr : TeamPtr) (t : Team) : Prop :=
  (∃ i n, First guid t s.teams.nodes i n ∧ ∃ r, swapToTeamLike guid s ptr = .ok r ∧
    r.ret = asInt s.curTeamIndex ∧ r.squad.teams = s.teams ∧ getCurAvatarTeam r.squad = some n) ∨
  ((∀ n ∈ s.teams.nodes, ¬ Alike guid t n.team) ∧
    swapToTeamLike guid s ptr = .ok { squad := s, ret := -1 })

/-- The comparisons up to the first team like `t` tell, and its position is an `unsigned int`. -/
def Found (guid : Nat → Except Fault UInt64) (s : Squad) (t : Team) : Prop :=
  (∃ i n, First guid t s.teams.nodes i n ∧ i < 2 ^ 32 ∧
    ∀ j ≤ i, ∀ m ∈ s.teams.nodes[j]?, Told guid t m.team) ∨
  ((∀ n ∈ s.teams.nodes, ¬ Alike guid t n.team) ∧ ∀ n ∈ s.teams.nodes, Told guid t n.team)

theorem teamEqual_self (t : Team) : teamEqual guid t t = .ok true := by
  rw [teamEqual, if_neg (not_not.mpr rfl), if_pos rfl]
  rfl

/-- The node that a pointer points to is the one that is read. -/
theorem read_node {l : TeamList} {ptr : TeamPtr} {t : Team} (hread : ptr.read l = .ok t) :
    ∀ n ∈ l.nodes, ptr.isNode n = true → n.team = t := by
  intro n hn hnode
  cases ptr with
  | null => cases hnode
  | elsewhere team => cases hnode
  | node ref =>
    have href : ref = n.ref := of_decide_eq_true hnode
    rw [TeamPtr.read] at hread
    cases hfind : l.nodes.find? (·.ref = ref) with
    | none => simp [hfind] at hread
    | some m =>
      simp only [hfind] at hread
      cases hread
      have hm : m.ref = ref := by simpa using List.find?_some hfind
      obtain ⟨i, hi⟩ := List.mem_iff_getElem?.mp hn
      obtain ⟨j, hj⟩ := List.mem_iff_getElem?.mp (List.mem_of_find?_eq_some hfind)
      rcases Nat.lt_trichotomy i j with hij | rfl | hij
      · have hlt := l.ref_lt hij hi hj
        omega
      · rw [hi] at hj
        cases hj
        rfl
      · have hlt := l.ref_lt hij hj hi
        omega

/-- The loop's shortcut for a pointer into the list is what the comparison finds too. -/
theorem findTeam_cons {l : TeamList} {ptr : TeamPtr} {t : Team} (hread : ptr.read l = .ok t)
    {n : TeamNode} (hn : n ∈ l.nodes) (i : UInt32) (rest : List TeamNode) :
    findTeam guid l ptr i (n :: rest) = (do
      if ← teamEqual guid t n.team then return some i else findTeam guid l ptr (i + 1) rest) := by
  rw [findTeam]
  split
  case isTrue hnode =>
    rw [read_node hread n hn hnode, teamEqual_self]
    rfl
  case isFalse => rw [hread, ok_bind]

/-- What the loop finds is the first team that compares equal. -/
theorem findTeam_ok {l : TeamList} {ptr : TeamPtr} {t : Team} (hread : ptr.read l = .ok t)
    {nodes : List TeamNode} (hsub : ∀ n ∈ nodes, n ∈ l.nodes) {k : Nat} {found : Option UInt32}
    (h : findTeam guid l ptr (UInt32.ofNat k) nodes = .ok found) :
    (found = none ∧ ∀ n ∈ nodes, teamEqual guid t n.team = .ok false) ∨
      ∃ i n, found = some (UInt32.ofNat (k + i)) ∧ nodes[i]? = some n ∧
        teamEqual guid t n.team = .ok true ∧
        ∀ j < i, ∀ m ∈ nodes[j]?, teamEqual guid t m.team = .ok false := by
  induction nodes generalizing k with
  | nil =>
    cases h
    exact .inl ⟨rfl, List.forall_mem_nil _⟩
  | cons n rest ih =>
    rw [findTeam_cons hread (hsub n List.mem_cons_self)] at h
    obtain ⟨equal, hequal, h⟩ := bind_eq_ok.mp h
    cases equal with
    | true =>
      cases h
      exact .inr ⟨0, n, rfl, rfl, hequal, fun j hj => absurd hj (Nat.not_lt_zero j)⟩
    | false =>
      have hnext : UInt32.ofNat k + 1 = UInt32.ofNat (k + 1) := (UInt32.ofNat_add k 1).symm
      rw [hnext] at h
      rcases ih (fun m hm => hsub m (List.mem_cons_of_mem n hm)) h with ⟨hnone, hall⟩ | ⟨i, m, hi, hm, htrue, hbefore⟩
      · exact .inl ⟨hnone, List.forall_mem_cons.mpr ⟨hequal, hall⟩⟩
      · refine .inr ⟨i + 1, m, ?_, hm, htrue, fun j hj m' hm' => ?_⟩
        · rw [hi, Nat.add_assoc, Nat.add_comm 1]
        · cases j with
          | zero =>
            cases hm'
            exact hequal
          | succ j => exact hbefore j (Nat.lt_of_succ_lt_succ hj) m' hm'

/-- The loop passes the teams that compare unequal. -/
theorem findTeam_none {l : TeamList} {ptr : TeamPtr} {t : Team} (hread : ptr.read l = .ok t)
    {nodes : List TeamNode} (hsub : ∀ n ∈ nodes, n ∈ l.nodes) (k : UInt32)
    (h : ∀ n ∈ nodes, teamEqual guid t n.team = .ok false) : findTeam guid l ptr k nodes = .ok none := by
  induction nodes generalizing k with
  | nil => rfl
  | cons n rest ih =>
    obtain ⟨hhere, hrest⟩ := List.forall_mem_cons.mp h
    rw [findTeam_cons hread (hsub n List.mem_cons_self), hhere, ok_bind]
    exact ih (fun m hm => hsub m (List.mem_cons_of_mem n hm)) (k + 1) hrest

/-- The loop stops at the first team that compares equal. -/
theorem findTeam_first {l : TeamList} {ptr : TeamPtr} {t : Team} (hread : ptr.read l = .ok t)
    {nodes : List TeamNode} (hsub : ∀ n ∈ nodes, n ∈ l.nodes) (k : Nat) {i : Nat} {n : TeamNode}
    (hn : nodes[i]? = some n) (htrue : teamEqual guid t n.team = .ok true)
    (hbefore : ∀ j < i, ∀ m ∈ nodes[j]?, teamEqual guid t m.team = .ok false) :
    findTeam guid l ptr (UInt32.ofNat k) nodes = .ok (some (UInt32.ofNat (k + i))) := by
  induction nodes generalizing k i with
  | nil => cases hn
  | cons m rest ih =>
    rw [findTeam_cons hread (hsub m List.mem_cons_self)]
    cases i with
    | zero =>
      cases hn
      rw [htrue]
      rfl
    | succ i =>
      have hnext : UInt32.ofNat k + 1 = UInt32.ofNat (k + 1) := (UInt32.ofNat_add k 1).symm
      have hcount : k + (i + 1) = k + 1 + i := by omega
      rw [hbefore 0 (Nat.succ_pos i) m rfl, ok_bind, hnext, hcount]
      refine ih (fun m' hm' => hsub m' (List.mem_cons_of_mem m hm')) (k + 1) hn fun j hj => ?_
      exact hbefore (j + 1) (Nat.succ_lt_succ hj)

/-- A told comparison is the answer. -/
theorem told_true {a b : Team} (ha : Live guid a) (hb : Live guid b) (h : Told guid a b)
    (halike : Alike guid a b) : teamEqual guid a b = .ok true :=
  (equal_iff ((tells_iff ha hb).mpr h)).mpr halike

theorem told_false {a b : Team} (ha : Live guid a) (hb : Live guid b) (h : Told guid a b)
    (hnot : ¬ Alike guid a b) : teamEqual guid a b = .ok false := by
  obtain ⟨equal, hequal, htell⟩ := (tells_iff ha hb).mpr h
  cases equal with
  | true => exact absurd (htell.mp rfl) hnot
  | false => exact hequal

theorem told_of_true {a b : Team} (ha : Live guid a) (hb : Live guid b)
    (h : teamEqual guid a b = .ok true) (halike : Alike guid a b) : Told guid a b :=
  (tells_iff ha hb).mp ⟨true, h, iff_of_true rfl halike⟩

theorem told_of_false {a b : Team} (ha : Live guid a) (hb : Live guid b)
    (h : teamEqual guid a b = .ok false) (hnot : ¬ Alike guid a b) : Told guid a b :=
  (tells_iff ha hb).mp ⟨false, h, iff_of_false Bool.false_ne_true hnot⟩

section Swapping

variable {s : Squad} {ptr : TeamPtr} {t : Team}

theorem selects_of_found (hread : ptr.read s.teams = .ok t) (ht : Live guid t)
    (hlive : ∀ n ∈ s.teams.nodes, Live guid n.team) (h : Found guid s t) : Selects guid s ptr t := by
  rcases h with ⟨i, n, hfirst, hi, htold⟩ | ⟨hnone, htold⟩
  · have hlive' : ∀ j (m : TeamNode), m ∈ s.teams.nodes[j]? → Live guid m.team :=
      fun j m hm => hlive m (List.mem_of_getElem? hm)
    have htrue := told_true ht (hlive' i n hfirst.here) (htold i le_rfl n hfirst.here) hfirst.alike
    have hbefore : ∀ j < i, ∀ m : TeamNode, m ∈ s.teams.nodes[j]? → teamEqual guid t m.team = .ok false :=
      fun j hj m hm => told_false ht (hlive' j m hm) (htold j hj.le m hm) (hfirst.first j hj m hm)
    have hfound := findTeam_first hread (fun _ => id) 0 hfirst.here htrue hbefore
    rw [Nat.zero_add] at hfound
    refine .inl ⟨i, n, hfirst, _, bind_eq_ok.mpr ⟨_, hfound, rfl⟩, rfl, rfl, ?_⟩
    show s.teams.nodes[(UInt32.ofNat i).toNat]? = some n
    rw [UInt32.toNat_ofNat_of_lt' hi]
    exact hfirst.here
  · have hall : ∀ n ∈ s.teams.nodes, teamEqual guid t n.team = .ok false :=
      fun n hn => told_false ht (hlive n hn) (htold n hn) (hnone n hn)
    exact .inr ⟨hnone, bind_eq_ok.mpr ⟨none, findTeam_none hread (fun _ => id) 0 hall, rfl⟩⟩

/-- Two positions of one node are the same. -/
theorem node_index {l : TeamList} {i j : Nat} {n : TeamNode} (hi : l.nodes[i]? = some n)
    (hj : l.nodes[j]? = some n) : i = j := by
  rcases Nat.lt_trichotomy i j with hij | heq | hij
  · exact absurd (l.ref_lt hij hi hj) (lt_irrefl _)
  · exact heq
  · exact absurd (l.ref_lt hij hj hi) (lt_irrefl _)

/-- The position -1 is that of no team. -/
theorem asInt_ne {i : UInt32} (hi : i.toNat + 1 < 2 ^ 32) : asInt i ≠ -1 := by
  intro h
  have hmax : i.toInt32 = -1 := Int32.toInt_inj.mp h
  have hback : i = 0xffffffff := by
    rw [← UInt32.toUInt32_toInt32 i, hmax]
    rfl
  rw [hback] at hi
  exact absurd hi (by decide)

theorem found_of_selects (hread : ptr.read s.teams = .ok t) (ht : Live guid t)
    (hlive : ∀ n ∈ s.teams.nodes, Live guid n.team) (hfit : s.teams.nodes.length < 2 ^ 32)
    (h : Selects guid s ptr t) : Found guid s t := by
  have hindex : ∀ i (n : TeamNode), s.teams.nodes[i]? = some n → (UInt32.ofNat i).toNat = i ∧ i + 1 < 2 ^ 32 := by
    intro i n hn
    have hi := (List.getElem?_eq_some_iff.mp hn).1
    exact ⟨UInt32.toNat_ofNat_of_lt' (Nat.lt_trans hi hfit), by omega⟩
  rcases h with ⟨i, n, hfirst, r, hr, hret, -, hcur⟩ | ⟨hnone, hr⟩
  · obtain ⟨found, hfound, hr⟩ := bind_eq_ok.mp hr
    rcases findTeam_ok (k := 0) hread (fun _ => id) hfound with ⟨rfl, -⟩ | ⟨i', n', rfl, hn', htrue, hbefore⟩
    · cases hr
      have hlt := (List.getElem?_eq_some_iff.mp hcur).1
      exact absurd hret.symm (asInt_ne (Nat.lt_of_le_of_lt hlt hfit))
    · cases hr
      rw [Nat.zero_add] at hcur
      have hhere : s.teams.nodes[i']? = some n := by
        rw [← (hindex i' n' hn').1]
        exact hcur
      cases hn'.symm.trans hhere
      cases node_index hfirst.here hhere
      refine .inl ⟨i, n, hfirst, (Nat.lt_succ_self i).trans (hindex i n hhere).2, fun j hj m hm => ?_⟩
      have hm' := hlive m (List.mem_of_getElem? hm)
      rcases Nat.lt_or_eq_of_le hj with hj | rfl
      · exact told_of_false ht hm' (hbefore j hj m hm) (hfirst.first j hj m hm)
      · cases hfirst.here.symm.trans hm
        exact told_of_true ht hm' htrue hfirst.alike
  · obtain ⟨found, hfound, hr⟩ := bind_eq_ok.mp hr
    rcases findTeam_ok (k := 0) hread (fun _ => id) hfound with ⟨rfl, hall⟩ | ⟨i, n, rfl, hn, -, -⟩
    · exact .inr ⟨hnone, fun n hn => told_of_false ht (hlive n hn) (hall n hn) (hnone n hn)⟩
    · have hsquad := congrArg (fun x => x.curTeamIndex) (congrArg Returned.squad (Except.ok.inj hr))
      have hret : asInt s.curTeamIndex = -1 := congrArg Returned.ret (Except.ok.inj hr)
      rw [← show UInt32.ofNat (0 + i) = s.curTeamIndex from hsquad, Nat.zero_add] at hret
      obtain ⟨htoNat, hi⟩ := hindex i n hn
      exact absurd hret (asInt_ne (htoNat.symm ▸ hi))

end Swapping

/-- The comparison tells exactly the teams that are told. Over those it is an equivalence, and up
to those `swapToTeam` finds the first team like another. -/
theorem team_equality_iff (guid : Nat → Except Fault UInt64) :
    (∀ a b, Live guid a → Live guid b → (Tells guid a b ↔ Told guid a b)) ∧
    (∀ T : Set Team, (∀ a ∈ T, Live guid a) → (∀ a ∈ T, ∀ b ∈ T, Told guid a b) →
      Equivalence fun a b : T => Equal guid a b) ∧
    ∀ (s : Squad) (ptr : TeamPtr) (t : Team), ptr.read s.teams = .ok t → Live guid t →
      (∀ n ∈ s.teams.nodes, Live guid n.team) →
      (Found guid s t → Selects guid s ptr t) ∧
        (s.teams.nodes.length < 2 ^ 32 → Selects guid s ptr t → Found guid s t) := by
  refine ⟨fun a b => tells_iff, fun T hlive htold => ?_, fun s ptr t hread ht hlive => ?_⟩
  · exact equal_equivalence fun a ha b hb => (tells_iff (hlive a ha) (hlive b hb)).mpr (htold a ha b hb)
  · exact ⟨selects_of_found hread ht hlive, found_of_selects hread ht hlive⟩

/-- The team of one avatar, which all have the guid 7. -/
def single (ref : Nat) : Team where
  name := newTeam
  members := [some ref]

theorem single_live (ref : Nat) : Live (fun _ => .ok 7) (single ref) := by
  intro m hm
  cases List.mem_singleton.mp hm
  exact ⟨7, rfl⟩

/-- A player whose only team it is. -/
def oneTeam : Squad where
  teams := TeamList.empty.pushBack (single 0)
  curTeamIndex := 0

theorem single_told : Told (fun _ => .ok 7) (single 0) (single 0) := .inr (.inl rfl)

theorem oneTeam_found : Found (fun _ => .ok 7) oneTeam (single 0) := by
  refine .inl ⟨0, ⟨0, single 0⟩, ⟨rfl, ⟨rfl, rfl⟩, nofun⟩, by decide, fun j hj m hm => ?_⟩
  cases Nat.le_zero.mp hj
  cases hm
  exact single_told

theorem single_equality :
    Tells (fun _ => .ok 7) (single 0) (single 0) ∧
    (Equivalence fun a b : ({single 0} : Set Team) => Equal (fun _ => .ok 7) a b) ∧
    Selects (fun _ => .ok 7) oneTeam (.elsewhere (single 0)) (single 0) := by
  refine ⟨((team_equality_iff fun _ => .ok 7).1 _ _ (single_live 0) (single_live 0)).mpr single_told,
    (team_equality_iff fun _ => .ok 7).2.1 _ ?_ ?_,
    ((team_equality_iff fun _ => .ok 7).2.2 _ _ _ rfl (single_live 0) ?_).1 oneTeam_found⟩
  · intro a ha
    rw [Set.mem_singleton_iff.mp ha]
    exact single_live 0
  · intro a ha b hb
    rw [Set.mem_singleton_iff.mp ha, Set.mem_singleton_iff.mp hb]
    exact single_told
  · intro n hn
    rw [List.mem_singleton.mp hn]
    exact single_live 0

/-- Two teams of one member with one guid, in two objects, compare unequal. -/
theorem copies_differ : ¬ ∀ (guid : Nat → Except Fault UInt64) a b, Live guid a → Live guid b →
    Tells guid a b := by
  intro h
  obtain ⟨equal, hequal, halike⟩ := h _ _ _ (single_live 0) (single_live 1)
  have hfalse : Except.ok false = (Except.ok equal : Except Fault Bool) := hequal
  cases hfalse
  exact absurd (halike.mpr ⟨rfl, rfl⟩) Bool.false_ne_true

end Yagips.Game.TeamEquality
