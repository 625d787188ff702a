import Yagips.Game.References

/-!
# The current team

The teams are the nodes of a list, and the current one is known by its position. Deleting a team
moves those behind it to the front and leaves the position as it is.
-/
namespace Yagips.Game.CurrentTeam

open Yagips.Lib
open Yagips.Lib.Run
open Yagips.Game.References (Team)

/-! ## Teams in a list -/

structure TeamNode where
  ref : Nat
  team : Team

/-- The list of teams, with the number of the node that is allocated next. -/
structure TeamList where
  nodes : List TeamNode
  fresh : Nat
  below : ∀ n ∈ nodes, n.ref < fresh
  ordered : nodes.Pairwise (·.ref < ·.ref)

def TeamList.empty : TeamList where
  nodes := []
  fresh := 0
  below := nofun
  ordered := List.Pairwise.nil

def TeamList.pushBack (l : TeamList) (team : Team) : TeamList where
  nodes := l.nodes ++ [{ ref := l.fresh, team }]
  fresh := l.fresh + 1
  below := by
    intro n hn
    rcases List.mem_append.mp hn with hn | hn
    · exact Nat.lt_succ_of_lt (l.below n hn)
    · rw [List.mem_singleton.mp hn]
      exact Nat.lt_succ_self _
  ordered := by
    refine List.pairwise_append.mpr ⟨l.ordered, List.pairwise_singleton _ _, fun n hn m hm => ?_⟩
    rw [List.mem_singleton.mp hm]
    exact l.below n hn

def TeamList.erase (l : TeamList) (idx : Nat) : TeamList where
  nodes := l.nodes.eraseIdx idx
  fresh := l.fresh
  below := fun n hn => l.below n (List.mem_of_mem_eraseIdx hn)
  ordered := l.ordered.sublist (List.eraseIdx_sublist _ _)

/-- A node behind another is another node. -/
theorem TeamList.ref_lt (l : TeamList) {i j : Nat} (hij : i < j) {n m : TeamNode}
    (hn : l.nodes[i]? = some n) (hm : l.nodes[j]? = some m) : n.ref < m.ref := by
  obtain ⟨hi, rfl⟩ := List.getElem?_eq_some_iff.mp hn
  obtain ⟨hj, rfl⟩ := List.getElem?_eq_some_iff.mp hm
  exact List.pairwise_iff_getElem.mp l.ordered i j hi hj hij

/-! ## Comparing teams -/

/-- A pointer to a team: null, to a node of the list or one that was erased, or to a team elsewhere. -/
inductive TeamPtr where
  | null
  | node (ref : Nat)
  | elsewhere (team : Team)

def TeamPtr.isNode (ptr : TeamPtr) (n : TeamNode) : Bool :=
  match ptr with
  | .node ref => ref = n.ref
  | _ => false

def TeamPtr.read (ptr : TeamPtr) (l : TeamList) : Except Fault Team :=
  match ptr with
  | .null => .error .pointer
  | .elsewhere team => .ok team
  | .node ref =>
    match l.nodes.find? (·.ref = ref) with
    | some n => .ok n.team
    | none => .error .pointer

section Calls

variable (guid : Nat → Except Fault UInt64)

/-- The guid behind a pointer to an avatar, which may be null or dangle. -/
def getGuid (m : Option Nat) : Except Fault UInt64 :=
  match m with
  | none => .error .pointer
  | some ref => guid ref

/-- The loop of `operator ==`, with what is left of the two lists. It advances in the first list
twice in a pass, and looks for its end only after the first time. -/
def equalLoop : List (Option Nat) → List (Option Nat) → Except Fault Bool
  | i :: is, j :: js => do
    if (← getGuid guid i) ≠ (← getGuid guid j) then return false
    else match is with
      | [] => return (j :: js).isEmpty
      | _ :: is => equalLoop is js
  | _, _ => .error .pointer

/-- `AvatarTeam::operator ==`. -/
def teamEqual (a b : Team) : Except Fault Bool :=
  if a.name ≠ b.name then return false
  else if a.members = b.members then return true
  else if a.members.length ≠ b.members.length then return false
  else equalLoop guid a.members b.members

/-! ## Players -/

structure Squad where
  teams : TeamList
  curTeamIndex : UInt32

def Squad.fresh : Squad where
  teams := .empty
  curTeamIndex := 0

def getAvatarTeam (s : Squad) (i : UInt32) : Option TeamNode := s.teams.nodes[i.toNat]?

def getCurAvatarTeam (s : Squad) : Option TeamNode := getAvatarTeam s s.curTeamIndex

/-- The loop of `swapToTeam(const AvatarTeam*)`. -/
def findTeam (l : TeamList) (ptr : TeamPtr) : UInt32 → List TeamNode → Except Fault (Option UInt32)
  | _, [] => return none
  | i, n :: rest =>
    if ptr.isNode n then return some i
    else do
      if ← teamEqual guid (← ptr.read l) n.team then return some i
      else findTeam l ptr (i + 1) rest

/-- What a call leaves and returns. -/
structure Returned where
  squad : Squad
  ret : Int

/-- An index returned as an `int`. -/
def asInt (i : UInt32) : Int := i.toInt32.toInt

def swapToTeamLike (s : Squad) (ptr : TeamPtr) : Except Fault Returned := do
  match ← findTeam guid s.teams ptr 0 s.teams.nodes with
  | some i => return { squad := { s with curTeamIndex := i }, ret := asInt s.curTeamIndex }
  | none => return { squad := s, ret := -1 }

def swapToTeam (s : Squad) (i : UInt32) : Returned :=
  if s.teams.nodes.length ≤ i.toNat then { squad := s, ret := -1 }
  else { squad := { s with curTeamIndex := i }, ret := asInt s.curTeamIndex }

def pushTeam (s : Squad) (team : Team) : Returned where
  squad := { s with teams := s.teams.pushBack team }
  ret := 0

def delAvatarTeam (s : Squad) (idx : UInt32) : Returned where
  squad := { s with teams := s.teams.erase idx.toNat }
  ret := if idx.toNat < s.teams.nodes.length then 0 else -1

/-- The text "New Team". -/
def newTeam : Bytes := [0x4e, 0x65, 0x77, 0x20, 0x54, 0x65, 0x61, 0x6d]

/-- The calls. A null pointer to a team to add is `none`. -/
inductive Call where
  | addAvatarTeam
  | addAvatarTeamNamed (name : Bytes)
  | addAvatarTeamCopy (team : Option Team)
  | addAvatarTeamOf (name : Bytes) (avatars : List (Option Nat))
  | delAvatarTeam (idx : UInt32)
  | swapToTeam (i : UInt32)
  | swapToTeamLike (ptr : TeamPtr)

def answer (s : Squad) : Call → Except Fault Returned
  | .addAvatarTeam => return pushTeam s { name := newTeam, members := [] }
  | .addAvatarTeamNamed name => return pushTeam s { name, members := [] }
  | .addAvatarTeamCopy none => return { squad := s, ret := -1 }
  | .addAvatarTeamCopy (some team) => return pushTeam s team
  | .addAvatarTeamOf name members => return pushTeam s { name, members }
  | .delAvatarTeam idx => return delAvatarTeam s idx
  | .swapToTeam i => return swapToTeam s i
  | .swapToTeamLike ptr => swapToTeamLike guid s ptr

def step (s : Squad) (call : Call) : Except Fault Squad := (answer guid s call).map (·.squad)

end Calls

/-! ## What is asked of the current team -/

/-- While there are teams, the position is one of theirs, and its team is there. -/
def Valid (s : Squad) : Prop :=
  s.teams.nodes ≠ [] → s.curTeamIndex.toNat < s.teams.nodes.length ∧ (getCurAvatarTeam s).isSome

/-- A successful call that deletes another team leaves the current one. -/
def KeepsCurrent (s : Squad) (call : Call) (s' : Squad) : Prop :=
  ∀ idx, call = .delAvatarTeam idx → (delAvatarTeam s idx).ret = 0 → idx ≠ s.curTeamIndex →
    (getCurAvatarTeam s').map (·.ref) = (getCurAvatarTeam s).map (·.ref)

def StaysCurrent (guid : Nat → Except Fault UInt64) (s : Squad) (call : Call) : Prop :=
  ∀ s', step guid s call = .ok s' → Valid s' ∧ KeepsCurrent s call s'

/-- A team that is deleted is behind the current one, or is the current one and another is behind it,
or is the only one. -/
def Behind (s : Squad) : Call → Prop
  | .delAvatarTeam idx => idx.toNat < s.teams.nodes.length →
      s.curTeamIndex < idx ∨
        (idx = s.curTeamIndex ∧
          (idx.toNat + 1 < s.teams.nodes.length ∨ s.teams.nodes.length = 1))
  | _ => True

/-! ## Steps -/

theorem valid_iff {s : Squad} :
    Valid s ↔ (s.teams.nodes ≠ [] → s.curTeamIndex.toNat < s.teams.nodes.length) := by
  refine forall_congr' fun _ => and_iff_left_of_imp fun hlt => ?_
  rw [getCurAvatarTeam, getAvatarTeam, List.getElem?_eq_getElem hlt]
  rfl

/-- A player whose current team is valid, and is the first while there is none. -/
structure Settled (s : Squad) : Prop where
  valid : Valid s
  first : s.teams.nodes = [] → s.curTeamIndex = 0

theorem Settled.le {s : Squad} (h : Settled s) : s.curTeamIndex.toNat < s.teams.nodes.length ∨
    (s.teams.nodes = [] ∧ s.curTeamIndex = 0) := by
  by_cases hnil : s.teams.nodes = []
  · exact Or.inr ⟨hnil, h.first hnil⟩
  · exact Or.inl (valid_iff.mp h.valid hnil)

theorem settled_push {s : Squad} (h : Settled s) (team : Team) : Settled (pushTeam s team).squad := by
  constructor
  · refine valid_iff.mpr fun _ => ?_
    change s.curTeamIndex.toNat < (s.teams.nodes ++ [_]).length
    rw [List.length_append, List.length_singleton]
    rcases h.le with hlt | ⟨_, hzero⟩
    · omega
    · rw [hzero]
      exact Nat.succ_pos _
  · intro hnil
    cases List.append_eq_nil_iff.mp hnil |>.2

theorem settled_swap {s : Squad} (h : Settled s) (i : UInt32) : Settled (swapToTeam s i).squad := by
  unfold swapToTeam
  split
  · exact h
  case isFalse hi =>
    refine ⟨valid_iff.mpr fun _ => Nat.not_le.mp hi, fun hnil => ?_⟩
    change s.teams.nodes = [] at hnil
    rw [hnil] at hi
    exact absurd (Nat.zero_le _) hi

/-- What is found is the position of one of the teams. -/
theorem findTeam_some {guid : Nat → Except Fault UInt64} {l : TeamList} {ptr : TeamPtr}
    {nodes : List TeamNode} {k : Nat} {i : UInt32}
    (h : findTeam guid l ptr (UInt32.ofNat k) nodes = .ok (some i)) : i.toNat < k + nodes.length := by
  induction nodes generalizing k with
  | nil => cases h
  | cons n rest ih =>
    have hhere : (UInt32.ofNat k).toNat < k + (n :: rest).length := by
      rw [UInt32.toNat_ofNat', List.length_cons]
      have hle := Nat.mod_le k (2 ^ 32)
      omega
    rw [findTeam] at h
    split at h
    · cases h
      exact hhere
    · obtain ⟨team, -, h⟩ := bind_eq_ok.mp h
      obtain ⟨equal, -, h⟩ := bind_eq_ok.mp h
      split at h
      · cases h
        exact hhere
      · have hnext : UInt32.ofNat k + 1 = UInt32.ofNat (k + 1) := by
          rw [UInt32.ofNat_add]
          rfl
        rw [hnext] at h
        have hrest := ih h
        rw [List.length_cons]
        omega

theorem settled_swapLike {guid : Nat → Except Fault UInt64} {s : Squad} {ptr : TeamPtr}
    {r : Returned} (h : Settled s) (hcall : swapToTeamLike guid s ptr = .ok r) : Settled r.squad := by
  obtain ⟨found, hfound, hcall⟩ := bind_eq_ok.mp hcall
  cases found with
  | none =>
    cases hcall
    exact h
  | some i =>
    cases hcall
    have hlt := findTeam_some (k := 0) hfound
    rw [Nat.zero_add] at hlt
    refine ⟨valid_iff.mpr fun _ => hlt, fun hnil => ?_⟩
    change s.teams.nodes = [] at hnil
    rw [hnil] at hlt
    exact absurd hlt (Nat.not_lt_zero _)

/-! ## Deleting -/

section

variable {s : Squad} {idx : UInt32}

theorem del_length (hidx : idx.toNat < s.teams.nodes.length) :
    (delAvatarTeam s idx).squad.teams.nodes.length + 1 = s.teams.nodes.length := by
  change (s.teams.nodes.eraseIdx idx.toNat).length + 1 = _
  rw [List.length_eraseIdx_of_lt hidx]
  omega

theorem settled_del (h : Settled s) (hvalid : Valid (delAvatarTeam s idx).squad) :
    Settled (delAvatarTeam s idx).squad := by
  refine ⟨hvalid, fun hnil => ?_⟩
  change s.curTeamIndex = 0
  rcases h.le with hlt | ⟨_, hzero⟩
  · by_cases hidx : idx.toNat < s.teams.nodes.length
    · have hlen := del_length hidx
      rw [hnil, List.length_nil] at hlen
      exact UInt32.toNat_inj.mp (show s.curTeamIndex.toNat = 0 by omega)
    · change s.teams.nodes.eraseIdx idx.toNat = [] at hnil
      rw [List.eraseIdx_of_length_le (Nat.not_lt.mp hidx)] at hnil
      exact h.first hnil
  · exact hzero

/-- A team in front of the current one takes the current one's place away. -/
theorem front_lost (hcur : s.curTeamIndex.toNat < s.teams.nodes.length)
    (hidx : idx < s.curTeamIndex) :
    (getCurAvatarTeam (delAvatarTeam s idx).squad).map (·.ref) ≠
      (getCurAvatarTeam s).map (·.ref) := by
  have hle : idx.toNat ≤ s.curTeamIndex.toNat := (UInt32.lt_iff_toNat_lt.mp hidx).le
  have hnext : getCurAvatarTeam (delAvatarTeam s idx).squad =
      s.teams.nodes[s.curTeamIndex.toNat + 1]? := List.getElem?_eraseIdx_of_ge hle
  have hhere : getCurAvatarTeam s = some s.teams.nodes[s.curTeamIndex.toNat] :=
    List.getElem?_eq_getElem hcur
  rw [hnext, hhere, Option.map_some]
  intro heq
  obtain ⟨m, hm, href⟩ := Option.map_eq_some_iff.mp heq
  have hlt := s.teams.ref_lt (Nat.lt_succ_self _) hhere hm
  omega

/-- A team behind the current one is not in its way. -/
theorem behind_kept (hidx : s.curTeamIndex < idx) :
    getCurAvatarTeam (delAvatarTeam s idx).squad = getCurAvatarTeam s :=
  List.getElem?_eraseIdx_of_lt (UInt32.lt_iff_toNat_lt.mp hidx)

/-- What the deletion of a team is to leave. -/
def DeletesWell (s : Squad) (idx : UInt32) : Prop :=
  Valid (delAvatarTeam s idx).squad ∧
    ((delAvatarTeam s idx).ret = 0 → idx ≠ s.curTeamIndex →
      (getCurAvatarTeam (delAvatarTeam s idx).squad).map (·.ref) = (getCurAvatarTeam s).map (·.ref))

theorem del_outside (h : Settled s) (hidx : ¬ idx.toNat < s.teams.nodes.length) : DeletesWell s idx := by
  have hkept : (delAvatarTeam s idx).squad.teams.nodes = s.teams.nodes :=
    List.eraseIdx_of_length_le (Nat.not_lt.mp hidx)
  have hret : (delAvatarTeam s idx).ret = -1 := if_neg hidx
  refine ⟨valid_iff.mpr fun hne => ?_, fun h0 => ?_⟩
  · rw [hkept] at hne ⊢
    exact valid_iff.mp h.valid hne
  · rw [hret] at h0
    cases h0

theorem del_valid_iff : Valid (delAvatarTeam s idx).squad ↔
    ((delAvatarTeam s idx).squad.teams.nodes.length ≠ 0 →
      s.curTeamIndex.toNat < (delAvatarTeam s idx).squad.teams.nodes.length) := by
  rw [valid_iff, ← List.length_pos_iff, Nat.pos_iff_ne_zero]
  rfl

theorem del_front (hcur : s.curTeamIndex.toNat < s.teams.nodes.length) (hidx : idx < s.curTeamIndex) :
    ¬ DeletesWell s idx := by
  have hlt : idx.toNat < s.curTeamIndex.toNat := UInt32.lt_iff_toNat_lt.mp hidx
  have hret : (delAvatarTeam s idx).ret = 0 := if_pos (hlt.trans hcur)
  have hne : idx ≠ s.curTeamIndex := fun he => absurd (he ▸ hlt) (lt_irrefl _)
  intro ⟨_, hkeep⟩
  exact front_lost hcur hidx (hkeep hret hne)

theorem del_current_iff (hcur : s.curTeamIndex.toNat < s.teams.nodes.length) :
    DeletesWell s s.curTeamIndex ↔
      (s.curTeamIndex.toNat + 1 < s.teams.nodes.length ∨ s.teams.nodes.length = 1) := by
  have hlen := del_length hcur
  rw [DeletesWell, del_valid_iff]
  constructor
  · intro ⟨hv, _⟩
    omega
  · intro hb
    exact ⟨fun hne => by omega, fun _ hne => absurd rfl hne⟩

theorem del_behind (hidx : idx.toNat < s.teams.nodes.length) (hback : s.curTeamIndex < idx) :
    DeletesWell s idx := by
  have hlen := del_length hidx
  have hlt : s.curTeamIndex.toNat < idx.toNat := UInt32.lt_iff_toNat_lt.mp hback
  refine ⟨del_valid_iff.mpr fun _ => by omega, fun _ _ => ?_⟩
  rw [behind_kept hback]

theorem del_iff (h : Settled s) : DeletesWell s idx ↔ Behind s (.delAvatarTeam idx) := by
  by_cases hidx : idx.toNat < s.teams.nodes.length
  swap
  · exact iff_of_true (del_outside h hidx) fun hin => absurd hin hidx
  have hcur : s.curTeamIndex.toNat < s.teams.nodes.length := by
    refine valid_iff.mp h.valid fun hnil => ?_
    rw [hnil] at hidx
    exact Nat.not_lt_zero _ hidx
  have hbehind : Behind s (.delAvatarTeam idx) ↔ (s.curTeamIndex < idx ∨
      (idx = s.curTeamIndex ∧ (idx.toNat + 1 < s.teams.nodes.length ∨ s.teams.nodes.length = 1))) :=
    ⟨fun hb => hb hidx, fun hb _ => hb⟩
  rw [hbehind]
  rcases lt_trichotomy idx.toNat s.curTeamIndex.toNat with hlt | heq | hgt
  · refine iff_of_false (del_front hcur (UInt32.lt_iff_toNat_lt.mpr hlt)) fun hb => ?_
    rcases hb with hb | ⟨rfl, _⟩
    · exact absurd (UInt32.lt_iff_toNat_lt.mp hb) (by omega)
    · exact lt_irrefl _ hlt
  · have he : idx = s.curTeamIndex := UInt32.toNat_inj.mp heq
    rw [he, del_current_iff hcur]
    constructor
    · intro hb
      exact Or.inr ⟨rfl, hb⟩
    · intro hb
      rcases hb with hb | ⟨_, hb⟩
      · exact absurd (UInt32.lt_iff_toNat_lt.mp hb) (lt_irrefl _)
      · exact hb
  · have hback : s.curTeamIndex < idx := UInt32.lt_iff_toNat_lt.mpr hgt
    exact iff_of_true (del_behind hidx hback) (Or.inl hback)

end

/-! ## Runs -/

theorem step_cases {guid : Nat → Except Fault UInt64} {s s' : Squad} {call : Call}
    (h : step guid s call = .ok s') :
    (∃ idx, call = .delAvatarTeam idx ∧ s' = (delAvatarTeam s idx).squad) ∨
      ((∀ idx, call ≠ .delAvatarTeam idx) ∧ (Settled s → Settled s')) := by
  obtain ⟨r, hr, rfl⟩ := map_eq_ok.mp h
  cases call with
  | delAvatarTeam idx =>
    cases hr
    exact Or.inl ⟨idx, rfl, rfl⟩
  | addAvatarTeamCopy team =>
    refine Or.inr ⟨nofun, fun hs => ?_⟩
    cases team with
    | none =>
      cases hr
      exact hs
    | some team =>
      cases hr
      exact settled_push hs team
  | swapToTeam i =>
    cases hr
    exact Or.inr ⟨nofun, fun hs => settled_swap hs i⟩
  | swapToTeamLike ptr => exact Or.inr ⟨nofun, fun hs => settled_swapLike hs hr⟩
  | addAvatarTeam =>
    cases hr
    exact Or.inr ⟨nofun, fun hs => settled_push hs _⟩
  | addAvatarTeamNamed name =>
    cases hr
    exact Or.inr ⟨nofun, fun hs => settled_push hs _⟩
  | addAvatarTeamOf name avatars =>
    cases hr
    exact Or.inr ⟨nofun, fun hs => settled_push hs _⟩

theorem staysCurrent_iff (guid : Nat → Except Fault UInt64) {s : Squad} (hs : Settled s) (call : Call) :
    StaysCurrent guid s call ↔ Behind s call := by
  constructor
  · intro h
    cases call with
    | delAvatarTeam idx =>
      obtain ⟨hvalid, hkeep⟩ := h _ rfl
      exact (del_iff hs).mp ⟨hvalid, hkeep idx rfl⟩
    | _ => trivial
  · intro h s' hstep
    rcases step_cases hstep with ⟨idx, rfl, rfl⟩ | ⟨hother, hsettled⟩
    · obtain ⟨hvalid, hkeep⟩ := (del_iff hs).mpr h
      refine ⟨hvalid, fun i hi => ?_⟩
      cases hi
      exact hkeep
    · exact ⟨(hsettled hs).valid, fun idx hidx => absurd hidx (hother idx)⟩

theorem settled_keeps {guid : Nat → Except Fault UInt64} {s s' : Squad} {call : Call}
    (hs : Settled s) (hstays : StaysCurrent guid s call) (hstep : step guid s call = .ok s') :
    Settled s' := by
  obtain ⟨hvalid, -⟩ := hstays s' hstep
  rcases step_cases hstep with ⟨idx, rfl, rfl⟩ | ⟨-, hsettled⟩
  · exact settled_del hs hvalid
  · exact hsettled hs

/-- The current team of a new player stays valid, and deletions of others leave it, over a run
exactly where every deletion in it is of a team behind the current one, or of the current one with
another behind it or none beside it. -/
theorem current_team_iff (guid : Nat → Except Fault UInt64) (calls : List Call) :
    Along (step guid) (StaysCurrent guid) Squad.fresh calls ↔
      Along (step guid) Behind Squad.fresh calls := by
  have hfresh : Settled Squad.fresh := ⟨fun h => absurd rfl h, fun _ => rfl⟩
  exact along_congr Settled (fun _ _ _ hs hc => settled_keeps hs hc)
    (fun _ call hs => staysCurrent_iff guid hs call) hfresh

/-- The first of two teams is deleted while the second is the current one. -/
theorem second_team_lost : ¬ Along (step fun _ => .ok 0) (StaysCurrent fun _ => .ok 0) Squad.fresh
    [.addAvatarTeam, .addAvatarTeam, .swapToTeam 1, .delAvatarTeam 0] := by
  intro h
  have hrun : Along (step fun _ => .ok 0) (StaysCurrent fun _ => .ok 0) Squad.fresh
      ([.addAvatarTeam, .addAvatarTeam, .swapToTeam 1] ++ .delAvatarTeam 0 :: []) := h
  obtain ⟨hvalid, -⟩ := along_at hrun rfl _ rfl
  exact absurd (hvalid (by decide)).1 (by decide)

end Yagips.Game.CurrentTeam
