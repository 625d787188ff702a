import Yagips.Game.Holdings
import Yagips.Game.Teams

/-!
# References to the avatars of a player

The current avatar and the members of the teams point to nodes of the player's avatar list. A node
is known by a number that no other node ever has, and what is read through a pointer to an erased
node is whatever is found there. Erasing an avatar leaves the pointers to it.
-/
namespace Yagips.Game.References

open Yagips.Lib
open Yagips.Lib.Run
open Yagips.Store.Inventory
open Yagips.Game.Players
open Yagips.Game.Holdings

/-! ## The avatar list -/

structure Node where
  ref : Nat
  avatar : Holding

/-- A `std::list`, with the number of the node that is allocated next. -/
structure AvatarList where
  nodes : List Node
  fresh : Nat
  below : ∀ n ∈ nodes, n.ref < fresh
  distinct : (nodes.map (·.ref)).Nodup

def AvatarList.empty : AvatarList where
  nodes := []
  fresh := 0
  below := nofun
  distinct := List.nodup_nil

def AvatarList.pushBack (l : AvatarList) (a : Holding) : AvatarList where
  nodes := l.nodes ++ [{ ref := l.fresh, avatar := a }]
  fresh := l.fresh + 1
  below := by
    intro n hn
    rcases List.mem_append.mp hn with hn | hn
    · exact Nat.lt_succ_of_lt (l.below n hn)
    · rw [List.mem_singleton.mp hn]
      exact Nat.lt_succ_self _
  distinct := by
    rw [List.map_append, List.map_singleton, ← List.concat_eq_append, List.nodup_concat]
    refine ⟨fun hmem => ?_, l.distinct⟩
    obtain ⟨n, hn, href⟩ := List.mem_map.mp hmem
    exact absurd (l.below n hn) (by rw [href]; exact Nat.lt_irrefl _)

/-- The first node that passes a test is assigned an avatar. -/
def assignFirst (test : Holding → Bool) (a : Holding) : List Node → List Node
  | [] => []
  | n :: rest => if test n.avatar then { n with avatar := a } :: rest else n :: assignFirst test a rest

theorem assignFirst_refs (test : Holding → Bool) (a : Holding) (nodes : List Node) :
    (assignFirst test a nodes).map (·.ref) = nodes.map (·.ref) := by
  induction nodes with
  | nil => rfl
  | cons n nodes ih =>
    rw [assignFirst]
    split
    · rfl
    · rw [List.map_cons, ih, List.map_cons]

def AvatarList.assign (l : AvatarList) (test : Holding → Bool) (a : Holding) : AvatarList where
  nodes := assignFirst test a l.nodes
  fresh := l.fresh
  below := by
    intro n hn
    have hmem : n.ref ∈ (assignFirst test a l.nodes).map (·.ref) := List.mem_map_of_mem hn
    rw [assignFirst_refs] at hmem
    obtain ⟨n', hn', href⟩ := List.mem_map.mp hmem
    rw [← href]
    exact l.below n' hn'
  distinct := by
    rw [assignFirst_refs]
    exact l.distinct

def AvatarList.find (l : AvatarList) (test : Holding → Bool) : Option Node :=
  l.nodes.find? fun n => test n.avatar

/-- The first node that passes a test is erased. -/
def AvatarList.erase (l : AvatarList) (test : Holding → Bool) : AvatarList where
  nodes := l.nodes.eraseP fun n => test n.avatar
  fresh := l.fresh
  below := fun n hn => l.below n (List.mem_of_mem_eraseP hn)
  distinct := l.distinct.sublist (List.eraseP_sublist.map _)

/-! ## Players -/

structure Team where
  name : Bytes
  members : List (Option Nat)

structure Roster where
  uid : UInt32
  nextGuid : UInt32
  avatars : AvatarList
  teams : List Team
  curTeamIndex : UInt32
  curAvatar : Option Nat

/-- `Player::Player()`, given the id `setUid` sets. -/
def Roster.fresh (uid : UInt32) : Roster where
  uid := uid
  nextGuid := 1
  avatars := .empty
  teams := []
  curTeamIndex := 0
  curAvatar := none

/-- The tests of the lookups. -/
def underId (id : UInt32) (a : Holding) : Bool := id = a.id

def underGuid (guid : UInt64) (a : Holding) : Bool := guid = a.guid

/-- The avatar as `addAvatar(Avatar&)` adds it. -/
def withGuid (uid nextGuid : UInt32) (a : Holding) : Holding :=
  let guid := if lowHalf a.guid = 0 then nextGuid.toUInt64 else a.guid
  { a with guid := if highHalf guid = 0 then ofHalves uid (lowHalf guid) else guid }

theorem withGuid_added (p : Player) (a : Holding) :
    (Player.addAvatar p a).avatars = p.avatars ++ [withGuid p.uid p.nextGuid a] := rfl

/-- What a pointer to an avatar reads as its guid. -/
def guidAt (junk : Nat → UInt64) (l : AvatarList) (ref : Nat) : UInt64 :=
  match l.nodes.find? (·.ref = ref) with
  | some n => n.avatar.guid
  | none => junk ref

/-- How an avatar is named in a call. -/
inductive Name where
  | byId (id : UInt32)
  | byGuid (guid : UInt64)

def Name.test : Name → Holding → Bool
  | .byId id => underId id
  | .byGuid guid => underGuid guid

/-- The calls. A null pointer is `none`. A call for a team is for that at an index, or the current
one; one that removes from a team goes on or not at what the link of the erased node reads as. -/
inductive Call where
  | addAvatar (a : Option Holding)
  | addConstAvatar (a : Option Holding)
  | addNewAvatar (out : Bool)
  | setAvatar (guid : UInt64) (a : Holding)
  | setConstAvatar (guid : UInt64) (a : Holding)
  | updateAvatar (a : Holding)
  | delAvatar (name : Name)
  | delAvatarLike (a : Option Holding)
  | swapToAvatar (name : Name)
  | addAvatarTeam (name : Bytes) (members : List (Option Nat))
  | delAvatarTeam (idx : Nat)
  | swapToTeam (i : UInt32)
  | addAvatarToTeam (name : Name) (team : Option Nat) (intact : Bool)
  | removeAvatarFromTeam (name : Name) (team : Option Nat) (intact : Bool)

variable (junk : Nat → UInt64)

/-- A loop over the members of a team, if there is one at the index. -/
def onTeam (s : Roster) (team : Option Nat) (intact : Bool)
    (f : List (Option Nat) → Teams.Walked Nat) : Except Fault Roster :=
  let i := team.getD s.curTeamIndex.toNat
  match s.teams[i]? with
  | none => return s
  | some t =>
    let walked := f t.members
    if walked.stale && !intact then .error .pointer
    else return { s with teams := s.teams.set i { t with members := walked.avatars } }

def set (s : Roster) (guid : UInt64) (a : Holding) : Roster :=
  match s.avatars.find (underGuid guid) with
  | some _ => { s with avatars := s.avatars.assign (underGuid guid) a }
  | none => { s with avatars := s.avatars.pushBack a }

def step (s : Roster) : Call → Except Fault Roster
  | .addAvatar none => return s
  | .addAvatar (some a) =>
    return { s with
      avatars := s.avatars.pushBack (withGuid s.uid s.nextGuid a)
      nextGuid := if lowHalf a.guid = 0 then s.nextGuid + 1 else s.nextGuid }
  | .addConstAvatar none => return s
  | .addConstAvatar (some a) => return { s with avatars := s.avatars.pushBack a }
  -- the end of the list is read like a node
  | .addNewAvatar out => if out then .error .pointer else return s
  | .setAvatar guid a => return set s guid { a with guid }
  | .setConstAvatar guid a => if a.guid ≠ guid then return s else return set s guid a
  | .updateAvatar a => return { s with avatars := s.avatars.assign (underGuid a.guid) a }
  | .delAvatar name => return { s with avatars := s.avatars.erase name.test }
  | .delAvatarLike none => return s
  | .delAvatarLike (some a) => return { s with avatars := s.avatars.erase (underGuid a.guid) }
  | .swapToAvatar name =>
    match s.avatars.find name.test with
    | none => return s
    | some n => return { s with curAvatar := some n.ref }
  | .addAvatarTeam name members => return { s with teams := s.teams ++ [{ name, members }] }
  | .delAvatarTeam idx => return { s with teams := s.teams.eraseIdx idx }
  | .swapToTeam i => if s.teams.length ≤ i.toNat then return s else return { s with curTeamIndex := i }
  | .addAvatarToTeam name team intact =>
    onTeam s team intact
      (Teams.addAvatar (guidAt junk s.avatars) ((s.avatars.find name.test).map (·.ref)))
  | .removeAvatarFromTeam name team intact =>
    onTeam s team intact
      (Teams.delAvatar (guidAt junk s.avatars) ((s.avatars.find name.test).map (·.ref)))

/-! ## What is asked of the references -/

def Live (s : Roster) (ref : Nat) : Prop := ∃ n ∈ s.avatars.nodes, n.ref = ref

/-- The current avatar, if it is set, and every member of every team is in the list. -/
structure Sound (s : Roster) : Prop where
  current : ∀ ref ∈ s.curAvatar, Live s ref
  members : ∀ team ∈ s.teams, ∀ m ∈ team.members, ∃ ref, m = some ref ∧ Live s ref

/-- Something points to a node. -/
def Referenced (s : Roster) (ref : Nat) : Prop :=
  s.curAvatar = some ref ∨ ∃ team ∈ s.teams, some ref ∈ team.members

/-- No node that something points to is erased by a test. -/
def Spared (s : Roster) (test : Holding → Bool) : Prop :=
  ∀ n ∈ s.avatars.find test, ¬ Referenced s n.ref

/-- A call that erases no avatar something points to, and gives a new team members of the list. -/
def Spares (s : Roster) : Call → Prop
  | .delAvatar name => Spared s name.test
  | .delAvatarLike (some a) => Spared s (underGuid a.guid)
  | .addAvatarTeam _ members => ∀ m ∈ members, ∃ ref, m = some ref ∧ Live s ref
  | _ => True

/-! ## What a call leaves of the nodes -/

theorem live_pushBack {s t : Roster} {a : Holding} (h : t.avatars = s.avatars.pushBack a) {ref : Nat}
    (hlive : Live s ref) : Live t ref := by
  obtain ⟨n, hn, href⟩ := hlive
  refine ⟨n, ?_, href⟩
  rw [h]
  exact List.mem_append_left _ hn

theorem live_assign {s t : Roster} {test : Holding → Bool} {a : Holding}
    (h : t.avatars = s.avatars.assign test a) {ref : Nat} (hlive : Live s ref) : Live t ref := by
  obtain ⟨n, hn, href⟩ := hlive
  have hmem : ref ∈ (assignFirst test a s.avatars.nodes).map (·.ref) := by
    rw [assignFirst_refs, ← href]
    exact List.mem_map_of_mem hn
  obtain ⟨n', hn', href'⟩ := List.mem_map.mp hmem
  refine ⟨n', ?_, href'⟩
  rw [h]
  exact hn'

/-- Erasing takes the first node that passes, and only that. -/
theorem live_erase {s t : Roster} {test : Holding → Bool} (h : t.avatars = s.avatars.erase test)
    (ref : Nat) : Live t ref ↔ Live s ref ∧ ∀ n ∈ s.avatars.find test, n.ref ≠ ref := by
  unfold Live
  rw [h]
  have hdistinct := s.avatars.distinct
  show (∃ n ∈ s.avatars.nodes.eraseP _, _) ↔ _ ∧ ∀ n ∈ s.avatars.nodes.find? _, _
  generalize s.avatars.nodes = nodes at hdistinct
  induction nodes with
  | nil => simp
  | cons n nodes ih =>
    obtain ⟨hnew, hrest⟩ := List.nodup_cons.mp hdistinct
    cases htest : test n.avatar with
    | true =>
      rw [List.eraseP_cons_of_pos (by exact htest), List.find?_cons_of_pos (by exact htest)]
      constructor
      · rintro ⟨x, hx, rfl⟩
        refine ⟨⟨x, List.mem_cons_of_mem _ hx, rfl⟩, fun y hy heq => ?_⟩
        cases hy
        exact hnew (List.mem_map.mpr ⟨x, hx, heq.symm⟩)
      · rintro ⟨⟨x, hx, rfl⟩, hne⟩
        rcases List.mem_cons.mp hx with rfl | hx
        · exact absurd rfl (hne x rfl)
        · exact ⟨x, hx, rfl⟩
    | false =>
      have hneg : ¬ test n.avatar = true := by simp [htest]
      rw [List.eraseP_cons_of_neg (by exact hneg), List.find?_cons_of_neg (by exact hneg)]
      simp only [List.mem_cons, exists_eq_or_imp, ih hrest]
      have hother : n.ref = ref → ∀ m ∈ nodes.find? fun n => test n.avatar, m.ref ≠ ref := by
        intro hn m hm heq
        exact hnew (List.mem_map.mpr ⟨m, List.mem_of_find?_eq_some hm, heq.trans hn.symm⟩)
      constructor
      · rintro (hn | ⟨hlive, hne⟩)
        · exact ⟨.inl hn, hother hn⟩
        · exact ⟨.inr hlive, hne⟩
      · rintro ⟨hn | hlive, hne⟩
        · exact .inl hn
        · exact .inr ⟨hlive, hne⟩

/-- A state with the same list, the same current avatar, and members from the list. -/
theorem Sound.of_live {s t : Roster} (h : Sound s) (hlive : ∀ ref, Live s ref → Live t ref)
    (hcur : t.curAvatar = s.curAvatar) (hteams : t.teams = s.teams) : Sound t where
  current := by
    rw [hcur]
    exact fun ref hr => hlive ref (h.current ref hr)
  members := by
    rw [hteams]
    intro team hteam m hm
    obtain ⟨ref, hm, href⟩ := h.members team hteam m hm
    exact ⟨ref, hm, hlive ref href⟩

/-- Every reference of a sound player is live. -/
theorem Sound.live {s : Roster} (h : Sound s) {ref : Nat} (href : Referenced s ref) : Live s ref := by
  rcases href with hcur | ⟨team, hteam, hm⟩
  · exact h.current ref hcur
  · obtain ⟨ref', heq, hlive⟩ := h.members team hteam _ hm
    cases heq
    exact hlive

theorem sound_erase_iff {s t : Roster} (h : Sound s) {test : Holding → Bool}
    (havatars : t.avatars = s.avatars.erase test) (hcur : t.curAvatar = s.curAvatar)
    (hteams : t.teams = s.teams) : Sound t ↔ Spared s test := by
  constructor
  · intro ht n hn href
    have hreft : Referenced t n.ref := by
      rwa [Referenced, hcur, hteams]
    exact ((live_erase havatars n.ref).mp (ht.live hreft)).2 n hn rfl
  · intro hspared
    constructor
    · intro ref href
      rw [hcur] at href
      refine (live_erase havatars ref).mpr ⟨h.current ref href, fun n hn heq => ?_⟩
      exact hspared n hn (.inl (heq ▸ href))
    · intro team hteam m hm
      rw [hteams] at hteam
      obtain ⟨ref, rfl, hlive⟩ := h.members team hteam m hm
      refine ⟨ref, rfl, (live_erase havatars ref).mpr ⟨hlive, fun n hn heq => ?_⟩⟩
      exact hspared n hn (.inr ⟨team, hteam, heq ▸ hm⟩)

/-- A loop over a team leaves members that were members or are in the list. -/
theorem sound_onTeam {s t : Roster} (h : Sound s) {team : Option Nat} {intact : Bool}
    {f : List (Option Nat) → Teams.Walked Nat}
    (hf : ∀ members, ∀ m ∈ (f members).avatars, m ∈ members ∨ ∃ ref, m = some ref ∧ Live s ref)
    (hstep : onTeam s team intact f = .ok t) : Sound t := by
  unfold onTeam at hstep
  dsimp only at hstep
  split at hstep
  case h_1 =>
    cases hstep
    exact h
  case h_2 old hold =>
    split at hstep
    case isTrue => cases hstep
    case isFalse =>
      cases hstep
      refine ⟨h.current, fun team hteam m hm => ?_⟩
      rcases List.mem_or_eq_of_mem_set hteam with hteam | rfl
      · exact h.members team hteam m hm
      · rcases hf _ m hm with hm | hm
        · exact h.members old (List.mem_of_getElem? hold) m hm
        · exact hm

theorem find_live {s : Roster} {test : Holding → Bool} {n : Node} (h : s.avatars.find test = some n) :
    Live s n.ref := ⟨n, List.mem_of_find?_eq_some h, rfl⟩

theorem sound_set {s : Roster} (h : Sound s) (guid : UInt64) (a : Holding) : Sound (set s guid a) := by
  unfold set
  split
  · exact h.of_live (fun _ => live_assign rfl) rfl rfl
  · exact h.of_live (fun _ => live_pushBack rfl) rfl rfl

/-- What every state that a step may lead to has to be, of the one it leads to. -/
theorem forall_ok_iff {t : Roster} : (∀ t', (.ok t : Except Fault Roster) = .ok t' → Sound t') ↔ Sound t :=
  ⟨fun h => h t rfl, fun h _ heq => Except.ok.inj heq ▸ h⟩

/-- From a sound player, a call leads to sound ones where it spares what is pointed to. -/
theorem sound_step_iff {s : Roster} (h : Sound s) (call : Call) :
    (∀ t, step junk s call = .ok t → Sound t) ↔ Spares s call := by
  cases call with
  | addAvatar a =>
    cases a with
    | none => exact forall_ok_iff.trans (iff_of_true h trivial)
    | some a =>
      exact forall_ok_iff.trans (iff_of_true (h.of_live (fun _ => live_pushBack rfl) rfl rfl) trivial)
  | addConstAvatar a =>
    cases a with
    | none => exact forall_ok_iff.trans (iff_of_true h trivial)
    | some a =>
      exact forall_ok_iff.trans (iff_of_true (h.of_live (fun _ => live_pushBack rfl) rfl rfl) trivial)
  | addNewAvatar out =>
    cases out with
    | true => exact iff_of_true nofun trivial
    | false => exact forall_ok_iff.trans (iff_of_true h trivial)
  | setAvatar guid a => exact forall_ok_iff.trans (iff_of_true (sound_set h guid _) trivial)
  | setConstAvatar guid a =>
    refine iff_of_true (fun t ht => ?_) trivial
    rw [step] at ht
    split at ht
    · cases ht
      exact h
    · cases ht
      exact sound_set h guid a
  | updateAvatar a =>
    exact forall_ok_iff.trans (iff_of_true (h.of_live (fun _ => live_assign rfl) rfl rfl) trivial)
  | delAvatar name => exact forall_ok_iff.trans (sound_erase_iff h rfl rfl rfl)
  | delAvatarLike a =>
    cases a with
    | none => exact forall_ok_iff.trans (iff_of_true h trivial)
    | some a => exact forall_ok_iff.trans (sound_erase_iff h rfl rfl rfl)
  | swapToAvatar name =>
    refine iff_of_true (fun t ht => ?_) trivial
    rw [step] at ht
    split at ht
    case h_1 =>
      cases ht
      exact h
    case h_2 n hn =>
      cases ht
      refine ⟨fun ref href => ?_, h.members⟩
      cases href
      exact find_live hn
  | addAvatarTeam name members =>
    refine forall_ok_iff.trans ⟨fun ht m hm => ?_, fun hmembers => ⟨h.current, ?_⟩⟩
    · exact ht.members { name, members } (List.mem_append_right _ (List.mem_singleton_self _)) m hm
    · intro team hteam m hm
      rcases List.mem_append.mp hteam with hteam | hteam
      · exact h.members team hteam m hm
      · rw [List.mem_singleton.mp hteam] at hm
        exact hmembers m hm
  | delAvatarTeam idx =>
    refine forall_ok_iff.trans (iff_of_true ⟨h.current, fun team hteam => ?_⟩ trivial)
    exact h.members team (List.mem_of_mem_eraseIdx hteam)
  | swapToTeam i =>
    refine iff_of_true (fun t ht => ?_) trivial
    rw [step] at ht
    split at ht
    · cases ht
      exact h
    · cases ht
      exact ⟨h.current, h.members⟩
  | addAvatarToTeam name team intact =>
    refine iff_of_true (fun t ht => sound_onTeam h (fun members m hm => ?_) ht) trivial
    refine (Teams.mem_addAvatar _ hm).imp_right ?_
    rintro ⟨rfl, hne⟩
    cases hfind : s.avatars.find name.test with
    | none =>
      rw [hfind] at hne
      exact absurd rfl hne
    | some n => exact ⟨n.ref, rfl, find_live hfind⟩
  | removeAvatarFromTeam name team intact =>
    exact iff_of_true (fun t ht => sound_onTeam h (fun members m hm =>
      .inl (Teams.mem_delAvatar _ hm)) ht) trivial

/-- Every state that a new player reaches has all its references in the list, exactly where no call
erases an avatar that is referenced, or brings a member that is not in the list. -/
theorem references_sound_iff (uid : UInt32) (calls : List Call) :
    (∀ done rest s, calls = done ++ rest → run (step junk) (Roster.fresh uid) done = .ok s → Sound s) ↔
      Along (step junk) Spares (Roster.fresh uid) calls := by
  have hfresh : Sound (Roster.fresh uid) := ⟨nofun, nofun⟩
  rw [reached_iff hfresh]
  exact along_congr Sound (fun s e s' _ hc => hc s') (fun s e hs => sound_step_iff junk hs e) hfresh

/-- An avatar is erased while it is the current one. -/
theorem current_erased : ¬ ∀ done rest s,
    [Call.addConstAvatar (some { id := 1, guid := 1, fields := [] }), .swapToAvatar (.byGuid 1),
      .delAvatar (.byGuid 1)] = done ++ rest →
    run (step fun _ => 0) (Roster.fresh 1) done = .ok s → Sound s := by
  intro h
  obtain ⟨n, hn, -⟩ := (h _ [] _ (List.append_nil _).symm rfl).current 0 rfl
  cases hn

end Yagips.Game.References
