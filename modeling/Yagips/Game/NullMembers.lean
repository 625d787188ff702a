import Yagips.Game.CurrentTeam

/-!
# Teams with null members

A team made of a record has a null member for each guid that no avatar of the player has. Some
functions of the class skip null members, some erase them from the list they walk, and some read
through them.
-/
namespace Yagips.Game.NullMembers

open Yagips.Lib
open Yagips.Game.Players (AvatarTeamInfo)
open Yagips.Game.Teams

variable {A : Type} (guid : A → UInt64)

/-- An `AvatarTeam`, of which some members may be null. -/
structure Team (A : Type) where
  name : Bytes
  avatars : List (Option A)

/-- `Player::getAvatarByGuid`. -/
def getAvatarByGuid (player : List A) (g : UInt64) : Option A := player.find? (guid · = g)

/-- `AvatarTeam::AvatarTeam(const proto::AvatarTeam&, const Player&)`. -/
def Team.ofInfo (player : List A) (p : AvatarTeamInfo) : Team A where
  name := p.teamName
  avatars := p.avatarGuidList.map (getAvatarByGuid guid player)

/-- `AvatarTeam::operator proto::AvatarTeam`. -/
def Team.toInfo (t : Team A) : AvatarTeamInfo where
  teamName := t.name
  avatarGuidList := t.avatars.filterMap fun m => m.map guid

/-! ## Functions that read members -/

/-- What goes wrong at an iterator: its member is null, or there is none. -/
inductive MemberFault where
  | null
  | pastEnd
  deriving DecidableEq

/-- `getAvatar(unsigned long long)`. -/
def getAvatar (g : UInt64) : List (Option A) → Except MemberFault (Option A)
  | [] => return none
  | none :: _ => .error .null
  | some m :: rest => if guid m = g then return some m else getAvatar g rest

/-- The loop of `operator ==`, which reads a member of the first list before one of the second. -/
def equalLoop : List (Option A) → List (Option A) → Except MemberFault Bool
  | [], _ => .error .pastEnd
  | none :: _, _ => .error .null
  | some _ :: _, [] => .error .pastEnd
  | some _ :: _, none :: _ => .error .null
  | some i :: is, some j :: js =>
    if guid i ≠ guid j then return false
    else match is with
      | [] => return false
      | _ :: is => equalLoop is js

/-- `operator ==`. -/
def Team.equal [DecidableEq A] (a b : Team A) : Except MemberFault Bool :=
  if a.name ≠ b.name then return false
  else if a.avatars = b.avatars then return true
  else if a.avatars.length ≠ b.avatars.length then return false
  else equalLoop guid a.avatars b.avatars

theorem equalLoop_cons (guid : Nat → Except Fault UInt64) (i j : Option Nat) (is js : List (Option Nat)) :
    CurrentTeam.equalLoop guid (i :: is) (j :: js) = (do
      if (← CurrentTeam.getGuid guid i) ≠ (← CurrentTeam.getGuid guid j) then return false
      else match is with
        | [] => return false
        | _ :: is => CurrentTeam.equalLoop guid is js) := by
  cases is with
  | nil =>
    rw [CurrentTeam.equalLoop]
    rfl
  | cons x is => rw [CurrentTeam.equalLoop]

/-- It is the comparison of the teams of a player, whose faults are all alike. -/
theorem equalLoop_eq (guid : Nat → UInt64) (is js : List (Option Nat)) :
    CurrentTeam.equalLoop (fun ref => .ok (guid ref)) is js =
      (equalLoop guid is js).mapError fun _ => .pointer := by
  fun_induction equalLoop guid is js with
  | case1 js => rfl
  | case2 is js =>
    cases js with
    | nil => rfl
    | cons j js =>
      rw [equalLoop_cons]
      rfl
  | case3 i is => rfl
  | case4 i is js =>
    rw [equalLoop_cons]
    rfl
  | case5 i is j js hne =>
    rw [equalLoop_cons]
    simp only [CurrentTeam.getGuid, ok_bind, if_pos hne]
    rfl
  | case6 i j js heq =>
    rw [equalLoop_cons]
    simp only [CurrentTeam.getGuid, ok_bind, if_neg heq]
    rfl
  | case7 i j js heq x is ih =>
    rw [equalLoop_cons]
    simp only [CurrentTeam.getGuid, ok_bind, if_neg heq]
    exact ih

/-! ## What is asked of a team -/

/-- The calls. A team is compared from either side. -/
inductive Call (A : Type) where
  | getAvatar (g : UInt64)
  | addAvatar (a : Option A)
  | delAvatar (a : Option A)
  | delAvatarAt (i : Nat)
  | delAvatarByGuid (g : UInt64)
  | equal (b : Team A)
  | equalTo (b : Team A)

/-- A call reads through no null member and advances no iterator it has erased. -/
def Survives [DecidableEq A] (t : Team A) : Call A → Prop
  | .getAvatar g => getAvatar guid g t.avatars ≠ .error .null
  | .addAvatar a => (Teams.addAvatar guid a t.avatars).stale = false
  | .delAvatar a => (Teams.delAvatar guid a t.avatars).stale = false
  | .delAvatarAt i => (Teams.delAvatarAt i t.avatars).stale = false
  | .delAvatarByGuid g => (Teams.delAvatarByGuid guid g t.avatars).stale = false
  | .equal b => t.equal guid b ≠ .error .null
  | .equalTo b => b.equal guid t ≠ .error .null

/-- An avatar of the player has the guid. -/
def Owned (player : List A) (g : UInt64) : Prop := ∃ a ∈ player, guid a = g

instance (player : List A) (g : UInt64) : Decidable (Owned guid player g) :=
  inferInstanceAs (Decidable (∃ a ∈ player, guid a = g))

/-- The guids up to the first `g` are the player's. -/
def Reaches (player : List A) (guids : List UInt64) (g : UInt64) : Prop :=
  (∀ x ∈ guids.takeWhile (· ≠ g), Owned guid player x) ∧ (g ∈ guids → Owned guid player g)

/-- The guids of the members, where an avatar has them. -/
def guidsOf (player : List A) (guids : List UInt64) : List (Option UInt64) :=
  guids.map fun g => if Owned guid player g then some g else none

/-- Each pass of the loop over two lists of guids that comes after passes that found no difference
finds no null. -/
def Guarded (is js : List (Option UInt64)) : Prop :=
  ∀ k, 2 * k < is.length → (∀ j < k, is[2 * j]? = js[j]?) → is[2 * k]? ≠ some none ∧ js[k]? ≠ some none

/-- When a call survives, in terms of the record. -/
def Clear (player : List A) (p : AvatarTeamInfo) : Call A → Prop
  | .getAvatar g => Reaches guid player p.avatarGuidList g
  | .addAvatar none => True
  | .addAvatar (some a) => Reaches guid player p.avatarGuidList (guid a)
  | .delAvatar none => True
  | .delAvatar (some a) => ∀ x ∈ p.avatarGuidList, Owned guid player x ∧ x ≠ guid a
  | .delAvatarAt i => (∀ x ∈ p.avatarGuidList, Owned guid player x) ∧ p.avatarGuidList.length ≤ i
  | .delAvatarByGuid g => ∀ x ∈ p.avatarGuidList, Owned guid player x ∧ x ≠ g
  | .equal b =>
    p.teamName ≠ b.name ∨ p.avatarGuidList.map (getAvatarByGuid guid player) = b.avatars ∨
      p.avatarGuidList.length ≠ b.avatars.length ∨
      Guarded (guidsOf guid player p.avatarGuidList) (b.avatars.map (·.map guid))
  | .equalTo b =>
    p.teamName ≠ b.name ∨ p.avatarGuidList.map (getAvatarByGuid guid player) = b.avatars ∨
      p.avatarGuidList.length ≠ b.avatars.length ∨
      Guarded (b.avatars.map (·.map guid)) (guidsOf guid player p.avatarGuidList)

/-! ## Members -/

section

variable {guid} {player : List A}

theorem getAvatarByGuid_guid {g : UInt64} {a : A} (h : getAvatarByGuid guid player g = some a) :
    guid a = g ∧ Owned guid player g := by
  have hguid : guid a = g := by simpa using List.find?_some h
  exact ⟨hguid, a, List.mem_of_find?_eq_some h, hguid⟩

theorem getAvatarByGuid_none {g : UInt64} (h : getAvatarByGuid guid player g = none) :
    ¬ Owned guid player g := by
  intro ⟨a, ha, hguid⟩
  have hnot := List.find?_eq_none.mp h a ha
  exact hnot (by simpa using hguid)

/-- What is read of a member is the guid it was made of. -/
theorem guid_member (g : UInt64) :
    (getAvatarByGuid guid player g).map guid = if Owned guid player g then some g else none := by
  cases h : getAvatarByGuid guid player g with
  | none => exact (if_neg (getAvatarByGuid_none h)).symm
  | some a =>
    obtain ⟨hguid, howned⟩ := getAvatarByGuid_guid h
    rw [if_pos howned, Option.map_some, hguid]

theorem guids_members (guids : List UInt64) :
    (guids.map (getAvatarByGuid guid player)).map (·.map guid) = guidsOf guid player guids := by
  rw [List.map_map]
  exact List.map_congr_left fun g _ => guid_member g

/-- The record is kept, but for the guids of no avatar. -/
theorem toInfo_ofInfo (p : AvatarTeamInfo) : Team.toInfo guid (Team.ofInfo guid player p) =
    { p with avatarGuidList := p.avatarGuidList.filter (Owned guid player ·) } := by
  have hguids : (p.avatarGuidList.map (getAvatarByGuid guid player)).filterMap (fun m => m.map guid) =
      p.avatarGuidList.filter (Owned guid player ·) := by
    rw [List.filterMap_map]
    induction p.avatarGuidList with
    | nil => rfl
    | cons g guids ih =>
      rw [List.filterMap_cons, List.filter_cons, ih, Function.comp_apply, guid_member]
      by_cases h : Owned guid player g
      · rw [if_pos h, if_pos (decide_eq_true h)]
      · rw [if_neg h, if_neg (by simpa using h)]
  rw [Team.toInfo, Team.ofInfo, hguids]

/-! ## Loops up to a member -/

theorem reaches_nil (g : UInt64) : Reaches guid player [] g := ⟨nofun, nofun⟩

theorem reaches_cons (x g : UInt64) (guids : List UInt64) : Reaches guid player (x :: guids) g ↔
    Owned guid player x ∧ (x = g ∨ Reaches guid player guids g) := by
  unfold Reaches
  by_cases hx : x = g
  · subst hx
    simp
  · have hne : g ≠ x := fun h => hx h.symm
    simp [hx, hne, and_assoc]

theorem getAvatar_iff (guids : List UInt64) (g : UInt64) :
    getAvatar guid g (guids.map (getAvatarByGuid guid player)) ≠ .error .null ↔
      Reaches guid player guids g := by
  induction guids with
  | nil => exact iff_of_true nofun (reaches_nil g)
  | cons x guids ih =>
    rw [reaches_cons, List.map_cons]
    cases hx : getAvatarByGuid guid player x with
    | none => exact iff_of_false (fun h => h rfl) fun h => getAvatarByGuid_none hx h.1
    | some a =>
      obtain ⟨hguid, howned⟩ := getAvatarByGuid_guid hx
      rw [getAvatar, hguid, and_iff_right howned]
      by_cases hxg : x = g
      · rw [if_pos hxg]
        exact iff_of_true nofun (.inl hxg)
      · rw [if_neg hxg, or_iff_right hxg]
        exact ih

theorem addLoop_iff [DecidableEq A] (a : A) (ret : Nat) (guids : List UInt64) :
    (addLoop guid a ret (guids.map (getAvatarByGuid guid player))).stale = false ↔
      Reaches guid player guids (guid a) := by
  induction guids generalizing ret with
  | nil =>
    refine iff_of_true ?_ (reaches_nil _)
    rw [List.map_nil, addLoop]
    split
    · rfl
    · rfl
  | cons x guids ih =>
    rw [reaches_cons, List.map_cons]
    cases hx : getAvatarByGuid guid player x with
    | none =>
      refine iff_of_false ?_ fun h => getAvatarByGuid_none hx h.1
      exact Bool.true_eq_false_eq_False
    | some m =>
      obtain ⟨hguid, howned⟩ := getAvatarByGuid_guid hx
      have hsame : m = a ∨ guid m = guid a ↔ x = guid a := by
        rw [hguid]
        exact or_iff_right_of_imp fun h => by rw [← hguid, h]
      rw [addLoop, and_iff_right howned]
      simp only [hsame]
      by_cases hxa : x = guid a
      · rw [if_pos hxa]
        exact iff_of_true rfl (.inl hxa)
      · rw [if_neg hxa, or_iff_right hxa]
        exact ih (ret + 1)

/-! ## Loops over all members -/

theorem delLoop_iff (test : A → Bool) (avatars : List (Option A)) :
    (delLoop test avatars).stale = false ↔ ∀ m ∈ avatars, m.all test = false := by
  induction avatars with
  | nil => exact iff_of_true rfl nofun
  | cons m avatars ih =>
    rw [delLoop, List.forall_mem_cons, ← ih]
    by_cases hm : m.all test = true
    · rw [if_pos hm]
      exact iff_of_false Bool.true_eq_false_eq_False fun h => by rw [hm] at h; cases h.1
    · rw [if_neg hm]
      exact (and_iff_right (Bool.eq_false_iff.mpr hm)).symm

theorem delMembers_iff (g : UInt64) (test : A → Bool) (htest : ∀ m, test m = decide (guid m = g))
    (guids : List UInt64) :
    (delLoop test (guids.map (getAvatarByGuid guid player))).stale = false ↔
      ∀ x ∈ guids, Owned guid player x ∧ x ≠ g := by
  rw [delLoop_iff, List.forall_mem_map]
  refine forall₂_congr fun x _ => ?_
  cases hx : getAvatarByGuid guid player x with
  | none => exact iff_of_false Bool.true_eq_false_eq_False fun h => getAvatarByGuid_none hx h.1
  | some m =>
    obtain ⟨hguid, howned⟩ := getAvatarByGuid_guid hx
    rw [Option.all_some, htest, hguid, decide_eq_false_iff_not, and_iff_right howned]

theorem delIndexLoop_iff (i d : Nat) (avatars : List (Option A)) :
    (delIndexLoop i d avatars).stale = false ↔ none ∉ avatars ∧ (i < d ∨ d + avatars.length ≤ i) := by
  induction avatars generalizing d with
  | nil =>
    refine iff_of_true rfl ⟨List.not_mem_nil, ?_⟩
    rw [List.length_nil]
    omega
  | cons m avatars ih =>
    rw [delIndexLoop, List.mem_cons, not_or, List.length_cons]
    by_cases hm : m = none ∨ d = i
    · rw [if_pos hm]
      refine iff_of_false Bool.true_eq_false_eq_False ?_
      rintro ⟨⟨hnull, -⟩, hrange⟩
      rcases hm with hm | hm
      · exact hnull hm.symm
      · omega
    · rw [if_neg hm]
      obtain ⟨hnull, hd⟩ := not_or.mp hm
      have hhere : ¬ none = m := fun h => hnull h.symm
      have hrange : (i < d + 1 ∨ d + 1 + avatars.length ≤ i) ↔ (i < d ∨ d + (avatars.length + 1) ≤ i) := by
        omega
      show (delIndexLoop i (d + 1) avatars).stale = false ↔ _
      rw [ih (d + 1), and_iff_right hhere, hrange]

/-! ## Comparing -/

theorem guarded_nil (js : List (Option UInt64)) : Guarded [] js :=
  fun _ hk => absurd hk (Nat.not_lt_zero _)

theorem guarded_cons_iff (x y j : Option UInt64) (is js : List (Option UInt64)) :
    Guarded (x :: y :: is) (j :: js) ↔ x ≠ none ∧ j ≠ none ∧ (x = j → Guarded is js) := by
  constructor
  · intro h
    obtain ⟨hx, hj⟩ := h 0 (Nat.succ_pos _) fun k hk => absurd hk (Nat.not_lt_zero k)
    refine ⟨fun he => hx (congrArg some he), fun he => hj (congrArg some he), fun hxj k hk hequal => ?_⟩
    refine h (k + 1) ?_ fun m hm => ?_
    · simp only [List.length_cons]
      omega
    · cases m with
      | zero => exact congrArg some hxj
      | succ m => exact hequal m (Nat.lt_of_succ_lt_succ hm)
  · intro ⟨hx, hj, hrest⟩ k hk hequal
    cases k with
    | zero => exact ⟨fun he => hx (Option.some.inj he), fun he => hj (Option.some.inj he)⟩
    | succ k =>
      have hxj : x = j := Option.some.inj (hequal 0 (Nat.succ_pos k))
      refine hrest hxj k ?_ fun m hm => hequal (m + 1) (Nat.succ_lt_succ hm)
      simp only [List.length_cons] at hk
      omega

theorem guarded_single_iff (x j : Option UInt64) (js : List (Option UInt64)) :
    Guarded [x] (j :: js) ↔ x ≠ none ∧ j ≠ none := by
  constructor
  · intro h
    obtain ⟨hx, hj⟩ := h 0 (Nat.succ_pos _) fun k hk => absurd hk (Nat.not_lt_zero k)
    exact ⟨fun he => hx (congrArg some he), fun he => hj (congrArg some he)⟩
  · intro ⟨hx, hj⟩ k hk _
    have hzero : k = 0 := by
      simp only [List.length_singleton] at hk
      omega
    subst hzero
    exact ⟨fun he => hx (Option.some.inj he), fun he => hj (Option.some.inj he)⟩

theorem equalLoop_iff {is js : List (Option A)} (hlen : is.length ≤ js.length) :
    equalLoop guid is js ≠ .error .null ↔ Guarded (is.map (·.map guid)) (js.map (·.map guid)) := by
  fun_induction equalLoop guid is js with
  | case1 js => exact iff_of_true nofun (guarded_nil _)
  | case2 is js =>
    refine iff_of_false (fun h => h rfl) fun h => ?_
    exact (h 0 (Nat.succ_pos _) fun k hk => absurd hk (Nat.not_lt_zero k)).1 rfl
  | case3 i is => exact absurd hlen (Nat.not_succ_le_zero _)
  | case4 i is js =>
    refine iff_of_false (fun h => h rfl) fun h => ?_
    exact (h 0 (Nat.succ_pos _) fun k hk => absurd hk (Nat.not_lt_zero k)).2 rfl
  | case5 i is j js hne =>
    refine iff_of_true nofun ?_
    have hguids : some (guid i) ≠ some (guid j) := fun h => hne (Option.some.inj h)
    cases is with
    | nil => exact (guarded_single_iff _ _ _).mpr ⟨nofun, nofun⟩
    | cons x is => exact (guarded_cons_iff _ _ _ _ _).mpr ⟨nofun, nofun, fun h => absurd h hguids⟩
  | case6 i j js heq => exact iff_of_true nofun ((guarded_single_iff _ _ _).mpr ⟨nofun, nofun⟩)
  | case7 i j js heq x is ih =>
    have hrest : is.length ≤ js.length := by
      simp only [List.length_cons] at hlen
      omega
    have hguids : some (guid i) = some (guid j) := congrArg some (not_not.mp heq)
    refine (ih hrest).trans ?_
    simp only [List.map_cons, Option.map_some]
    rw [guarded_cons_iff]
    exact ⟨fun h => ⟨nofun, nofun, fun _ => h⟩, fun h => h.2.2 hguids⟩

theorem equal_iff [DecidableEq A] (a b : Team A) : a.equal guid b ≠ .error .null ↔
    a.name ≠ b.name ∨ a.avatars = b.avatars ∨ a.avatars.length ≠ b.avatars.length ∨
      Guarded (a.avatars.map (·.map guid)) (b.avatars.map (·.map guid)) := by
  unfold Team.equal
  by_cases hname : a.name = b.name
  swap
  · rw [if_pos hname]
    exact iff_of_true nofun (.inl hname)
  rw [if_neg (not_not.mpr hname), or_iff_right (not_not.mpr hname)]
  by_cases hsame : a.avatars = b.avatars
  · rw [if_pos hsame]
    exact iff_of_true nofun (.inl hsame)
  rw [if_neg hsame, or_iff_right hsame]
  by_cases hlen : a.avatars.length = b.avatars.length
  swap
  · rw [if_pos hlen]
    exact iff_of_true nofun (.inl hlen)
  rw [if_neg (not_not.mpr hlen), or_iff_right (not_not.mpr hlen)]
  exact equalLoop_iff hlen.le

end

/-! ## Every call -/

theorem none_member (player : List A) (guids : List UInt64) :
    none ∉ guids.map (getAvatarByGuid guid player) ↔ ∀ x ∈ guids, Owned guid player x := by
  constructor
  · intro h x hx
    cases hfound : getAvatarByGuid guid player x with
    | none => exact absurd (List.mem_map.mpr ⟨x, hx, hfound⟩) h
    | some a => exact (getAvatarByGuid_guid hfound).2
  · intro h hmem
    obtain ⟨x, hx, hnone⟩ := List.mem_map.mp hmem
    exact getAvatarByGuid_none hnone (h x hx)

/-- A call on a team made of a record survives where the guids it meets are the player's, and it
erases no member. -/
theorem survives_call_iff [DecidableEq A] (player : List A) (p : AvatarTeamInfo) (call : Call A) :
    Survives guid (Team.ofInfo guid player p) call ↔ Clear guid player p call := by
  have hguids : (Team.ofInfo guid player p).avatars.map (·.map guid) =
      guidsOf guid player p.avatarGuidList := guids_members p.avatarGuidList
  have hlen : (Team.ofInfo guid player p).avatars.length = p.avatarGuidList.length := List.length_map _
  cases call with
  | getAvatar g => exact getAvatar_iff p.avatarGuidList g
  | addAvatar a =>
    cases a with
    | none => exact iff_of_true rfl trivial
    | some a => exact addLoop_iff a 0 p.avatarGuidList
  | delAvatar a =>
    cases a with
    | none => exact iff_of_true rfl trivial
    | some a =>
      refine delMembers_iff (guid a) _ (fun m => ?_) p.avatarGuidList
      have hsame : m = a ∨ guid m = guid a ↔ guid m = guid a :=
        or_iff_right_of_imp fun h => congrArg guid h
      simp only [← Bool.decide_or, hsame]
  | delAvatarAt i =>
    refine (delIndexLoop_iff i 0 _).trans (and_congr (none_member guid player _) ?_)
    rw [hlen]
    omega
  | delAvatarByGuid g => exact delMembers_iff g _ (fun _ => rfl) p.avatarGuidList
  | equal b =>
    refine (equal_iff _ b).trans ?_
    rw [hguids, hlen]
    exact Iff.rfl
  | equalTo b =>
    refine (equal_iff b _).trans ?_
    rw [hguids, hlen]
    exact or_congr ne_comm (or_congr eq_comm (or_congr ne_comm Iff.rfl))

/-- A record survives being made a team, and the calls on the team survive that are clear. -/
theorem survives_iff [DecidableEq A] (player : List A) (p : AvatarTeamInfo) :
    Team.toInfo guid (Team.ofInfo guid player p) =
      { p with avatarGuidList := p.avatarGuidList.filter (Owned guid player ·) } ∧
    ∀ call, Survives guid (Team.ofInfo guid player p) call ↔ Clear guid player p call :=
  ⟨toInfo_ofInfo p, survives_call_iff guid player p⟩

/-- Where the player has no avatar with the only guid of the record, looking for it reads through
null. -/
theorem lost_avatar_read : ¬ ∀ (guid : Nat → UInt64) player p call,
    Survives guid (Team.ofInfo guid player p) call := by
  intro h
  exact h (fun _ => 0) [] { teamName := [], avatarGuidList := [5] } (.getAvatar 5) rfl

end Yagips.Game.NullMembers
