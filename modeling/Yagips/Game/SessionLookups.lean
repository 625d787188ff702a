import Yagips.Game.Reload
import Yagips.Game.Scene

/-!
# Looking a session up

The lookups go through the table like through one that is full. They give the first session
that fits where no empty slot comes before it. The constructor of a stored player looks its
session up by the half of the id that was stored, and only once the record has expired.
-/
namespace Yagips.Game.SessionLookups

open Yagips.Lib
open Yagips.Server.Sessions
open Yagips.Store.Gate
open Yagips.Game.Players
open Yagips.Game.PlayerStore
open Yagips.Game.Reload
open Yagips.Game.SessionMachine
open Yagips.Game.Scene

/-- The first slot whose session fits. -/
def firstWith (test : GameSession → Bool) (sessions : PlayerStore.Sessions) : Option Nat :=
  sessions.findIdx? fun slot => slot.any test

def hasId (id : UInt64) (x : GameSession) : Bool := x.kcpSession.any fun k => k.conv = id

def hasUid (uid : UInt32) (x : GameSession) : Bool := x.player.any fun p => p.uid = uid

/-- Every empty slot has a session that fits somewhere before it. -/
def FoundFirst (test : GameSession → Bool) (sessions : PlayerStore.Sessions) : Prop :=
  ∀ k : Nat, sessions[k]? = some none →
    ∃ (j : Nat) (x : GameSession), j < k ∧ sessions[j]? = some (some x) ∧ test x = true

/-! ## What a search finds -/

theorem searchable_iff {test : GameSession → Bool} {sessions : PlayerStore.Sessions} :
    Searchable test sessions ↔ FoundFirst test sessions := by
  induction sessions with
  | nil => exact ⟨fun _ k h => (nomatch h), fun _ => trivial⟩
  | cons slot rest ih =>
    cases slot with
    | none =>
      refine ⟨False.elim, fun h => ?_⟩
      obtain ⟨j, x, hj, -⟩ := h 0 rfl
      exact absurd hj (Nat.not_lt_zero j)
    | some x =>
      rw [Searchable, ih]
      constructor
      · intro h k hk
        cases k with
        | zero => cases hk
        | succ k =>
          rcases h with hx | hrest
          · exact ⟨0, x, Nat.succ_pos k, rfl, hx⟩
          · obtain ⟨j, y, hj, hy, htest⟩ := hrest k hk
            exact ⟨j + 1, y, Nat.succ_lt_succ hj, hy, htest⟩
      · intro h
        by_cases hx : test x = true
        · exact Or.inl hx
        refine Or.inr fun k hk => ?_
        obtain ⟨j, y, hj, hy, htest⟩ := h (k + 1) hk
        cases j with
        | zero =>
          cases hy
          exact absurd htest hx
        | succ j => exact ⟨j, y, Nat.lt_of_succ_lt_succ hj, hy, htest⟩

theorem findSession_first {test : GameSession → Bool} {sessions : PlayerStore.Sessions}
    {found : Option Nat} (h : findSession test sessions = .ok found) :
    found = firstWith test sessions := by
  induction sessions generalizing found with
  | nil =>
    cases h
    rfl
  | cons slot rest ih =>
    cases slot with
    | none => cases h
    | some x =>
      unfold findSession at h
      rw [firstWith, List.findIdx?_cons, Option.any_some]
      cases htest : test x with
      | true =>
        rw [htest] at h
        cases h
        rfl
      | false =>
        rw [htest] at h
        obtain ⟨i, hi, hout⟩ := bind_eq_ok.mp h
        cases hout
        rw [ih hi]
        rfl

/-- A search ends with the first session that fits exactly where no empty slot comes before. -/
theorem findSession_iff (test : GameSession → Bool) (sessions : PlayerStore.Sessions) :
    findSession test sessions = .ok (firstWith test sessions) ↔ FoundFirst test sessions := by
  rw [← searchable_iff, ← findSession_ok_iff]
  refine ⟨fun h => ⟨_, h⟩, fun ⟨found, h⟩ => ?_⟩
  rw [h, findSession_first h]

/-- Both lookups on a table of any size. -/
theorem lookups_iff (sessions : PlayerStore.Sessions) (id : UInt64) (uid : UInt32) :
    (getSessionById sessions id = .ok (firstWith (hasId id) sessions) ↔
      FoundFirst (hasId id) sessions) ∧
    (getSessionByUid sessions uid = .ok (firstWith (hasUid uid) sessions) ↔
      FoundFirst (hasUid uid) sessions) :=
  ⟨findSession_iff _ sessions, findSession_iff _ sessions⟩

/-- The first session of a table of two slots has no player yet, and its token is looked at. -/
def halfEmpty : PlayerStore.Sessions :=
  [some { toSession := Session.new 0 5, useSecretKey := false, sessionSeed := 0, sessionKey := [] },
    none]

theorem empty_slot_used :
    getSessionById halfEmpty 6 ≠ .ok (firstWith (hasId 6) halfEmpty) ∧
    getSessionByUid halfEmpty 1 ≠ .ok (firstWith (hasUid 1) halfEmpty) := by
  have hfault : ∀ test, test (⟨Session.new 0 5, false, 0, []⟩ : GameSession) = false →
      findSession test halfEmpty = .error .pointer := by
    intro test htest
    simp only [halfEmpty, findSession, htest, Bool.false_eq_true, if_false]
    rfl
  constructor
  · intro h
    cases (hfault _ (by decide)).symm.trans h
  · intro h
    cases (hfault _ (by decide)).symm.trans h

/-! ## A stored player's session -/

theorem firstWith_eq_none {test : GameSession → Bool} {sessions : PlayerStore.Sessions} :
    firstWith test sessions = none ↔ ∀ x, some x ∈ sessions → test x = false := by
  rw [firstWith, List.findIdx?_eq_none_iff]
  constructor
  · intro h x hx
    exact h (some x) hx
  · intro h slot hslot
    cases slot with
    | none => rfl
    | some x => exact h x hslot

/-- A search that finds nothing has gone through a full table. -/
theorem findSession_none_iff (test : GameSession → Bool) (sessions : PlayerStore.Sessions) :
    findSession test sessions = .ok none ↔
      none ∉ sessions ∧ ∀ x, some x ∈ sessions → test x = false := by
  constructor
  · intro h
    have hnone := findSession_first h
    have hall := firstWith_eq_none.mp hnone.symm
    rw [hnone] at h
    refine ⟨fun hmem => ?_, hall⟩
    obtain ⟨k, hk⟩ := List.getElem?_of_mem hmem
    obtain ⟨j, x, -, hx, htest⟩ := (findSession_iff test sessions).mp h k hk
    rw [hall x (List.mem_of_getElem? hx)] at htest
    cases htest
  · intro ⟨hfull, hall⟩
    rw [← firstWith_eq_none.mpr hall, findSession_iff]
    exact fun k hk => absurd (List.mem_of_getElem? hk) hfull

/-- A player saved while attached to a session with a KCP object. -/
structure SavedAt (saved : PlayerStore.Sessions) (now : Int64) (p : Player) (x : GameSession)
    (kcp : KcpSession) (i : PlayerInfo) : Prop where
  attached : ∃ slot, p.session = some slot ∧ saved[slot]? = some (some x)
  connected : x.kcpSession = some kcp
  record : Player.toInfo saved now p = .ok i

theorem SavedAt.sessionId {saved : PlayerStore.Sessions} {now : Int64} {p : Player} {x : GameSession}
    {kcp : KcpSession} {i : PlayerInfo} (h : SavedAt saved now p x kcp i) :
    i.sessionId = kcp.conv.toUInt32 := by
  obtain ⟨slot, hslot, hx⟩ := h.attached
  obtain ⟨fields, guid, hfields, -, rfl⟩ := toInfo_eq.mp h.record
  unfold sessionFields at hfields
  simp only [hslot, hx, h.connected] at hfields
  cases hfields
  rfl

/-- What the constructor should set: the session with the whole id, until the record expires. -/
def ownSession (e : Env) (sessions : PlayerStore.Sessions) (id : UInt64) (i : PlayerInfo) : Option Nat :=
  if e.now ≤ i.sessionExpireTs then firstWith (hasId id) sessions else none

theorem loadSession_own_iff {e : Env} {sessions : PlayerStore.Sessions} {id : UInt64} {i : PlayerInfo}
    (hid : i.sessionId = id.toUInt32) :
    loadSession e sessions i = .ok (ownSession e sessions id i) ↔
      (e.now ≤ i.sessionExpireTs ∧ ∀ x, some x ∈ sessions → hasId id x = false) ∨
      (i.sessionExpireTs < e.now ∧ none ∉ sessions ∧
        ∀ x, some x ∈ sessions → hasId id.toUInt32.toUInt64 x = false) := by
  unfold loadSession ownSession
  by_cases hexpired : i.sessionExpireTs < e.now
  · have hlate : ¬ e.now ≤ i.sessionExpireTs := Int64.not_le.mpr hexpired
    rw [if_pos hexpired, if_neg hlate, hid]
    refine (findSession_none_iff _ sessions).trans ?_
    rw [or_iff_right (fun h => hlate h.1)]
    exact ⟨fun h => ⟨hexpired, h⟩, fun h => h.2⟩
  · have hvalid : e.now ≤ i.sessionExpireTs := Int64.not_lt.mp hexpired
    rw [if_neg hexpired, if_pos hvalid, ← firstWith_eq_none, or_iff_left (fun h => hexpired h.1)]
    constructor
    · intro h
      exact ⟨hvalid, (Except.ok.inj h).symm⟩
    · intro ⟨_, h⟩
      rw [h]
      rfl

/-- The constructor sets the session that is looked up: no record's account stops it. -/
theorem ofInfo_session_iff {e : Env} {g : DbGate} {sessions : PlayerStore.Sessions} {i : PlayerInfo}
    {slot : Option Nat} : (∃ n, Player.ofInfo e g sessions i = .ok n ∧ n.session = slot) ↔
      loadSession e sessions i = .ok slot := by
  constructor
  · intro ⟨n, hn, hsession⟩
    rw [← hsession]
    exact (ofInfo_unread hn).2.2.2.2.2.2
  · intro hload
    obtain ⟨account, haccount⟩ : ∃ a, g.getAccountByAid e.codecs i.aid = .ok a := by
      rcases byAid_cases e.codecs g i.aid with ⟨-, a, -, -, h⟩ | h
      · exact ⟨some a, h⟩
      · exact ⟨none, h⟩
    obtain ⟨n, hn⟩ := ofInfo_ok_iff.mpr ⟨⟨account, haccount⟩, _, hload⟩
    exact ⟨n, hn, Except.ok.inj ((ofInfo_unread hn).2.2.2.2.2.2.symm.trans hload)⟩

/-- A record is attached as it should be where it is valid and no session has the id, or where it
has expired, no slot is empty, and no session has the lower half for its id. -/
theorem reattach_iff {saved sessions : PlayerStore.Sessions} {now : Int64} {p : Player}
    {x : GameSession} {kcp : KcpSession} {i : PlayerInfo} (h : SavedAt saved now p x kcp i) (e : Env)
    (g : DbGate) :
    (∃ n, Player.ofInfo e g sessions i = .ok n ∧ n.session = ownSession e sessions kcp.conv i) ↔
      (e.now ≤ i.sessionExpireTs ∧ ∀ y, some y ∈ sessions → hasId kcp.conv y = false) ∨
      (i.sessionExpireTs < e.now ∧ none ∉ sessions ∧
        ∀ y, some y ∈ sessions → hasId kcp.conv.toUInt32.toUInt64 y = false) := by
  rw [ofInfo_session_iff, loadSession_own_iff h.sessionId]

/-- A session with an id beyond 32 bits, and one whose id is the lower half of it. -/
def longId : UInt64 := 0x100000005

def sessionWith (id : UInt64) : GameSession where
  toSession := Session.new 0 id
  useSecretKey := false
  sessionSeed := 0
  sessionKey := []

def twoIds : PlayerStore.Sessions := [some (sessionWith longId), some (sessionWith 5)]

def attachedPlayer : Player := { Player.fresh packedEnv 1 with session := some 0 }

theorem attached_saved : ∃ i, i.sessionExpireTs = 10800 ∧
    SavedAt twoIds 0 attachedPlayer (sessionWith longId) { conv := longId, client := 0 } i :=
  ⟨_, rfl, ⟨0, rfl, rfl⟩, rfl, rfl⟩

def lateEnv : Env := { packedEnv with now := 10801 }

/-- A valid record is left without a session where its own is gone. -/
theorem saved_reattached : ∃ i,
    SavedAt twoIds 0 attachedPlayer (sessionWith longId) { conv := longId, client := 0 } i ∧
    ∃ n, Player.ofInfo packedEnv oneAccount [some (sessionWith 6)] i = .ok n ∧
      n.session = ownSession packedEnv [some (sessionWith 6)] longId i := by
  obtain ⟨i, hexpire, hi⟩ := attached_saved
  refine ⟨i, hi, (reattach_iff hi packedEnv oneAccount).mpr (Or.inl ⟨?_, ?_⟩)⟩
  · rw [hexpire]
    decide
  · intro y hy
    cases Option.some.inj (List.mem_singleton.mp hy)
    decide

/-- A valid record is not attached to its session, and an expired one is, to another. -/
theorem wrong_session_attached : ∃ i,
    SavedAt twoIds 0 attachedPlayer (sessionWith longId) { conv := longId, client := 0 } i ∧
    (¬ ∃ n, Player.ofInfo packedEnv oneAccount twoIds i = .ok n ∧
      n.session = ownSession packedEnv twoIds longId i) ∧
    (ownSession lateEnv twoIds longId i = none ∧
      ∃ n, Player.ofInfo lateEnv oneAccount twoIds i = .ok n ∧ n.session = some 1) := by
  obtain ⟨i, hexpire, hi⟩ := attached_saved
  have hnow : packedEnv.now ≤ i.sessionExpireTs := by
    rw [hexpire]
    decide
  have hlate : i.sessionExpireTs < lateEnv.now := by
    rw [hexpire]
    decide
  refine ⟨i, hi, ?_, if_neg (Int64.not_le.mpr hlate), ?_⟩
  · rw [ofInfo_session_iff, loadSession_own_iff hi.sessionId]
    intro h
    rcases h with ⟨-, h⟩ | ⟨h, -⟩
    · exact absurd (h _ List.mem_cons_self) (by decide)
    · exact Int64.not_lt.mpr hnow h
  · rw [ofInfo_session_iff, loadSession, if_pos hlate, hi.sessionId]
    decide

end Yagips.Game.SessionLookups
