import Yagips.Server.Main

/-!
# The search for a free slot, as the loop runs

`GameserverMain` walks the table with a 32-bit counter. A dead session is closed and the
counter taken back by one, which wraps at the first slot, so that the next pass meets the
same session again: by then it is `NOT_CONNECTED`, is deleted and leaves its slot free.
-/
namespace Yagips.Server.SlotSearch

open Yagips.Lib
open Yagips.Server.Sessions
open Yagips.Server.Dispatch
open Yagips.Server.Main

variable {P : Type}

/-- The loop's variables, the table it works on and what the closed sessions sent. -/
structure Search (P : Type) where
  table : Table P
  sent : List (Nat × (SockRef × Bytes))
  i : UInt32
  tries : UInt32
  foundValidSession : Bool

def Search.start (table : Table P) : Search P where
  table := table
  sent := []
  i := 0
  tries := 0
  foundValidSession := false

/-- `sessionList[i]`, for an index that has to be within the table. -/
def slotAt (table : Table P) (i : UInt32) : Except Fault (Option (Session P)) :=
  match table[i.toNat]? with
  | some slot => .ok slot
  | none => .error (.read i.toNat)

def sentFrom (i : UInt32) (c : Closing P) : List (Nat × (SockRef × Bytes)) :=
  c.sent.toList.map fun x => (i.toNat, x)

/-- `delete sessionList[i]` and a NULL in its place. The destructor closes with reason 12. -/
def deleteSlot (s : Search P) : Except Fault (Search P) := do
  match ← slotAt s.table s.i with
  | none => return s
  | some session =>
    return { s with
      table := s.table.set s.i.toNat none
      sent := s.sent ++ sentFrom s.i (session.close 12) }

/-- The session is closed and the counter steps back. -/
def closeSlot (s : Search P) (session : Session P) (reason : UInt32) : Search P :=
  { s with
    table := s.table.set s.i.toNat (some (session.close reason).session)
    sent := s.sent ++ sentFrom s.i (session.close reason)
    i := s.i - 1 }

def Search.tried (s : Search P) : Search P := { s with tries := s.tries + 1 }

def switchState (s : Search P) (session : Session P) : Except Fault (Search P) :=
  if session.state = notConnected then do
    let s ← deleteSlot s
    return { s with foundValidSession := true }
  else if session.state = timeout then return (closeSlot s session 10).tried
  else if session.state = error then return (closeSlot s session 12).tried
  else if session.state = finished then return closeSlot s session 3
  else return s

/-- One pass through the body, and whether it left the loop. -/
def body (s : Search P) : Except Fault (Search P × Bool) := do
  match ← slotAt s.table s.i with
  | none => return (s, true)
  | some session =>
    let s ← switchState s session
    if 5 ≤ s.tries then
      let s ← deleteSlot s
      return (s, true)
    else return (s, s.foundValidSession)

def loop (maxSessions : UInt32) : Nat → Search P → Except Fault (Search P)
  | 0, _ => .error .endless
  | fuel + 1, s =>
    if s.i < maxSessions then do
      let (s, broke) ← body s
      if broke then return s else loop maxSessions fuel { s with i := s.i + 1 }
    else return s

/-- What becomes of the handshake: a session in the table, or the packet that refuses one. -/
structure Placed (P : Type) where
  table : Table P
  sent : List (Nat × (SockRef × Bytes))
  refusal : Option Bytes

def refusal (sid : UInt64) : Bytes := (Handshake.naming 0x194 sid 5 0x19419494).write

def place (maxSessions : UInt32) (sid : UInt64) (s : Search P) : Except Fault (Placed P) :=
  if maxSessions ≤ s.i then
    return { table := s.table, sent := s.sent, refusal := some (refusal sid) }
  else do
    let _ ← slotAt s.table s.i
    return {
      table := s.table.set s.i.toNat (some (Session.new clientRef sid))
      sent := s.sent
      refusal := none }

/-! ## One slot -/

theorem retire_some {state : Int} {reason : UInt32} (h : retireReason state = some reason) :
    (state = timeout ∧ reason = 10) ∨ (state = error ∧ reason = 12) ∨
      (state = finished ∧ reason = 3) := by
  unfold retireReason at h
  split_ifs at h with ht he hf
  · exact .inl ⟨ht, (Option.some.inj h).symm⟩
  · exact .inr (.inl ⟨he, (Option.some.inj h).symm⟩)
  · exact .inr (.inr ⟨hf, (Option.some.inj h).symm⟩)

theorem retire_none {state : Int} (h : retireReason state = none) :
    state ≠ timeout ∧ state ≠ error ∧ state ≠ finished := by
  unfold retireReason at h
  split_ifs at h with ht he hf
  exact ⟨ht, he, hf⟩

/-- The loop with the slots of `pre` behind it. -/
def Search.behind (pre rest : Table P) (sent : List (Nat × (SockRef × Bytes))) : Search P where
  table := pre ++ rest
  sent := sent
  i := UInt32.ofNat pre.length
  tries := 0
  foundValidSession := false

theorem index_toNat {maxSessions : UInt32} {pre rest : Table P}
    (h : (pre ++ rest).length = maxSessions.toNat) :
    (UInt32.ofNat pre.length).toNat = pre.length := by
  have hmax := maxSessions.toNat_lt
  rw [List.length_append] at h
  exact UInt32.toNat_ofNat_of_lt' (by
    change pre.length < 2 ^ 32
    omega)

theorem slotAt_behind {maxSessions : UInt32} {pre rest : Table P} {slot : Option (Session P)}
    (h : (pre ++ slot :: rest).length = maxSessions.toNat) :
    slotAt (pre ++ slot :: rest) (UInt32.ofNat pre.length) = .ok slot := by
  simp [slotAt, index_toNat h]

theorem set_behind {maxSessions : UInt32} {pre rest : Table P} {slot : Option (Session P)}
    (h : (pre ++ slot :: rest).length = maxSessions.toNat) (new : Option (Session P)) :
    (pre ++ slot :: rest).set (UInt32.ofNat pre.length).toNat new = pre ++ new :: rest := by
  simp [index_toNat h]

theorem behind_lt {maxSessions : UInt32} {pre rest : Table P} {slot : Option (Session P)}
    (h : (pre ++ slot :: rest).length = maxSessions.toNat) : UInt32.ofNat pre.length < maxSessions := by
  rw [UInt32.lt_iff_toNat_lt, index_toNat h, ← h]
  simp

theorem behind_slot {maxSessions : UInt32} {pre rest : Table P} {slot : Option (Session P)}
    (h : (pre ++ slot :: rest).length = maxSessions.toNat)
    (sent : List (Nat × (SockRef × Bytes))) :
    slotAt (Search.behind pre (slot :: rest) sent).table (Search.behind pre (slot :: rest) sent).i =
      .ok slot := slotAt_behind h

theorem body_switch {s s' : Search P} {session : Session P}
    (hslot : slotAt s.table s.i = .ok (some session)) (hswitch : switchState s session = .ok s')
    (hfew : s'.tries < 5) : body s = .ok (s', s'.foundValidSession) := by
  rw [body, hslot, ok_bind]
  simp only [hswitch, ok_bind, if_neg (UInt32.not_le.mpr hfew), pure_eq_ok]

theorem loop_stop {maxSessions : UInt32} {s s' : Search P} (hlt : s.i < maxSessions)
    (hbody : body s = .ok (s', true)) (fuel : Nat) : loop maxSessions (fuel + 1) s = .ok s' := by
  rw [loop, if_pos hlt, hbody]
  rfl

theorem loop_next {maxSessions : UInt32} {s s' : Search P} (hlt : s.i < maxSessions)
    (hbody : body s = .ok (s', false)) (fuel : Nat) :
    loop maxSessions (fuel + 1) s = loop maxSessions fuel { s' with i := s'.i + 1 } := by
  rw [loop, if_pos hlt, hbody]
  rfl

/-- The search with a session found dead behind it, met again at the same slot. -/
def Search.again (pre rest : Table P) (session : Session P) (reason tries : UInt32)
    (sent : List (Nat × (SockRef × Bytes))) : Search P where
  table := pre ++ some (session.close reason).session :: rest
  sent := sent ++ sentFrom (UInt32.ofNat pre.length) (session.close reason)
  i := UInt32.ofNat pre.length
  tries := tries
  foundValidSession := false

/-- The search with the session at its slot deleted. -/
def Search.freed (s : Search P) (pre rest : Table P) (session : Session P) : Search P :=
  { s with
    table := pre ++ none :: rest
    sent := s.sent ++ sentFrom s.i (session.close 12)
    foundValidSession := true }

/-- A session that is not connected any more is deleted, and the loop ends at its slot. -/
theorem loop_delete {maxSessions : UInt32} {pre rest : Table P} {session : Session P}
    {s : Search P} (hstate : session.state = notConnected)
    (h : (pre ++ some session :: rest).length = maxSessions.toNat)
    (htable : s.table = pre ++ some session :: rest) (hi : s.i = UInt32.ofNat pre.length)
    (hfew : s.tries < 5) (fuel : Nat) :
    loop maxSessions (fuel + 1) s = .ok (s.freed pre rest session) := by
  have hlt : s.i < maxSessions := hi ▸ behind_lt h
  have hslot : slotAt s.table s.i = .ok (some session) := by rw [htable, hi, slotAt_behind h]
  have hset : s.table.set s.i.toNat none = pre ++ none :: rest := by rw [htable, hi, set_behind h]
  have hdelete : switchState s session = .ok (s.freed pre rest session) := by
    rw [switchState, if_pos hstate, deleteSlot, hslot]
    simp only [ok_bind, pure_eq_ok, hset, Search.freed]
  exact loop_stop hlt (body_switch hslot hdelete hfew) fuel

/-- A dead session is closed, and the next pass meets it again: the counter that went back by
one comes forward, also where it wrapped. -/
theorem loop_close {maxSessions : UInt32} {pre rest : Table P} {session : Session P}
    {reason : UInt32} (hreason : retireReason session.state = some reason)
    (h : (pre ++ some session :: rest).length = maxSessions.toNat)
    (sent : List (Nat × (SockRef × Bytes))) :
    ∃ tries : UInt32, tries < 5 ∧ ∀ fuel,
      loop maxSessions (fuel + 1) (Search.behind pre (some session :: rest) sent) =
        loop maxSessions fuel (Search.again pre rest session reason tries sent) := by
  have hclosed : ∀ tries : UInt32, tries < 5 →
      switchState (Search.behind pre (some session :: rest) sent) session = .ok
        { closeSlot (Search.behind pre (some session :: rest) sent) session reason with tries := tries } →
      ∀ fuel, loop maxSessions (fuel + 1) (Search.behind pre (some session :: rest) sent) =
        loop maxSessions fuel (Search.again pre rest session reason tries sent) := by
    intro tries hfew hswitch fuel
    have hback : UInt32.ofNat pre.length - 1 + 1 = UInt32.ofNat pre.length :=
      UInt32.sub_add_cancel _ _
    rw [loop_next (behind_lt h) (body_switch (behind_slot h sent) hswitch hfew)]
    simp only [closeSlot, Search.behind, Search.again, set_behind h, hback]
  rcases retire_some hreason with ⟨hstate, rfl⟩ | ⟨hstate, rfl⟩ | ⟨hstate, rfl⟩
  · refine ⟨1, by decide, hclosed 1 (by decide) ?_⟩
    rw [switchState, hstate]
    rfl
  · refine ⟨1, by decide, hclosed 1 (by decide) ?_⟩
    rw [switchState, hstate]
    rfl
  · refine ⟨0, by decide, hclosed 0 (by decide) ?_⟩
    rw [switchState, hstate]
    rfl

/-- A live session is passed by. -/
theorem loop_pass {maxSessions : UInt32} {pre rest : Table P} {session : Session P}
    (hconnected : session.state ≠ notConnected) (hreason : retireReason session.state = none)
    (h : (pre ++ some session :: rest).length = maxSessions.toNat)
    (sent : List (Nat × (SockRef × Bytes))) (fuel : Nat) :
    loop maxSessions (fuel + 1) (Search.behind pre (some session :: rest) sent) =
      loop maxSessions fuel (Search.behind (pre ++ [some session]) rest sent) := by
  have hswitch : switchState (Search.behind pre (some session :: rest) sent) session =
      .ok (Search.behind pre (some session :: rest) sent) := by
    obtain ⟨ht, he, hf⟩ := retire_none hreason
    rw [switchState, if_neg hconnected, if_neg ht, if_neg he, if_neg hf]
    rfl
  have hnext : UInt32.ofNat pre.length + 1 = UInt32.ofNat (pre ++ [some session]).length := by
    rw [List.length_append, List.length_singleton, UInt32.ofNat_add]
    rfl
  rw [loop_next (behind_lt h)
    (body_switch (behind_slot h sent) hswitch (show (0 : UInt32) < 5 by decide))]
  simp only [Search.behind, hnext, List.append_assoc, List.singleton_append]

/-! ## The whole table -/

/-- How a search ends that was taken up with the slots of `pre` behind it: as the walk over the
other slots ends. -/
structure Ends (pre rest : Table P) (sent : List (Nat × (SockRef × Bytes))) (r : Search P) : Prop where
  table : r.table = pre ++ (claimSlot rest).table
  sent : r.sent = sent ++ (claimSlot rest).sent.map fun x => (x.1 + pre.length, x.2)
  i : r.i.toNat = pre.length + (claimSlot rest).slot.getD rest.length

/-- Taken up with the slots of `pre` behind it, the search ends. -/
def Concludes (maxSessions : UInt32) (pre rest : Table P) (sent : List (Nat × (SockRef × Bytes))) : Prop :=
  ∃ r, Ends pre rest sent r ∧
    ∀ fuel, rest.length + 2 ≤ fuel → loop maxSessions fuel (Search.behind pre rest sent) = .ok r

section Cases

variable {maxSessions : UInt32} {pre rest : Table P}

theorem concludes_nil (sent : List (Nat × (SockRef × Bytes)))
    (h : (pre ++ []).length = maxSessions.toNat) : Concludes maxSessions pre [] sent := by
  refine ⟨Search.behind pre [] sent, ⟨rfl, by simp [Search.behind, claimSlot], index_toNat h⟩, ?_⟩
  intro fuel hfuel
  obtain ⟨fuel, rfl⟩ := Nat.exists_eq_succ_of_ne_zero (show fuel ≠ 0 by omega)
  have hend : ¬ (Search.behind pre [] sent).i < maxSessions := by
    rw [UInt32.lt_iff_toNat_lt, show (Search.behind pre [] sent).i.toNat = _ from index_toNat h, ← h]
    simp
  rw [loop, if_neg hend]
  rfl

theorem concludes_free (sent : List (Nat × (SockRef × Bytes)))
    (h : (pre ++ none :: rest).length = maxSessions.toNat) :
    Concludes maxSessions pre (none :: rest) sent := by
  refine ⟨Search.behind pre (none :: rest) sent,
    ⟨rfl, by simp [Search.behind, claimSlot], index_toNat h⟩, ?_⟩
  intro fuel hfuel
  obtain ⟨fuel, rfl⟩ := Nat.exists_eq_succ_of_ne_zero (show fuel ≠ 0 by omega)
  refine loop_stop (behind_lt h) ?_ fuel
  rw [body, behind_slot h]
  rfl

theorem concludes_delete {session : Session P} (hconnected : session.state = notConnected)
    (sent : List (Nat × (SockRef × Bytes)))
    (h : (pre ++ some session :: rest).length = maxSessions.toNat) :
    Concludes maxSessions pre (some session :: rest) sent := by
  refine ⟨(Search.behind pre (some session :: rest) sent).freed pre rest session, ⟨?_, ?_, ?_⟩,
    fun fuel hfuel => ?_⟩
  · simp [claimSlot, hconnected, Search.freed]
  · simp [claimSlot, hconnected, Search.freed, Search.behind, sentFrom, index_toNat h]
  · simp [claimSlot, hconnected, Search.freed, Search.behind, index_toNat h]
  · obtain ⟨fuel, rfl⟩ := Nat.exists_eq_succ_of_ne_zero (show fuel ≠ 0 by omega)
    exact loop_delete hconnected h rfl rfl (show (0 : UInt32) < 5 by decide) fuel

/-- A dead session takes two passes: the second one deletes what the first has closed. -/
theorem concludes_close {session : Session P} {reason : UInt32}
    (hconnected : session.state ≠ notConnected) (hreason : retireReason session.state = some reason)
    (sent : List (Nat × (SockRef × Bytes)))
    (h : (pre ++ some session :: rest).length = maxSessions.toNat) :
    Concludes maxSessions pre (some session :: rest) sent := by
  obtain ⟨tries, hfew, hclose⟩ := loop_close hreason h sent
  have hagain : (pre ++ some (session.close reason).session :: rest).length = maxSessions.toNat := by
    simpa using h
  refine ⟨(Search.again pre rest session reason tries sent).freed pre rest
    (session.close reason).session, ⟨?_, ?_, ?_⟩, fun fuel hfuel => ?_⟩
  · simp [claimSlot, hconnected, hreason, Search.freed]
  · simp [claimSlot, hconnected, hreason, Search.freed, Search.again, sentFrom, index_toNat h,
      Function.comp_def]
  · simp [claimSlot, hconnected, hreason, Search.freed, Search.again, index_toNat h]
  · obtain ⟨fuel, rfl⟩ : ∃ n, fuel = n + 2 := ⟨fuel - 2, by omega⟩
    rw [hclose]
    exact loop_delete rfl hagain rfl rfl hfew fuel

theorem concludes_pass {session : Session P} {sent : List (Nat × (SockRef × Bytes))}
    (hconnected : session.state ≠ notConnected) (hreason : retireReason session.state = none)
    (h : (pre ++ some session :: rest).length = maxSessions.toNat)
    (hnext : Concludes maxSessions (pre ++ [some session]) rest sent) :
    Concludes maxSessions pre (some session :: rest) sent := by
  obtain ⟨r, hr, hloop⟩ := hnext
  refine ⟨r, ⟨?_, ?_, ?_⟩, fun fuel hfuel => ?_⟩
  · rw [hr.table]
    simp [claimSlot, hconnected, hreason, Claimed.after]
  · rw [hr.sent]
    simp [claimSlot, hconnected, hreason, Claimed.after, Nat.add_assoc, Nat.add_comm 1]
  · rw [hr.i]
    cases hslot : (claimSlot rest).slot with
    | none =>
      simp [claimSlot, hconnected, hreason, Claimed.after, hslot]
      omega
    | some n =>
      simp [claimSlot, hconnected, hreason, Claimed.after, hslot]
      omega
  · obtain ⟨fuel, rfl⟩ := Nat.exists_eq_succ_of_ne_zero (show fuel ≠ 0 by omega)
    rw [Nat.succ_eq_add_one, loop_pass hconnected hreason h]
    rw [List.length_cons] at hfuel
    exact hloop fuel (by omega)

end Cases

/-- Induction on the slots that are left: only a live session leads on to the next one. -/
theorem loop_ends {maxSessions : UInt32} (pre rest : Table P) (sent : List (Nat × (SockRef × Bytes)))
    (h : (pre ++ rest).length = maxSessions.toNat) : Concludes maxSessions pre rest sent := by
  induction rest generalizing pre with
  | nil => exact concludes_nil sent h
  | cons slot rest ih =>
    cases slot with
    | none => exact concludes_free sent h
    | some session =>
      by_cases hconnected : session.state = notConnected
      · exact concludes_delete hconnected sent h
      · cases hreason : retireReason session.state with
        | some reason => exact concludes_close hconnected hreason sent h
        | none =>
          have hpre : ((pre ++ [some session]) ++ rest).length = maxSessions.toNat := by simpa using h
          exact concludes_pass hconnected hreason h (ih (pre ++ [some session]) hpre)

/-! ## What the walk keeps and where it ends -/

/-- One of the states of the source, from `ERROR` to `ACTIVE`. -/
def Known (session : Session P) : Prop := error ≤ session.state ∧ session.state ≤ 4

/-- A slot whose session is on its way to be active, or is. -/
def Live (slot : Option (Session P)) : Prop := ∃ session, slot = some session ∧ 0 < session.state

/-- A session is deleted where the walk meets it, or live and passed by. -/
theorem claimSlot_cases {session : Session P} (hknown : Known session) (rest : Table P) :
    (session.state ≤ 0 ∧ ∃ sent, (∀ x ∈ sent, x.1 = 0) ∧
      claimSlot (some session :: rest) = { table := none :: rest, sent := sent, slot := some 0 }) ∨
    (0 < session.state ∧ claimSlot (some session :: rest) = (claimSlot rest).after (some session)) := by
  rw [claimSlot]
  by_cases hconnected : session.state = notConnected
  · rw [if_pos hconnected]
    refine .inl ⟨hconnected.le, _, ?_, rfl⟩
    intro x hx
    obtain ⟨y, _, rfl⟩ := List.mem_map.mp hx
    rfl
  rw [if_neg hconnected]
  cases hreason : retireReason session.state with
  | some reason =>
    have hdead : session.state ≤ 0 := by
      rcases retire_some hreason with ⟨hs, _⟩ | ⟨hs, _⟩ | ⟨hs, _⟩ <;> rw [hs] <;> decide
    refine .inl ⟨hdead, _, ?_, rfl⟩
    intro x hx
    obtain ⟨y, _, rfl⟩ := List.mem_map.mp hx
    rfl
  | none =>
    obtain ⟨ht, he, hf⟩ := retire_none hreason
    obtain ⟨hlow, _⟩ := hknown
    have hpos : 0 < session.state := by
      unfold notConnected at hconnected
      unfold timeout at ht
      unfold error at he hlow
      unfold finished at hf
      omega
    exact .inr ⟨hpos, rfl⟩

theorem claimSlot_live {table : Table P} (hknown : ∀ session, some session ∈ table → Known session)
    {k : Nat} {session : Session P} (hk : table[k]? = some (some session)) (hpos : 0 < session.state) :
    (claimSlot table).table[k]? = some (some session) ∧ ∀ x ∈ (claimSlot table).sent, x.1 ≠ k := by
  induction table generalizing k with
  | nil => simp at hk
  | cons slot rest ih =>
    have hrest : ∀ session, some session ∈ rest → Known session :=
      fun session h => hknown session (List.mem_cons_of_mem _ h)
    cases slot with
    | none => exact ⟨hk, by simp [claimSlot]⟩
    | some first =>
      rcases claimSlot_cases (hknown first List.mem_cons_self) rest with
        ⟨hdead, sent, hsent, he⟩ | ⟨_, he⟩
      · rw [he]
        cases k with
        | zero =>
          cases Option.some.inj (Option.some.inj hk)
          omega
        | succ k => exact ⟨hk, fun x hx h => by rw [hsent x hx] at h; cases h⟩
      · rw [he]
        cases k with
        | zero =>
          refine ⟨hk, fun x hx => ?_⟩
          obtain ⟨y, _, rfl⟩ := List.mem_map.mp hx
          exact Nat.succ_ne_zero _
        | succ k =>
          obtain ⟨htable, hsent⟩ := ih hrest hk
          refine ⟨htable, fun x hx => ?_⟩
          obtain ⟨y, hy, rfl⟩ := List.mem_map.mp hx
          exact fun h => hsent y hy (Nat.succ.inj h)

theorem claimSlot_slot {table : Table P} (hknown : ∀ session, some session ∈ table → Known session)
    {i : Nat} (hi : (claimSlot table).slot = some i) :
    i < table.length ∧ (claimSlot table).table[i]? = some none ∧ ¬ ∀ slot ∈ table, Live slot := by
  induction table generalizing i with
  | nil => cases hi
  | cons slot rest ih =>
    have hrest : ∀ session, some session ∈ rest → Known session :=
      fun session h => hknown session (List.mem_cons_of_mem _ h)
    cases slot with
    | none =>
      cases hi
      refine ⟨by simp, rfl, fun h => ?_⟩
      obtain ⟨_, hs, _⟩ := h none List.mem_cons_self
      cases hs
    | some first =>
      rcases claimSlot_cases (hknown first List.mem_cons_self) rest with
        ⟨hdead, sent, hsent, he⟩ | ⟨_, he⟩
      · rw [he] at hi ⊢
        cases hi
        refine ⟨by simp, rfl, fun h => ?_⟩
        obtain ⟨_, hs, hpos⟩ := h (some first) List.mem_cons_self
        cases hs
        omega
      · rw [he] at hi ⊢
        obtain ⟨j, hj, rfl⟩ := Option.map_eq_some_iff.mp hi
        obtain ⟨hlt, hfree, hlive⟩ := ih hrest hj
        exact ⟨by rw [List.length_cons]; omega, hfree,
          fun h => hlive fun slot hs => h slot (List.mem_cons_of_mem _ hs)⟩

theorem claimSlot_full {table : Table P} (hknown : ∀ session, some session ∈ table → Known session)
    (hi : (claimSlot table).slot = none) :
    (claimSlot table).table = table ∧ (claimSlot table).sent = [] ∧ ∀ slot ∈ table, Live slot := by
  induction table with
  | nil => exact ⟨rfl, rfl, by simp⟩
  | cons slot rest ih =>
    have hrest : ∀ session, some session ∈ rest → Known session :=
      fun session h => hknown session (List.mem_cons_of_mem _ h)
    cases slot with
    | none => cases hi
    | some first =>
      rcases claimSlot_cases (hknown first List.mem_cons_self) rest with
        ⟨_, sent, _, he⟩ | ⟨hpos, he⟩
      · rw [he] at hi
        cases hi
      · rw [he] at hi ⊢
        obtain ⟨htable, hsent, hlive⟩ := ih hrest (Option.map_eq_none_iff.mp hi)
        refine ⟨congrArg (some first :: ·) htable, by simp [Claimed.after, hsent], ?_⟩
        intro slot hs
        rcases List.mem_cons.mp hs with rfl | hs
        · exact ⟨first, rfl, hpos⟩
        · exact hlive slot hs

/-! ## The search -/

/-- What the search has to come to: the slots of live sessions untouched, and the new session in
a free slot, or the refusal where every slot is live. -/
structure Searched (maxSessions : UInt32) (table : Table P) (sid : UInt64) (r : Search P) : Prop where
  live : ∀ (k : Nat) (session : Session P), table[k]? = some (some session) → 0 < session.state →
    r.table[k]? = some (some session) ∧ ∀ x ∈ r.sent, x.1 ≠ k
  placed : r.i < maxSessions → r.table[r.i.toNat]? = some none ∧
    place maxSessions sid r = .ok {
      table := r.table.set r.i.toNat (some (Session.new clientRef sid))
      sent := r.sent
      refusal := none }
  refused : ¬ r.i < maxSessions → r.i = maxSessions ∧
    place maxSessions sid r = .ok { table := table, sent := [], refusal := some (refusal sid) }
  full : r.i = maxSessions ↔ ∀ slot ∈ table, Live slot

section Ended

variable {maxSessions : UInt32} {table : Table P} {r : Search P}

theorem ends_index (hr : Ends [] table [] r) : r.i.toNat = (claimSlot table).slot.getD table.length := by
  rw [hr.i]
  simp

theorem ends_sent (hr : Ends [] table [] r) : r.sent = (claimSlot table).sent := by
  rw [hr.sent]
  simp

theorem ends_placed (hr : Ends [] table [] r) (hlen : table.length = maxSessions.toNat)
    (hknown : ∀ session, some session ∈ table → Known session) (sid : UInt64)
    (hlt : r.i < maxSessions) :
    r.table[r.i.toNat]? = some none ∧ place maxSessions sid r = .ok {
      table := r.table.set r.i.toNat (some (Session.new clientRef sid))
      sent := r.sent
      refusal := none } := by
  have hi := ends_index hr
  rw [UInt32.lt_iff_toNat_lt, hi, ← hlen] at hlt
  cases hslot : (claimSlot table).slot with
  | none =>
    rw [hslot] at hlt
    exact absurd hlt (lt_irrefl _)
  | some i =>
    rw [hslot, Option.getD_some] at hi
    obtain ⟨hin, hfree, _⟩ := claimSlot_slot hknown hslot
    have hat : r.table[r.i.toNat]? = some none := by
      rw [hr.table, hi]
      exact hfree
    refine ⟨hat, ?_⟩
    have hle : ¬ maxSessions ≤ r.i := by
      rw [UInt32.le_iff_toNat_le, hi, ← hlen]
      omega
    rw [place, if_neg hle, slotAt, hat]
    rfl

theorem ends_refused (hr : Ends [] table [] r) (hlen : table.length = maxSessions.toNat)
    (hknown : ∀ session, some session ∈ table → Known session) (sid : UInt64)
    (hlt : ¬ r.i < maxSessions) : r.i = maxSessions ∧
      place maxSessions sid r = .ok { table := table, sent := [], refusal := some (refusal sid) } := by
  have hi := ends_index hr
  rw [UInt32.lt_iff_toNat_lt, hi, ← hlen] at hlt
  cases hslot : (claimSlot table).slot with
  | some i =>
    rw [hslot] at hlt
    exact absurd (claimSlot_slot hknown hslot).1 hlt
  | none =>
    rw [hslot, Option.getD_none, hlen] at hi
    obtain ⟨hkept, hquiet, _⟩ := claimSlot_full hknown hslot
    have hend : r.i = maxSessions := UInt32.toNat_inj.mp hi
    have htable : r.table = table := hr.table.trans hkept
    refine ⟨hend, ?_⟩
    rw [place, if_pos (hend ▸ UInt32.le_refl _), htable, ends_sent hr, hquiet]
    rfl

theorem ends_full_iff (hr : Ends [] table [] r) (hlen : table.length = maxSessions.toNat)
    (hknown : ∀ session, some session ∈ table → Known session) :
    r.i = maxSessions ↔ ∀ slot ∈ table, Live slot := by
  rw [← UInt32.toNat_inj, ends_index hr, ← hlen]
  cases hslot : (claimSlot table).slot with
  | none => exact ⟨fun _ => (claimSlot_full hknown hslot).2.2, fun _ => rfl⟩
  | some i =>
    obtain ⟨hin, _, hlive⟩ := claimSlot_slot hknown hslot
    exact ⟨fun h => absurd h hin.ne, fun h => absurd h hlive⟩

end Ended

/-- The search ends after at most two passes more than there are slots, and never faults. -/
theorem slot_search (maxSessions : UInt32) (table : Table P) (sid : UInt64)
    (hlen : table.length = maxSessions.toNat)
    (hknown : ∀ session, some session ∈ table → Known session) :
    ∃ r, Searched maxSessions table sid r ∧
      ∀ fuel, table.length + 2 ≤ fuel → loop maxSessions fuel (Search.start table) = .ok r := by
  obtain ⟨r, hr, hloop⟩ := loop_ends [] table [] hlen
  refine ⟨r, ⟨?_, ?_, ?_, ?_⟩, hloop⟩
  · intro k session hk hpos
    rw [hr.table, ends_sent hr]
    exact claimSlot_live hknown hk hpos
  · exact ends_placed hr hlen hknown sid
  · exact ends_refused hr hlen hknown sid
  · exact ends_full_iff hr hlen hknown

/-- A finished session in front of a live one makes room: the counter wraps on the way. -/
theorem slot_search_finished :
    ∃ r, Searched 2 [some { kcpSession := none, player := none, state := finished },
        some (Session.new (P := Unit) clientRef 5)] 7 r ∧
      ∀ fuel, 4 ≤ fuel → loop 2 fuel (Search.start
        [some { kcpSession := none, player := none, state := finished },
          some (Session.new clientRef 5)]) = .ok r :=
  slot_search 2 _ 7 rfl (by simp [Known, Session.new, finished, tokenWait, error])

end Yagips.Server.SlotSearch
