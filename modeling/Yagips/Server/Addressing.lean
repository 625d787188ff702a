import Yagips.Lib.Run
import Yagips.Server.Main

/-!
# Where a session's datagrams go

Every KCP object keeps a pointer to the same static address, and every datagram
received overwrites it. So a session's datagrams go to whoever was heard last. A run
is observed together with two facts about its inputs: the source of the latest
datagram, and for each slot the source of the handshake that opened its session.
-/
namespace Yagips.Server.Addressing

open Yagips.Lib Yagips.Lib.Run
open Yagips.Server.Sessions
open Yagips.Server.Dispatch
open Yagips.Server.Main

variable {P : Type}

/-! ## Every session points at the static address -/

def Static (s : Session P) : Prop := ∀ k, s.kcpSession = some k → k.client = clientRef

def AllStatic (table : Table P) : Prop := ∀ s, some s ∈ table → Static s

theorem allStatic_nil : AllStatic ([] : Table P) := by
  intro s hs
  cases hs

theorem allStatic_none {rest : Table P} : AllStatic (none :: rest) ↔ AllStatic rest := by
  simp [AllStatic]

theorem allStatic_some {s : Session P} {rest : Table P} :
    AllStatic (some s :: rest) ↔ Static s ∧ AllStatic rest := by
  simp [AllStatic]

theorem allStatic_set {table : Table P} (h : AllStatic table) {s : Session P} (hs : Static s)
    (i : Nat) : AllStatic (table.set i (some s)) := by
  intro s' hs'
  rcases List.mem_or_eq_of_mem_set hs' with hold | hnew
  · exact h s' hold
  · cases hnew
    exact hs

theorem static_new (sid : UInt64) : Static (Session.new clientRef sid : Session P) := by
  rintro k ⟨rfl⟩
  rfl

theorem static_close (s : Session P) (reason : UInt32) : Static (s.close reason).session := by
  rintro k ⟨⟩

theorem static_push {s : Session P} (h : Static s) (pkt : Bytes) : Static (Session.push s pkt) := by
  intro k hk
  obtain ⟨k', hk', rfl⟩ := Option.map_eq_some_iff.mp hk
  exact h k' hk'

/-- The close packet of such a session goes to the static address. -/
theorem close_sent_static {s : Session P} (h : Static s) (reason : UInt32) :
    ∀ x ∈ (s.close reason).sent, x.1 = clientRef := by
  intro x hx
  obtain ⟨k, hk, hc⟩ := Session.close_sent hx
  exact hc ▸ h k hk

theorem dispatchLoop_static (pkt : Bytes) (sid : UInt64) {table : Table P} (h : AllStatic table) :
    AllStatic (dispatchLoop pkt sid table).table ∧
      ∀ i c, (dispatchLoop pkt sid table).stop = some (i, .closed c) →
        ∀ x ∈ c.sent, x.1 = clientRef := by
  induction table generalizing sid with
  | nil => exact ⟨allStatic_nil, fun i c hc => by cases hc⟩
  | cons slot rest ih =>
    have hskip : ∀ sid', AllStatic rest → ∀ i c,
        ((dispatchLoop pkt sid' rest).after slot).stop = some (i, .closed c) →
        ∀ x ∈ c.sent, x.1 = clientRef := by
      intro sid' hr i c hc
      obtain ⟨y, hy, he⟩ := Option.map_eq_some_iff.mp hc
      obtain ⟨-, hclosed⟩ := Prod.mk.inj he
      exact (ih sid' hr).2 y.1 c (hy.trans (by rw [← hclosed]))
    cases slot with
    | none =>
      rw [allStatic_none] at h
      exact ⟨allStatic_none.mpr (ih sid h).1, hskip sid h⟩
    | some s =>
      obtain ⟨hs, hr⟩ := allStatic_some.mp h
      simp only [dispatchLoop]
      cases visit (Handshake.read pkt) sid s with
      | skip sid' => exact ⟨allStatic_some.mpr ⟨hs, (ih sid' hr).1⟩, hskip sid' hr⟩
      | push => exact ⟨allStatic_some.mpr ⟨static_push hs pkt, hr⟩, fun i c hc => by cases hc⟩
      | close =>
        refine ⟨allStatic_some.mpr ⟨static_close s _, hr⟩, fun i c hc => ?_⟩
        cases hc
        exact close_sent_static hs _

theorem claimSlot_static {table : Table P} (h : AllStatic table) :
    AllStatic (claimSlot table).table ∧ ∀ x ∈ (claimSlot table).sent, x.2.1 = clientRef := by
  induction table with
  | nil => exact ⟨allStatic_nil, fun x hx => by cases hx⟩
  | cons slot rest ih =>
    cases slot with
    | none => exact ⟨h, fun x hx => by cases hx⟩
    | some s =>
      obtain ⟨hs, hr⟩ := allStatic_some.mp h
      have hfree : AllStatic (none :: rest) := allStatic_none.mpr hr
      unfold claimSlot
      split
      · refine ⟨hfree, fun x hx => ?_⟩
        obtain ⟨y, hy, rfl⟩ := List.mem_map.mp hx
        exact close_sent_static hs 12 y (Option.mem_toList.mp hy)
      · cases retireReason s.state with
        | none =>
          refine ⟨allStatic_some.mpr ⟨hs, (ih hr).1⟩, fun x hx => ?_⟩
          obtain ⟨y, hy, rfl⟩ := List.mem_map.mp hx
          exact (ih hr).2 y hy
        | some reason =>
          refine ⟨hfree, fun x hx => ?_⟩
          obtain ⟨y, hy, rfl⟩ := List.mem_map.mp hx
          rcases List.mem_append.mp hy with h1 | h2
          · exact close_sent_static hs reason y (Option.mem_toList.mp h1)
          · exact close_sent_static (static_close s reason) 12 y (Option.mem_toList.mp h2)

/-! ## One step -/

def heardAfter (heard : SockAddr) : Event P → SockAddr
  | .recv src _ _ => src
  | _ => heard

/-- The static address holds `heard`, and every session points at it. -/
structure Addressed (gs : Gameserver P) (heard : SockAddr) : Prop where
  cell : gs.memory clientRef = heard
  static : AllStatic gs.sessionList

/-- A step whose datagrams all go to `heard` and which leaves it in the static address. -/
structure GoesTo (r : Stepped P) (heard : SockAddr) : Prop where
  kept : Addressed r.server heard
  dest : ∀ x ∈ r.sent, x.dest = heard

theorem goesTo_quiet {gs : Gameserver P} {heard : SockAddr} (h : Addressed gs heard) :
    GoesTo (quiet gs) heard := ⟨h, fun x hx => by cases hx⟩

theorem dest_of_ref {gs : Gameserver P} {heard : SockAddr} (h : Addressed gs heard) {slot : Nat}
    {x : SockRef × Bytes} (hx : x.1 = clientRef) : (sendRaw gs.memory slot x).dest = heard := by
  change gs.memory x.1 = heard
  rw [hx, h.cell]

theorem goesTo_accept {gs : Gameserver P} {heard : SockAddr} (h : Addressed gs heard) (pkt : Bytes)
    (env : Env) : GoesTo (accept gs pkt env) heard := by
  unfold accept
  split
  · obtain ⟨htable, hsent⟩ := claimSlot_static h.static
    have hdest : ∀ x ∈ (claimSlot gs.sessionList).sent.map fun x => sendRaw gs.memory x.1 x.2,
        x.dest = heard := by
      intro x hx
      obtain ⟨y, hy, rfl⟩ := List.mem_map.mp hx
      exact dest_of_ref h (hsent y hy)
    cases hslot : (claimSlot gs.sessionList).slot with
    | none =>
      simp only [hslot]
      exact ⟨⟨h.cell, htable⟩, hdest⟩
    | some i =>
      simp only [hslot]
      exact ⟨⟨h.cell, allStatic_set htable (static_new env.sid) i⟩, hdest⟩
  · exact goesTo_quiet h

theorem goesTo_handle {gs : Gameserver P} {heard : SockAddr} (h : Addressed gs heard) (pkt : Bytes)
    (env : Env) : GoesTo (handle gs pkt env) heard := by
  unfold handle
  split
  · exact goesTo_quiet h
  · obtain ⟨htable, hclosed⟩ := dispatchLoop_static pkt (hostSid pkt) h.static
    have hd : Addressed { gs with sessionList := (dispatch pkt gs.sessionList).table } heard :=
      ⟨h.cell, htable⟩
    cases hstop : (dispatch pkt gs.sessionList).stop with
    | none =>
      simp only [hstop]
      exact goesTo_accept hd pkt env
    | some x =>
      obtain ⟨i, e⟩ := x
      cases e with
      | pushed =>
        simp only [hstop]
        exact goesTo_quiet hd
      | closed c =>
        simp only [hstop]
        refine ⟨hd, fun x hx => ?_⟩
        obtain ⟨y, hy, rfl⟩ := List.mem_map.mp hx
        exact dest_of_ref h (hclosed i c hstop y (Option.mem_toList.mp hy))

theorem goesTo_onSession {gs : Gameserver P} {heard : SockAddr} (h : Addressed gs heard) (slot : Nat)
    (act : Session P → Session P × Option (SockRef × Bytes))
    (hact : ∀ s, Static s → Static (act s).1 ∧ ∀ x ∈ (act s).2, x.1 = clientRef) :
    GoesTo (onSession gs slot act) heard := by
  unfold onSession
  split
  · rename_i s hs
    obtain ⟨hkeep, hsent⟩ := hact s (h.static s (List.mem_of_getElem? hs))
    refine ⟨⟨h.cell, allStatic_set h.static hkeep slot⟩, fun x hx => ?_⟩
    obtain ⟨y, hy, rfl⟩ := List.mem_map.mp hx
    exact dest_of_ref h (hsent y (Option.mem_toList.mp hy))
  · exact goesTo_quiet h

theorem stopFrom_dest {gs : Gameserver P} {heard : SockAddr} (h : Addressed gs heard)
    {table : Table P} (ht : AllStatic table) (i : Nat) :
    ∀ x ∈ stopFrom gs.memory i table, x.dest = heard := by
  induction table generalizing i with
  | nil => intro x hx; cases hx
  | cons slot rest ih =>
    intro x hx
    cases slot with
    | none => exact ih (allStatic_none.mp ht) (i + 1) x hx
    | some s =>
      obtain ⟨hs, hr⟩ := allStatic_some.mp ht
      rcases List.mem_append.mp hx with hhere | hlater
      · obtain ⟨y, hy, rfl⟩ := List.mem_map.mp hhere
        apply dest_of_ref h
        rcases List.mem_append.mp hy with h1 | h2
        · exact close_sent_static hs 6 y (Option.mem_toList.mp h1)
        · exact close_sent_static (static_close s 6) 12 y (Option.mem_toList.mp h2)
      · exact ih hr (i + 1) x hlater

/-- Whatever a step sends for a session goes to the source of the latest datagram. -/
theorem goesTo_step {gs : Gameserver P} {heard : SockAddr} (h : Addressed gs heard) (e : Event P) :
    GoesTo (step gs e) (heardAfter heard e) := by
  cases e with
  | recv src pkt env =>
    have hcell : Addressed { gs with memory := Function.update gs.memory clientRef src } src :=
      ⟨Function.update_self clientRef src gs.memory, h.static⟩
    exact goesTo_handle hcell pkt env
  | output slot msg =>
    refine goesTo_onSession h slot _ fun s hs => ⟨hs, fun x hx => ?_⟩
    obtain ⟨k, hk, rfl⟩ := Option.map_eq_some_iff.mp hx
    exact hs k hk
  | close slot reason =>
    exact goesTo_onSession h slot _ fun s hs => ⟨static_close s reason, close_sent_static hs reason⟩
  | setState slot state =>
    exact goesTo_onSession h slot _ fun s hs => ⟨hs, fun x hx => by cases hx⟩
  | setPlayer slot player =>
    exact goesTo_onSession h slot _ fun s hs => ⟨hs, fun x hx => by cases hx⟩
  | stop =>
    refine ⟨⟨h.cell, fun s hs => ?_⟩, stopFrom_dest h h.static 0⟩
    obtain ⟨x, -, hx⟩ := List.mem_map.mp hs
    cases hx

/-! ## Runs -/

/-- A server observed with the history of its inputs. -/
structure Traced (P : Type) where
  server : Gameserver P
  owner : Nat → SockAddr
  heard : SockAddr

/-- A datagram sent for a session, with the address that opened the session and the
source of the latest datagram received by then. -/
structure Observed where
  sent : Sent
  owner : SockAddr
  heard : SockAddr
  deriving DecidableEq

def observe (t : Traced P) (e : Event P) : Traced P × List Observed :=
  let r := step t.server e
  let heard := heardAfter t.heard e
  let owner := match r.opened with
    | some i => Function.update t.owner i heard
    | none => t.owner
  ({ server := r.server, owner := owner, heard := heard },
    r.sent.map fun x => { sent := x, owner := t.owner x.slot, heard := heard })

def initial (maxSessions : Nat) : Traced P where
  server := start maxSessions
  owner := fun _ => SockAddr.zero
  heard := SockAddr.zero

/-- Everything sent through `sendRaw` in a run of a server with that many slots. -/
def observed (maxSessions : Nat) (events : List (Event P)) : List Observed :=
  outputs observe (initial maxSessions) events

theorem observe_keeps (t : Traced P) (e : Event P) (h : Addressed t.server t.heard) :
    Addressed (observe t e).1.server (observe t e).1.heard := (goesTo_step h e).kept

theorem observe_dest (t : Traced P) (e : Event P) (h : Addressed t.server t.heard) :
    ∀ o ∈ (observe t e).2, o.sent.dest = o.heard := by
  intro o ho
  obtain ⟨x, hx, rfl⟩ := List.mem_map.mp ho
  exact (goesTo_step h e).dest x hx

theorem initial_addressed (maxSessions : Nat) :
    Addressed (initial maxSessions : Traced P).server (initial maxSessions : Traced P).heard := by
  refine ⟨rfl, fun s hs => ?_⟩
  cases (List.mem_replicate.mp hs).2

/-- In every run, what is sent for any session goes to the latest correspondent. -/
theorem observed_dest (maxSessions : Nat) (events : List (Event P)) :
    ∀ o ∈ observed maxSessions events, o.sent.dest = o.heard :=
  forall_outputs observe_keeps observe_dest _ events (initial_addressed maxSessions)

theorem replies_to_owner_iff (maxSessions : Nat) (events : List (Event P)) :
    (∀ o ∈ observed maxSessions events, o.sent.dest = o.owner) ↔
      ∀ o ∈ observed maxSessions events, o.heard = o.owner := by
  have hdest := observed_dest maxSessions events
  constructor
  · intro h o ho
    exact (hdest o ho).symm.trans (h o ho)
  · intro h o ho
    exact (hdest o ho).trans (h o ho)

def clientA : SockAddr := ⟨List.replicate 15 0 ++ [1], 22101⟩
def clientB : SockAddr := ⟨List.replicate 15 0 ++ [2], 22101⟩

/-- A opens the only session, B sends one stray byte, and the session's KCP speaks. -/
def strayByte : List (Event Unit) :=
  [.recv clientA (Handshake.naming 0xff 0 1234567890 0xffffffff).write ⟨7, true⟩,
   .recv clientB [0] ⟨0, true⟩,
   .output 0 [1, 2, 3]]

theorem replies_to_stranger : ¬ ∀ (maxSessions : Nat) (events : List (Event Unit)),
    ∀ o ∈ observed maxSessions events, o.sent.dest = o.owner := by
  intro h
  have hb : (observed 1 strayByte).map (fun o => (o.sent.dest, o.owner)) = [(clientB, clientA)] := by
    decide
  obtain ⟨o, ho, he⟩ := List.mem_map.mp (hb ▸ List.mem_singleton_self (clientB, clientA))
  obtain ⟨hd, ho'⟩ := Prod.mk.inj he
  have hab := hd.symm.trans ((h 1 strayByte o ho).trans ho')
  exact absurd hab (by decide)

end Yagips.Server.Addressing
