import Yagips.Server.Dispatch

/-!
# Which session a datagram reaches

A KCP datagram reaches its session only from the first visible slot, or when its two
id encodings coincide. A shutdown datagram always closes the first visible session.
Both facts follow from what one pass can do, by induction along the table.
-/
namespace Yagips.Server.Routing

open Yagips.Lib
open Yagips.Server.Sessions
open Yagips.Server.Dispatch

variable {P : Type}

/-- The ids of the connected sessions, in table order. -/
def connectedIds (table : Table P) : List UInt64 :=
  table.filterMap fun slot => (slot.bind visible).map (·.conv)

@[simp] theorem connectedIds_nil : connectedIds ([] : Table P) = [] := rfl

@[simp] theorem connectedIds_none (rest : Table P) : connectedIds (none :: rest) = connectedIds rest := rfl

theorem connectedIds_hidden {s : Session P} (h : visible s = none) (rest : Table P) :
    connectedIds (some s :: rest) = connectedIds rest := by
  simp [connectedIds, h]

theorem connectedIds_visible {s : Session P} {k : KcpSession} (h : visible s = some k)
    (rest : Table P) : connectedIds (some s :: rest) = k.conv :: connectedIds rest := by
  simp [connectedIds, h]

theorem connectedIds_append (pre post : Table P) :
    connectedIds (pre ++ post) = connectedIds pre ++ connectedIds post :=
  List.filterMap_append

/-- A used slot splits the table around it. -/
theorem split_at {table : Table P} {i : Nat} {s : Session P} (h : table[i]? = some (some s)) :
    table = table.take i ++ some s :: table.drop (i + 1) ∧ (table.take i).length = i := by
  obtain ⟨hi, he⟩ := List.getElem?_eq_some_iff.mp h
  refine ⟨?_, ?_⟩
  · rw [← he, List.getElem_cons_drop, List.take_append_drop]
  · rw [List.length_take]
    omega

/-! ## KCP datagrams -/

/-- The datagram reaches the session in slot `i`, no other session, and closes none. -/
def Routed (pkt : Bytes) (table : Table P) (i : Nat) (s : Session P) : Prop :=
  dispatch pkt table =
    { table := table.set i (some (Session.push s pkt)), stop := some (i, .pushed) }

/-- `Routed`, for the loop entered with any id and the slot given by what surrounds it. -/
def Reaches (pkt : Bytes) (sid : UInt64) (pre post : Table P) (s : Session P) : Prop :=
  dispatchLoop pkt sid (pre ++ some s :: post) =
    { table := pre ++ some (Session.push s pkt) :: post, stop := some (pre.length, .pushed) }

/-- Skipping a slot changes neither side of the question. -/
theorem reaches_after {pkt : Bytes} {sid sid' : UInt64} {slot : Option (Session P)}
    {pre post : Table P} {s : Session P}
    (h : dispatchLoop pkt sid (slot :: (pre ++ some s :: post)) =
      (dispatchLoop pkt sid' (pre ++ some s :: post)).after slot) :
    Reaches pkt sid (slot :: pre) post s ↔ Reaches pkt sid' pre post s := by
  unfold Reaches
  rw [List.cons_append, h]
  generalize dispatchLoop pkt sid' (pre ++ some s :: post) = d
  obtain ⟨table, stop⟩ := d
  cases stop with
  | none => simp [Dispatched.after]
  | some x =>
    obtain ⟨n, e⟩ := x
    simp [Dispatched.after]

theorem not_reaches_of_stop {pkt : Bytes} {sid : UInt64} {pre post : Table P} {s : Session P}
    {e : Stop P} (h : (dispatchLoop pkt sid (pre ++ some s :: post)).stop = some (0, e))
    (hne : pre ≠ []) : ¬ Reaches pkt sid pre post s := by
  intro hr
  unfold Reaches at hr
  rw [hr] at h
  cases pre with
  | nil => exact hne rfl
  | cons slot pre => cases h

/-- Once the handshake id is the one looked for, it alone decides. -/
theorem reaches_replaced {pkt : Bytes} {s : Session P} {k : KcpSession} (hk : visible s = some k)
    (hs : ¬ (Handshake.read pkt).isShutdown) (pre post : Table P)
    (hpre : k.conv ∉ connectedIds pre) :
    Reaches pkt (Handshake.read pkt).sid pre post s ↔ (Handshake.read pkt).sid = k.conv := by
  induction pre with
  | nil =>
    by_cases he : (Handshake.read pkt).sid = k.conv
    · rw [he]
      exact iff_of_true (loop_match hk) rfl
    · refine iff_of_false ?_ he
      unfold Reaches
      rw [List.nil_append, loop_other hk (Ne.symm he) hs]
      generalize dispatchLoop pkt (Handshake.read pkt).sid post = d
      obtain ⟨table, stop⟩ := d
      cases stop <;> simp [Dispatched.after]
  | cons slot pre ih =>
    cases slot with
    | none => exact (reaches_after rfl).trans (ih hpre)
    | some s' =>
      cases hv : visible s' with
      | none =>
        rw [connectedIds_hidden hv] at hpre
        exact (reaches_after (loop_hidden hv)).trans (ih hpre)
      | some k' =>
        rw [connectedIds_visible hv, List.mem_cons, not_or] at hpre
        by_cases he : k'.conv = (Handshake.read pkt).sid
        · have hstop : (dispatchLoop pkt (Handshake.read pkt).sid (some s' :: (pre ++ some s :: post))).stop
              = some (0, .pushed) := by rw [← he, loop_match hv]
          refine iff_of_false (not_reaches_of_stop hstop (List.cons_ne_nil _ _)) ?_
          rw [← he]
          exact fun h => hpre.1 h.symm
        · exact (reaches_after (loop_other hv he hs)).trans (ih hpre.2)

theorem reaches_iff {pkt : Bytes} {s : Session P} {k : KcpSession} (hk : visible s = some k)
    (pre post : Table P) (hpre : k.conv ∉ connectedIds pre) :
    Reaches pkt k.conv pre post s ↔ connectedIds pre = [] ∨
      (¬ (Handshake.read pkt).isShutdown ∧ (Handshake.read pkt).sid = k.conv) := by
  induction pre with
  | nil => exact iff_of_true (loop_match hk) (.inl rfl)
  | cons slot pre ih =>
    cases slot with
    | none => exact (reaches_after rfl).trans (ih hpre)
    | some s' =>
      cases hv : visible s' with
      | none =>
        rw [connectedIds_hidden hv] at hpre ⊢
        exact (reaches_after (loop_hidden hv)).trans (ih hpre)
      | some k' =>
        rw [connectedIds_visible hv] at hpre ⊢
        rw [List.mem_cons, not_or] at hpre
        have hne : k'.conv ≠ k.conv := fun h => hpre.1 h.symm
        by_cases hs : (Handshake.read pkt).isShutdown
        · have hstop : (dispatchLoop pkt k.conv (some s' :: (pre ++ some s :: post))).stop =
              some (0, .closed (s'.close (Handshake.read pkt).cmd)) := by rw [loop_shutdown hv hne hs]
          refine iff_of_false (not_reaches_of_stop hstop (List.cons_ne_nil _ _)) ?_
          simp [hs]
        · rw [reaches_after (loop_other hv hne hs), reaches_replaced hk hs pre post hpre.2]
          simp [hs]

theorem routed_iff {pkt : Bytes} {table : Table P} {i : Nat} {s : Session P} {k : KcpSession}
    (hdistinct : (connectedIds table).Nodup)
    (hi : table[i]? = some (some s)) (hk : visible s = some k) (hid : hostSid pkt = k.conv) :
    Routed pkt table i s ↔ connectedIds (table.take i) = [] ∨
      (¬ (Handshake.read pkt).isShutdown ∧ (Handshake.read pkt).sid = k.conv) := by
  obtain ⟨hsplit, hl⟩ := split_at hi
  have hset : table.set i (some (Session.push s pkt)) =
      table.take i ++ some (Session.push s pkt) :: table.drop (i + 1) := by
    rw [List.set_eq_take_append_cons_drop, if_pos (List.getElem?_eq_some_iff.mp hi).1]
  have hreach : Routed pkt table i s ↔
      Reaches pkt k.conv (table.take i) (table.drop (i + 1)) s := by
    unfold Routed Reaches dispatch
    rw [hset, hid, hl, ← hsplit]
  have hpre : k.conv ∉ connectedIds (table.take i) := by
    intro hmem
    rw [hsplit, connectedIds_append, connectedIds_visible hk, List.nodup_append] at hdistinct
    exact hdistinct.2.2 _ hmem _ (List.mem_cons_self ..) rfl
  exact hreach.trans (reaches_iff hk _ _ hpre)

/-! ### Two sessions, the datagram for the second -/

def firstOfTwo : Session Unit := Session.new 0 1

def secondOfTwo : Session Unit := Session.new 0 2

/-- A KCP header for session 2. -/
def datagramForSecond : Bytes := 2 :: List.replicate 27 0

theorem routed_fails : ¬ ∀ (pkt : Bytes) (table : Table Unit) (i : Nat) (s : Session Unit)
    (k : KcpSession), 20 ≤ pkt.length → (connectedIds table).Nodup → table[i]? = some (some s) →
    visible s = some k → hostSid pkt = k.conv → Routed pkt table i s := by
  intro h
  have hr := h datagramForSecond [some firstOfTwo, some secondOfTwo] 1 secondOfTwo
    { conv := 2, client := 0 } (by decide) (by decide) (by decide) (by decide) (by decide)
  have hstop := congrArg Dispatched.stop hr
  exact absurd hstop (by decide)

/-- The same datagram is routed when its session is the first connected one. -/
theorem routed_second_alone :
    Routed datagramForSecond [none, some secondOfTwo] 1 secondOfTwo :=
  (routed_iff (k := { conv := 2, client := 0 }) (by decide) (by decide) (by decide) (by decide)).mpr
    (.inl (by decide))

/-! ## Shutdown datagrams -/

/-- The ids a shutdown message may mean: the one it spells, or, with the high half
unset, any id with its low half. -/
def Names (hs : Handshake) (id : UInt64) : Prop :=
  id = hs.sid ∨ (hs.sid2 = 0 ∧ id.toUInt32 = hs.sid1)

instance (hs : Handshake) (id : UInt64) : Decidable (Names hs id) :=
  inferInstanceAs (Decidable (_ ∨ _))

/-- At most one session is closed, it is one the message names, and every other slot
keeps its session as it was. -/
def ClosesOnlyNamed (pkt : Bytes) (table : Table P) : Prop :=
  dispatch pkt table = { table := table, stop := none } ∨
  ∃ i s k, table[i]? = some (some s) ∧ visible s = some k ∧ Names (Handshake.read pkt) k.conv ∧
    dispatch pkt table =
      { table := table.set i (some (s.close (Handshake.read pkt).cmd).session)
        stop := some (i, .closed (s.close (Handshake.read pkt).cmd)) }

/-- Nothing is connected and nothing happens, or the first connected session is closed. -/
def ClosesFirst (pkt : Bytes) (sid : UInt64) (table : Table P) : Prop :=
  (connectedIds table = [] ∧ dispatchLoop pkt sid table = { table := table, stop := none }) ∨
  ∃ i s k, table[i]? = some (some s) ∧ visible s = some k ∧
    (connectedIds table).head? = some k.conv ∧ dispatchLoop pkt sid table =
      { table := table.set i (some (s.close (Handshake.read pkt).cmd).session)
        stop := some (i, .closed (s.close (Handshake.read pkt).cmd)) }

theorem closesFirst_after {pkt : Bytes} {sid : UInt64} {slot : Option (Session P)} {rest : Table P}
    (hids : connectedIds (slot :: rest) = connectedIds rest)
    (hloop : dispatchLoop pkt sid (slot :: rest) = (dispatchLoop pkt sid rest).after slot)
    (h : ClosesFirst pkt sid rest) : ClosesFirst pkt sid (slot :: rest) := by
  unfold ClosesFirst
  rw [hids, hloop]
  rcases h with ⟨he, hr⟩ | ⟨i, s, k, hi, hk, hh, hr⟩
  · exact .inl ⟨he, by rw [hr]; rfl⟩
  · exact .inr ⟨i + 1, s, k, hi, hk, hh, by rw [hr]; rfl⟩

/-- A shutdown datagram closes the first visible session, whatever its id. -/
theorem loop_closes_first {pkt : Bytes} {sid : UInt64} (hs : (Handshake.read pkt).isShutdown)
    (table : Table P) (hsid : sid ∉ connectedIds table) : ClosesFirst pkt sid table := by
  induction table with
  | nil => exact .inl ⟨rfl, rfl⟩
  | cons slot rest ih =>
    cases slot with
    | none => exact closesFirst_after rfl rfl (ih hsid)
    | some s =>
      cases hv : visible s with
      | none =>
        rw [connectedIds_hidden hv] at hsid
        exact closesFirst_after (connectedIds_hidden hv rest) (loop_hidden hv) (ih hsid)
      | some k =>
        rw [connectedIds_visible hv, List.mem_cons, not_or] at hsid
        exact .inr ⟨0, s, k, rfl, hv, by rw [connectedIds_visible hv]; rfl,
          loop_shutdown hv (fun h => hsid.1 h.symm) hs⟩

theorem closes_only_named_iff {pkt : Bytes} {table : Table P}
    (hs : (Handshake.read pkt).isShutdown) (hsid : hostSid pkt ∉ connectedIds table) :
    ClosesOnlyNamed pkt table ↔
      ∀ id, (connectedIds table).head? = some id → Names (Handshake.read pkt) id := by
  rcases loop_closes_first hs table hsid with ⟨hnone, hr⟩ | ⟨i, s, k, hi, hk, hh, hr⟩
  · refine iff_of_true (.inl hr) ?_
    rw [hnone]
    intro id hid
    cases hid
  · rw [hh]
    constructor
    · rintro (hsame | ⟨j, s', k', hj, hk', hn, hclosed⟩) id hid
      · have hstop := congrArg Dispatched.stop (hr.symm.trans hsame)
        cases hstop
      · have hstop := congrArg Dispatched.stop (hr.symm.trans hclosed)
        obtain ⟨rfl, -⟩ := Prod.mk.inj (Option.some.inj hstop)
        obtain rfl := Option.some.inj (Option.some.inj (hi.symm.trans hj))
        rw [hk] at hk'
        cases hk'
        cases hid
        exact hn
    · intro h
      exact .inr ⟨i, s, k, hi, hk, h _ rfl, hr⟩

/-- A shutdown message for the session with id `0x300000004`. -/
def shutdownForAbsent : Bytes := (Handshake.naming 0x194 0x300000004 0 0x19419494).write

theorem closes_unnamed : ¬ ∀ (pkt : Bytes) (table : Table Unit), 20 ≤ pkt.length →
    (Handshake.read pkt).isShutdown → (connectedIds table).Nodup → hostSid pkt ∉ connectedIds table →
    ClosesOnlyNamed pkt table := by
  intro h
  have hc := h shutdownForAbsent [some firstOfTwo] (by decide) (by decide) (by decide) (by decide)
  rcases hc with hsame | ⟨i, s, k, hi, hk, hn, -⟩
  · exact absurd (congrArg Dispatched.stop hsame) (by decide)
  · match i, hi with
    | 0, hi =>
      obtain rfl := Option.some.inj (Option.some.inj hi)
      cases hk
      exact absurd hn (by decide)

/-- A shutdown message for the only connected session closes it and nothing else. -/
theorem closes_named_alone : ClosesOnlyNamed
    (Handshake.naming 0x194 1 0 0x19419494).write [none, some firstOfTwo] :=
  (closes_only_named_iff (by decide) (by decide)).mpr fun id hid => by
    cases hid
    decide

end Yagips.Server.Routing
