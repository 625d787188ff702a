import Yagips.Kcp.Datagrams
import Yagips.Lib.Transfer

/-!
# One direction of a link

The sending half of one end and the receiving half of the other refine a reliable transfer of
fragments. The numbers of the transfer have no end; the segments carry them modulo 2³², and no two
that are compared are too far apart.
-/
namespace Yagips.Kcp

open Yagips.Lib

/-- No window is larger. -/
def maxWnd : Nat := 2 ^ 28

/-- No more segments get numbers while a datagram is on its way. -/
def maxLag : Nat := 2 ^ 30

/-- The segments of a queue carry these numbers of a log, which lie in a window that ends at `hi`. -/
structure Stands (log : List Fragment) (hi width : Nat) (buf : List IkcpSeg) (numbers : Set Nat) : Prop where
  seg : ∀ seg ∈ buf, ∃ i ∈ numbers, seg.sn = UInt32.ofNat i ∧ log[i]? = some seg.fragment
  number : ∀ i ∈ numbers, ∃ seg ∈ buf, seg.sn = UInt32.ofNat i
  range : ∀ i ∈ numbers, i < hi ∧ hi ≤ i + width

namespace Stands

variable {log : List Fragment} {hi width : Nat} {buf : List IkcpSeg} {numbers : Set Nat}

theorem later (h : Stands log hi width buf numbers) {log' : List Fragment} (hlog : log <+: log') :
    Stands log' hi width buf numbers := by
  refine ⟨fun seg hseg => ?_, h.number, h.range⟩
  obtain ⟨i, hi, hsn, hget⟩ := h.seg seg hseg
  obtain ⟨more, rfl⟩ := hlog
  refine ⟨i, hi, hsn, ?_⟩
  rw [List.getElem?_append_left (List.getElem?_eq_some_iff.mp hget).1]
  exact hget

/-- The number of a segment is the only one in the window. -/
theorem mem_of_sn (h : Stands log hi width buf numbers) (hwidth : width < 2 ^ 32) {seg : IkcpSeg}
    (hseg : seg ∈ buf) {i : Nat} (hsn : seg.sn = UInt32.ofNat i) (hlt : i < hi) (hle : hi ≤ i + width) :
    i ∈ numbers ∧ log[i]? = some seg.fragment := by
  obtain ⟨j, hj, hsn', hget⟩ := h.seg seg hseg
  have hrange := h.range j hj
  have hsame : i = j := ofNat_inj (by omega) (by omega) (hsn.symm.trans hsn')
  subst hsame
  exact ⟨hj, hget⟩

theorem of_body (h : Stands log hi width buf numbers) {buf' : List IkcpSeg}
    (hbody : buf'.map IkcpSeg.body = buf.map IkcpSeg.body) : Stands log hi width buf' numbers := by
  refine ⟨fun seg hseg => ?_, fun i hi => ?_, h.range⟩
  · obtain ⟨seg', hseg', heq⟩ := exists_body hbody hseg
    obtain ⟨i, hi, hsn, hget⟩ := h.seg seg' hseg'
    have hsame : seg'.sn = seg.sn := congrArg Body.sn heq
    have hfragment : seg'.fragment = seg.fragment := congrArg (fun b => (b.frg, b.data)) heq
    exact ⟨i, hi, hsame ▸ hsn, hfragment ▸ hget⟩
  · obtain ⟨seg, hseg, hsn⟩ := h.number i hi
    obtain ⟨seg', hseg', heq⟩ := exists_body hbody.symm hseg
    have hsame : seg'.sn = seg.sn := congrArg Body.sn heq
    exact ⟨seg', hseg', hsame.trans hsn⟩

end Stands

/-- The sending half: what has a number, and what is kept. -/
structure Sending (s : Snd) (t : Transfer Fragment) : Prop where
  nxt : s.sndNxt = UInt32.ofNat t.log.length
  kept : Stands t.log t.log.length maxWnd s.sndBuf t.kept

/-- The receiving half: what was received without a gap, and what is early. -/
structure Receiving (r : Rcv) (t : Transfer Fragment) : Prop where
  nxt : r.rcvNxt = UInt32.ofNat t.next
  early : Stands t.log (t.next + r.rcvWnd.toNat) r.rcvWnd.toNat r.rcvBuf {i | i ∈ t.early ∧ t.next ≤ i}

/-! ## What segments say -/

/-- A push says what has its number. It was sent when there were `mine` numbers. -/
def PushSays (t : Transfer Fragment) (mine : Nat) (seg : Head × Bytes) : Prop :=
  seg.1.cmd.toUInt32 = ikcpCmdPush → ∃ i, seg.1.sn = UInt32.ofNat i ∧
    Transfer.Msg.Holds t (.data i (seg.1.frg.toUInt32, seg.2)) ∧ mine ≤ i + maxWnd

/-- Every segment says below what number all were received, and an acknowledgement says that one was.
Nothing it says is about numbers from `above` on. It was sent when the other end had `theirs` numbers. -/
structure AckSays (t : Transfer Fragment) (above theirs : Nat) (h : Head) : Prop where
  una : ∃ u, h.una = UInt32.ofNat u ∧ Transfer.Msg.Holds t (.upTo u) ∧ u ≤ above ∧ theirs ≤ u + 2 * maxWnd
  ack : h.cmd.toUInt32 = ikcpCmdAck → ∃ j, h.sn = UInt32.ofNat j ∧ Transfer.Msg.Holds t (.ack j) ∧ j < above ∧
    theirs ≤ j + maxLag + 3 * maxWnd

theorem PushSays.later {t t' : Transfer Fragment} (h : t.Leads t') {mine : Nat} {seg : Head × Bytes}
    (hs : PushSays t mine seg) : PushSays t' mine seg := by
  intro hcmd
  obtain ⟨i, hsn, hholds, hmine⟩ := hs hcmd
  exact ⟨i, hsn, hholds.later h, hmine⟩

theorem AckSays.later {t t' : Transfer Fragment} (h : t.Leads t') {above above' theirs : Nat} (hle : above ≤ above')
    {head : Head} (hs : AckSays t above theirs head) : AckSays t' above' theirs head := by
  refine ⟨?_, fun hcmd => ?_⟩
  · obtain ⟨u, hu, hholds, habove, htheirs⟩ := hs.una
    exact ⟨u, hu, hholds.later h, habove.trans hle, htheirs⟩
  · obtain ⟨j, hj, hholds, habove, htheirs⟩ := hs.ack hcmd
    exact ⟨j, hj, hholds.later h, Nat.lt_of_lt_of_le habove hle, htheirs⟩

/-! ## Acknowledgements come in -/

/-- Only what the other end has is given up, and nothing from `above` on. -/
theorem Sending.hear {s : Snd} {t : Transfer Fragment} {wnd : Nat} (hs : Sending s t) (hwf : s.WellFormed wnd)
    {above theirs : Nat} {h : Head} (htrue : AckSays t above theirs h) (hlag : t.log.length ≤ theirs + maxLag)
    (hsound : t.Sound) :
    ∃ gone : Set Nat, (∀ i ∈ gone, t.Has i ∧ i < above) ∧ Sending (s.hear h) { t with kept := t.kept \ gone } := by
  have hW : maxWnd = 2 ^ 28 := rfl
  have hK : maxLag = 2 ^ 30 := rfl
  have hnext := hsound.next_le
  obtain ⟨-, hears⟩ := hwf.hear h
  refine ⟨{i | i ∈ t.kept ∧ ∀ seg ∈ (s.hear h).sndBuf, seg.sn ≠ UInt32.ofNat i}, ?_, ?_, ?_⟩
  · rintro i ⟨hi, hgone⟩
    obtain ⟨hlt, hle⟩ := hs.kept.range i hi
    obtain ⟨seg, hseg, hsn⟩ := hs.kept.number i hi
    rcases hears.gone seg hseg with hmem | hpast | ⟨hack, hsame⟩
    · exact absurd hsn (hgone seg hmem)
    · obtain ⟨u, hu, hholds, habove, htheirs⟩ := htrue.una
      have hunext : u ≤ t.next := hholds
      rw [hu, hsn, itimediff_ofNat (by omega) (by omega)] at hpast
      exact ⟨.inl (by omega), by omega⟩
    · obtain ⟨j, hj, hholds, habove, htheirs⟩ := htrue.ack hack
      have hj' : j < t.log.length := hsound.numbered j hholds
      have hij : i = j := ofNat_inj (by omega) (by omega) (hsn.symm.trans (hsame.trans hj))
      subst hij
      exact ⟨hholds, habove⟩
  · exact hears.nxt.trans hs.nxt
  · refine ⟨fun seg hseg => ?_, ?_, fun i hi => hs.kept.range i hi.1⟩
    · obtain ⟨i, hi, hsn, hget⟩ := hs.kept.seg seg (hears.sublist.subset hseg)
      exact ⟨i, ⟨hi, fun hgone => hgone.2 seg hseg hsn⟩, hsn, hget⟩
    · rintro i ⟨hi, hgone⟩
      by_contra hnone
      exact hgone ⟨hi, fun seg hseg hsn => hnone ⟨seg, hseg, hsn⟩⟩

/-! ## Segments get numbers -/

/-- Between a segment and the next number there is no more than the window. -/
theorem Snd.Ordered.span {s : Snd} {wnd : Nat} (h : s.Ordered wnd) {seg : IkcpSeg} (hseg : seg ∈ s.sndBuf)
    {i n : Nat} (hsn : seg.sn = UInt32.ofNat i) (hnxt : s.sndNxt = UInt32.ofNat n) (hlt : i < n) (hle : n < i + 2 ^ 32) :
    n ≤ i + wnd := by
  have hbelow := h.below seg hseg
  have hwidth := h.width
  have hahead := ahead_of_le hbelow.le
  rw [hsn, hnxt, ahead_ofNat hlt.le hle] at hahead
  rw [hsn, hnxt] at hbelow
  rw [hnxt] at hwidth
  omega

/-- The next numbers for what is in the queue. -/
theorem Stands.append {log : List Fragment} {width : Nat} {buf : List IkcpSeg} {numbers : Set Nat}
    (h : Stands log log.length width buf numbers) (kcp : Ikcpcb) (wnd : UInt32) (added : List IkcpSeg) :
    Stands (log ++ added.map IkcpSeg.fragment) (log ++ added.map IkcpSeg.fragment).length (width + added.length)
      (buf ++ numberFrom kcp wnd (UInt32.ofNat log.length) added)
      (numbers ∪ {i | log.length ≤ i ∧ i < log.length + (added.map IkcpSeg.fragment).length}) := by
  have hlen : (added.map IkcpSeg.fragment).length = added.length := List.length_map _
  refine ⟨fun seg hseg => ?_, fun i hi => ?_, fun i hi => ?_⟩
  · rcases List.mem_append.mp hseg with hold | hnew
    · obtain ⟨i, hi, hsn, hget⟩ := (h.later (List.prefix_append _ _)).seg seg hold
      exact ⟨i, .inl hi, hsn, hget⟩
    · obtain ⟨j, q, hq, rfl⟩ := numberFrom_mem hnew
      have hj := (List.getElem?_eq_some_iff.mp hq).1
      refine ⟨log.length + j, .inr ⟨Nat.le_add_right _ _, by omega⟩, (UInt32.ofNat_add _ _).symm, ?_⟩
      rw [List.getElem?_append_right (Nat.le_add_right _ _), Nat.add_sub_cancel_left, List.getElem?_map, hq]
      rfl
  · rcases hi with hold | ⟨hge, hlt⟩
    · obtain ⟨seg, hmem, hsn⟩ := h.number i hold
      exact ⟨seg, List.mem_append_left _ hmem, hsn⟩
    · have hq := List.getElem?_eq_getElem (l := added) (show i - log.length < added.length by omega)
      have hget := numberFrom_getElem? kcp wnd (UInt32.ofNat log.length) added (i - log.length)
      rw [hq, ← UInt32.ofNat_add, Nat.add_sub_cancel' hge] at hget
      exact ⟨_, List.mem_append_right _ (List.mem_of_getElem? hget), rfl⟩
  · rw [List.length_append, hlen]
    rcases hi with hold | ⟨hge, hlt⟩
    · have hrange := h.range i hold
      omega
    · omega

theorem Sending.flush {kcp kcp' : Ikcpcb} {t : Transfer Fragment} (hs : Sending kcp.snd t) (hwf : kcp.WellFormed)
    (hwf' : kcp'.WellFormed) (hwnd : kcp.sndWnd.toNat ≤ maxWnd) {added rest : List IkcpSeg}
    (hf : Flushes kcp kcp' added rest) :
    Sending kcp'.snd { t with
      log := t.log ++ added.map IkcpSeg.fragment
      kept := t.kept ∪ {i | t.log.length ≤ i ∧ i < t.log.length + (added.map IkcpSeg.fragment).length} } := by
  have hW : maxWnd = 2 ^ 28 := rfl
  obtain ⟨buf, hbody, hsnd⟩ := hf.snd
  have hbuf : kcp'.snd.sndBuf = buf := congrArg Snd.sndBuf hsnd
  have hsame : kcp'.sndWnd = kcp.sndWnd := congrArg Settings.sndWnd hf.settings
  have hnxt : kcp'.snd.sndNxt = UInt32.ofNat (t.log ++ added.map IkcpSeg.fragment).length := by
    rw [hsnd, List.length_append, List.length_map, UInt32.ofNat_add, ← hs.nxt]
    rfl
  have hsize : added.length ≤ kcp.sndWnd.toNat := by
    have hle := windowSize_le (flushControl kcp).1
    have hsndWnd : (flushControl kcp).1.sndWnd = kcp.sndWnd := congrArg Settings.sndWnd (flushControl_frame kcp).2.2
    rw [hsndWnd] at hle
    have hwidth := hf.fills.width hwf.snd.toOrdered hwf.good.sndWnd hle
    omega
  have hwide := hs.kept.append (flushControl kcp).1 (ikcpWndUnused kcp.rcv) added
  rw [← hs.nxt] at hwide
  have hstands := hwide.of_body hbody
  rw [← hbuf] at hstands
  refine ⟨hnxt, hstands.seg, hstands.number, fun i hi => ⟨(hstands.range i hi).1, ?_⟩⟩
  -- the window is what it was, however many numbers are new
  obtain ⟨hlt, hle⟩ := hstands.range i hi
  obtain ⟨seg, hmem, hsn⟩ := hstands.number i hi
  have hspan := hwf'.snd.toOrdered.span hmem hsn hnxt hlt (by omega)
  rw [hsame] at hspan
  exact hspan.trans (Nat.add_le_add_left hwnd i)

/-! ## Segments are received -/

/-- What becomes of the receiving half where segments move to the queue: they are the next of the log. -/
structure Moved (r r' : Rcv) (t : Transfer Fragment) (moved : List IkcpSeg) : Prop where
  early : ∀ i, t.next ≤ i → i < t.next + moved.length → i ∈ t.early
  queue : r'.rcvQueue = r.rcvQueue ++ moved
  log : t.log.take (t.next + moved.length) = t.log.take t.next ++ moved.map IkcpSeg.fragment
  acklist : r'.acklist = r.acklist
  receiving : Receiving r' { t with next := t.next + moved.length }

theorem take_add_of_getElem? {log more : List Fragment} {n : Nat} (h : ∀ j a, more[j]? = some a → log[n + j]? = some a) :
    log.take (n + more.length) = log.take n ++ more := by
  rw [List.take_add]
  congr 1
  apply List.ext_getElem?
  intro j
  rcases Nat.lt_or_ge j more.length with hlt | hge
  · rw [List.getElem?_take_of_lt hlt, List.getElem?_drop, List.getElem?_eq_getElem hlt]
    exact h j _ (List.getElem?_eq_getElem hlt)
  · rw [List.getElem?_eq_none hge, List.getElem?_eq_none]
    exact (List.length_take_le _ _).trans hge

section MoveAvailable

variable {r : Rcv} {t : Transfer Fragment} {moved rest : List IkcpSeg}

theorem Moves.length_le (hm : Moves r r.rcvBuf moved rest) (ho : r.Ordered) : moved.length ≤ r.rcvWnd.toNat := by
  have hbuf := ho.buf_le
  rw [hm.split, List.length_append] at hbuf
  omega

/-- What moves are the early numbers behind the next, in their order. -/
theorem Receiving.moved_early (hr : Receiving r t) (ho : r.Ordered) (hm : Moves r r.rcvBuf moved rest) {j : Nat} {seg : IkcpSeg}
    (hj : moved[j]? = some seg) : t.next + j ∈ t.early ∧ t.log[t.next + j]? = some seg.fragment := by
  have hwnd := ho.wnd
  have hlen := hm.length_le ho
  have hlt := (List.getElem?_eq_some_iff.mp hj).1
  have hsn := hm.consecutive j seg hj
  rw [hr.nxt, ← UInt32.ofNat_add] at hsn
  have hmem : seg ∈ r.rcvBuf := by
    rw [hm.split]
    exact List.mem_append_left _ (List.mem_of_getElem? hj)
  obtain ⟨hin, hget⟩ := hr.early.mem_of_sn (by omega) hmem hsn (by omega) (by omega)
  exact ⟨hin.1, hget⟩

theorem Receiving.moved_log (hr : Receiving r t) (ho : r.Ordered) (hm : Moves r r.rcvBuf moved rest) :
    t.log.take (t.next + moved.length) = t.log.take t.next ++ moved.map IkcpSeg.fragment := by
  have htake : t.log.take (t.next + (moved.map IkcpSeg.fragment).length) = t.log.take t.next ++ moved.map IkcpSeg.fragment := by
    refine take_add_of_getElem? fun j a ha => ?_
    rw [List.getElem?_map] at ha
    obtain ⟨seg, hseg, rfl⟩ := Option.map_eq_some_iff.mp ha
    exact (hr.moved_early ho hm hseg).2
  rwa [List.length_map] at htake

/-- What does not move lies behind what does. -/
theorem Receiving.rest_past (hr : Receiving r t) (ho : r.Ordered) (hm : Moves r r.rcvBuf moved rest) {seg : IkcpSeg} (hseg : seg ∈ rest)
    {i : Nat} (hsn : seg.sn = UInt32.ofNat i) (hge : t.next ≤ i) (hlt : i < t.next + 2 ^ 32) : t.next + moved.length ≤ i := by
  have hahead := ho.rest_past hm hseg
  rw [hsn, hr.nxt, ahead_ofNat hge hlt] at hahead
  omega

/-- The numbers that are still early are those of the segments that stay. -/
theorem Receiving.rest_stands (hr : Receiving r t) (ho : r.Ordered) (hm : Moves r r.rcvBuf moved rest) :
    Stands t.log (t.next + moved.length + r.rcvWnd.toNat) r.rcvWnd.toNat rest {i | i ∈ t.early ∧ t.next + moved.length ≤ i} := by
  have hwnd := ho.wnd
  have hlen := hm.length_le ho
  refine ⟨fun seg hseg => ?_, fun i hi => ?_, fun i hi => ?_⟩
  · have hmem : seg ∈ r.rcvBuf := by
      rw [hm.split]
      exact List.mem_append_right _ hseg
    obtain ⟨i, hi, hsn, hget⟩ := hr.early.seg seg hmem
    have hrange := hr.early.range i hi
    exact ⟨i, ⟨hi.1, hr.rest_past ho hm hseg hsn hi.2 (by omega)⟩, hsn, hget⟩
  all_goals
    obtain ⟨hearly, hge⟩ := hi
    have hge' : t.next ≤ i := Nat.le_of_add_right_le hge
    have hrange := hr.early.range i ⟨hearly, hge'⟩
  · obtain ⟨seg, hseg, hsn⟩ := hr.early.number i ⟨hearly, hge'⟩
    rw [hm.split] at hseg
    rcases List.mem_append.mp hseg with hmem | hmem
    · obtain ⟨j, hj⟩ := List.mem_iff_getElem?.mp hmem
      have hlt := (List.getElem?_eq_some_iff.mp hj).1
      have hsn' := hm.consecutive j seg hj
      rw [hr.nxt, ← UInt32.ofNat_add] at hsn'
      have hsame : i = t.next + j := ofNat_inj (by omega) (by omega) (hsn.symm.trans hsn')
      omega
    · exact ⟨seg, hmem, hsn⟩
  · omega

theorem Receiving.moveAvailable (hr : Receiving r t) (ho : r.Ordered) : ∃ moved, Moved r r.moveAvailable t moved := by
  obtain ⟨moved, rest, hm, heq⟩ := moveLoop_spec r.rcvBuf r
  rw [Rcv.moveAvailable, heq]
  refine ⟨moved, fun i hge hlt => ?_, rfl, hr.moved_log ho hm, rfl, ?_, hr.rest_stands ho hm⟩
  · have hj := List.getElem?_eq_getElem (l := moved) (show i - t.next < moved.length by omega)
    have hin := (hr.moved_early ho hm hj).1
    rwa [Nat.add_sub_cancel' hge] at hin
  · show r.rcvNxt + UInt32.ofNat moved.length = UInt32.ofNat (t.next + moved.length)
    rw [hr.nxt, UInt32.ofNat_add]

end MoveAvailable

/-- What the receiving half does is what a transfer may do. -/
structure Receives (r r' : Rcv) (t t' : Transfer Fragment) : Prop where
  steps : Transfer.Steps t t'
  log : t'.log = t.log
  kept : t'.kept = t.kept
  receiving : Receiving r' t'
  wnd : r'.rcvWnd = r.rcvWnd
  queue : ∃ moved, r'.rcvQueue = r.rcvQueue ++ moved ∧
    t.log.take t'.next = t.log.take t.next ++ moved.map IkcpSeg.fragment
  acks : ∀ ack ∈ r'.acklist, ack ∈ r.acklist ∨ ∃ j, ack.1 = UInt32.ofNat j ∧ t'.Has j ∧
    j < t'.next + r'.rcvWnd.toNat ∧ t.log.length ≤ j + maxLag + maxWnd

theorem Receives.refl {r : Rcv} {t : Transfer Fragment} (hr : Receiving r t) : Receives r r t t where
  steps := .refl
  log := rfl
  kept := rfl
  receiving := hr
  wnd := rfl
  queue := ⟨[], (List.append_nil _).symm, (List.append_nil _).symm⟩
  acks _ hack := .inl hack

theorem Receives.moveAvailable {r r' : Rcv} {t t' : Transfer Fragment} (h : Receives r r' t t') (ho : r'.Ordered) :
    ∃ t'', Receives r r'.moveAvailable t t'' ∧ t'.Leads t'' := by
  obtain ⟨moved, hm⟩ := h.receiving.moveAvailable ho
  have hstep : Transfer.Step t' { t' with next := t'.next + moved.length } := .advance t' (Nat.le_add_right _ _) hm.early
  have hwnd := moveAvailable_wnd r'
  refine ⟨_, ⟨h.steps.tail hstep, h.log, h.kept, hm.receiving, hwnd.trans h.wnd, ?_, fun ack hack => ?_⟩, hstep.leads⟩
  · obtain ⟨before, hqueue, htake⟩ := h.queue
    have hlog := hm.log
    rw [h.log, htake] at hlog
    refine ⟨before ++ moved, ?_, ?_⟩
    · rw [hm.queue, hqueue, List.append_assoc]
    · rw [List.map_append, ← List.append_assoc]
      exact hlog
  · rw [hm.acklist] at hack
    rcases h.acks ack hack with hold | ⟨j, hsn, hhas, hlt, hle⟩
    · exact .inl hold
    · refine .inr ⟨j, hsn, hstep.leads.has j hhas, ?_, hle⟩
      rw [hwnd]
      show j < t'.next + moved.length + r'.rcvWnd.toNat
      omega

theorem Stands.insert {log : List Fragment} {hi width : Nat} {buf buf' : List IkcpSeg} {numbers : Set Nat}
    (h : Stands log hi width buf numbers) {new : IkcpSeg} (hperm : buf'.Perm (new :: buf)) {i : Nat}
    (hsn : new.sn = UInt32.ofNat i) (hget : log[i]? = some new.fragment) (hlt : i < hi) (hle : hi ≤ i + width) :
    Stands log hi width buf' (Set.insert i numbers) := by
  refine ⟨fun seg hseg => ?_, fun j hj => ?_, fun j hj => ?_⟩
  · rcases List.mem_cons.mp (hperm.mem_iff.mp hseg) with rfl | hold
    · exact ⟨i, .inl rfl, hsn, hget⟩
    · obtain ⟨j, hj, hsn', hget'⟩ := h.seg seg hold
      exact ⟨j, .inr hj, hsn', hget'⟩
  · rcases hj with rfl | hj
    · exact ⟨new, hperm.mem_iff.mpr List.mem_cons_self, hsn⟩
    · obtain ⟨seg, hseg, hsn'⟩ := h.number j hj
      exact ⟨seg, hperm.mem_iff.mpr (List.mem_cons_of_mem _ hseg), hsn'⟩
  · rcases hj with rfl | hj
    · exact ⟨hlt, hle⟩
    · exact h.range j hj

section Push

variable {r : Rcv} {t : Transfer Fragment}

/-- A segment in the window is received, if it was not before. -/
theorem Receiving.parseData (hr : Receiving r t) (hwf : r.WellFormed) (new : IkcpSeg) {i : Nat}
    (hsn : new.sn = UInt32.ofNat i) (hget : t.log[i]? = some new.fragment) (hge : t.next ≤ i)
    (hlt : i < t.next + r.rcvWnd.toNat) :
    ∃ t', Receives r (ikcpParseData r new) t t' ∧ t'.Has i := by
  have hwnd := hwf.wnd
  have hahead : ahead r.rcvNxt new.sn = i - t.next := by
    rw [hsn, hr.nxt, ahead_ofNat hge (by omega)]
  have haccept : Transfer.Step t { t with early := Set.insert i t.early } :=
    .accept t (List.getElem?_eq_some_iff.mp hget).1
  have hset : {j | j ∈ Set.insert i t.early ∧ t.next ≤ j} = Set.insert i {j | j ∈ t.early ∧ t.next ≤ j} := by
    ext j
    constructor
    · rintro ⟨rfl | hj, hle⟩
      · exact .inl rfl
      · exact .inr ⟨hj, hle⟩
    · rintro (rfl | ⟨hj, hle⟩)
      · exact ⟨.inl rfl, hge⟩
      · exact ⟨.inr hj, hle⟩
  have hdone : ∀ {r' : Rcv}, r'.Ordered → Receives r r' t { t with early := Set.insert i t.early } →
      ∃ t', Receives r r'.moveAvailable t t' ∧ t'.Has i := by
    intro r' ho hreceives
    obtain ⟨t', hreceives', hleads⟩ := hreceives.moveAvailable ho
    exact ⟨t', hreceives', hleads.has i (.inr (.inl rfl))⟩
  rcases parseData_cases hwf.toOrdered new with ⟨hout, -⟩ | ⟨hin, ⟨⟨seg, hseg, hsame⟩, heq⟩ | ⟨buf, hi, heq⟩⟩
  · omega
  · rw [heq]
    have hmem := (hr.early.mem_of_sn (by omega) hseg (hsame.trans hsn) (by omega) (by omega)).1
    refine hdone hwf.toOrdered ⟨.single haccept, rfl, rfl, ⟨hr.nxt, ?_⟩, rfl, ?_, fun ack hack => .inl hack⟩
    · have hsub : Set.insert i {j | j ∈ t.early ∧ t.next ≤ j} = {j | j ∈ t.early ∧ t.next ≤ j} :=
        Set.insert_eq_of_mem hmem
      show Stands t.log _ _ r.rcvBuf {j | j ∈ Set.insert i t.early ∧ t.next ≤ j}
      rw [hset, hsub]
      exact hr.early
    · exact ⟨[], (List.append_nil _).symm, (List.append_nil _).symm⟩
  · rw [heq]
    refine hdone (hwf.toOrdered.insert hin hi) ⟨.single haccept, rfl, rfl, ⟨hr.nxt, ?_⟩, rfl, ?_, fun ack hack => .inl hack⟩
    · show Stands t.log (t.next + r.rcvWnd.toNat) r.rcvWnd.toNat buf {j | j ∈ Set.insert i t.early ∧ t.next ≤ j}
      rw [hset]
      exact hr.early.insert hi.perm hsn hget hlt (by omega)
    · exact ⟨[], (List.append_nil _).symm, (List.append_nil _).symm⟩

theorem Receives.of_ackPush {r' : Rcv} {t' : Transfer Fragment} {sn ts : UInt32}
    (h : Receives (ikcpAckPush r sn ts) r' t t') {i : Nat} (hsn : sn = UInt32.ofNat i) (hhas : t'.Has i)
    (hlt : i < t.next + r.rcvWnd.toNat) (hle : t.log.length ≤ i + maxLag + maxWnd) : Receives r r' t t' := by
  refine ⟨h.steps, h.log, h.kept, h.receiving, h.wnd, h.queue, fun ack hack => ?_⟩
  rcases h.acks ack hack with hold | hnew
  · rcases List.mem_append.mp hold with hold | hlast
    · exact .inl hold
    · rw [List.mem_singleton.mp hlast]
      have hnext := h.steps.leads.next
      refine .inr ⟨i, hsn, hhas, ?_, hle⟩
      rw [h.wnd]
      exact Nat.lt_of_lt_of_le hlt (Nat.add_le_add_right hnext _)
  · exact .inr hnew

/-- What a push says is received, and acknowledged, unless it is past the window. -/
theorem Receiving.hear (hr : Receiving r t) (hwf : r.WellFormed) (hwnd : r.rcvWnd.toNat ≤ maxWnd)
    (hahead : t.log.length ≤ t.next + 2 * maxWnd) (hsound : t.Sound) {mine : Nat} {h : Head} {data : Bytes}
    (htrue : PushSays t mine (h, data)) (hlag : t.log.length ≤ mine + maxLag) :
    ∃ t', Receives r (r.hear h data) t t' := by
  have hW : maxWnd = 2 ^ 28 := rfl
  have hK : maxLag = 2 ^ 30 := rfl
  have hle := hsound.next_le
  rw [Rcv.hear]
  split
  case isFalse => exact ⟨t, Receives.refl hr⟩
  case isTrue hcmd =>
    obtain ⟨i, hsn, hholds, hmine⟩ := htrue hcmd
    have hget : t.log[i]? = some (h.frg.toUInt32, data) := hholds
    have hlt := (List.getElem?_eq_some_iff.mp hget).1
    have hend : r.rcvNxt + r.rcvWnd = UInt32.ofNat (t.next + r.rcvWnd.toNat) := by
      rw [hr.nxt, UInt32.ofNat_add, UInt32.ofNat_toNat]
    have hfront : itimediff h.sn (r.rcvNxt + r.rcvWnd) = (i : Int) - (t.next + r.rcvWnd.toNat : Nat) := by
      rw [hsn, hend, itimediff_ofNat (by omega) (by omega)]
    have hback : itimediff h.sn r.rcvNxt = (i : Int) - t.next := by
      rw [hsn, hr.nxt, itimediff_ofNat (by omega) (by omega)]
    have hr' : Receiving (ikcpAckPush r h.sn h.ts) t := ⟨hr.nxt, hr.early⟩
    rw [pushSeg, hfront]
    split
    case isFalse => exact ⟨t, Receives.refl hr⟩
    case isTrue hinside =>
      show ∃ t', Receives r (if itimediff h.sn r.rcvNxt ≥ 0 then ikcpParseData (ikcpAckPush r h.sn h.ts) _
        else ikcpAckPush r h.sn h.ts) t t'
      rw [hback]
      split
      case isTrue hnew =>
        let new : IkcpSeg := {
          conv := h.conv, cmd := h.cmd.toUInt32, frg := h.frg.toUInt32, wnd := h.wnd.toUInt32, ts := h.ts
          sn := h.sn, una := h.una, data }
        obtain ⟨t', hreceives, hhas⟩ := hr'.parseData (hwf.ackPush h.sn h.ts) new hsn hget (by omega)
          (show i < t.next + r.rcvWnd.toNat by omega)
        exact ⟨t', hreceives.of_ackPush hsn hhas (by omega) (by omega)⟩
      case isFalse hold =>
        exact ⟨t, (Receives.refl hr').of_ackPush hsn (.inl (by omega)) (by omega) (by omega)⟩

end Push

/-! ## Messages are taken -/

/-- The fragments of what was sent are those with numbers and those in the queue; the fragments of what
was taken are received, and so is what waits to be taken. -/
structure Delivers (mss : UInt32) (queue : List IkcpSeg) (sent taken left : List Message) (r : Rcv)
    (t : Transfer Fragment) : Prop where
  frames : frames mss sent = t.log ++ queue.map IkcpSeg.fragment
  short : ∀ m ∈ sent, (fragments mss m).length < 128
  split : sent = taken ++ left
  received : t.log.take t.next = Kcp.frames mss taken ++ r.rcvQueue.map IkcpSeg.fragment

namespace Delivers

variable {mss : UInt32} {queue : List IkcpSeg} {sent taken left : List Message} {r : Rcv} {t : Transfer Fragment}

/-- What waits is the start of what is not taken. -/
theorem waiting (h : Delivers mss queue sent taken left r t) :
    r.rcvQueue.map IkcpSeg.fragment <+: Kcp.frames mss left := by
  have hall : t.log.take t.next <+: Kcp.frames mss taken ++ Kcp.frames mss left := by
    rw [← frames_append, ← h.split, h.frames]
    exact (List.take_prefix _ _).trans (List.prefix_append _ _)
  rw [h.received] at hall
  exact (List.prefix_append_right_inj _).mp hall

theorem receives (h : Delivers mss queue sent taken left r t) {r' : Rcv} {t' : Transfer Fragment}
    (hr : Receives r r' t t') : Delivers mss queue sent taken left r' t' := by
  obtain ⟨moved, hqueue, htake⟩ := hr.queue
  refine ⟨hr.log ▸ h.frames, h.short, h.split, ?_⟩
  rw [hr.log, htake, h.received, hqueue, List.map_append, List.append_assoc]

/-- The first message is taken out of the queue. -/
theorem remove {m : Message} (h : Delivers mss queue sent taken (m :: left) r t)
    (hle : (fragments mss m).length ≤ r.rcvQueue.length) :
    Delivers mss queue sent (taken ++ [m]) left (r.remove (fragments mss m).length) t := by
  refine ⟨h.frames, h.short, ?_, ?_⟩
  · rw [h.split, List.append_assoc, List.singleton_append]
  · obtain ⟨more, hmore⟩ := h.waiting
    rw [frames_cons] at hmore
    have hfirst : (r.rcvQueue.map IkcpSeg.fragment).take (fragments mss m).length = fragments mss m := by
      have htake := congrArg (List.take (fragments mss m).length) hmore
      rwa [List.take_append_of_le_length (by rw [List.length_map]; exact hle), List.take_left' rfl] at htake
    rw [h.received, frames_append, List.append_assoc]
    congr 1
    have hsplit := List.take_append_drop (fragments mss m).length (r.rcvQueue.map IkcpSeg.fragment)
    rw [hfirst] at hsplit
    rw [frames_cons, Kcp.frames, List.flatMap_nil, List.append_nil, Rcv.remove, List.map_drop]
    exact hsplit.symm

end Delivers

/-- How a call of `ikcp_recv` ends: it fails and changes nothing, or it looks at a message, or it takes the
next one. -/
theorem recv_cases {mss : UInt32} (hmss : SegmentSize mss) {queue : List IkcpSeg} {sent taken left : List Message}
    {r : Rcv} {t : Transfer Fragment} (hwf : r.WellFormed)
    (h : Delivers mss queue sent taken left r t) (len : Int) :
    ((r.recv len).1 < 0 ∧ (r.recv len).2.2 = r) ∨
    (len < 0 ∧ (r.recv len).2.2 = r.moveAvailable) ∨
    ∃ m left', left = m :: left' ∧ 0 ≤ len ∧ (fragments mss m).length ≤ r.rcvQueue.length ∧
      r.recv len = ((m.bytes.length : Int), m.bytes, (r.remove (fragments mss m).length).moveAvailable) := by
  rw [Rcv.recv]
  by_cases hempty : r.rcvQueue = []
  · rw [if_pos hempty]
    exact .inl ⟨(by decide : (-1 : Int) < 0), rfl⟩
  · rw [if_neg hempty]
    have hwaiting := h.waiting
    cases hleft : left with
    | nil =>
      rw [hleft] at hwaiting
      exact absurd (List.map_eq_nil_iff.mp (List.prefix_nil.mp hwaiting)) hempty
    | cons m left' =>
      rw [hleft] at hwaiting
      have hshort : (fragments mss m).length < 128 := by
        apply h.short
        rw [h.split, hleft]
        exact List.mem_append_right _ List.mem_cons_self
      rcases peeksize_cases hmss hwf.que hempty hshort hwaiting with ⟨-, hpeek⟩ | ⟨hle, hpeek, hmerge⟩
      · dsimp only
        rw [hpeek, if_pos (by decide)]
        exact .inl ⟨(by decide : (-2 : Int) < 0), rfl⟩
      · dsimp only
        rw [hpeek, if_neg (by omega)]
        split
        case isTrue => exact .inl ⟨(by decide : (-3 : Int) < 0), rfl⟩
        case isFalse =>
          rw [hmerge]
          rcases lt_or_ge len 0 with hneg | hpos
          · exact .inr (.inl ⟨hneg, by rw [if_pos hneg]⟩)
          · refine .inr (.inr ⟨m, left', rfl, hpos, hle, ?_⟩)
            rw [if_neg (Int.not_lt.mpr hpos)]

end Yagips.Kcp
