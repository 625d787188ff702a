import Yagips.Kcp.Progress

/-!
# What an exchange of datagrams brings about

A flush at the right time sends what is due, and where its datagrams all arrive, what one of their
segments brings about holds in the end.
-/
namespace Yagips.Kcp

open Yagips.Lib

/-! ## An acknowledgement frees its segment -/

theorem ackLoop_gone {base sn : UInt32} {buf : List IkcpSeg} (hsorted : Sorted base buf)
    (hlt : ∀ seg ∈ buf, ahead base seg.sn < 2 ^ 31) (hsn : ahead base sn < 2 ^ 31) :
    ∀ seg ∈ (ackLoop sn buf).1, seg.sn ≠ sn := by
  induction buf with
  | nil => simp [ackLoop]
  | cons first buf ih =>
    obtain ⟨hfirst, hrest⟩ := List.pairwise_cons.mp hsorted
    have hahead := hlt first List.mem_cons_self
    intro seg hseg
    rw [ackLoop] at hseg
    split_ifs at hseg with heq hbefore
    · intro hsame
      have hpast := hfirst seg hseg
      rw [hsame, heq] at hpast
      omega
    · rw [itimediff_eq _ hsn hahead] at hbefore
      intro hsame
      rcases List.mem_cons.mp hseg with rfl | hseg
      · rw [hsame] at hbefore
        omega
      · have hpast := hfirst seg hseg
        rw [hsame] at hpast
        omega
    · rcases List.mem_cons.mp hseg with rfl | hseg
      · exact fun hsame => heq hsame.symm
      · exact ih hrest (fun s hs => hlt s (List.mem_cons_of_mem _ hs)) seg hseg

theorem parseAck_gone {s : Snd} {wnd : Nat} (h : s.Ordered wnd) (hwnd : wnd < 2 ^ 31) (sn : UInt32) :
    ∀ seg ∈ (ikcpParseAck s sn).sndBuf, seg.sn ≠ sn := by
  have hwidth := h.width
  have hlt : ∀ seg ∈ s.sndBuf, ahead s.sndUna seg.sn < 2 ^ 31 := by
    intro seg hseg
    have hbelow := h.below seg hseg
    omega
  rw [ikcpParseAck]
  split
  case isTrue hout =>
    -- it is not between `snd_una` and `snd_nxt`, and all that is kept is
    intro seg hseg hsame
    have hbelow := h.below seg hseg
    have hself := ahead_self s.sndUna
    rw [hsame] at hbelow
    rw [itimediff_eq s.sndUna (by omega) (by omega), itimediff_eq s.sndUna (by omega) (by omega)] at hout
    omega
  case isFalse hin =>
    rcases Nat.lt_or_ge (ahead s.sndUna sn) (2 ^ 31) with hsn | hsn
    · exact ackLoop_gone h.sorted hlt hsn
    · intro seg hseg hsame
      have hmem := (parseAck_takes h sn).sublist.subset
      rw [ikcpParseAck, if_neg hin] at hmem
      have hbound := hlt seg (hmem hseg)
      rw [hsame] at hbound
      omega

theorem hear_gone {s : Snd} {wnd : Nat} (hs : s.WellFormed wnd) (hwnd : wnd < 2 ^ 31) {h : Head}
    (hcmd : h.cmd.toUInt32 = ikcpCmdAck) : ∀ seg ∈ (s.hear h).sndBuf, seg.sn ≠ h.sn := by
  have hone := ((parseUna_takes hs.toOrdered h.una).ordered hs.toOrdered).shrink
  have hbuf := (shrinkBuf_frame (ikcpParseAck (ikcpShrinkBuf (ikcpParseUna s h.una)) h.sn)).2.2
  rw [Snd.hear, if_pos hcmd, hbuf]
  exact parseAck_gone hone.toOrdered hwnd h.sn

/-! ## A segment in front of the window is acknowledged -/

theorem moveAvailable_acklist (r : Rcv) : r.moveAvailable.acklist = r.acklist := by
  obtain ⟨moved, rest, -, heq⟩ := moveLoop_spec r.rcvBuf r
  rw [Rcv.moveAvailable, heq]
  rfl

theorem parseData_acklist (r : Rcv) (new : IkcpSeg) : (ikcpParseData r new).acklist = r.acklist := by
  rw [ikcpParseData]
  split
  · rfl
  · dsimp only
    rw [moveAvailable_acklist]
    split <;> rfl

theorem pushSeg_acklist (r : Rcv) (h : Head) (data : Bytes) :
    (pushSeg r h data).acklist =
      if itimediff h.sn (r.rcvNxt + r.rcvWnd) < 0 then r.acklist ++ [(h.sn, h.ts)] else r.acklist := by
  rw [pushSeg]
  split
  · dsimp only
    split
    · exact parseData_acklist _ _
    · rfl
  · rfl

theorem hear_acklist (r : Rcv) (h : Head) (data : Bytes) : r.acklist <+: (r.hear h data).acklist := by
  rw [Rcv.hear]
  split
  · rw [pushSeg_acklist]
    split
    · exact List.prefix_append _ _
    · exact List.prefix_rfl
  · exact List.prefix_rfl

theorem recv_acklist (r : Rcv) (len : Int) : (r.recv len).2.2.acklist = r.acklist := by
  rw [Rcv.recv]
  dsimp only
  split_ifs
  · rfl
  · rfl
  · rfl
  · exact moveAvailable_acklist r
  · exact moveAvailable_acklist _

/-! ## Whatever comes in -/

/-- Nothing new waits, and what is to be acknowledged stays so. -/
structure Shrinks (kcp kcp' : Ikcpcb) : Prop where
  queue : kcp'.snd.sndQueue = kcp.snd.sndQueue
  buf : (kcp'.snd.sndBuf.map IkcpSeg.body).Sublist (kcp.snd.sndBuf.map IkcpSeg.body)
  acks : kcp.rcv.acklist <+: kcp'.rcv.acklist

theorem inputSeg_shrinks {k kcp : Ikcpcb} (hwf : kcp.WellFormed) (h : Shrinks k kcp) (vars : InputVars) (head : Head)
    (data : Bytes) : Shrinks k (inputSeg kcp vars head data).1 := by
  obtain ⟨hsnd, hrcv, -⟩ := inputSeg_spec kcp vars head data
  obtain ⟨-, hears⟩ := hwf.snd.hear head
  refine ⟨?_, ?_, ?_⟩
  · rw [hsnd, hears.queue]
    exact h.queue
  · rw [hsnd]
    exact (hears.sublist.map _).trans h.buf
  · rw [hrcv]
    exact h.acks.trans (hear_acklist _ head data)

theorem Shrinks.settles {k kcp kcp' : Ikcpcb} (h : Shrinks k kcp) (hs : Settles kcp kcp') : Shrinks k kcp' := by
  obtain ⟨buf, hbody, hsnd⟩ := hs.snd
  refine ⟨?_, ?_, ?_⟩
  · rw [hsnd]
    exact h.queue
  · rw [hsnd, hbody]
    exact h.buf
  · rw [hs.rcv]
    exact h.acks

theorem input_shrinks {kcp : Ikcpcb} (h : kcp.WellFormed) (data : Bytes) : Shrinks kcp (ikcpInput kcp data).2 :=
  (ikcpInput_keeps (P := fun k => k.WellFormed ∧ Shrinks kcp k)
    (fun _ vars head data hk => ⟨hk.1.inputSeg vars head data, inputSeg_shrinks hk.1 hk.2 vars head data⟩)
    (fun k sn hk => ⟨hk.1.parseFastack sn, hk.2.settles (parseFastack_settles k sn)⟩)
    (fun k hk => ⟨hk.1.of_frame (growCwnd_frame k), hk.2.settles (growCwnd_settles k)⟩)
    ⟨h, rfl, List.Sublist.refl _, List.prefix_rfl⟩ data).2

/-! ## When to flush -/

theorem itimediff_self (x : UInt32) : itimediff x x = 0 := by
  rw [itimediff, UInt32.sub_self]
  rfl

theorem itimediff_comm {x y : UInt32} (h : itimediff x y ≠ -2 ^ 31) : itimediff y x = -itimediff x y :=
  Serial.diff_comm (w := 31) h

/-- There is a time to flush that is not before a given one. -/
theorem exists_flush_time (kcp : Ikcpcb) (x : UInt32) :
    ∃ current tsFlush, ikcpUpdate kcp current = ikcpFlush (kcp.atTime current tsFlush) ∧ 0 ≤ itimediff current x := by
  obtain ⟨tsFlush, heq | ⟨-, hge, hlt⟩⟩ := ikcpUpdate_cases kcp x
  · exact ⟨x, tsFlush, heq, (itimediff_self x).ge⟩
  · obtain ⟨tsFlush', heq | ⟨-, -, hneg⟩⟩ := ikcpUpdate_cases kcp kcp.tsFlush
    · refine ⟨kcp.tsFlush, tsFlush', heq, ?_⟩
      rw [itimediff_comm (by omega)]
      omega
    · rw [itimediff_self] at hneg
      exact absurd hneg (lt_irrefl 0)

/-! ## What a flush leaves -/

/-- The fields that decide whether the next flush asks about the window or numbers a segment. -/
structure Flushed (kcp kcp' : Ikcpcb) : Prop where
  updated : kcp'.updated = true
  tsFlush : kcp'.tsFlush = kcp.tsFlush
  rmtWnd : kcp'.rmtWnd = kcp.rmtWnd
  tsProbe : kcp'.tsProbe = (probeWindow kcp).tsProbe
  probeWait : kcp'.probeWait = (probeWindow kcp).probeWait
  cwnd : kcp'.cwnd ≠ 0

theorem probeWindow_rest (kcp : Ikcpcb) :
    (probeWindow kcp).updated = kcp.updated ∧ (probeWindow kcp).tsFlush = kcp.tsFlush ∧
      (probeWindow kcp).current = kcp.current ∧ (probeWindow kcp).rmtWnd = kcp.rmtWnd ∧ (probeWindow kcp).cwnd = kcp.cwnd := by
  rw [probeWindow]
  split
  · split
    · exact ⟨rfl, rfl, rfl, rfl, rfl⟩
    · split
      · exact ⟨rfl, rfl, rfl, rfl, rfl⟩
      · exact ⟨rfl, rfl, rfl, rfl, rfl⟩
  · exact ⟨rfl, rfl, rfl, rfl, rfl⟩

theorem flushControl_rest (kcp : Ikcpcb) :
    (flushControl kcp).1.updated = kcp.updated ∧ (flushControl kcp).1.tsFlush = kcp.tsFlush ∧
      (flushControl kcp).1.current = kcp.current ∧ (flushControl kcp).1.rmtWnd = kcp.rmtWnd ∧ (flushControl kcp).1.cwnd = kcp.cwnd ∧
      (flushControl kcp).1.tsProbe = (probeWindow kcp).tsProbe ∧
      (flushControl kcp).1.probeWait = (probeWindow kcp).probeWait := by
  obtain ⟨hupdated, htime, hcurrent, hrmt, hcwnd⟩ := probeWindow_rest kcp
  rw [flushControl, probeWindow_setRcv]
  exact ⟨hupdated, htime, hcurrent, hrmt, hcwnd, rfl, rfl⟩

theorem updateSsthresh_rest (kcp : Ikcpcb) (cwnd : UInt32) (p : Pass) :
    (updateSsthresh kcp cwnd p).updated = kcp.updated ∧ (updateSsthresh kcp cwnd p).tsFlush = kcp.tsFlush ∧
      (updateSsthresh kcp cwnd p).rmtWnd = kcp.rmtWnd ∧ (updateSsthresh kcp cwnd p).tsProbe = kcp.tsProbe ∧ (updateSsthresh kcp cwnd p).probeWait = kcp.probeWait := by
  rw [updateSsthresh]
  dsimp only
  split_ifs <;> exact ⟨rfl, rfl, rfl, rfl, rfl⟩

theorem updateSsthresh_cwnd (kcp : Ikcpcb) (cwnd : UInt32) (p : Pass) : (updateSsthresh kcp cwnd p).cwnd ≠ 0 := by
  have hlast : ∀ k : Ikcpcb, (if k.cwnd < 1 then { k with cwnd := 1, incr := k.mss } else k : Ikcpcb).cwnd ≠ 0 := by
    intro k
    split
    case isTrue => exact (by decide : (1 : UInt32) ≠ 0)
    case isFalse hge =>
      intro hzero
      rw [hzero] at hge
      exact hge (by decide)
  exact hlast _

theorem ikcpFlush_flushed {kcp : Ikcpcb} (h : kcp.updated = true) : Flushed kcp (ikcpFlush kcp).1 := by
  obtain ⟨hupdated, htime, -, hrmt, -, hts, hwait⟩ := flushControl_rest kcp
  obtain ⟨hupdated', htime', hrmt', hts', hwait'⟩ := updateSsthresh_rest (flushData (flushControl kcp).1 (flushControl kcp).2).1
    (windowSize (flushControl kcp).1) (flushData (flushControl kcp).1 (flushControl kcp).2).2
  rw [ikcpFlush, if_neg (not_not.mpr h)]
  exact ⟨hupdated'.trans (hupdated.trans h), htime'.trans htime, hrmt'.trans hrmt, hts'.trans hts, hwait'.trans hwait,
    updateSsthresh_cwnd _ _ _⟩

/-- With an open window and nothing outstanding, what waits gets numbers. -/
theorem Flushes.added_ne_nil {kcp kcp' : Ikcpcb} {added rest : List IkcpSeg} (hwf : kcp.WellFormed)
    (hf : Flushes kcp kcp' added rest) (hbuf : kcp.snd.sndBuf = []) (hqueue : kcp.snd.sndQueue ≠ [])
    (hrmt : kcp.rmtWnd ≠ 0) (hcwnd : kcp.cwnd ≠ 0) : added ≠ [] := by
  intro hadded
  have hsnd : kcp.sndWnd ≠ 0 := by
    intro hzero
    have hpos : 0 < kcp.sndWnd.toNat := hwf.good.sndWnd_pos
    rw [hzero] at hpos
    exact absurd hpos (by decide)
  have hsplit := hf.fills.split
  rw [hadded, List.nil_append] at hsplit
  have hfront := hwf.snd.front
  rw [hbuf] at hfront
  have hstops := hf.fills.stops.resolve_left (fun hrest => hqueue (hsplit.trans hrest))
  have hmin : ∀ {a b : UInt32}, a ≠ 0 → b ≠ 0 → imin a b ≠ 0 := by
    intro a b ha hb
    rw [imin]
    split
    · exact ha
    · exact hb
  have hwindow : windowSize (flushControl kcp).1 ≠ 0 := by
    obtain ⟨-, -, -, hrmt', hcwnd', -, -⟩ := flushControl_rest kcp
    have hsame : (flushControl kcp).1.sndWnd = kcp.sndWnd := congrArg Settings.sndWnd (flushControl_frame kcp).2.2
    have hmin' := hmin (hsame ▸ hsnd) (hrmt' ▸ hrmt)
    rw [windowSize]
    split
    · exact hmin (hcwnd' ▸ hcwnd) hmin'
    · exact hmin'
  have hle := windowSize_le (flushControl kcp).1
  have hsame : (flushControl kcp).1.sndWnd = kcp.sndWnd := congrArg Settings.sndWnd (flushControl_frame kcp).2.2
  have hsmall : kcp.sndWnd.toNat < 2 ^ 31 := hwf.good.sndWnd
  have hpos : 0 < (windowSize (flushControl kcp).1).toNat := UInt32.lt_iff_toNat_lt.mp (UInt32.pos_iff_ne_zero.mpr hwindow)
  have hself := ahead_self kcp.snd.sndUna
  have hend := ahead_add_toNat kcp.snd.sndUna (windowSize (flushControl kcp).1)
  have hzero : kcp.snd.sndNxt + UInt32.ofNat 0 = kcp.snd.sndUna := (UInt32.add_zero _).trans hfront.symm
  rw [hsame] at hle
  rw [hadded, List.length_nil, hzero, itimediff_eq kcp.snd.sndUna (by omega) (by omega), hself, hend] at hstops
  omega

/-! ## Steps that send nothing new -/

/-- Reached without another message. -/
structure Onward (l l' : Link) : Prop where
  reaches : Reaches l l'
  near : l'.near.sent = l.near.sent
  far : l'.far.sent = l.far.sent
  nearGot : l.near.got <+: l'.near.got
  farGot : l.far.got <+: l'.far.got
  nearSettings : l'.near.kcp.settings = l.near.kcp.settings
  farSettings : l'.far.kcp.settings = l.far.kcp.settings

theorem Onward.refl (l : Link) : Onward l l := ⟨.refl, rfl, rfl, List.prefix_rfl, List.prefix_rfl, rfl, rfl⟩

theorem Onward.trans {l l' l'' : Link} (h : Onward l l') (h' : Onward l' l'') : Onward l l'' :=
  ⟨h.reaches.trans h'.reaches, h'.near.trans h.near, h'.far.trans h.far, h.nearGot.trans h'.nearGot,
    h.farGot.trans h'.farGot, h'.nearSettings.trans h.nearSettings, h'.farSettings.trans h.farSettings⟩

theorem reaches_swap {l l' : Link} (h : Reaches l l') : Reaches l.swap l'.swap := by
  induction h with
  | refl => exact .refl
  | tail _ hnext ih =>
    refine ih.tail ?_
    cases hnext with
    | near hstep => exact .far hstep
    | far hstep => exact .near hstep

theorem Onward.swap {l l' : Link} (h : Onward l l') : Onward l.swap l'.swap :=
  ⟨reaches_swap h.reaches, h.far, h.near, h.farGot, h.nearGot, h.farSettings, h.nearSettings⟩

/-- How many segments are not acknowledged. -/
def End.waiting (e : End) : Nat := e.kcp.snd.sndQueue.length + e.kcp.snd.sndBuf.length

/-! ## Datagrams that all arrive -/

/-- Sent since the last segment got its number. -/
def Datagram.Fresh (l : Link) (d : Datagram) : Prop :=
  d ∈ l.far.out ∧ d.mine = l.far.numbered ∧ d.theirs = l.near.numbered

theorem input_numbered {conv : UInt64} {e : End} (h : e.Good conv) (packet : Bytes) :
    (e.input packet).numbered = e.numbered := by
  have hqueue : (e.input packet).kcp.snd.sndQueue = e.kcp.snd.sndQueue := (input_shrinks h.wellFormed packet).queue
  have hmss : (e.input packet).kcp.mss = e.kcp.mss := congrArg Settings.mss (input_settings e.kcp packet)
  rw [End.numbered, End.numbered, hqueue, hmss]
  rfl

/-- All of them can be delivered. -/
theorem deliver_all {conv : UInt64} {ds : List Datagram} {l : Link} (hinv : l.Invariant conv) (h : ∀ d ∈ ds, d.Fresh l) :
    Onward l { l with near := ds.foldl (fun e d => e.input d.packet) l.near } := by
  induction ds generalizing l with
  | nil => exact Onward.refl l
  | cons d ds ih =>
    obtain ⟨hd, hmine, htheirs⟩ := h d List.mem_cons_self
    have hstep : Step l { l with near := l.near.input d.packet } := .deliver l hd (by omega) (by omega)
    have hone : Onward l { l with near := l.near.input d.packet } :=
      ⟨.single (.near hstep), rfl, rfl, List.prefix_rfl, List.prefix_rfl, input_settings _ _, rfl⟩
    refine hone.trans (ih (hinv.step hstep) fun e he => ?_)
    obtain ⟨he', hmine', htheirs'⟩ := h e (List.mem_cons_of_mem _ he)
    exact ⟨he', hmine', htheirs'.trans (input_numbered hinv.near d.packet).symm⟩

theorem shrinks_trans {k k' k'' : Ikcpcb} (h : Shrinks k k') (h' : Shrinks k' k'') : Shrinks k k'' :=
  ⟨h'.queue.trans h.queue, h'.buf.trans h.buf, h.acks.trans h'.acks⟩

/-- What one of their segments brings about and the others keep. -/
theorem deliver_brings {conv : UInt64} {l : Link} (hinv : l.Invariant conv) {t₁ t₂ : Transfer Fragment}
    {above₁ above₂ : Nat} (d₁ : Direction l.near l.far t₁ above₁) (d₂ : Direction l.far l.near t₂ above₂)
    {ds : List Datagram} (hds : ∀ d ∈ ds, d.Fresh l) {d : Datagram} (hd : d ∈ ds) {seg : Head × Bytes}
    (hseg : seg ∈ segmentsOf d.packet) {Q : Ikcpcb → Prop}
    (hone : ∀ kcp vars, Hearing conv l.near l.far t₁ t₂ above₁ above₂ kcp → Q (inputSeg kcp vars seg.1 seg.2).1)
    (hkeep : ∀ kcp vars, ∀ d ∈ ds, ∀ s ∈ segmentsOf d.packet, kcp.WellFormed → Q kcp → Q (inputSeg kcp vars s.1 s.2).1)
    (hsettle : ∀ {k k'}, Settles k k' → Q k → Q k') :
    Shrinks l.near.kcp (ds.foldl (fun e d => e.input d.packet) l.near).kcp ∧
      Q (ds.foldl (fun e d => e.input d.packet) l.near).kcp := by
  have htells : ∀ d ∈ ds, Tells conv t₁ t₂ above₁ d := by
    intro d hd
    obtain ⟨hmem, hmine, htheirs⟩ := hds d hd
    exact Direction.tells hinv.far d₁ d₂ hmem (by omega) (by omega)
  have hlift : ∀ k, Hearing conv l.near l.far t₁ t₂ above₁ above₂ k ∧ Shrinks l.near.kcp k → ∀ d ∈ ds,
      Hearing conv l.near l.far t₁ t₂ above₁ above₂ (ikcpInput k d.packet).2 ∧
        Shrinks l.near.kcp (ikcpInput k d.packet).2 := by
    intro k hk d hd
    exact ⟨hk.1.input (htells d hd), shrinks_trans hk.2 (input_shrinks hk.1.good.wellFormed d.packet)⟩
  have hstart : Hearing conv l.near l.far t₁ t₂ above₁ above₂ l.near.kcp ∧ Shrinks l.near.kcp l.near.kcp :=
    ⟨Hearing.start hinv.near d₁ d₂, rfl, List.Sublist.refl _, List.prefix_rfl⟩
  refine ⟨(Run.foldl_keeps (P := fun e : End => Hearing conv l.near l.far t₁ t₂ above₁ above₂ e.kcp ∧
      Shrinks l.near.kcp e.kcp) (fun e d hd he => hlift e.kcp he d hd) hstart).2, ?_⟩
  refine Run.foldl_brings (P := fun e : End => Hearing conv l.near l.far t₁ t₂ above₁ above₂ e.kcp ∧
    Shrinks l.near.kcp e.kcp) (Q := fun e => Q e.kcp) hd (fun e d hd he => hlift e.kcp he d hd) (fun e he => ?_)
    (fun e d' hd' he hQ => ?_) hstart
  · refine hsettle (he.1.settles (htells d hd)) ?_
    exact hearAll_brings hseg (P := Hearing conv l.near l.far t₁ t₂ above₁ above₂)
      (fun k vars s hs hk => hk.step (htells d hd).theirs (htells d hd).mine ((htells d hd).answers s hs)
        ((htells d hd).pushes s hs) vars) hone (fun k vars s hs hk => hkeep k vars d hd s hs hk.good.wellFormed) he.1 {}
  · refine hsettle (he.1.settles (htells d' hd')) ?_
    exact (hearAll_keeps (P := fun k => Hearing conv l.near l.far t₁ t₂ above₁ above₂ k ∧ Q k)
      (fun k vars s hs hk => ⟨hk.1.step (htells d' hd').theirs (htells d' hd').mine ((htells d' hd').answers s hs)
        ((htells d' hd').pushes s hs) vars, hkeep k vars d' hd' s hs hk.1.good.wellFormed hk.2⟩) ⟨he.1, hQ⟩ {}).2

/-! ## A flush whose datagrams all arrive -/

/-- What a flush of the near end sends. -/
structure Emits (l l' : Link) (kcp : Ikcpcb) (added rest probes segs : List IkcpSeg) (ds : List Datagram) : Prop where
  onward : Onward l l'
  far : l'.far = l.far
  wellFormed : kcp.WellFormed
  snd : kcp.snd = l.near.kcp.snd
  rcv : kcp.rcv = l.near.kcp.rcv
  probe : kcp.probe = l.near.kcp.probe
  flushes : Flushes kcp l'.near.kcp added rest
  flushed : Flushed kcp l'.near.kcp
  sends : Sends kcp added rest probes segs
  fresh : ∀ d ∈ ds, d.Fresh l'.swap
  carried : ∀ seg ∈ segs, ∃ d ∈ ds, seg.arrived ∈ segmentsOf d.packet
  only : ∀ d ∈ ds, ∀ p ∈ segmentsOf d.packet, ∃ seg ∈ segs, p = seg.arrived

theorem emits {conv : UInt64} {l : Link} (hinv : l.Invariant conv) {current tsFlush : UInt32}
    (heq : ikcpUpdate l.near.kcp current = ikcpFlush (l.near.kcp.atTime current tsFlush)) :
    ∃ l' added rest probes segs ds, Emits l l' (l.near.kcp.atTime current tsFlush) added rest probes segs ds := by
  have hwf : (l.near.kcp.atTime current tsFlush).WellFormed := hinv.near.wellFormed.of_frame ⟨rfl, rfl, rfl⟩
  rcases ikcpFlush_sends hwf with ⟨hno, -⟩ | ⟨hupdated, added, rest, probes, packets, hf, hout, -, hs⟩
  · exact absurd rfl hno
  · have hstep : Step l { l with near := l.near.emit l.far (ikcpUpdate l.near.kcp current) } := .update l current
    rw [heq] at hstep
    have hpieces : ∀ p ∈ packets, segmentsOf (encodeSegs p) = p.map IkcpSeg.arrived := fun p hp =>
      segmentsOf_encodeSegs fun seg hseg =>
        (hs.passes hwf hf.fills seg (List.mem_flatten.mpr ⟨p, hp, hseg⟩)).short
    let e : End := { l.near with kcp := (ikcpFlush (l.near.kcp.atTime current tsFlush)).1 }
    let stamp : Bytes → Datagram := fun packet => { packet, mine := e.numbered, theirs := l.far.numbered }
    refine ⟨_, added, rest, probes, packets.flatten, (packets.map encodeSegs).map stamp,
      ⟨.single (.near hstep), rfl, rfl, List.prefix_rfl, List.prefix_rfl, hf.settings, rfl⟩, rfl, hwf, rfl, rfl, rfl, hf, ikcpFlush_flushed hupdated, hs, ?_, ?_, ?_⟩
    · intro d hd
      obtain ⟨packet, hpacket, rfl⟩ := List.mem_map.mp hd
      refine ⟨?_, rfl, rfl⟩
      show stamp packet ∈ l.near.out ++ (ikcpFlush (l.near.kcp.atTime current tsFlush)).2.map stamp
      rw [hout]
      exact List.mem_append_right _ hd
    · intro seg hseg
      obtain ⟨p, hp, hmem⟩ := List.mem_flatten.mp hseg
      refine ⟨stamp (encodeSegs p), List.mem_map_of_mem (List.mem_map_of_mem hp), ?_⟩
      show seg.arrived ∈ segmentsOf (encodeSegs p)
      rw [hpieces p hp]
      exact List.mem_map_of_mem hmem
    · intro d hd arrived harrived
      obtain ⟨packet, hpacket, rfl⟩ := List.mem_map.mp hd
      obtain ⟨p, hp, rfl⟩ := List.mem_map.mp hpacket
      have hmem : arrived ∈ p.map IkcpSeg.arrived := by
        rw [← hpieces p hp]
        exact harrived
      obtain ⟨seg, hseg, rfl⟩ := List.mem_map.mp hmem
      exact ⟨seg, List.mem_flatten.mpr ⟨p, hp, hseg⟩, rfl⟩

/-- A flush makes nothing wait that did not. -/
theorem Emits.waiting {l l' : Link} {kcp : Ikcpcb} {added rest probes segs : List IkcpSeg} {ds : List Datagram}
    (h : Emits l l' kcp added rest probes segs ds) : l'.near.waiting = l.near.waiting := by
  obtain ⟨buf, hbody, hbuf⟩ := h.flushes.snd
  have hlen := congrArg List.length hbody
  have hsplit := congrArg List.length h.flushes.fills.split
  rw [List.length_map, List.length_map] at hlen
  rw [End.waiting, End.waiting, hbuf, ← h.snd, hlen]
  rw [List.length_append] at hsplit
  show rest.length + (kcp.snd.sndBuf ++ numberFrom _ _ _ added).length = _
  rw [List.length_append, numberFrom_length]
  omega

/-- What one of the segments brings about at the other end, and the others keep. -/
theorem Emits.told {conv : UInt64} {l l' : Link} {kcp : Ikcpcb} {added rest probes segs : List IkcpSeg}
    {ds : List Datagram} (h : Emits l l' kcp added rest probes segs ds) (hinv : l'.Invariant conv)
    {t₁ t₂ : Transfer Fragment} {above₁ above₂ : Nat} (d₁ : Direction l'.near l'.far t₁ above₁)
    (d₂ : Direction l'.far l'.near t₂ above₂) {seg : IkcpSeg} (hseg : seg ∈ segs) {Q : Ikcpcb → Prop}
    (hone : ∀ k vars, Hearing conv l'.far l'.near t₂ t₁ above₂ above₁ k → Q (inputSeg k vars seg.head seg.data).1)
    (hkeep : ∀ k vars, ∀ s ∈ segs, k.WellFormed → Q k → Q (inputSeg k vars s.head s.data).1)
    (hsettle : ∀ {k k'}, Settles k k' → Q k → Q k') :
    ∃ e, Onward l' { l' with far := e } ∧ Shrinks l'.far.kcp e.kcp ∧ Q e.kcp := by
  obtain ⟨d, hd, hcarried⟩ := h.carried seg hseg
  have hall := deliver_all hinv.swap h.fresh
  obtain ⟨hshrinks, hQ⟩ := deliver_brings (l := l'.swap) hinv.swap d₂ d₁ h.fresh hd hcarried (Q := Q) hone
    (fun k vars e he p hp hwf hk => by
      obtain ⟨s, hs, rfl⟩ := h.only e he p hp
      exact hkeep k vars s hs hwf hk) hsettle
  exact ⟨_, hall.swap, hshrinks, hQ⟩

end Yagips.Kcp
