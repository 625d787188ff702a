import Yagips.Kcp.Exchange

/-!
# No deadlock

Wherever a link is, everything that was sent can still be delivered. As long as something waits to be
acknowledged, one exchange of datagrams makes it less; where a window was closed, a question opens it.
-/
namespace Yagips.Kcp

open Yagips.Lib

/-! ## Making room -/

theorem or_and_ne_zero {x y z : UInt32} : (x ||| y) &&& z ≠ 0 ↔ x &&& z ≠ 0 ∨ y &&& z ≠ 0 := by
  have hdistrib : (x ||| y) &&& z = (x &&& z) ||| (y &&& z) := UInt32.toBitVec_inj.mp BitVec.and_or_distrib_right
  rw [hdistrib, ne_eq, UInt32.or_eq_zero_iff, not_and_or]

/-- What taking messages leaves. -/
structure Drained (e e' : End) : Prop where
  snd : e'.kcp.snd = e.kcp.snd
  acks : e'.kcp.rcv.acklist = e.kcp.rcv.acklist
  tells : e.kcp.probe &&& ikcpAskTell ≠ 0 → e'.kcp.probe &&& ikcpAskTell ≠ 0

theorem recv_drained (e : End) (len : Int) : Drained e (e.recv len) := by
  refine ⟨rfl, recv_acklist e.kcp.rcv len, fun htell => ?_⟩
  rw [End.recv, ikcpRecv]
  dsimp only
  split
  · exact or_and_ne_zero.mpr (.inl htell)
  · exact htell

theorem recv_onward (l : Link) (n : Nat) :
    Onward l { l with near := (End.recv · anyLen)^[n] l.near } ∧ Drained l.near ((End.recv · anyLen)^[n] l.near) := by
  induction n generalizing l with
  | zero => exact ⟨Onward.refl l, rfl, rfl, id⟩
  | succ n ih =>
    have hgot : l.near.got <+: (l.near.recv anyLen).got := by
      rw [End.recv]
      dsimp only
      split
      · exact List.prefix_append _ _
      · exact List.prefix_rfl
    have hset : (l.near.recv anyLen).kcp.settings = l.near.kcp.settings := setRcv_settings _ (recv_wnd _ anyLen)
    have hone : Onward l { l with near := l.near.recv anyLen } :=
      ⟨.single (.near (.recv l anyLen)), rfl, rfl, hgot, List.prefix_rfl, hset, rfl⟩
    have hstep := recv_drained l.near anyLen
    obtain ⟨honward, hdrained⟩ := ih { l with near := l.near.recv anyLen }
    exact ⟨hone.trans honward, hdrained.snd.trans hstep.snd, hdrained.acks.trans hstep.acks,
      fun htell => hdrained.tells (hstep.tells htell)⟩

/-- No message waits at the far end that its window counts. -/
def Link.Room (l : Link) : Prop := l.far.kcp.rcv.rcvQueue.length < 128

theorem drain {conv : UInt64} {l : Link} (hinv : l.Invariant conv) :
    ∃ e, Onward l { l with far := e } ∧ Link.Room { l with far := e } ∧ Drained l.far e := by
  obtain ⟨t, above, d⟩ := hinv.forth
  obtain ⟨n, hn⟩ := d.take_room hinv.near.wellFormed.good.mss hinv.far
  obtain ⟨honward, hdrained⟩ := recv_onward l.swap n
  exact ⟨_, honward.swap, hn, hdrained⟩

/-! ## What is outstanding is acknowledged -/

theorem dueOf_ne_no {kcp : Ikcpcb} {seg : IkcpSeg} (h : 0 ≤ itimediff kcp.current seg.resendts) : dueOf kcp seg ≠ .no := by
  rw [dueOf]
  by_cases hfirst : seg.xmit = 0
  · rw [if_pos hfirst]
    decide
  · rw [if_neg hfirst, if_pos h]
    decide

/-- The first outstanding segment is not past what the other end waits for. -/
theorem Direction.front_le {s r : End} {t : Transfer Fragment} {above : Nat} (d : Direction s r t above)
    (hs : s.kcp.WellFormed) (hr : r.kcp.WellFormed) (hroom : r.kcp.rcv.rcvQueue.length < r.kcp.rcv.rcvWnd.toNat)
    {first : IkcpSeg} {rest : List IkcpSeg} (hbuf : s.kcp.snd.sndBuf = first :: rest) :
    ∃ u, first.sn = UInt32.ofNat u ∧ u ≤ t.next ∧ t.log.length ≤ u + maxWnd := by
  have hW : maxWnd = 2 ^ 28 := rfl
  obtain ⟨u, hu, hsn, -⟩ := d.sending.kept.seg first (hbuf ▸ List.mem_cons_self)
  obtain ⟨hlt, hspan⟩ := d.sending.kept.range u hu
  refine ⟨u, hsn, ?_, hspan⟩
  rcases Nat.lt_or_ge t.next t.log.length with hnext | hnext
  · have hkept : t.next ∈ t.kept := (d.sound.safe t.next hnext).resolve_right (d.next_free hr hroom)
    obtain ⟨seg, hseg, hsn'⟩ := d.sending.kept.number t.next hkept
    have hrange := d.sending.kept.range t.next hkept
    have hbelow := hs.snd.below seg hseg
    have hwidth := hs.snd.width
    have hsmall : s.kcp.sndWnd.toNat < 2 ^ 31 := hs.good.sndWnd
    have hfront := hs.snd.front
    rw [hbuf] at hfront
    have hzero : ahead s.kcp.snd.sndUna first.sn = 0 := by
      rw [hfront]
      exact ahead_self _
    have hdiff := itimediff_eq s.kcp.snd.sndUna (x := seg.sn) (y := first.sn) (by omega) (by omega)
    rw [hsn', hsn, itimediff_ofNat (by omega) (by omega)] at hdiff
    rw [hsn] at hzero
    omega
  · omega

/-- A segment that is not past what the end waits for is acknowledged. -/
theorem acked {r : Rcv} {t : Transfer Fragment} (hr : Receiving r t) (hwnd : r.rcvWnd.toNat ≤ maxWnd)
    (hpos : 0 < r.rcvWnd.toNat) {u : Nat} (hle : u ≤ t.next) (hspan : t.next ≤ u + maxWnd) {h : Head} {data : Bytes}
    (hcmd : h.cmd.toUInt32 = ikcpCmdPush) (hsn : h.sn = UInt32.ofNat u) : ∃ ts, (h.sn, ts) ∈ (r.hear h data).acklist := by
  have hW : maxWnd = 2 ^ 28 := rfl
  have hend : r.rcvNxt + r.rcvWnd = UInt32.ofNat (t.next + r.rcvWnd.toNat) := by
    rw [hr.nxt, UInt32.ofNat_add, UInt32.ofNat_toNat]
  have hin : itimediff h.sn (r.rcvNxt + r.rcvWnd) < 0 := by
    rw [hend, hsn, itimediff_ofNat (by omega) (by omega)]
    omega
  rw [Rcv.hear, if_pos hcmd, pushSeg_acklist, if_pos hin]
  exact ⟨h.ts, List.mem_append_right _ (List.mem_singleton_self _)⟩

theorem Shrinks.waiting_lt {e e' : End} (h : Shrinks e.kcp e'.kcp) {seg : IkcpSeg} (hseg : seg ∈ e.kcp.snd.sndBuf)
    (hgone : ∀ s ∈ e'.kcp.snd.sndBuf, s.sn ≠ seg.sn) : e'.waiting < e.waiting := by
  have hle := h.buf.length_le
  have hne : e'.kcp.snd.sndBuf.length ≠ e.kcp.snd.sndBuf.length := by
    intro hlen
    have hsame := h.buf.eq_of_length (by rw [List.length_map, List.length_map, hlen])
    obtain ⟨s, hs, hbody⟩ := exists_body hsame.symm hseg
    exact hgone s hs (congrArg Body.sn hbody)
  rw [List.length_map, List.length_map] at hle
  rw [End.waiting, End.waiting, h.queue]
  omega

theorem Shrinks.waiting_le {e e' : End} (h : Shrinks e.kcp e'.kcp) : e'.waiting ≤ e.waiting := by
  have hle := h.buf.length_le
  rw [List.length_map, List.length_map] at hle
  rw [End.waiting, End.waiting, h.queue]
  omega

/-- An outstanding segment is sent again when its time is over. -/
theorem emits_segment {conv : UInt64} {l : Link} (hinv : l.Invariant conv) {first : IkcpSeg}
    (hfirst : first ∈ l.near.kcp.snd.sndBuf) :
    ∃ l' kcp added rest probes segs ds, Emits l l' kcp added rest probes segs ds ∧ ∃ seg ∈ segs, seg.body = first.body := by
  obtain ⟨current, tsFlush, heq, htime⟩ := exists_flush_time l.near.kcp first.resendts
  obtain ⟨l', added, rest, probes, segs, ds, hemits⟩ := emits hinv heq
  have hdue : dueOf ((l.near.kcp.atTime current tsFlush).sending added rest) first ≠ .no := by
    apply dueOf_ne_no
    have hcurrent : ((l.near.kcp.atTime current tsFlush).sending added rest).current = current :=
      (flushControl_rest (l.near.kcp.atTime current tsFlush)).2.2.1
    rwa [hcurrent]
  obtain ⟨seg, hsent⟩ := sentSeg_of_due (ikcpWndUnused (l.near.kcp.atTime current tsFlush).rcv) hdue
  refine ⟨l', _, added, rest, probes, segs, ds, hemits, seg, ?_, (sentSeg_spec hsent).1⟩
  rw [hemits.sends.split]
  exact List.mem_append_right _ (List.mem_filterMap.mpr ⟨first, List.mem_append_left _ hfirst, hsent⟩)

/-- The far end answers: it flushes, and everything it sends arrives. -/
theorem answered {conv : UInt64} {l : Link} (hinv : l.Invariant conv) (hroom : l.Room) {Q : Ikcpcb → Prop}
    (h : ∀ kcp added rest probes segs, kcp.WellFormed → kcp.rcv = l.far.kcp.rcv → kcp.probe = l.far.kcp.probe →
      Sends kcp added rest probes segs →
      (∃ seg ∈ segs, ∀ k vars, k.WellFormed → Q (inputSeg k vars seg.head seg.data).1) ∧
        ∀ k vars, ∀ seg ∈ segs, k.WellFormed → Q k → Q (inputSeg k vars seg.head seg.data).1)
    (hsettle : ∀ {k k'}, Settles k k' → Q k → Q k') :
    ∃ l', Onward l l' ∧ l'.Room ∧ Shrinks l.near.kcp l'.near.kcp ∧ Q l'.near.kcp := by
  obtain ⟨current, tsFlush, heq, -⟩ := exists_flush_time l.far.kcp 0
  obtain ⟨l', added, rest, probes, segs, ds, hemits⟩ := emits hinv.swap heq
  have hinv' := hinv.swap.reaches hemits.onward.reaches
  obtain ⟨t₁, above₁, d₁⟩ := hinv'.forth
  obtain ⟨t₂, above₂, d₂⟩ := hinv'.back
  obtain ⟨⟨seg, hseg, hone⟩, hkeep⟩ := h _ added rest probes segs hemits.wellFormed hemits.rcv hemits.probe hemits.sends
  obtain ⟨e, honward, hshrinks, hQ⟩ := hemits.told hinv' d₁ d₂ hseg (Q := Q)
    (fun k vars hk => hone k vars hk.good.wellFormed) hkeep hsettle
  have hnear : l'.far = l.near := hemits.far
  rw [hnear] at hshrinks
  refine ⟨_, (hemits.onward.trans honward).swap, ?_, hshrinks, hQ⟩
  show l'.near.kcp.rcv.rcvQueue.length < 128
  rw [hemits.flushes.rcv, hemits.rcv]
  exact hroom

/-- The first outstanding segment stays the first. -/
theorem Emits.first {l l' : Link} {kcp : Ikcpcb} {added left probes segs : List IkcpSeg} {ds : List Datagram}
    (h : Emits l l' kcp added left probes segs ds) {first : IkcpSeg} {rest : List IkcpSeg}
    (hfirst : l.near.kcp.snd.sndBuf = first :: rest) :
    ∃ first' rest', l'.near.kcp.snd.sndBuf = first' :: rest' ∧ first'.sn = first.sn := by
  obtain ⟨buf, hbodies, hsnd⟩ := h.flushes.snd
  obtain ⟨more, hmore⟩ : ∃ more, (kcp.numbering added left).sndBuf = first :: more := by
    refine ⟨rest ++ numberFrom (flushControl kcp).1 (ikcpWndUnused kcp.rcv) kcp.snd.sndNxt added, ?_⟩
    show kcp.snd.sndBuf ++ _ = _
    rw [h.snd, hfirst, List.cons_append]
  rw [hmore, List.map_cons] at hbodies
  obtain ⟨first', rest', hbuf, hbody, -⟩ := List.map_eq_cons_iff.mp hbodies
  exact ⟨first', rest', (congrArg Snd.sndBuf hsnd).trans hbuf, congrArg Body.sn hbody⟩

/-- Where it arrives, it is to be acknowledged. -/
theorem arrives {conv : UInt64} {l : Link} (hinv : l.Invariant conv) (hroom : l.Room)
    (hbuf : l.near.kcp.snd.sndBuf ≠ []) :
    ∃ l' seg ts, Onward l l' ∧ l'.near.waiting = l.near.waiting ∧ seg ∈ l'.near.kcp.snd.sndBuf ∧
      (seg.sn, ts) ∈ l'.far.kcp.rcv.acklist := by
  obtain ⟨first, rest, hfirst⟩ := List.exists_cons_of_ne_nil hbuf
  have hmem : first ∈ l.near.kcp.snd.sndBuf := hfirst ▸ List.mem_cons_self
  obtain ⟨l', kcp, added, left, probes, segs, ds, hemits, seg, hseg, hbody⟩ := emits_segment hinv hmem
  have hinv' := hinv.reaches hemits.onward.reaches
  obtain ⟨first', rest', hfirst', hsn'⟩ := hemits.first hfirst
  obtain ⟨t₁, above₁, d₁⟩ := hinv'.forth
  obtain ⟨t₂, above₂, d₂⟩ := hinv'.back
  have hroom' : l'.far.kcp.rcv.rcvQueue.length < l'.far.kcp.rcv.rcvWnd.toNat := by
    have hwnd := hinv'.far.rcvWnd_ge
    rw [hemits.far] at hwnd ⊢
    exact Nat.lt_of_lt_of_le hroom hwnd
  obtain ⟨u, hu, hle, hspan⟩ := d₁.front_le hinv'.near.wellFormed hinv'.far.wellFormed hroom' hfirst'
  have hsn : seg.sn = first'.sn := (congrArg Body.sn hbody).trans hsn'.symm
  have hcmd : seg.head.cmd.toUInt32 = ikcpCmdPush := by
    rw [Passes.head_cmd (hemits.sends.passes hemits.wellFormed hemits.flushes.fills seg hseg)]
    exact (congrArg Body.cmd hbody).trans (hinv.near.wellFormed.numbered first hmem).2.2
  have hone : ∀ k vars, Hearing conv l'.far l'.near t₂ t₁ above₂ above₁ k →
      ∃ ts, (seg.sn, ts) ∈ (inputSeg k vars seg.head seg.data).1.rcv.acklist := by
    intro k vars hk
    obtain ⟨t, hleads, hlog, d⟩ := hk.back
    have hnext := d.sound.next_le
    have hge := hk.good.rcvWnd_ge
    rw [hlog] at hnext
    rw [(inputSeg_spec k vars seg.head seg.data).2.1]
    exact acked d.receiving hk.good.rcvWnd_le (Nat.lt_of_lt_of_le (by decide) hge) (hle.trans hleads.next)
      (hnext.trans hspan) hcmd (hsn.trans hu)
  have hkeep : ∀ k vars, ∀ s ∈ segs, k.WellFormed → (∃ ts, (seg.sn, ts) ∈ k.rcv.acklist) →
      ∃ ts, (seg.sn, ts) ∈ (inputSeg k vars s.head s.data).1.rcv.acklist := by
    intro k vars s _ _ hk
    obtain ⟨ts, hack⟩ := hk
    rw [(inputSeg_spec k vars s.head s.data).2.1]
    exact ⟨ts, (hear_acklist k.rcv s.head s.data).subset hack⟩
  obtain ⟨e, honward, -, ts, hack⟩ := hemits.told hinv' d₁ d₂ hseg (Q := fun k => ∃ ts, (seg.sn, ts) ∈ k.rcv.acklist)
    hone hkeep fun hs hk => hs.rcv ▸ hk
  refine ⟨_, first', ts, hemits.onward.trans honward, hemits.waiting, ?_, hsn ▸ hack⟩
  show first' ∈ l'.near.kcp.snd.sndBuf
  rw [hfirst']
  exact List.mem_cons_self

/-- What is to be acknowledged is given up. -/
theorem given_up {conv : UInt64} {l : Link} (hinv : l.Invariant conv) (hroom : l.Room) {sn ts : UInt32}
    (hack : (sn, ts) ∈ l.far.kcp.rcv.acklist) :
    ∃ l', Onward l l' ∧ l'.Room ∧ Shrinks l.near.kcp l'.near.kcp ∧ ∀ seg ∈ l'.near.kcp.snd.sndBuf, seg.sn ≠ sn := by
  refine answered hinv hroom (Q := fun k => ∀ seg ∈ k.snd.sndBuf, seg.sn ≠ sn)
    (fun kcp added rest probes segs _ hrcv _ hsends => ?_) fun hs hnone => ?_
  · refine ⟨⟨{ controlSeg kcp with sn, ts }, ?_, fun k vars hk => ?_⟩, fun k vars seg _ hk hnone => ?_⟩
    · rw [hsends.split, List.append_assoc]
      exact List.mem_append_left _ (List.mem_map.mpr ⟨(sn, ts), hrcv ▸ hack, rfl⟩)
    · rw [(inputSeg_spec k vars _ _).1]
      exact hear_gone (h := IkcpSeg.head { controlSeg kcp with sn, ts }) hk.snd hk.good.sndWnd rfl
    · rw [(inputSeg_spec k vars seg.head seg.data).1]
      exact fun s hs => hnone s ((hk.snd.hear seg.head).2.sublist.subset hs)
  · obtain ⟨buf, hbodies, hsnd⟩ := hs.snd
    rw [hsnd]
    intro seg hseg hsame
    obtain ⟨seg', hseg', hbody⟩ := exists_body hbodies hseg
    exact hnone seg' hseg' ((congrArg Body.sn hbody).trans hsame)

/-- The first outstanding segment is sent again, and its acknowledgement comes back. -/
theorem acknowledge {conv : UInt64} {l : Link} (hinv : l.Invariant conv) (hroom : l.Room)
    (hbuf : l.near.kcp.snd.sndBuf ≠ []) :
    ∃ l', Onward l l' ∧ l'.Room ∧ l'.near.waiting < l.near.waiting := by
  obtain ⟨l₁, seg, ts, honward₁, hwaiting, hseg, hack⟩ := arrives hinv hroom hbuf
  have hinv₁ := hinv.reaches honward₁.reaches
  obtain ⟨e, honward₂, hroom₂, hdrained⟩ := drain hinv₁
  obtain ⟨l', honward₃, hroom', hshrinks, hgone⟩ :=
    given_up (hinv₁.reaches honward₂.reaches) hroom₂ (hdrained.acks.symm ▸ hack)
  refine ⟨l', (honward₁.trans honward₂).trans honward₃, hroom', ?_⟩
  rw [← hwaiting]
  exact Shrinks.waiting_lt (e := l₁.near) hshrinks hseg hgone

/-! ## A closed window is opened -/

theorem inputSeg_rest (kcp : Ikcpcb) (vars : InputVars) (h : Head) (data : Bytes) :
    (inputSeg kcp vars h data).1.rmtWnd = h.wnd.toUInt32 ∧
      (inputSeg kcp vars h data).1.probe =
        if h.cmd.toUInt32 = ikcpCmdWask then kcp.probe ||| ikcpAskTell else kcp.probe := by
  have hmeasure : ∀ (k : Ikcpcb) ts, (measureRtt k ts).rmtWnd = k.rmtWnd ∧ (measureRtt k ts).probe = k.probe := by
    intro k ts
    rw [measureRtt]
    split
    · rw [ikcpUpdateAck]
      dsimp only
      split <;> exact ⟨rfl, rfl⟩
    · exact ⟨rfl, rfl⟩
  rw [inputSeg]
  dsimp only
  by_cases hack : h.cmd.toUInt32 = ikcpCmdAck
  · have hwask : ¬ h.cmd.toUInt32 = ikcpCmdWask := by rw [hack]; decide
    obtain ⟨hrmt, hprobe⟩ := hmeasure
      (Ikcpcb.setSnd { kcp with rmtWnd := h.wnd.toUInt32 } (ikcpShrinkBuf (ikcpParseUna kcp.snd h.una))) h.ts
    rw [if_pos hack, if_neg hwask]
    exact ⟨hrmt, hprobe⟩
  · rw [if_neg hack]
    by_cases hpush : h.cmd.toUInt32 = ikcpCmdPush
    · have hwask : ¬ h.cmd.toUInt32 = ikcpCmdWask := by rw [hpush]; decide
      rw [if_pos hpush, if_neg hwask]
      exact ⟨rfl, rfl⟩
    · rw [if_neg hpush]
      split <;> exact ⟨rfl, rfl⟩

theorem inputSeg_tells {kcp : Ikcpcb} (h : kcp.probe &&& ikcpAskTell ≠ 0) (vars : InputVars) (head : Head) (data : Bytes) :
    (inputSeg kcp vars head data).1.probe &&& ikcpAskTell ≠ 0 := by
  rw [(inputSeg_rest kcp vars head data).2]
  split
  · exact or_and_ne_zero.mpr (.inl h)
  · exact h

theorem probeWindow_tells {kcp : Ikcpcb} (h : kcp.probe &&& ikcpAskTell ≠ 0) : (probeWindow kcp).probe &&& ikcpAskTell ≠ 0 := by
  rw [probeWindow]
  split
  · split
    · exact h
    · split
      · exact or_and_ne_zero.mpr (.inl h)
      · exact h
  · exact h

/-- Where the time for it has come, a closed window is asked about. -/
theorem probeWindow_asks (kcp : Ikcpcb) (hrmt : kcp.rmtWnd = 0) (hwait : kcp.probeWait ≠ 0)
    (htime : 0 ≤ itimediff kcp.current kcp.tsProbe) : (probeWindow kcp).probe &&& ikcpAskSend ≠ 0 := by
  rw [probeWindow, if_pos hrmt, if_neg hwait, if_pos htime]
  exact or_and_ne_zero.mpr (.inr (by decide))

theorem probeWindow_waits (kcp : Ikcpcb) (hrmt : kcp.rmtWnd = 0) (hwait : kcp.probeWait = 0) :
    (probeWindow kcp).probeWait ≠ 0 := by
  rw [probeWindow, if_pos hrmt, if_pos hwait]
  show (7000 : UInt32) ≠ 0
  decide

/-- A window with room is told as what it is, if two bytes are enough for it. -/
theorem wndUnused_told {r : Rcv} (hque : r.nrcvQue.toNat = r.rcvQueue.length)
    (hroom : r.rcvQueue.length < r.rcvWnd.toNat) (hwnd : r.rcvWnd.toNat < 2 ^ 16) :
    (ikcpWndUnused r).toUInt16.toUInt32 ≠ 0 := by
  have hlt : r.nrcvQue < r.rcvWnd := UInt32.lt_iff_toNat_lt.mpr (hque ▸ hroom)
  have hsub := UInt32.toNat_sub_of_le _ _ (UInt32.le_of_lt hlt)
  rw [ikcpWndUnused, if_pos hlt]
  intro hzero
  have hnat := congrArg UInt32.toNat hzero
  rw [UInt16.toNat_toUInt32, UInt32.toNat_toUInt16, hsub] at hnat
  have hmod : (r.rcvWnd.toNat - r.nrcvQue.toNat) % 2 ^ 16 = r.rcvWnd.toNat - r.nrcvQue.toNat := Nat.mod_eq_of_lt (by omega)
  rw [hmod] at hnat
  have hnone : r.rcvWnd.toNat - r.nrcvQue.toNat = 0 := hnat
  omega

/-- A question about the window comes back with a window that is open. -/
theorem opens {conv : UInt64} {l : Link} (hinv : l.Invariant conv) (hroom : l.Room)
    (hwnd : l.far.kcp.rcv.rcvWnd.toNat < 2 ^ 16) (htell : l.far.kcp.probe &&& ikcpAskTell ≠ 0) :
    ∃ l', Onward l l' ∧ l'.Room ∧ Shrinks l.near.kcp l'.near.kcp ∧ l'.near.kcp.rmtWnd ≠ 0 := by
  have hge := hinv.far.rcvWnd_ge
  have hopen : (ikcpWndUnused l.far.kcp.rcv).toUInt16.toUInt32 ≠ 0 :=
    wndUnused_told hinv.far.wellFormed.rcv.que (Nat.lt_of_lt_of_le hroom hge) hwnd
  refine answered hinv hroom (Q := fun k => k.rmtWnd ≠ 0) (fun kcp added rest probes segs _ hrcv hprobe hsends => ?_)
    fun hs hk => hs.rmtWnd.symm ▸ hk
  have hall : ∀ k vars, ∀ seg ∈ segs, (inputSeg k vars seg.head seg.data).1.rmtWnd ≠ 0 := by
    intro k vars seg hseg
    have hsame : seg.head.wnd = (ikcpWndUnused l.far.kcp.rcv).toUInt16 := by
      rw [← hrcv, ← (hsends.cases hseg).2.1]
      rfl
    rw [(inputSeg_rest k vars seg.head seg.data).1, hsame]
    exact hopen
  obtain ⟨seg, hseg, -⟩ := hsends.tells (probeWindow_tells (hprobe ▸ htell))
  have hmem : seg ∈ segs := by
    rw [hsends.split]
    exact List.mem_append_left _ (List.mem_append_right _ hseg)
  exact ⟨⟨seg, hmem, fun k vars _ => hall k vars seg hmem⟩, fun k vars s hs _ _ => hall k vars s hs⟩

/-- A closed window is asked about once the time for it has come, and opened. -/
theorem asks {conv : UInt64} {l : Link} (hinv : l.Invariant conv) (hwnd : l.far.kcp.rcv.rcvWnd.toNat < 2 ^ 16)
    (hrmt : l.near.kcp.rmtWnd = 0) (hwait : l.near.kcp.probeWait ≠ 0) :
    ∃ l', Onward l l' ∧ l'.Room ∧ l'.near.waiting ≤ l.near.waiting ∧ l'.near.kcp.rmtWnd ≠ 0 := by
  obtain ⟨current, tsFlush, heq, htime⟩ := exists_flush_time l.near.kcp l.near.kcp.tsProbe
  obtain ⟨l₁, added, rest, probes, segs, ds, hemits⟩ := emits hinv heq
  have hinv₁ := hinv.reaches hemits.onward.reaches
  obtain ⟨t₁, above₁, d₁⟩ := hinv₁.forth
  obtain ⟨t₂, above₂, d₂⟩ := hinv₁.back
  obtain ⟨seg, hprobe, hcmd⟩ := hemits.sends.asks
    (probeWindow_asks (l.near.kcp.atTime current tsFlush) hrmt hwait htime)
  have hseg : seg ∈ segs := by
    rw [hemits.sends.split]
    exact List.mem_append_left _ (List.mem_append_right _ hprobe)
  have hone : ∀ k vars, (inputSeg k vars seg.head seg.data).1.probe &&& ikcpAskTell ≠ 0 := by
    intro k vars
    have hwask : seg.head.cmd.toUInt32 = ikcpCmdWask :=
      (Passes.head_cmd (hemits.sends.passes hemits.wellFormed hemits.flushes.fills seg hseg)).trans hcmd
    rw [(inputSeg_rest k vars seg.head seg.data).2, if_pos hwask]
    exact or_and_ne_zero.mpr (.inr (by decide))
  obtain ⟨e₂, honward₂, -, htell₂⟩ := hemits.told hinv₁ d₁ d₂ hseg (Q := fun k => k.probe &&& ikcpAskTell ≠ 0)
    (fun k vars _ => hone k vars) (fun k vars s _ _ hk => inputSeg_tells hk vars s.head s.data)
    fun hs hk => hs.probe.symm ▸ hk
  have hinv₂ := hinv₁.reaches honward₂.reaches
  obtain ⟨e₃, honward₃, hroom₃, hdrained⟩ := drain hinv₂
  have honward := (hemits.onward.trans honward₂).trans honward₃
  have hsame : e₃.kcp.rcv.rcvWnd = l.far.kcp.rcv.rcvWnd := congrArg Settings.rcvWnd honward.farSettings
  obtain ⟨l', honward₄, hroom', hshrinks, hopen⟩ :=
    opens (hinv₂.reaches honward₃.reaches) hroom₃ (hsame.symm ▸ hwnd) (hdrained.tells htell₂)
  refine ⟨l', honward.trans honward₄, hroom', ?_, hopen⟩
  rw [← hemits.waiting]
  exact Shrinks.waiting_le (e := l₁.near) hshrinks

/-- A flush at any time. -/
theorem flushes {conv : UInt64} {l : Link} (hinv : l.Invariant conv) (hroom : l.Room) :
    ∃ l' kcp added rest, Onward l l' ∧ l'.Room ∧ l'.near.waiting = l.near.waiting ∧ kcp.WellFormed ∧
      (∃ current tsFlush, kcp = l.near.kcp.atTime current tsFlush) ∧ Flushes kcp l'.near.kcp added rest ∧
      Flushed kcp l'.near.kcp := by
  obtain ⟨current, tsFlush, heq, -⟩ := exists_flush_time l.near.kcp 0
  obtain ⟨l', added, rest, probes, segs, ds, h⟩ := emits hinv heq
  refine ⟨l', _, added, rest, h.onward, ?_, h.waiting, h.wellFormed, ⟨current, tsFlush, rfl⟩, h.flushes, h.flushed⟩
  rw [Link.Room, h.far]
  exact hroom

/-- Where the first flush finds the window closed, it sets the time to ask. -/
theorem reopens {conv : UInt64} {l : Link} (hinv : l.Invariant conv) (hroom : l.Room)
    (hwnd : l.far.kcp.rcv.rcvWnd.toNat < 2 ^ 16) :
    ∃ l', Onward l l' ∧ l'.Room ∧ l'.near.waiting ≤ l.near.waiting ∧ l'.near.kcp.rmtWnd ≠ 0 := by
  by_cases hrmt : l.near.kcp.rmtWnd = 0
  · by_cases hwait : l.near.kcp.probeWait = 0
    · obtain ⟨l₁, kcp, added, rest, honward, -, hwaiting, -, ⟨current, tsFlush, rfl⟩, -, hflushed⟩ := flushes hinv hroom
      have hsame : l₁.far.kcp.rcv.rcvWnd = l.far.kcp.rcv.rcvWnd := congrArg Settings.rcvWnd honward.farSettings
      obtain ⟨l', honward', hroom', hle, hopen⟩ := asks (hinv.reaches honward.reaches) (hsame.symm ▸ hwnd)
        (hflushed.rmtWnd.trans hrmt)
        (hflushed.probeWait.symm ▸ probeWindow_waits (l.near.kcp.atTime current tsFlush) hrmt hwait)
      exact ⟨l', honward.trans honward', hroom', hwaiting ▸ hle, hopen⟩
    · exact asks hinv hwnd hrmt hwait
  · exact ⟨l, Onward.refl l, hroom, le_rfl, hrmt⟩

/-- What waits in the queue gets numbers: the second flush has a congestion window. -/
theorem numbers {conv : UInt64} {l : Link} (hinv : l.Invariant conv) (hroom : l.Room) (hrmt : l.near.kcp.rmtWnd ≠ 0)
    (hsome : l.near.waiting ≠ 0) :
    ∃ l', Onward l l' ∧ l'.Room ∧ l'.near.waiting = l.near.waiting ∧ l'.near.kcp.snd.sndBuf ≠ [] := by
  obtain ⟨l₁, kcp, added, rest, honward, hroom₁, hwaiting, -, ⟨current, tsFlush, rfl⟩, -, hflushed⟩ := flushes hinv hroom
  by_cases hbuf : l₁.near.kcp.snd.sndBuf = []
  · obtain ⟨l', kcp', added', rest', honward', hroom', hwaiting', hwf, ⟨current', tsFlush', rfl⟩, hf, -⟩ :=
      flushes (hinv.reaches honward.reaches) hroom₁
    have hqueue : l₁.near.kcp.snd.sndQueue ≠ [] := by
      intro hqueue
      rw [← hwaiting, End.waiting, hbuf, hqueue] at hsome
      exact hsome rfl
    have hrmt₁ : l₁.near.kcp.rmtWnd ≠ 0 := by
      rw [hflushed.rmtWnd]
      exact hrmt
    have hadded := hf.added_ne_nil hwf hbuf hqueue hrmt₁ hflushed.cwnd
    refine ⟨l', honward.trans honward', hroom', hwaiting'.trans hwaiting, fun hnone => ?_⟩
    obtain ⟨buf, hbody, hsnd⟩ := hf.snd
    have hlen := congrArg List.length hbody
    have hbuf' : l'.near.kcp.snd.sndBuf = buf := congrArg Snd.sndBuf hsnd
    rw [List.length_map, List.length_map, ← hbuf', hnone] at hlen
    change 0 = (l₁.near.kcp.snd.sndBuf ++ numberFrom _ _ _ added').length at hlen
    rw [List.length_append, numberFrom_length] at hlen
    exact hadded (List.length_eq_zero_iff.mp (by omega))
  · exact ⟨l₁, honward, hroom₁, hwaiting, hbuf⟩

/-! ## Everything arrives -/

/-- As long as something waits, an exchange makes it less. -/
theorem progress {conv : UInt64} {l : Link} (hinv : l.Invariant conv) (hroom : l.Room)
    (hwnd : l.far.kcp.rcv.rcvWnd.toNat < 2 ^ 16) (hsome : l.near.waiting ≠ 0) :
    ∃ l', Onward l l' ∧ l'.Room ∧ l'.near.waiting < l.near.waiting := by
  obtain ⟨l₁, honward₁, hroom₁, hle, hrmt⟩ := reopens hinv hroom hwnd
  rcases Nat.eq_zero_or_pos l₁.near.waiting with hzero | hpos
  · exact ⟨l₁, honward₁, hroom₁, by omega⟩
  · have hinv₁ := hinv.reaches honward₁.reaches
    obtain ⟨l₂, honward₂, hroom₂, hsame, hbuf⟩ := numbers hinv₁ hroom₁ hrmt (Nat.pos_iff_ne_zero.mp hpos)
    obtain ⟨l', honward', hroom', hlt⟩ := acknowledge (hinv₁.reaches honward₂.reaches) hroom₂ hbuf
    exact ⟨l', (honward₁.trans honward₂).trans honward', hroom', by omega⟩

theorem exhausts {conv : UInt64} {l : Link} (hinv : l.Invariant conv) (hroom : l.Room)
    (hwnd : l.far.kcp.rcv.rcvWnd.toNat < 2 ^ 16) : ∃ l', Onward l l' ∧ l'.near.waiting = 0 := by
  obtain ⟨n, hn⟩ : ∃ n, l.near.waiting = n := ⟨_, rfl⟩
  induction n using Nat.strong_induction_on generalizing l with
  | _ n ih =>
    by_cases hsome : l.near.waiting = 0
    · exact ⟨l, Onward.refl l, hsome⟩
    · obtain ⟨l₁, honward, hroom₁, hlt⟩ := progress hinv hroom hwnd hsome
      have hsame : l₁.far.kcp.rcv.rcvWnd = l.far.kcp.rcv.rcvWnd := congrArg Settings.rcvWnd honward.farSettings
      obtain ⟨l', honward', hnone⟩ :=
        ih l₁.near.waiting (hn ▸ hlt) (hinv.reaches honward.reaches) hroom₁ (hsame.symm ▸ hwnd) rfl
      exact ⟨l', honward.trans honward', hnone⟩

theorem delivers {conv : UInt64} {l : Link} (hinv : l.Invariant conv) (hwnd : l.far.kcp.rcv.rcvWnd.toNat < 2 ^ 16) :
    ∃ l', Onward l l' ∧ l'.far.got = l.near.sent.map Message.bytes := by
  obtain ⟨e, honward₁, hroom₁, -⟩ := drain hinv
  have hinv₁ := hinv.reaches honward₁.reaches
  have hsame : e.kcp.rcv.rcvWnd = l.far.kcp.rcv.rcvWnd := congrArg Settings.rcvWnd honward₁.farSettings
  obtain ⟨l₂, honward₂, hnone⟩ := exhausts hinv₁ hroom₁ (hsame.symm ▸ hwnd)
  have hinv₂ := hinv₁.reaches honward₂.reaches
  obtain ⟨n, hgot⟩ := hinv₂.all_taken (List.length_eq_zero_iff.mp (Nat.eq_zero_of_add_eq_zero_right hnone))
    (List.length_eq_zero_iff.mp (Nat.eq_zero_of_add_eq_zero_left hnone))
  have honward₃ := (recv_onward l₂.swap n).1.swap
  exact ⟨_, (honward₁.trans honward₂).trans honward₃, by rw [← honward₂.near]; exact hgot⟩

/-- No step changes how an end was set up. -/
theorem step_settings {l l' : Link} (h : Step l l') : l'.near.kcp.settings = l.near.kcp.settings ∧ l'.far = l.far := by
  cases h with
  | send m => exact ⟨send_settings _ _, rfl⟩
  | recv len => exact ⟨setRcv_settings _ (recv_wnd _ len), rfl⟩
  | update current => exact ⟨update_settings _ current, rfl⟩
  | flush => exact ⟨flush_settings _, rfl⟩
  | deliver _ _ _ => exact ⟨input_settings _ _, rfl⟩
  | noise _ => exact ⟨input_settings _ _, rfl⟩

theorem reaches_settings {l l' : Link} (h : Reaches l l') :
    l'.near.kcp.settings = l.near.kcp.settings ∧ l'.far.kcp.settings = l.far.kcp.settings := by
  induction h with
  | refl => exact ⟨rfl, rfl⟩
  | tail _ hnext ih =>
    cases hnext with
    | near hstep =>
      obtain ⟨hnear, hfar⟩ := step_settings hstep
      exact ⟨hnear.trans ih.1, (congrArg (fun e : End => e.kcp.settings) hfar).trans ih.2⟩
    | far hstep =>
      obtain ⟨hfar, hnear⟩ := step_settings hstep
      exact ⟨(congrArg (fun e : End => e.kcp.settings) hnear).trans ih.1, hfar.trans ih.2⟩

/-- A link never gets stuck: from wherever it is, with no window larger than two bytes tell, everything
that was sent at either end can still be taken at the other. -/
theorem no_deadlock {conv : UInt64} {c c' : Config} (hwnd : c.rcvwnd.toInt < 2 ^ 16) (hwnd' : c'.rcvwnd.toInt < 2 ^ 16)
    {l : Link} (h : Reaches (opened conv c c') l) :
    ∃ l', Reaches l l' ∧ l'.near.sent = l.near.sent ∧ l'.far.sent = l.far.sent ∧
      l'.far.got = l.near.sent.map Message.bytes ∧ l'.near.got = l.far.sent.map Message.bytes := by
  have hinv := (opened_invariant conv c c').reaches h
  obtain ⟨hnear, hfar⟩ := reaches_settings h
  have hnearWnd : l.near.kcp.rcv.rcvWnd.toNat < 2 ^ 16 := by
    rw [show l.near.kcp.rcv.rcvWnd = (c.opened conv).rcv.rcvWnd from congrArg Settings.rcvWnd hnear]
    exact c.opened_rcvWnd conv (by decide) hwnd
  have hfarWnd : l.far.kcp.rcv.rcvWnd.toNat < 2 ^ 16 := by
    rw [show l.far.kcp.rcv.rcvWnd = (c'.opened conv).rcv.rcvWnd from congrArg Settings.rcvWnd hfar]
    exact c'.opened_rcvWnd conv (by decide) hwnd'
  obtain ⟨l₁, honward₁, hgot₁⟩ := delivers hinv hfarWnd
  have hinv₁ := hinv.reaches honward₁.reaches
  have hsame : l₁.near.kcp.rcv.rcvWnd = l.near.kcp.rcv.rcvWnd := congrArg Settings.rcvWnd honward₁.nearSettings
  obtain ⟨l₂, honward₂, hgot₂⟩ := delivers (l := l₁.swap) hinv₁.swap (hsame.symm ▸ hnearWnd)
  have honward := honward₁.trans honward₂.swap
  -- what was taken is not given back
  have hgot : l₂.near.got = l.near.sent.map Message.bytes := by
    have hmore : l₁.far.got <+: l₂.near.got := honward₂.nearGot
    have hbound := (hinv.reaches honward.reaches).delivered
    rw [hgot₁] at hmore
    rw [show (Link.swap l₂).near.sent = l.near.sent from honward.near] at hbound
    exact hbound.eq_of_length_le hmore.length_le
  exact ⟨l₂.swap, honward.reaches, honward.near, honward.far, hgot, hgot₂.trans (congrArg _ honward₁.far)⟩

/-- With the datagram lost, say. -/
theorem no_deadlock_sentOnce : ∃ l', Reaches sentOnce l' ∧ l'.near.sent = sentOnce.near.sent ∧ l'.far.sent = sentOnce.far.sent ∧
    l'.far.got = sentOnce.near.sent.map Message.bytes ∧ l'.near.got = sentOnce.far.sent.map Message.bytes :=
  no_deadlock (by decide) (by decide) reaches_sentOnce

end Yagips.Kcp
