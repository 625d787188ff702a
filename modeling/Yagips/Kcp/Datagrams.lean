import Yagips.Kcp.Session
import Yagips.Lib.Run

/-!
# Datagrams

What a flush sends is whole segments in datagrams that are not longer than the transmission unit, and
the other end takes each of them apart into the same segments.
-/
namespace Yagips.Kcp

open Yagips.Lib

theorem encodeSegs_append (segs more : List IkcpSeg) :
    encodeSegs (segs ++ more) = encodeSegs segs ++ encodeSegs more := List.flatMap_append

@[simp] theorem encodeSegs_singleton (seg : IkcpSeg) : encodeSegs [seg] = ikcpEncodeSeg seg ++ seg.data :=
  List.flatMap_singleton _ _

theorem encodeSegs_cons (seg : IkcpSeg) (segs : List IkcpSeg) :
    encodeSegs (seg :: segs) = ikcpEncodeSeg seg ++ (seg.data ++ encodeSegs segs) := by
  rw [encodeSegs, List.flatMap_cons, List.append_assoc]
  rfl

theorem encodeSegs_eq_nil_iff {segs : List IkcpSeg} : encodeSegs segs = [] ↔ segs = [] := by
  cases segs with
  | nil => exact iff_of_true rfl rfl
  | cons seg segs =>
    refine iff_of_false (fun h => ?_) (List.cons_ne_nil seg segs)
    have hlen := congrArg List.length h
    rw [encodeSegs_cons, List.length_append, ikcpEncodeSeg_length, List.length_nil] at hlen
    omega

/-! ## The buffer -/

/-- The segments of a datagram. -/
structure Packet (mtu : Nat) (segs : List IkcpSeg) : Prop where
  nonempty : segs ≠ []
  fits : (encodeSegs segs).length ≤ mtu

/-- What was written so far: what is in the buffer is a datagram too. -/
inductive Written (mtu : Nat) : Out → List IkcpSeg → Prop where
  | mk (packets : List (List IkcpSeg)) (last : List IkcpSeg) (h : ∀ p ∈ packets, Packet mtu p)
      (hlast : (encodeSegs last).length ≤ mtu) :
      Written mtu { pending := encodeSegs last, sent := packets.map encodeSegs } (packets.flatten ++ last)

theorem Written.start (mtu : Nat) : Written mtu {} [] :=
  Written.mk [] [] (by simp) (Nat.zero_le mtu)

/-- Sending what is in the buffer changes nothing of what was written, and empties the buffer. -/
theorem Written.output {mtu : Nat} {out : Out} {segs : List IkcpSeg} (h : Written mtu out segs) :
    ∃ packets : List (List IkcpSeg), (∀ p ∈ packets, Packet mtu p) ∧ out.output = { pending := [], sent := packets.map encodeSegs } ∧
      packets.flatten = segs := by
  cases h with
  | mk packets last h hlast =>
    rw [Out.output]
    split
    case isTrue hnil =>
      have hlast' := encodeSegs_eq_nil_iff.mp hnil
      subst hlast'
      exact ⟨packets, h, rfl, (List.append_nil _).symm⟩
    case isFalse hne =>
      refine ⟨packets ++ [last], fun p hp => ?_, ?_, ?_⟩
      · rcases List.mem_append.mp hp with hold | hnew
        · exact h p hold
        · rw [List.mem_singleton.mp hnew]
          exact ⟨fun hnil => hne (encodeSegs_eq_nil_iff.mpr hnil), hlast⟩
      · rw [List.map_append]
        rfl
      · rw [List.flatten_append, List.flatten_singleton]

theorem Written.write {mtu : UInt32} (hmtu : mtu.toNat < 2 ^ 31) {out : Out} {segs : List IkcpSeg}
    (h : Written mtu.toNat out segs) (seg : IkcpSeg) (hfits : 28 + seg.data.length ≤ mtu.toNat) :
    Written mtu.toNat (out.write mtu seg) (segs ++ [seg]) := by
  have hint := asInt_eq hmtu
  have h28 : asInt ikcpOverhead = 28 := rfl
  have hone : (encodeSegs [seg]).length = 28 + seg.data.length := by
    rw [encodeSegs_singleton, List.length_append, ikcpEncodeSeg_length]
  rw [Out.write, hint, h28, ← encodeSegs_singleton]
  split
  case isTrue =>
    obtain ⟨packets, hall, heq, hsegs⟩ := h.output
    rw [heq, ← hsegs]
    exact Written.mk packets [seg] hall (hone.trans_le hfits)
  case isFalse hroom =>
    cases h with
    | mk packets last h hlast =>
      dsimp only at hroom ⊢
      rw [← encodeSegs_append, List.append_assoc]
      refine Written.mk packets (last ++ [seg]) h ?_
      rw [encodeSegs_append, List.length_append, hone]
      omega

/-! ## What a flush writes -/

/-- Acknowledgements and questions are this segment with other numbers. -/
def IkcpSeg.IsControl (kcp : Ikcpcb) (seg : IkcpSeg) : Prop :=
  seg = { controlSeg kcp with cmd := seg.cmd, sn := seg.sn, ts := seg.ts }

/-- The segments that acknowledge. -/
def ackSegs (kcp : Ikcpcb) : List IkcpSeg :=
  kcp.rcv.acklist.map fun ack => { controlSeg kcp with sn := ack.1, ts := ack.2 }

theorem flushAcks_spec {kcp : Ikcpcb} (hmtu : kcp.mtu.toNat < 2 ^ 31) (hge : 28 ≤ kcp.mtu.toNat)
    (acks : List (UInt32 × UInt32)) (seg : IkcpSeg) (hseg : seg.IsControl kcp) (hcmd : seg.cmd = ikcpCmdAck)
    {out : Out} {segs : List IkcpSeg} (h : Written kcp.mtu.toNat out segs) :
    (flushAcks kcp.mtu acks seg out).1.IsControl kcp ∧
      Written kcp.mtu.toNat (flushAcks kcp.mtu acks seg out).2
        (segs ++ acks.map fun ack => { controlSeg kcp with sn := ack.1, ts := ack.2 }) := by
  induction acks generalizing seg out segs with
  | nil =>
    rw [flushAcks, List.map_nil, List.append_nil]
    exact ⟨hseg, h⟩
  | cons ack acks ih =>
    obtain ⟨sn, ts⟩ := ack
    have hnext : ({ seg with sn, ts } : IkcpSeg) = { controlSeg kcp with sn, ts } := by
      rw [hseg, hcmd]
      rfl
    rw [flushAcks]
    dsimp only
    rw [hnext]
    have hwrite := h.write hmtu { controlSeg kcp with sn, ts } (by
      show 28 + 0 ≤ kcp.mtu.toNat
      omega)
    have hrest := ih { controlSeg kcp with sn, ts } rfl rfl hwrite
    rwa [List.append_assoc, List.singleton_append] at hrest

/-- A question that is asked is written. -/
theorem flushProbe_spec {kcp kcp' : Ikcpcb} (hmtu : kcp.mtu.toNat < 2 ^ 31) (hge : 28 ≤ kcp.mtu.toNat)
    (hsame : kcp'.mtu = kcp.mtu) (ask cmd : UInt32) {p : IkcpSeg × Out} (hseg : p.1.IsControl kcp)
    {segs : List IkcpSeg} (h : Written kcp.mtu.toNat p.2 segs) :
    ∃ probes, (flushProbe kcp' ask cmd p).1.IsControl kcp ∧
      Written kcp.mtu.toNat (flushProbe kcp' ask cmd p).2 (segs ++ probes) ∧
      (∀ seg ∈ probes, seg.IsControl kcp ∧ seg.cmd = cmd) ∧ (kcp'.probe &&& ask ≠ 0 → probes ≠ []) := by
  rw [flushProbe]
  split
  case isTrue =>
    have hcmd : ({ p.1 with cmd } : IkcpSeg).IsControl kcp := by
      rw [hseg]
      rfl
    have hdata : p.1.data = [] := congrArg IkcpSeg.data hseg
    refine ⟨[{ p.1 with cmd }], hcmd, ?_, ?_, fun _ => List.cons_ne_nil _ _⟩
    · rw [hsame]
      apply h.write hmtu _
      rw [hdata]
      exact hge
    · intro seg hmem
      rw [List.mem_singleton.mp hmem]
      exact ⟨hcmd, rfl⟩
  case isFalse hno =>
    exact ⟨[], hseg, (List.append_nil segs).symm ▸ h, by simp, fun hask => absurd hask hno⟩

/-- What is sent of an outstanding segment, if it is due. -/
def sentSeg (kcp : Ikcpcb) (wnd : UInt32) (segment : IkcpSeg) : Option IkcpSeg :=
  match dueOf kcp segment with
  | .no => none
  | due => some { rescheduled kcp segment due with ts := kcp.current, wnd, una := kcp.rcv.rcvNxt }

theorem sentSeg_spec {kcp : Ikcpcb} {wnd : UInt32} {segment seg : IkcpSeg} (h : sentSeg kcp wnd segment = some seg) :
    seg.body = segment.body ∧ seg.wnd = wnd ∧ seg.una = kcp.rcv.rcvNxt := by
  rw [sentSeg] at h
  split at h
  · cases h
  · cases h
    refine ⟨?_, rfl, rfl⟩
    cases dueOf kcp segment <;> rfl

theorem sentSeg_of_due {kcp : Ikcpcb} (wnd : UInt32) {segment : IkcpSeg} (h : dueOf kcp segment ≠ .no) :
    ∃ seg, sentSeg kcp wnd segment = some seg := by
  rw [sentSeg]
  split
  · contradiction
  · exact ⟨_, rfl⟩

theorem flushSegs_written {kcp : Ikcpcb} (hmtu : kcp.mtu.toNat < 2 ^ 31) (wnd : UInt32) {buf : List IkcpSeg}
    (hfits : ∀ seg ∈ buf, 28 + seg.data.length ≤ kcp.mtu.toNat) {p : Pass} {segs : List IkcpSeg}
    (h : Written kcp.mtu.toNat p.out segs) :
    Written kcp.mtu.toNat (flushSegs kcp wnd buf p).2.out (segs ++ buf.filterMap (sentSeg kcp wnd)) := by
  induction buf generalizing p segs with
  | nil =>
    rw [flushSegs, List.filterMap_nil, List.append_nil]
    exact h
  | cons segment buf ih =>
    have hrest : ∀ seg ∈ buf, 28 + seg.data.length ≤ kcp.mtu.toNat := fun seg hseg =>
      hfits seg (List.mem_cons_of_mem _ hseg)
    rw [flushSegs]
    dsimp only
    cases hsent : sentSeg kcp wnd segment with
    | none =>
      have hsame : (flushSeg kcp wnd segment p).2 = p := by
        rw [sentSeg] at hsent
        split at hsent
        case h_1 hno =>
          rw [flushSeg, hno]
        case h_2 => cases hsent
      rw [List.filterMap_cons_none hsent, hsame]
      exact ih hrest h
    | some seg =>
      have hout : (flushSeg kcp wnd segment p).2.out = p.out.write kcp.mtu seg := by
        rw [sentSeg] at hsent
        split at hsent
        case h_1 => cases hsent
        case h_2 hdue =>
          cases hsent
          rw [flushSeg]
          split
          case h_1 hno => exact absurd hno hdue
          case h_2 => rfl
      have hdata : seg.data = segment.data := congrArg Body.data (sentSeg_spec hsent).1
      have hwrite := h.write hmtu seg (by rw [hdata]; exact hfits segment List.mem_cons_self)
      rw [← hout] at hwrite
      have hall := ih hrest hwrite
      rwa [List.append_assoc, List.singleton_append, ← List.filterMap_cons_some hsent] at hall

/-- The control block that segments are sent from. -/
def Ikcpcb.sending (kcp : Ikcpcb) (added rest : List IkcpSeg) : Ikcpcb :=
  (flushControl kcp).1.setSnd (kcp.numbering added rest)

/-- What a flush sends. -/
structure Sends (kcp : Ikcpcb) (added rest probes segs : List IkcpSeg) : Prop where
  split : segs = ackSegs kcp ++ probes ++
    (kcp.numbering added rest).sndBuf.filterMap (sentSeg (kcp.sending added rest) (ikcpWndUnused kcp.rcv))
  control : ∀ seg ∈ probes, seg.IsControl kcp ∧ (seg.cmd = ikcpCmdWask ∨ seg.cmd = ikcpCmdWins)
  asks : (probeWindow kcp).probe &&& ikcpAskSend ≠ 0 → ∃ seg ∈ probes, seg.cmd = ikcpCmdWask
  tells : (probeWindow kcp).probe &&& ikcpAskTell ≠ 0 → ∃ seg ∈ probes, seg.cmd = ikcpCmdWins

theorem probeWindow_setRcv (kcp : Ikcpcb) (rcv : Rcv) :
    probeWindow (kcp.setRcv rcv) = (probeWindow kcp).setRcv rcv := by
  rw [probeWindow, probeWindow]
  by_cases hzero : kcp.rmtWnd = 0
  · rw [if_pos hzero, if_pos (show (kcp.setRcv rcv).rmtWnd = 0 from hzero)]
    by_cases hwait : kcp.probeWait = 0
    · rw [if_pos hwait, if_pos (show (kcp.setRcv rcv).probeWait = 0 from hwait)]
      rfl
    · rw [if_neg hwait, if_neg (show ¬ (kcp.setRcv rcv).probeWait = 0 from hwait)]
      by_cases htime : itimediff kcp.current kcp.tsProbe ≥ 0
      · rw [if_pos htime, if_pos (show itimediff (kcp.setRcv rcv).current (kcp.setRcv rcv).tsProbe ≥ 0 from htime)]
        rfl
      · rw [if_neg htime, if_neg (show ¬ itimediff (kcp.setRcv rcv).current (kcp.setRcv rcv).tsProbe ≥ 0 from htime)]
  · rw [if_neg hzero, if_neg (show ¬ (kcp.setRcv rcv).rmtWnd = 0 from hzero)]
    rfl

theorem flushControl_written {kcp : Ikcpcb} (hmtu : kcp.mtu.toNat < 2 ^ 31) (hge : 28 ≤ kcp.mtu.toNat) :
    ∃ probes, Written kcp.mtu.toNat (flushControl kcp).2 (ackSegs kcp ++ probes) ∧
      (∀ seg ∈ probes, seg.IsControl kcp ∧ (seg.cmd = ikcpCmdWask ∨ seg.cmd = ikcpCmdWins)) ∧
      ((probeWindow kcp).probe &&& ikcpAskSend ≠ 0 → ∃ seg ∈ probes, seg.cmd = ikcpCmdWask) ∧
      ((probeWindow kcp).probe &&& ikcpAskTell ≠ 0 → ∃ seg ∈ probes, seg.cmd = ikcpCmdWins) := by
  have hexists : ∀ {probes : List IkcpSeg} {cmd : UInt32}, (∀ seg ∈ probes, seg.IsControl kcp ∧ seg.cmd = cmd) →
      probes ≠ [] → ∃ seg ∈ probes, seg.cmd = cmd := by
    intro probes cmd hall hne
    obtain ⟨seg, hseg⟩ := List.exists_mem_of_ne_nil probes hne
    exact ⟨seg, hseg, (hall seg hseg).2⟩
  let k := probeWindow (kcp.setRcv { kcp.rcv with acklist := [] })
  have hsame : k.mtu = kcp.mtu := congrArg Settings.mtu (flushControl_frame kcp).2.2
  have hprobe : k.probe = (probeWindow kcp).probe := by
    show (probeWindow (kcp.setRcv _)).probe = _
    rw [probeWindow_setRcv]
    rfl
  obtain ⟨hseg, hacks⟩ := flushAcks_spec hmtu hge kcp.rcv.acklist (controlSeg kcp) rfl rfl (Written.start _)
  obtain ⟨asked, hseg₁, hwritten₁, hall₁, hask⟩ := flushProbe_spec hmtu hge hsame ikcpAskSend ikcpCmdWask hseg hacks
  obtain ⟨told, hseg₂, hwritten₂, hall₂, htell⟩ :=
    flushProbe_spec hmtu hge hsame ikcpAskTell ikcpCmdWins hseg₁ hwritten₁
  refine ⟨asked ++ told, ?_, fun seg hmem => ?_, fun hasks => ?_, fun htells => ?_⟩
  · rwa [List.nil_append, List.append_assoc] at hwritten₂
  · rcases List.mem_append.mp hmem with hmem | hmem
    · exact ⟨(hall₁ seg hmem).1, .inl (hall₁ seg hmem).2⟩
    · exact ⟨(hall₂ seg hmem).1, .inr (hall₂ seg hmem).2⟩
  · rw [← hprobe] at hasks
    obtain ⟨seg, hmem, hcmd⟩ := hexists hall₁ (hask hasks)
    exact ⟨seg, List.mem_append_left _ hmem, hcmd⟩
  · rw [← hprobe] at htells
    obtain ⟨seg, hmem, hcmd⟩ := hexists hall₂ (htell htells)
    exact ⟨seg, List.mem_append_right _ hmem, hcmd⟩

/-- A flush sends whole segments, in datagrams that fit. -/
theorem ikcpFlush_sends {kcp : Ikcpcb} (h : kcp.WellFormed) :
    ¬ kcp.updated ∧ ikcpFlush kcp = (kcp, []) ∨
    kcp.updated = true ∧ ∃ added rest probes, ∃ packets : List (List IkcpSeg), Flushes kcp (ikcpFlush kcp).1 added rest ∧
      (ikcpFlush kcp).2 = packets.map encodeSegs ∧ (∀ p ∈ packets, Packet kcp.mtu.toNat p) ∧
      Sends kcp added rest probes packets.flatten := by
  rcases ikcpFlush_spec kcp with hno | ⟨hupdated, added, rest, hf⟩
  · exact .inl hno
  · have hmtu : kcp.mtu.toNat < 2 ^ 31 := h.good.mtu_lt
    have hsum : kcp.mtu.toNat = kcp.mss.toNat + 28 := h.good.mtu
    obtain ⟨hsnd, hrcv, hset⟩ := flushControl_frame kcp
    obtain ⟨probes, hwritten, hprobes, hasks, htells⟩ := flushControl_written hmtu (by omega)
    have hsame : (kcp.sending added rest).mtu = kcp.mtu := congrArg Settings.mtu hset
    have hfits : ∀ seg ∈ (kcp.numbering added rest).sndBuf, 28 + seg.data.length ≤ (kcp.sending added rest).mtu.toNat := by
      intro seg hseg
      have hle := (h.numbering_carries hf.fills seg hseg).1.1
      rw [hsame]
      show 28 + seg.fragment.2.length ≤ kcp.mtu.toNat
      omega
    have hdata : (flushData (flushControl kcp).1 (flushControl kcp).2).2 =
        (flushSegs (kcp.sending added rest) (ikcpWndUnused kcp.rcv) (kcp.numbering added rest).sndBuf
          { out := (flushControl kcp).2, xmit := (flushControl kcp).1.xmit, state := (flushControl kcp).1.state }).2 := by
      rw [flushData, flushControl_wnd, hsnd, hf.fill]
      rfl
    have hall := flushSegs_written (hsame ▸ hmtu) (ikcpWndUnused kcp.rcv) hfits
      (p := { out := (flushControl kcp).2, xmit := (flushControl kcp).1.xmit, state := (flushControl kcp).1.state })
      (hsame ▸ hwritten)
    rw [← hdata] at hall
    obtain ⟨packets, hpackets, hout, hsegs⟩ := hall.output
    refine .inr ⟨hupdated, added, rest, probes, packets, hf, ?_, hsame ▸ hpackets, hsegs, hprobes, hasks, htells⟩
    rw [ikcpFlush, if_neg (not_not.mpr hupdated)]
    exact congrArg Out.sent hout

/-! ## The other end -/

/-- A segment that passes the tests of `ikcp_input`. -/
structure IkcpSeg.Passes (conv : UInt64) (seg : IkcpSeg) : Prop where
  conv : seg.conv = conv
  short : seg.data.length < 2 ^ 31
  cmd : seg.cmd = ikcpCmdPush ∨ seg.cmd = ikcpCmdAck ∨ seg.cmd = ikcpCmdWask ∨ seg.cmd = ikcpCmdWins

theorem Sends.passes {kcp : Ikcpcb} (h : kcp.WellFormed) {added rest probes segs : List IkcpSeg}
    {cwnd : UInt32} (hf : Fills kcp.snd cwnd kcp.snd.sndQueue added rest) (hs : Sends kcp added rest probes segs) :
    ∀ seg ∈ segs, seg.Passes kcp.conv := by
  have hcontrol : ∀ {seg : IkcpSeg}, seg.IsControl kcp → seg.conv = kcp.conv ∧ seg.data.length < 2 ^ 31 := by
    intro seg hseg
    rw [hseg]
    exact ⟨rfl, Nat.two_pow_pos 31⟩
  have hlt : kcp.mss.toNat < 2 ^ 31 := h.good.mss.lt
  intro seg hseg
  rw [hs.split] at hseg
  rcases List.mem_append.mp hseg with hseg | hdata
  · rcases List.mem_append.mp hseg with hack | hprobe
    · obtain ⟨ack, -, rfl⟩ := List.mem_map.mp hack
      exact ⟨rfl, Nat.two_pow_pos 31, .inr (.inl rfl)⟩
    · obtain ⟨hseg', hcmd⟩ := hs.control seg hprobe
      exact ⟨(hcontrol hseg').1, (hcontrol hseg').2, .inr (.inr hcmd)⟩
  · obtain ⟨segment, hmem, hsent⟩ := List.mem_filterMap.mp hdata
    obtain ⟨hbody, -, -⟩ := sentSeg_spec hsent
    obtain ⟨hfits, hconv, hcmd⟩ := h.numbering_carries hf segment hmem
    have hle : seg.data.length ≤ kcp.mss.toNat := by
      have hdata' : seg.data = segment.data := congrArg Body.data hbody
      rw [hdata']
      exact hfits.1
    exact ⟨(congrArg Body.conv hbody).trans hconv, by omega, .inl ((congrArg Body.cmd hbody).trans hcmd)⟩

/-- The segments of a datagram as `ikcp_input` goes through it. -/
def pieces : Nat → Bytes → List (Head × Bytes)
  | 0, _ => []
  | fuel + 1, data =>
    if data.length < ikcpOverhead.toNat then []
    else
      let (h, data) := decodeHead data
      (h, data.take h.len.toNat) :: pieces fuel (data.drop h.len.toNat)

def segmentsOf (packet : Bytes) : List (Head × Bytes) := pieces packet.length packet

/-- Segments that come in one after the other. -/
def hearAll (segs : List (Head × Bytes)) (p : Ikcpcb × InputVars) : Ikcpcb × InputVars :=
  segs.foldl (fun p seg => inputSeg p.1 p.2 seg.1 seg.2) p

/-- What every segment keeps. -/
theorem hearAll_keeps {P : Ikcpcb → Prop} {segs : List (Head × Bytes)}
    (h : ∀ kcp vars, ∀ seg ∈ segs, P kcp → P (inputSeg kcp vars seg.1 seg.2).1) {kcp : Ikcpcb} (hp : P kcp)
    (vars : InputVars) : P (hearAll segs (kcp, vars)).1 :=
  Run.foldl_keeps (P := fun p : Ikcpcb × InputVars => P p.1) (fun p seg hseg hp => h p.1 p.2 seg hseg hp) hp

/-- What one segment brings about and the others keep. -/
theorem hearAll_brings {P Q : Ikcpcb → Prop} {segs : List (Head × Bytes)} {seg : Head × Bytes} (hseg : seg ∈ segs)
    (h : ∀ kcp vars, ∀ s ∈ segs, P kcp → P (inputSeg kcp vars s.1 s.2).1)
    (hone : ∀ kcp vars, P kcp → Q (inputSeg kcp vars seg.1 seg.2).1)
    (hkeep : ∀ kcp vars, ∀ s ∈ segs, P kcp → Q kcp → Q (inputSeg kcp vars s.1 s.2).1) {kcp : Ikcpcb} (hp : P kcp)
    (vars : InputVars) : Q (hearAll segs (kcp, vars)).1 :=
  Run.foldl_brings (P := fun p : Ikcpcb × InputVars => P p.1) (Q := fun p => Q p.1) hseg (fun p s hs => h p.1 p.2 s hs)
    (fun p => hone p.1 p.2) (fun p s hs => hkeep p.1 p.2 s hs) hp

/-- The segment as it comes in. -/
def IkcpSeg.arrived (seg : IkcpSeg) : Head × Bytes := (seg.head, seg.data)

theorem encodeSegs_cons_length (seg : IkcpSeg) (segs : List IkcpSeg) :
    (encodeSegs (seg :: segs)).length = 28 + (seg.data.length + (encodeSegs segs).length) := by
  rw [encodeSegs_cons, List.length_append, List.length_append, ikcpEncodeSeg_length]

theorem head_len {seg : IkcpSeg} (h : seg.data.length < 2 ^ 31) : seg.head.len.toNat = seg.data.length :=
  UInt32.toNat_ofNat_of_lt' (show seg.data.length < 2 ^ 32 by omega)

/-- Taking a datagram apart undoes putting it together. -/
theorem pieces_encodeSegs {segs : List IkcpSeg} (h : ∀ seg ∈ segs, seg.data.length < 2 ^ 31) {fuel : Nat}
    (hfuel : (encodeSegs segs).length ≤ fuel) : pieces fuel (encodeSegs segs) = segs.map IkcpSeg.arrived := by
  induction segs generalizing fuel with
  | nil =>
    cases fuel with
    | zero => rfl
    | succ fuel => rfl
  | cons seg segs ih =>
    have hlen := encodeSegs_cons_length seg segs
    have h28 : ikcpOverhead.toNat = 28 := rfl
    cases fuel with
    | zero => omega
    | succ fuel =>
      rw [pieces, if_neg (by omega), encodeSegs_cons, decodeHead_encode]
      dsimp only
      rw [head_len (h seg List.mem_cons_self), List.take_left' rfl, List.drop_left' rfl,
        ih (fun s hs => h s (List.mem_cons_of_mem _ hs)) (by omega)]
      rfl

theorem segmentsOf_encodeSegs {segs : List IkcpSeg} (h : ∀ seg ∈ segs, seg.data.length < 2 ^ 31) :
    segmentsOf (encodeSegs segs) = segs.map IkcpSeg.arrived := pieces_encodeSegs h le_rfl

theorem Passes.test {conv : UInt64} {seg : IkcpSeg} (h : seg.Passes conv) :
    ¬ (seg.head.cmd.toUInt32 ≠ ikcpCmdPush ∧ seg.head.cmd.toUInt32 ≠ ikcpCmdAck ∧
      seg.head.cmd.toUInt32 ≠ ikcpCmdWask ∧ seg.head.cmd.toUInt32 ≠ ikcpCmdWins) := by
  have hcmd : ∀ {cmd : UInt32}, seg.cmd = cmd → seg.head.cmd = cmd.toUInt8 := fun heq => heq ▸ rfl
  rintro ⟨hpush, hack, hwask, hwins⟩
  rcases h.cmd with heq | heq | heq | heq
  · exact hpush (by rw [hcmd heq]; rfl)
  · exact hack (by rw [hcmd heq]; rfl)
  · exact hwask (by rw [hcmd heq]; rfl)
  · exact hwins (by rw [hcmd heq]; rfl)

theorem inputLoop_encodeSegs {segs : List IkcpSeg} {kcp : Ikcpcb} (h : ∀ seg ∈ segs, seg.Passes kcp.conv)
    (vars : InputVars) {fuel : Nat} (hfuel : (encodeSegs segs).length ≤ fuel) :
    inputLoop fuel (encodeSegs segs) kcp vars = (none, hearAll (segs.map IkcpSeg.arrived) (kcp, vars)) := by
  induction segs generalizing kcp vars fuel with
  | nil =>
    cases fuel with
    | zero => rfl
    | succ fuel => rfl
  | cons seg segs ih =>
    have hseg := h seg List.mem_cons_self
    have hlen := encodeSegs_cons_length seg segs
    have h28 : ikcpOverhead.toNat = 28 := rfl
    have hdata := head_len hseg.short
    have hconv : (inputSeg kcp vars seg.head seg.data).1.conv = kcp.conv :=
      congrArg Settings.conv (inputSeg_spec kcp vars seg.head seg.data).2.2
    cases fuel with
    | zero => omega
    | succ fuel =>
      have hsame : ¬ seg.head.conv ≠ kcp.conv := not_not.mpr hseg.conv
      have hint : asInt seg.head.len = seg.data.length := by
        rw [asInt_eq (by rw [hdata]; exact hseg.short), hdata]
      have hroom : ¬ ((seg.data ++ encodeSegs segs).length < seg.data.length ∨ (seg.data.length : Int) < 0) := by
        rw [List.length_append]
        omega
      rw [inputLoop, if_neg (by omega), encodeSegs_cons, decodeHead_encode]
      dsimp only
      rw [if_neg hsame, hint, hdata, if_neg hroom, if_neg (Passes.test hseg), List.take_left' rfl, List.drop_left' rfl]
      refine ih (fun s hs => ?_) _ (by omega)
      rw [hconv]
      exact h s (List.mem_cons_of_mem _ hs)

/-- What `ikcp_input` does after the last segment changes nothing that is delivered or told. -/
structure Settles (kcp kcp' : Ikcpcb) : Prop where
  snd : ∃ buf, buf.map IkcpSeg.body = kcp.snd.sndBuf.map IkcpSeg.body ∧ kcp'.snd = { kcp.snd with sndBuf := buf }
  rcv : kcp'.rcv = kcp.rcv
  settings : kcp'.settings = kcp.settings
  rmtWnd : kcp'.rmtWnd = kcp.rmtWnd
  probe : kcp'.probe = kcp.probe

theorem Settles.refl (kcp : Ikcpcb) : Settles kcp kcp := ⟨⟨_, rfl, rfl⟩, rfl, rfl, rfl, rfl⟩

theorem Settles.trans {k k' k'' : Ikcpcb} (h : Settles k k') (h' : Settles k' k'') : Settles k k'' := by
  obtain ⟨buf, hbody, hsnd⟩ := h.snd
  obtain ⟨buf', hbody', hsnd'⟩ := h'.snd
  rw [hsnd] at hbody' hsnd'
  exact ⟨⟨buf', hbody'.trans hbody, hsnd'⟩, h'.rcv.trans h.rcv, h'.settings.trans h.settings,
    h'.rmtWnd.trans h.rmtWnd, h'.probe.trans h.probe⟩

theorem parseFastack_settles (kcp : Ikcpcb) (sn : UInt32) : Settles kcp (kcp.setSnd (ikcpParseFastack kcp.snd sn)) := by
  refine ⟨?_, rfl, setSnd_settings _ _, rfl, rfl⟩
  rw [Ikcpcb.setSnd_snd, ikcpParseFastack]
  split
  · exact ⟨_, rfl, rfl⟩
  · exact ⟨_, fastackLoop_body sn _, rfl⟩

theorem growCwnd_settles (kcp : Ikcpcb) : Settles kcp (growCwnd kcp) := by
  obtain ⟨hsnd, hrcv, hset⟩ := growCwnd_frame kcp
  have hrest : (growCwnd kcp).rmtWnd = kcp.rmtWnd ∧ (growCwnd kcp).probe = kcp.probe := by
    rw [growCwnd]
    dsimp only
    split_ifs <;> exact ⟨rfl, rfl⟩
  exact ⟨⟨_, rfl, hsnd⟩, hrcv, hset, hrest.1, hrest.2⟩

/-- A datagram of such segments is taken whole. -/
theorem ikcpInput_encodeSegs {mtu : Nat} (hmtu : mtu < 2 ^ 31) {segs : List IkcpSeg} (hp : Packet mtu segs)
    {kcp : Ikcpcb} (h : ∀ seg ∈ segs, seg.Passes kcp.conv) :
    (ikcpInput kcp (encodeSegs segs)).1 = 0 ∧
      Settles (hearAll (segmentsOf (encodeSegs segs)) (kcp, {})).1 (ikcpInput kcp (encodeSegs segs)).2 := by
  have hlen : 28 ≤ (encodeSegs segs).length := by
    obtain ⟨seg, rest, rfl⟩ := List.exists_cons_of_ne_nil hp.nonempty
    rw [encodeSegs_cons, List.length_append, ikcpEncodeSeg_length]
    omega
  have hle := hp.fits
  have h28 : asInt ikcpOverhead = 28 := rfl
  have hlast : ∀ k, Settles k (if itimediff k.snd.sndUna kcp.snd.sndUna > 0 then growCwnd k else k) := by
    intro k
    split
    · exact growCwnd_settles k
    · exact Settles.refl k
  rw [ikcpInput, ofNat_toInt (by omega), h28, if_neg (by omega), inputLoop_encodeSegs h _ le_rfl,
    segmentsOf_encodeSegs fun seg hseg => (h seg hseg).short]
  refine ⟨rfl, ?_⟩
  dsimp only
  split
  · exact (parseFastack_settles _ _).trans (hlast _)
  · exact hlast _

end Yagips.Kcp
