import Yagips.Kcp.Direction

/-!
# A link

Two ends and a network between them that loses, repeats and reorders datagrams. Each end sends, takes,
flushes and hears in any order; what one takes is always the beginning of what the other sent.
-/
namespace Yagips.Kcp

open Yagips.Lib

/-- A datagram, with how many segments its sender and the other end had numbered when it was sent. -/
structure Datagram where
  packet : Bytes
  mine : Nat
  theirs : Nat
  deriving DecidableEq

/-- One end: its control block, what its owner sent and took, and the datagrams that went out. -/
structure End where
  kcp : Ikcpcb
  sent : List Message := []
  got : List Bytes := []
  out : List Datagram := []

structure Link where
  near : End
  far : End

def Link.swap (l : Link) : Link where
  near := l.far
  far := l.near

/-! ## What ends do -/

namespace End

/-- How many segments have numbers: all of what was sent but for the queue. -/
def numbered (e : End) : Nat := (frames e.kcp.mss e.sent).length - e.kcp.snd.sndQueue.length

def send (e : End) (m : Message) : End :=
  let (ret, kcp) := ikcpSend e.kcp m.bytes
  { e with kcp, sent := if ret = 0 then e.sent ++ [m] else e.sent }

/-- A negative length takes nothing. -/
def recv (e : End) (len : Int) : End :=
  let (ret, data, kcp) := ikcpRecv e.kcp len
  { e with kcp, got := if 0 ≤ ret ∧ 0 ≤ len then e.got ++ [data] else e.got }

def input (e : End) (packet : Bytes) : End := { e with kcp := (ikcpInput e.kcp packet).2 }

/-- The control block after a flush, and the datagrams that went out. -/
def emit (e other : End) (p : Ikcpcb × List Bytes) : End :=
  let e : End := { e with kcp := p.1 }
  { e with out := e.out ++ p.2.map fun packet => { packet, mine := e.numbered, theirs := other.numbered } }

end End

/-- A step of the near end. A datagram that is delivered may be delivered again; it is not so old that
`maxLag` segments got numbers since. What is not for this end is noise. -/
inductive Step : Link → Link → Prop where
  | send (l : Link) (m : Message) : Step l { l with near := l.near.send m }
  | recv (l : Link) (len : Int) : Step l { l with near := l.near.recv len }
  | update (l : Link) (current : UInt32) : Step l { l with near := l.near.emit l.far (ikcpUpdate l.near.kcp current) }
  | flush (l : Link) : Step l { l with near := l.near.emit l.far (ikcpFlush l.near.kcp) }
  | deliver (l : Link) {d : Datagram} (h : d ∈ l.far.out) (hmine : l.far.numbered ≤ d.mine + maxLag)
      (htheirs : l.near.numbered ≤ d.theirs + maxLag) : Step l { l with near := l.near.input d.packet }
  | noise (l : Link) {packet : Bytes} (h : packet.length < 28 ∨ (decodeHead packet).1.conv ≠ l.near.kcp.conv) :
      Step l { l with near := l.near.input packet }

/-- A step of either end. -/
inductive Next : Link → Link → Prop where
  | near {l l' : Link} (h : Step l l') : Next l l'
  | far {l l' : Link} (h : Step l.swap l') : Next l l'.swap

/-- Any number of steps. -/
abbrev Reaches : Link → Link → Prop := Relation.ReflTransGen Next

/-- Both ends opened for one conversation. -/
def opened (conv : UInt64) (c c' : Config) : Link where
  near := { kcp := c.opened conv }
  far := { kcp := c'.opened conv }

/-! ## The invariant -/

structure End.Good (conv : UInt64) (e : End) : Prop where
  wellFormed : e.kcp.WellFormed
  same : e.kcp.conv = conv
  sndWnd : e.kcp.sndWnd.toNat ≤ maxWnd
  rcvWnd_ge : 128 ≤ e.kcp.rcv.rcvWnd.toNat
  rcvWnd_le : e.kcp.rcv.rcvWnd.toNat ≤ maxWnd
  out : ∀ d ∈ e.out, ∃ segs, d.packet = encodeSegs segs ∧ Packet e.kcp.mtu.toNat segs ∧ ∀ seg ∈ segs, seg.Passes conv

/-- What `s` sends and `r` receives is a transfer. Nothing in the network or at `r` acknowledges numbers
from `above` on. -/
structure Direction (s r : End) (t : Transfer Fragment) (above : Nat) : Prop where
  sound : t.Sound
  sending : Sending s.kcp.snd t
  receiving : Receiving r.kcp.rcv t
  delivers : ∃ taken left, Delivers s.kcp.mss s.kcp.snd.sndQueue s.sent taken left r.kcp.rcv t ∧
    r.got = taken.map Message.bytes
  above_le : above ≤ t.next + r.kcp.rcv.rcvWnd.toNat
  kept : ∀ i, above ≤ i → i < t.log.length → i ∈ t.kept
  acks : ∀ ack ∈ r.kcp.rcv.acklist, ∃ j, ack.1 = UInt32.ofNat j ∧ t.Has j ∧ j < t.next + r.kcp.rcv.rcvWnd.toNat ∧
    above ≤ j + maxLag + 2 * maxWnd
  pushes : ∀ d ∈ s.out, ∀ seg ∈ segmentsOf d.packet, PushSays t d.mine seg
  answers : ∀ d ∈ r.out, ∀ seg ∈ segmentsOf d.packet, AckSays t above d.theirs seg.1

namespace Direction

variable {s r : End} {t : Transfer Fragment} {above : Nat}

theorem numbered (d : Direction s r t above) : s.numbered = t.log.length := by
  obtain ⟨taken, left, hd, -⟩ := d.delivers
  rw [End.numbered, hd.frames, List.length_append, List.length_map, Nat.add_sub_cancel]

/-- Nothing is far past what the other end has. -/
theorem length_le (d : Direction s r t above) (hwnd : r.kcp.rcv.rcvWnd.toNat ≤ maxWnd) :
    t.log.length ≤ above + maxWnd ∧ t.log.length ≤ t.next + 2 * maxWnd := by
  have hle := d.above_le
  have hlast : t.log.length ≤ above + maxWnd := by
    rcases Nat.lt_or_ge above t.log.length with hlt | hge
    · exact (d.sending.kept.range above (d.kept above le_rfl hlt)).2
    · omega
  exact ⟨hlast, by omega⟩

/-! ## The sending end -/

/-- Only the sending half counts. -/
theorem of_snd (d : Direction s r t above) {s' : End} (hsnd : s'.kcp.snd = s.kcp.snd) (hmss : s'.kcp.mss = s.kcp.mss)
    (hsent : s'.sent = s.sent) (hout : s'.out = s.out) : Direction s' r t above where
  sound := d.sound
  sending := hsnd ▸ d.sending
  receiving := d.receiving
  delivers := by
    rw [hsnd, hmss, hsent]
    exact d.delivers
  above_le := d.above_le
  kept := d.kept
  acks := d.acks
  pushes := hout ▸ d.pushes
  answers := d.answers

/-- Only the receiving half counts. -/
theorem of_rcv (d : Direction s r t above) {r' : End} (hrcv : r'.kcp.rcv = r.kcp.rcv) (hgot : r'.got = r.got)
    (hout : r'.out = r.out) : Direction s r' t above where
  sound := d.sound
  sending := d.sending
  receiving := hrcv ▸ d.receiving
  delivers := by
    rw [hrcv, hgot]
    exact d.delivers
  above_le := hrcv ▸ d.above_le
  kept := d.kept
  acks := hrcv ▸ d.acks
  pushes := d.pushes
  answers := hout ▸ d.answers

/-- A message that is accepted waits in the queue. -/
theorem send (d : Direction s r t above) (hwf : s.kcp.WellFormed) (m : Message) : Direction (s.send m) r t above := by
  have hmss : SegmentSize s.kcp.mss := hwf.good.mss
  have hstream : s.kcp.stream = 0 := hwf.good.stream
  obtain ⟨taken, left, hd, hgot⟩ := d.delivers
  rw [End.send, ikcpSend_eq, hstream]
  rcases send_cases hmss s.kcp.snd m with ⟨heq, -⟩ | ⟨segs, hsegs, hlt, heq⟩
  · rw [heq]
    exact d.of_snd rfl rfl rfl rfl
  · rw [heq]
    refine ⟨d.sound, ⟨d.sending.nxt, d.sending.kept⟩, d.receiving, ⟨taken, left ++ [m], ⟨?_, ?_, ?_, hd.received⟩, hgot⟩,
      d.above_le, d.kept, d.acks, d.pushes, d.answers⟩
    · have hone : frames s.kcp.mss [m] = fragments s.kcp.mss m := by
        rw [frames_cons, frames, List.flatMap_nil, List.append_nil]
      show frames s.kcp.mss (s.sent ++ [m]) = t.log ++ (s.kcp.snd.sndQueue ++ segs).map IkcpSeg.fragment
      rw [frames_append, hd.frames, hone, List.map_append, hsegs, List.append_assoc]
    · intro m' hm'
      rcases List.mem_append.mp hm' with hold | hnew
      · exact hd.short m' hold
      · rw [List.mem_singleton.mp hnew]
        show (fragments s.kcp.mss m).length < 128
        rwa [← hsegs, List.length_map]
    · show s.sent ++ [m] = taken ++ (left ++ [m])
      rw [hd.split, List.append_assoc]

/-- Segments come in at the sending end. -/
theorem hear_s (d : Direction s r t above) (hwf : s.kcp.WellFormed) {theirs : Nat} {seg : Head × Bytes}
    (htrue : AckSays t above theirs seg.1) (hlag : t.log.length ≤ theirs + maxLag) (vars : InputVars) :
    ∃ t', t.Leads t' ∧ t'.log = t.log ∧
      Direction { s with kcp := (inputSeg s.kcp vars seg.1 seg.2).1 } r t' above := by
  obtain ⟨hsnd, -, hset⟩ := inputSeg_spec s.kcp vars seg.1 seg.2
  obtain ⟨-, hears⟩ := hwf.snd.hear seg.1
  obtain ⟨gone, hgone, hsending⟩ := d.sending.hear hwf.snd htrue hlag d.sound
  obtain ⟨taken, left, hd, hgot⟩ := d.delivers
  have hmss : (inputSeg s.kcp vars seg.1 seg.2).1.mss = s.kcp.mss := congrArg Settings.mss hset
  have hstep : Transfer.Step t { t with kept := t.kept \ gone } := .release t fun i hi => (hgone i hi).1
  refine ⟨_, hstep.leads, rfl, hstep.sound d.sound, hsnd ▸ hsending, ⟨d.receiving.nxt, d.receiving.early⟩, ?_, d.above_le, ?_,
    d.acks, fun e he s hs => (d.pushes e he s hs).later hstep.leads,
    fun e he s hs => (d.answers e he s hs).later hstep.leads le_rfl⟩
  · rw [hsnd, hears.queue, hmss]
    exact ⟨taken, left, ⟨hd.frames, hd.short, hd.split, hd.received⟩, hgot⟩
  · intro i hge hlt
    exact ⟨d.kept i hge hlt, fun hmem => absurd (hgone i hmem).2 (Nat.not_lt.mpr hge)⟩

/-- Counting what an acknowledgement skips changes nothing. -/
theorem settle_s (d : Direction s r t above) {kcp' : Ikcpcb} (h : Settles s.kcp kcp') :
    Direction { s with kcp := kcp' } r t above := by
  obtain ⟨buf, hbody, hsnd⟩ := h.snd
  obtain ⟨taken, left, hd, hgot⟩ := d.delivers
  have hmss : kcp'.mss = s.kcp.mss := congrArg Settings.mss h.settings
  refine ⟨d.sound, ?_, ⟨d.receiving.nxt, d.receiving.early⟩, ?_, d.above_le, d.kept, d.acks, d.pushes, d.answers⟩
  · rw [hsnd]
    exact ⟨d.sending.nxt, d.sending.kept.of_body hbody⟩
  · rw [hsnd, hmss]
    exact ⟨taken, left, ⟨hd.frames, hd.short, hd.split, hd.received⟩, hgot⟩

/-- Segments of the queue get numbers, and segments are sent. -/
theorem emit_s (d : Direction s r t above) {conv : UInt64} (hs : s.Good conv) {kcp' : Ikcpcb} (hwf' : kcp'.WellFormed)
    {added rest : List IkcpSeg} (hf : Flushes s.kcp kcp' added rest) :
    Direction { s with kcp := kcp' } r { t with
      log := t.log ++ added.map IkcpSeg.fragment
      kept := t.kept ∪ {i | t.log.length ≤ i ∧ i < t.log.length + (added.map IkcpSeg.fragment).length} } above := by
  obtain ⟨taken, left, hd, hgot⟩ := d.delivers
  obtain ⟨buf, -, hsnd⟩ := hf.snd
  have hmss : kcp'.mss = s.kcp.mss := congrArg Settings.mss hf.settings
  have hqueue : kcp'.snd.sndQueue = rest := congrArg Snd.sndQueue hsnd
  have hstep := Transfer.Step.number t (added.map IkcpSeg.fragment)
  have hnext := d.sound.next_le
  refine ⟨hstep.sound d.sound, d.sending.flush hs.wellFormed hwf' hs.sndWnd hf, ⟨d.receiving.nxt, ?_⟩, ?_, d.above_le, ?_, d.acks,
    fun e he s hs => (d.pushes e he s hs).later hstep.leads,
    fun e he s hs => (d.answers e he s hs).later hstep.leads le_rfl⟩
  · exact d.receiving.early.later hstep.leads.log
  · refine ⟨taken, left, ?_, hgot⟩
    dsimp only
    rw [hmss, hqueue]
    refine ⟨?_, hd.short, hd.split, ?_⟩
    · rw [hd.frames, hf.fills.split, List.map_append, List.append_assoc]
    · rw [List.take_append_of_le_length hnext]
      exact hd.received
  · intro i hge hlt
    rw [List.length_append] at hlt
    rcases Nat.lt_or_ge i t.log.length with hold | hnew
    · exact .inl (d.kept i hge hold)
    · exact .inr ⟨hnew, hlt⟩

/-- More datagrams. -/
theorem out_s (d : Direction s r t above) {more : List Datagram}
    (h : ∀ e ∈ more, ∀ seg ∈ segmentsOf e.packet, PushSays t e.mine seg) :
    Direction { s with out := s.out ++ more } r t above :=
  ⟨d.sound, d.sending, d.receiving, d.delivers, d.above_le, d.kept, d.acks,
    fun e he => (List.mem_append.mp he).elim (d.pushes e) (h e), d.answers⟩

/-! ## The receiving end -/

/-- What the receiving half does is a transfer, also where a message was taken out of its queue before. -/
theorem receive (d : Direction s r t above) (r₀ : Rcv) (hwnd : r.kcp.rcv.rcvWnd.toNat ≤ maxWnd)
    (hacks : r₀.acklist = r.kcp.rcv.acklist) (hsame : r₀.rcvWnd = r.kcp.rcv.rcvWnd) {r' : End} {t' : Transfer Fragment}
    (hr : Receives r₀ r'.kcp.rcv t t') {taken left : List Message}
    (hd : Delivers s.kcp.mss s.kcp.snd.sndQueue s.sent taken left r₀ t) (hgot : r'.got = taken.map Message.bytes)
    (hout : r'.out = r.out) : Direction s r' t' above := by
  have hleads := hr.steps.leads
  have hnext := d.sound.next_le
  have habove := d.above_le
  have hwnd' : r'.kcp.rcv.rcvWnd = r.kcp.rcv.rcvWnd := hr.wnd.trans hsame
  refine ⟨hr.steps.sound d.sound, ⟨?_, ?_⟩, hr.receiving, ⟨taken, left, hd.receives hr, hgot⟩, ?_, ?_, fun ack hack => ?_,
    fun e he s hs => (d.pushes e he s hs).later hleads, fun e he s hs => ?_⟩
  · rw [hr.log]
    exact d.sending.nxt
  · rw [hr.log, hr.kept]
    exact d.sending.kept
  · rw [hwnd']
    exact habove.trans (Nat.add_le_add_right hleads.next _)
  · rw [hr.log, hr.kept]
    exact d.kept
  · rcases hr.acks ack hack with hold | ⟨j, hsn, hhas, hlt, hle⟩
    · rw [hacks] at hold
      obtain ⟨j, hsn, hhas, hlt, hle⟩ := d.acks ack hold
      refine ⟨j, hsn, hleads.has j hhas, ?_, hle⟩
      rw [hwnd']
      exact Nat.lt_of_lt_of_le hlt (Nat.add_le_add_right hleads.next _)
    · exact ⟨j, hsn, hhas, hlt, by omega⟩
  · rw [hout] at he
    exact (d.answers e he s hs).later hleads le_rfl

theorem hear_r (d : Direction s r t above) (hwf : r.kcp.WellFormed) (hwnd : r.kcp.rcv.rcvWnd.toNat ≤ maxWnd) {mine : Nat}
    {seg : Head × Bytes} (htrue : PushSays t mine seg) (hlag : t.log.length ≤ mine + maxLag) (vars : InputVars) :
    ∃ t', t.Leads t' ∧ t'.log = t.log ∧
      Direction s { r with kcp := (inputSeg r.kcp vars seg.1 seg.2).1 } t' above := by
  obtain ⟨-, hrcv, -⟩ := inputSeg_spec r.kcp vars seg.1 seg.2
  obtain ⟨t', hr⟩ := d.receiving.hear hwf.rcv hwnd (d.length_le hwnd).2 d.sound htrue hlag
  obtain ⟨taken, left, hd, hgot⟩ := d.delivers
  rw [← hrcv] at hr
  exact ⟨t', hr.steps.leads, hr.log, d.receive _ hwnd rfl rfl hr hd hgot rfl⟩

/-- What is taken is the next message. -/
theorem recv (d : Direction s r t above) (hmss : SegmentSize s.kcp.mss) (hwf : r.kcp.WellFormed)
    (hwnd : r.kcp.rcv.rcvWnd.toNat ≤ maxWnd) (len : Int) :
    ∃ t', t.Leads t' ∧ t'.log = t.log ∧ Direction s (r.recv len) t' above := by
  have hrcv : (r.recv len).kcp.rcv = (r.kcp.rcv.recv len).2.2 := rfl
  have hgot' : (r.recv len).got = if 0 ≤ (r.kcp.rcv.recv len).1 ∧ 0 ≤ len then r.got ++ [(r.kcp.rcv.recv len).2.1]
      else r.got := rfl
  obtain ⟨taken, left, hd, hgot⟩ := d.delivers
  rcases recv_cases hmss hwf.rcv hd len with ⟨hret, heq⟩ | ⟨hneg, heq⟩ | ⟨m, left', rfl, hpos, hle, heq⟩
  · rw [if_neg (by omega)] at hgot'
    exact ⟨t, Transfer.Leads.refl t, rfl, d.of_rcv (hrcv.trans heq) hgot' rfl⟩
  · rw [if_neg (by omega)] at hgot'
    obtain ⟨t', hr, -⟩ := (Receives.refl d.receiving).moveAvailable hwf.rcv.toOrdered
    rw [← heq, ← hrcv] at hr
    exact ⟨t', hr.steps.leads, hr.log, d.receive _ hwnd rfl rfl hr hd (hgot'.trans hgot) rfl⟩
  · have hrefl : Receives (r.kcp.rcv.remove (fragments s.kcp.mss m).length) _ t t :=
      Receives.refl ⟨d.receiving.nxt, d.receiving.early⟩
    obtain ⟨t', hr, -⟩ := hrefl.moveAvailable (hwf.rcv.toOrdered.remove hle)
    have hmoved : (r.recv len).kcp.rcv = (r.kcp.rcv.remove (fragments s.kcp.mss m).length).moveAvailable := by
      rw [hrcv, heq]
    rw [← hmoved] at hr
    refine ⟨t', hr.steps.leads, hr.log, d.receive (r.kcp.rcv.remove _) hwnd rfl rfl hr (hd.remove hle) ?_ rfl⟩
    rw [hgot', heq, if_pos ⟨Int.natCast_nonneg _, hpos⟩, hgot, List.map_append]
    rfl

/-- Acknowledgements are sent, and nothing more is to be acknowledged. -/
theorem emit_r (d : Direction s r t above) {kcp' : Ikcpcb} (hrcv : kcp'.rcv = { r.kcp.rcv with acklist := [] }) :
    Direction s { r with kcp := kcp' } t (t.next + r.kcp.rcv.rcvWnd.toNat) := by
  obtain ⟨taken, left, hd, hgot⟩ := d.delivers
  refine ⟨d.sound, d.sending, ?_, ?_, ?_, fun i hge hlt => d.kept i (d.above_le.trans hge) hlt, ?_, d.pushes,
    fun e he s hs => (d.answers e he s hs).later (Transfer.Leads.refl t) d.above_le⟩
  · rw [hrcv]
    exact ⟨d.receiving.nxt, d.receiving.early⟩
  · rw [hrcv]
    exact ⟨taken, left, ⟨hd.frames, hd.short, hd.split, hd.received⟩, hgot⟩
  · rw [hrcv]
  · rw [hrcv]
    simp

theorem out_r (d : Direction s r t above) {more : List Datagram}
    (h : ∀ e ∈ more, ∀ seg ∈ segmentsOf e.packet, AckSays t above e.theirs seg.1) :
    Direction s { r with out := r.out ++ more } t above :=
  ⟨d.sound, d.sending, d.receiving, d.delivers, d.above_le, d.kept, d.acks, d.pushes,
    fun e he => (List.mem_append.mp he).elim (d.answers e) (h e)⟩

theorem settle_r (d : Direction s r t above) {kcp' : Ikcpcb} (h : Settles r.kcp kcp') :
    Direction s { r with kcp := kcp' } t above := d.of_rcv h.rcv rfl rfl

end Direction

/-! ## What goes out -/

theorem Passes.head_cmd {conv : UInt64} {seg : IkcpSeg} (h : seg.Passes conv) : seg.head.cmd.toUInt32 = seg.cmd := by
  show seg.cmd.toUInt8.toUInt32 = seg.cmd
  rcases h.cmd with heq | heq | heq | heq
  · rw [heq]
    rfl
  · rw [heq]
    rfl
  · rw [heq]
    rfl
  · rw [heq]
    rfl

theorem head_frg {seg : IkcpSeg} (h : seg.frg.toNat < 128) : seg.head.frg.toUInt32 = seg.frg := by
  show seg.frg.toUInt8.toUInt32 = seg.frg
  apply UInt32.toNat_inj.mp
  rw [UInt8.toNat_toUInt32, UInt32.toNat_toUInt8]
  exact Nat.mod_eq_of_lt (by omega)

section Emit

variable {kcp kcp' : Ikcpcb} {added rest probes segs : List IkcpSeg}

/-- What is sent is an acknowledgement, a question, or an outstanding segment; all say what is received. -/
theorem Sends.cases (hs : Sends kcp added rest probes segs) {seg : IkcpSeg} (hseg : seg ∈ segs) :
    seg.una = kcp.rcv.rcvNxt ∧ seg.wnd = ikcpWndUnused kcp.rcv ∧
      ((seg.cmd = ikcpCmdAck ∧ ∃ ack ∈ kcp.rcv.acklist, seg.sn = ack.1) ∨
      (seg.cmd = ikcpCmdWask ∨ seg.cmd = ikcpCmdWins) ∨
      ∃ segment ∈ (kcp.numbering added rest).sndBuf, seg.body = segment.body) := by
  have hcontrol : ∀ {seg : IkcpSeg}, seg.IsControl kcp → seg.una = kcp.rcv.rcvNxt ∧ seg.wnd = ikcpWndUnused kcp.rcv := by
    intro seg hseg
    rw [hseg]
    exact ⟨rfl, rfl⟩
  rw [hs.split] at hseg
  rcases List.mem_append.mp hseg with hseg | hdata
  · rcases List.mem_append.mp hseg with hack | hprobe
    · obtain ⟨ack, hmem, rfl⟩ := List.mem_map.mp hack
      exact ⟨rfl, rfl, .inl ⟨rfl, ack, hmem, rfl⟩⟩
    · obtain ⟨hseg', hcmd⟩ := hs.control seg hprobe
      exact ⟨(hcontrol hseg').1, (hcontrol hseg').2, .inr (.inl hcmd)⟩
  · obtain ⟨segment, hmem, hsent⟩ := List.mem_filterMap.mp hdata
    obtain ⟨hbody, hwnd, huna⟩ := sentSeg_spec hsent
    have hrcv : (kcp.sending added rest).rcv.rcvNxt = kcp.rcv.rcvNxt := by
      show (flushControl kcp).1.rcv.rcvNxt = _
      rw [(flushControl_frame kcp).2.1]
    exact ⟨huna.trans hrcv, hwnd, .inr (.inr ⟨segment, hmem, hbody⟩)⟩

theorem Sends.pushes (hwf : kcp.WellFormed) (hf : Flushes kcp kcp' added rest) (hs : Sends kcp added rest probes segs)
    {t : Transfer Fragment} (hsending : Sending kcp'.snd t) {seg : IkcpSeg} (hseg : seg ∈ segs) :
    PushSays t t.log.length seg.arrived := by
  have hpass := hs.passes hwf hf.fills seg hseg
  intro hcmd
  have hpush : seg.cmd = ikcpCmdPush := (Passes.head_cmd hpass).symm.trans hcmd
  obtain ⟨-, -, ⟨hack, -⟩ | (hask | htell) | ⟨segment, hmem, hbody⟩⟩ := hs.cases hseg
  · rw [hpush] at hack
    exact absurd hack (by decide)
  · rw [hpush] at hask
    exact absurd hask (by decide)
  · rw [hpush] at htell
    exact absurd htell (by decide)
  · obtain ⟨buf, hbodies, hsnd⟩ := hf.snd
    have hbuf : kcp'.snd.sndBuf = buf := congrArg Snd.sndBuf hsnd
    obtain ⟨segment', hmem', hbody'⟩ := exists_body hbodies.symm hmem
    obtain ⟨i, hi, hsn, hget⟩ := hsending.kept.seg segment' (hbuf ▸ hmem')
    have hsame : segment'.body = seg.body := hbody'.trans hbody.symm
    have hfragment : segment'.fragment = seg.fragment := congrArg (fun b => (b.frg, b.data)) hsame
    have hfrg : seg.frg.toNat < 128 := by
      have hfits := (hwf.numbering_carries hf.fills segment hmem).1.2
      rwa [show segment.fragment.1 = seg.frg from (congrArg Body.frg hbody).symm] at hfits
    refine ⟨i, (congrArg Body.sn hsame).symm.trans hsn, ?_, (hsending.kept.range i hi).2⟩
    show t.log[i]? = some (seg.head.frg.toUInt32, seg.data)
    rw [head_frg hfrg, hget, hfragment]
    rfl

theorem Sends.answers (hwf : kcp.WellFormed) {cwnd : UInt32} (hf : Fills kcp.snd cwnd kcp.snd.sndQueue added rest)
    (hs : Sends kcp added rest probes segs) {t : Transfer Fragment} (hr : Receiving kcp.rcv t)
    {above : Nat}
    (hacks : ∀ ack ∈ kcp.rcv.acklist, ∃ j, ack.1 = UInt32.ofNat j ∧ t.Has j ∧ j < t.next + kcp.rcv.rcvWnd.toNat ∧
      above ≤ j + maxLag + 2 * maxWnd)
    (hahead : t.log.length ≤ above + maxWnd ∧ t.log.length ≤ t.next + 2 * maxWnd) {seg : IkcpSeg} (hseg : seg ∈ segs) :
    AckSays t (t.next + kcp.rcv.rcvWnd.toNat) t.log.length seg.head := by
  have hpass := hs.passes hwf hf seg hseg
  obtain ⟨huna, -, hkind⟩ := hs.cases hseg
  refine ⟨⟨t.next, huna.trans hr.nxt, le_rfl, Nat.le_add_right _ _, hahead.2⟩, fun hcmd => ?_⟩
  have hack : seg.cmd = ikcpCmdAck := (Passes.head_cmd hpass).symm.trans hcmd
  rcases hkind with ⟨-, ack, hmem, hsn⟩ | (hask | htell) | ⟨segment, hmem, hbody⟩
  · obtain ⟨j, hj, hhas, hlt, hle⟩ := hacks ack hmem
    exact ⟨j, hsn.trans hj, hhas, hlt, by omega⟩
  · rw [hack] at hask
    exact absurd hask (by decide)
  · rw [hack] at htell
    exact absurd htell (by decide)
  · have hpush := (hwf.numbering_carries hf segment hmem).2.2
    rw [show segment.cmd = seg.cmd from (congrArg Body.cmd hbody).symm, hack] at hpush
    exact absurd hpush (by decide)

end Emit

/-! ## Every step keeps it -/

/-- What holds of a link. -/
structure Link.Invariant (conv : UInt64) (l : Link) : Prop where
  near : l.near.Good conv
  far : l.far.Good conv
  forth : ∃ t above, Direction l.near l.far t above
  back : ∃ t above, Direction l.far l.near t above

theorem End.Good.of_settings {conv : UInt64} {e e' : End} (h : e.Good conv) (hwf : e'.kcp.WellFormed)
    (hset : e'.kcp.settings = e.kcp.settings) (hout : e'.out = e.out) : e'.Good conv := by
  have hmtu : e'.kcp.mtu = e.kcp.mtu := congrArg Settings.mtu hset
  have hsnd : e'.kcp.sndWnd = e.kcp.sndWnd := congrArg Settings.sndWnd hset
  have hrcv : e'.kcp.rcv.rcvWnd = e.kcp.rcv.rcvWnd := congrArg Settings.rcvWnd hset
  refine ⟨hwf, (congrArg Settings.conv hset).trans h.same, hsnd ▸ h.sndWnd, hrcv ▸ h.rcvWnd_ge, hrcv ▸ h.rcvWnd_le, ?_⟩
  rw [hout, hmtu]
  exact h.out

theorem End.Good.recv {conv : UInt64} {e : End} (h : e.Good conv) (len : Int) : (e.recv len).Good conv :=
  h.of_settings (h.wellFormed.recv len) (setRcv_settings _ (recv_wnd _ len)) rfl

/-- What is too short or not for this end is not taken. -/
theorem ikcpInput_noise {kcp : Ikcpcb} {packet : Bytes}
    (h : packet.length < 28 ∨ (decodeHead packet).1.conv ≠ kcp.conv) : (ikcpInput kcp packet).2 = kcp := by
  have h28 : ikcpOverhead.toNat = 28 := rfl
  have hint : asInt ikcpOverhead = 28 := rfl
  rw [ikcpInput]
  split
  case isTrue => rfl
  case isFalse hlong =>
    rcases Nat.lt_or_ge packet.length 28 with hshort | hge
    · rw [ofNat_toInt (by omega), hint] at hlong
      omega
    · have hother : (decodeHead packet).1.conv ≠ kcp.conv := h.resolve_left (by omega)
      obtain ⟨n, hn⟩ : ∃ n, packet.length = n + 1 := ⟨packet.length - 1, by omega⟩
      rw [hn, inputLoop, if_neg (by omega)]
      dsimp only
      rw [if_pos hother]

/-- What holds while segments come in: the transfers go on, and no more segments get numbers. -/
structure Hearing (conv : UInt64) (e far : End) (t₁ t₂ : Transfer Fragment) (above₁ above₂ : Nat) (kcp : Ikcpcb) :
    Prop where
  good : End.Good conv { e with kcp }
  forth : ∃ t, t₁.Leads t ∧ t.log = t₁.log ∧ Direction { e with kcp } far t above₁
  back : ∃ t, t₂.Leads t ∧ t.log = t₂.log ∧ Direction far { e with kcp } t above₂

namespace Hearing

variable {conv : UInt64} {e far : End} {t₁ t₂ : Transfer Fragment} {above₁ above₂ : Nat}

theorem start (hgood : e.Good conv) (d₁ : Direction e far t₁ above₁) (d₂ : Direction far e t₂ above₂) :
    Hearing conv e far t₁ t₂ above₁ above₂ e.kcp :=
  ⟨hgood, ⟨t₁, Transfer.Leads.refl t₁, rfl, d₁⟩, t₂, Transfer.Leads.refl t₂, rfl, d₂⟩

/-- A segment that says what is true. -/
theorem step {kcp : Ikcpcb} (h : Hearing conv e far t₁ t₂ above₁ above₂ kcp) {theirs mine : Nat}
    (htheirs : t₁.log.length ≤ theirs + maxLag) (hmine : t₂.log.length ≤ mine + maxLag) {seg : Head × Bytes}
    (hanswers : AckSays t₁ above₁ theirs seg.1) (hpushes : PushSays t₂ mine seg) (vars : InputVars) :
    Hearing conv e far t₁ t₂ above₁ above₂ (inputSeg kcp vars seg.1 seg.2).1 := by
  obtain ⟨hgood, ⟨t, hleads, hlog, d⟩, t', hleads', hlog', d'⟩ := h
  have hwf : kcp.WellFormed := hgood.wellFormed
  obtain ⟨u, hu, hlogu, du⟩ := d.hear_s hwf (hanswers.later hleads le_rfl) (hlog ▸ htheirs) vars
  obtain ⟨u', hu', hlogu', du'⟩ := d'.hear_r hwf hgood.rcvWnd_le (hpushes.later hleads') (hlog' ▸ hmine) vars
  exact ⟨hgood.of_settings (hwf.inputSeg vars seg.1 seg.2) (inputSeg_spec kcp vars seg.1 seg.2).2.2 rfl,
    ⟨u, hleads.trans hu, hlogu.trans hlog, du⟩, u', hleads'.trans hu', hlogu'.trans hlog', du'⟩

theorem settle {kcp kcp' : Ikcpcb} (h : Hearing conv e far t₁ t₂ above₁ above₂ kcp) (hs : Settles kcp kcp')
    (hwf : kcp'.WellFormed) : Hearing conv e far t₁ t₂ above₁ above₂ kcp' := by
  obtain ⟨hgood, ⟨t, hleads, hlog, d⟩, t', hleads', hlog', d'⟩ := h
  exact ⟨hgood.of_settings hwf hs.settings rfl, ⟨t, hleads, hlog, d.settle_s hs⟩, t', hleads', hlog', d'.settle_r hs⟩

end Hearing

/-- What is known of a datagram that is delivered. -/
structure Tells (conv : UInt64) (t₁ t₂ : Transfer Fragment) (above₁ : Nat) (d : Datagram) : Prop where
  segs : ∃ segs mtu, mtu < 2 ^ 31 ∧ d.packet = encodeSegs segs ∧ Packet mtu segs ∧ ∀ seg ∈ segs, seg.Passes conv
  answers : ∀ seg ∈ segmentsOf d.packet, AckSays t₁ above₁ d.theirs seg.1
  pushes : ∀ seg ∈ segmentsOf d.packet, PushSays t₂ d.mine seg
  theirs : t₁.log.length ≤ d.theirs + maxLag
  mine : t₂.log.length ≤ d.mine + maxLag

namespace Hearing

variable {conv : UInt64} {e far : End} {t₁ t₂ : Transfer Fragment} {above₁ above₂ : Nat} {kcp : Ikcpcb} {d : Datagram}

theorem hearAll (h : Hearing conv e far t₁ t₂ above₁ above₂ kcp) (ht : Tells conv t₁ t₂ above₁ d) (vars : InputVars) :
    Hearing conv e far t₁ t₂ above₁ above₂ (Kcp.hearAll (segmentsOf d.packet) (kcp, vars)).1 :=
  hearAll_keeps (fun _ vars seg hseg hk => hk.step ht.theirs ht.mine (ht.answers seg hseg) (ht.pushes seg hseg) vars) h vars

theorem settles (h : Hearing conv e far t₁ t₂ above₁ above₂ kcp) (ht : Tells conv t₁ t₂ above₁ d) :
    Settles (Kcp.hearAll (segmentsOf d.packet) (kcp, {})).1 (ikcpInput kcp d.packet).2 := by
  have hconv : kcp.conv = conv := h.good.same
  obtain ⟨segs, mtu, hmtu, hpacket, hp, hpasses⟩ := ht.segs
  rw [hpacket]
  exact (ikcpInput_encodeSegs hmtu hp (hconv ▸ hpasses)).2

theorem input (h : Hearing conv e far t₁ t₂ above₁ above₂ kcp) (ht : Tells conv t₁ t₂ above₁ d) :
    Hearing conv e far t₁ t₂ above₁ above₂ (ikcpInput kcp d.packet).2 :=
  (h.hearAll ht {}).settle (h.settles ht) (h.good.wellFormed.input d.packet)

end Hearing

theorem Direction.tells {conv : UInt64} {near far : End} {t₁ t₂ : Transfer Fragment} {above₁ above₂ : Nat}
    (hfar : far.Good conv) (d₁ : Direction near far t₁ above₁) (d₂ : Direction far near t₂ above₂) {d : Datagram}
    (hd : d ∈ far.out) (hmine : far.numbered ≤ d.mine + maxLag) (htheirs : near.numbered ≤ d.theirs + maxLag) :
    Tells conv t₁ t₂ above₁ d := by
  obtain ⟨segs, hpacket, hp, hpasses⟩ := hfar.out d hd
  rw [d₁.numbered] at htheirs
  rw [d₂.numbered] at hmine
  exact ⟨⟨segs, _, hfar.wellFormed.good.mtu_lt, hpacket, hp, hpasses⟩, d₁.answers d hd, d₂.pushes d hd, htheirs, hmine⟩

namespace Link.Invariant

variable {conv : UInt64} {l : Link}

theorem swap (h : l.Invariant conv) : l.swap.Invariant conv := ⟨h.far, h.near, h.back, h.forth⟩

theorem send (h : l.Invariant conv) (m : Message) : Link.Invariant conv { l with near := l.near.send m } := by
  obtain ⟨t, above, d⟩ := h.forth
  obtain ⟨t', above', d'⟩ := h.back
  have hrcv : (ikcpSend l.near.kcp m.bytes).2.rcv = l.near.kcp.rcv := by
    rw [ikcpSend_eq]
    rfl
  exact ⟨h.near.of_settings (h.near.wellFormed.sendMessage m) (send_settings _ _) rfl, h.far, ⟨t, above, d.send h.near.wellFormed m⟩,
    ⟨t', above', d'.of_rcv hrcv rfl rfl⟩⟩

theorem recv (h : l.Invariant conv) (len : Int) : Link.Invariant conv { l with near := l.near.recv len } := by
  obtain ⟨t, above, d⟩ := h.forth
  obtain ⟨t', above', d'⟩ := h.back
  obtain ⟨t'', -, -, d''⟩ := d'.recv h.far.wellFormed.good.mss h.near.wellFormed h.near.rcvWnd_le len
  exact ⟨h.near.recv len, h.far, ⟨t, above, d.of_snd rfl rfl rfl rfl⟩, ⟨t'', above', d''⟩⟩

/-- Only the two halves and the settings count. -/
theorem of_frame (h : l.Invariant conv) {kcp : Ikcpcb}
    (hframe : kcp.snd = l.near.kcp.snd ∧ kcp.rcv = l.near.kcp.rcv ∧ kcp.settings = l.near.kcp.settings) :
    Link.Invariant conv { l with near := { l.near with kcp } } := by
  obtain ⟨t, above, d⟩ := h.forth
  obtain ⟨t', above', d'⟩ := h.back
  obtain ⟨hsnd, hrcv, hset⟩ := hframe
  exact ⟨h.near.of_settings (h.near.wellFormed.of_frame ⟨hsnd, hrcv, hset⟩) hset rfl, h.far,
    ⟨t, above, d.of_snd hsnd (congrArg Settings.mss hset) rfl rfl⟩, ⟨t', above', d'.of_rcv hrcv rfl rfl⟩⟩

theorem noise (h : l.Invariant conv) {packet : Bytes}
    (hnoise : packet.length < 28 ∨ (decodeHead packet).1.conv ≠ l.near.kcp.conv) :
    Link.Invariant conv { l with near := l.near.input packet } := by
  rw [End.input, ikcpInput_noise hnoise]
  exact h

/-- A flush. -/
theorem flush (h : l.Invariant conv) : Link.Invariant conv { l with near := l.near.emit l.far (ikcpFlush l.near.kcp) } := by
  have hnear := h.near.wellFormed
  obtain ⟨t, above, d⟩ := h.forth
  obtain ⟨t', above', d'⟩ := h.back
  rcases ikcpFlush_sends hnear with ⟨-, heq⟩ | ⟨-, added, rest, probes, packets, hf, hout, hpackets, hs⟩
  · have hsame : l.near.emit l.far (ikcpFlush l.near.kcp) = l.near := by
      rw [heq, End.emit, List.map_nil, List.append_nil]
    rw [hsame]
    exact h
  · have d₁ := d.emit_s h.near hnear.flush hf
    have d₁' := d'.emit_r hf.rcv
    have hgood : End.Good conv { l.near with kcp := (ikcpFlush l.near.kcp).1 } := h.near.of_settings hnear.flush hf.settings rfl
    have hpieces : ∀ p ∈ packets, segmentsOf (encodeSegs p) = p.map IkcpSeg.arrived := fun p hp =>
      segmentsOf_encodeSegs fun seg hseg =>
        (hs.passes hnear hf.fills seg (List.mem_flatten.mpr ⟨p, hp, hseg⟩)).short
    have hmtu : (ikcpFlush l.near.kcp).1.mtu = l.near.kcp.mtu := congrArg Settings.mtu hf.settings
    have hconv : l.near.kcp.conv = conv := h.near.same
    have hmem : ∀ e ∈ (ikcpFlush l.near.kcp).2.map fun packet =>
        ({ packet, mine := End.numbered { l.near with kcp := (ikcpFlush l.near.kcp).1 }, theirs := l.far.numbered } : Datagram),
        ∃ p ∈ packets, e.packet = encodeSegs p ∧
          e.mine = End.numbered { l.near with kcp := (ikcpFlush l.near.kcp).1 } ∧ e.theirs = l.far.numbered := by
      intro e he
      rw [hout] at he
      obtain ⟨packet, hpacket, rfl⟩ := List.mem_map.mp he
      obtain ⟨p, hp, rfl⟩ := List.mem_map.mp hpacket
      exact ⟨p, hp, rfl, rfl, rfl⟩
    refine ⟨⟨hgood.wellFormed, hgood.same, hgood.sndWnd, hgood.rcvWnd_ge, hgood.rcvWnd_le, ?_⟩, h.far,
      ⟨_, above, d₁.out_s ?_⟩, ⟨t', _, d₁'.out_r ?_⟩⟩
    · intro e he
      rcases List.mem_append.mp he with hold | hnew
      · exact hgood.out e hold
      · obtain ⟨p, hp, hpacket, -, -⟩ := hmem e hnew
        refine ⟨p, hpacket, ?_, fun seg hseg => ?_⟩
        · show Packet (ikcpFlush l.near.kcp).1.mtu.toNat p
          rw [hmtu]
          exact hpackets p hp
        · rw [← hconv]
          exact hs.passes hnear hf.fills seg (List.mem_flatten.mpr ⟨p, hp, hseg⟩)
    · intro e he arrived harrived
      obtain ⟨p, hp, hpacket, hmine, -⟩ := hmem e he
      rw [hpacket, hpieces p hp] at harrived
      obtain ⟨seg, hseg, rfl⟩ := List.mem_map.mp harrived
      rw [hmine, d₁.numbered]
      exact hs.pushes hnear hf d₁.sending (List.mem_flatten.mpr ⟨p, hp, hseg⟩)
    · intro e he arrived harrived
      obtain ⟨p, hp, hpacket, -, htheirs⟩ := hmem e he
      rw [hpacket, hpieces p hp] at harrived
      obtain ⟨seg, hseg, rfl⟩ := List.mem_map.mp harrived
      rw [htheirs, d'.numbered]
      exact hs.answers hnear hf.fills d'.receiving d'.acks (d'.length_le h.near.rcvWnd_le)
        (List.mem_flatten.mpr ⟨p, hp, hseg⟩)

theorem update (h : l.Invariant conv) (current : UInt32) :
    Link.Invariant conv { l with near := l.near.emit l.far (ikcpUpdate l.near.kcp current) } := by
  obtain ⟨tsFlush, heq | ⟨heq, -⟩⟩ := ikcpUpdate_cases l.near.kcp current
  · rw [heq]
    have hframe : Link.Invariant conv { l with near := { l.near with kcp := l.near.kcp.atTime current tsFlush } } :=
      h.of_frame ⟨rfl, rfl, rfl⟩
    exact hframe.flush
  · have hsame : l.near.emit l.far (ikcpUpdate l.near.kcp current) =
        { l.near with kcp := l.near.kcp.atTime current tsFlush } := by
      rw [heq, End.emit, List.map_nil, List.append_nil]
    rw [hsame]
    exact h.of_frame ⟨rfl, rfl, rfl⟩

/-- A datagram of the other end. -/
theorem deliver (h : l.Invariant conv) {d : Datagram} (hd : d ∈ l.far.out) (hmine : l.far.numbered ≤ d.mine + maxLag)
    (htheirs : l.near.numbered ≤ d.theirs + maxLag) :
    Link.Invariant conv { l with near := l.near.input d.packet } := by
  obtain ⟨t₁, above₁, d₁⟩ := h.forth
  obtain ⟨t₂, above₂, d₂⟩ := h.back
  have ht := Direction.tells h.far d₁ d₂ hd hmine htheirs
  obtain ⟨hgood, ⟨t₁', -, -, d₁'⟩, t₂', -, -, d₂'⟩ := (Hearing.start h.near d₁ d₂).input ht
  exact ⟨hgood, h.far, ⟨t₁', above₁, d₁'⟩, ⟨t₂', above₂, d₂'⟩⟩

theorem step (h : l.Invariant conv) {l' : Link} (hstep : Step l l') : l'.Invariant conv := by
  cases hstep with
  | send m => exact h.send m
  | recv len => exact h.recv len
  | update current => exact h.update current
  | flush => exact h.flush
  | deliver hd hmine htheirs => exact h.deliver hd hmine htheirs
  | noise hnoise => exact h.noise hnoise

theorem reaches (h : l.Invariant conv) {l' : Link} (hreaches : Reaches l l') : l'.Invariant conv := by
  induction hreaches with
  | refl => exact h
  | tail _ hnext ih =>
    cases hnext with
    | near hstep => exact ih.step hstep
    | far hstep => exact (ih.swap.step hstep).swap

end Link.Invariant

theorem Fresh.end_good {conv : UInt64} {kcp : Ikcpcb} (h : Fresh conv kcp) : End.Good conv { kcp } :=
  ⟨h.wellFormed, h.conv, h.sndWnd, h.rcvWnd_ge, h.rcvWnd_le, by simp⟩

theorem Fresh.direction {conv conv' : UInt64} {kcp kcp' : Ikcpcb} (h : Fresh conv kcp) (h' : Fresh conv' kcp') :
    Direction { kcp } { kcp := kcp' } Transfer.start 0 := by
  have hsnd : kcp.snd = {} := h.snd
  have hbuf : kcp'.rcv.rcvBuf = [] := congrArg Rcv.rcvBuf h'.rcv
  have hqueue : kcp'.rcv.rcvQueue = [] := congrArg Rcv.rcvQueue h'.rcv
  have hacks : kcp'.rcv.acklist = [] := congrArg Rcv.acklist h'.rcv
  have hnxt : kcp'.rcv.rcvNxt = 0 := congrArg Rcv.rcvNxt h'.rcv
  refine ⟨Transfer.sound_start, ⟨?_, ?_⟩, ⟨hnxt, ?_⟩, ⟨[], [], ⟨?_, by simp, rfl, ?_⟩, rfl⟩, Nat.zero_le _,
    fun i _ hlt => absurd hlt (Nat.not_lt_zero i), ?_, by simp, by simp⟩
  · rw [hsnd]
    rfl
  · rw [hsnd]
    exact ⟨by simp, fun i hi => absurd hi (Set.notMem_empty i), fun i hi => absurd hi (Set.notMem_empty i)⟩
  · rw [hbuf]
    exact ⟨by simp, fun i hi => absurd hi.1 (Set.notMem_empty i), fun i hi => absurd hi.1 (Set.notMem_empty i)⟩
  · rw [hsnd]
    rfl
  · rw [hqueue]
    rfl
  · rw [hacks]
    simp

theorem opened_invariant (conv : UInt64) (c c' : Config) : (opened conv c c').Invariant conv := by
  have h := c.opened_fresh conv
  have h' := c'.opened_fresh conv
  exact ⟨h.end_good, h'.end_good, ⟨_, _, h.direction h'⟩, ⟨_, _, h'.direction h⟩⟩

/-- No datagram of one end is refused by the other, not even one that is old. -/
theorem none_refused {conv : UInt64} {c c' : Config} {l : Link} (h : Reaches (opened conv c c') l) {d : Datagram}
    (hd : d ∈ l.far.out) : (ikcpInput l.near.kcp d.packet).1 = 0 ∧ d.packet.length ≤ l.far.kcp.mtu.toNat := by
  have hinv := (opened_invariant conv c c').reaches h
  obtain ⟨segs, hpacket, hp, hpasses⟩ := hinv.far.out d hd
  have hconv : l.near.kcp.conv = conv := hinv.near.same
  rw [hpacket]
  exact ⟨(ikcpInput_encodeSegs hinv.far.wellFormed.good.mtu_lt hp (hconv.symm ▸ hpasses)).1, hp.fits⟩

/-! ## Two sessions -/

def hello : Message := ⟨[104, 105], by decide⟩

/-- The first turn of the near end, with something to send. -/
def sentOnce : Link :=
  let l := opened 7 (sessionConfig 100) (sessionConfig 100)
  let l := { l with near := l.near.send hello }
  { l with near := l.near.emit l.far (ikcpUpdate l.near.kcp 0) }

/-- The datagram of that turn. -/
def helloPacket : Datagram where
  packet := encodeSegs [{ conv := 7, cmd := ikcpCmdPush, frg := 0, wnd := 256, data := hello.bytes }]
  mine := 1
  theirs := 0

/-- The far end takes the message and acknowledges it in its own first turn. -/
def takenOnce : Link :=
  let far := (sentOnce.far.input helloPacket.packet).recv 100
  { sentOnce with far := far.emit sentOnce.near (ikcpUpdate far.kcp 0) }

def ackPacket : Datagram where
  packet := encodeSegs [{ conv := 7, cmd := ikcpCmdAck, frg := 0, wnd := 256, una := 1, data := [] }]
  mine := 0
  theirs := 1

theorem reaches_sentOnce : Reaches (opened 7 (sessionConfig 100) (sessionConfig 100)) sentOnce :=
  (Relation.ReflTransGen.single (.near (.send _ hello))).tail (.near (.update _ 0))

theorem reaches_takenOnce : Reaches (opened 7 (sessionConfig 100) (sessionConfig 100)) takenOnce := by
  have hout : helloPacket ∈ sentOnce.near.out := by decide +kernel
  have hdeliver : Step sentOnce.swap _ := .deliver sentOnce.swap hout (by decide +kernel) (by decide +kernel)
  exact ((reaches_sentOnce.tail (.far hdeliver)).tail (.far (.recv _ 100))).tail (.far (.update _ 0))

theorem none_refused_ack : (ikcpInput takenOnce.near.kcp ackPacket.packet).1 = 0 ∧
    ackPacket.packet.length ≤ takenOnce.far.kcp.mtu.toNat :=
  none_refused reaches_takenOnce (by decide +kernel)

/-! ## What is delivered -/

theorem Link.Invariant.delivered {conv : UInt64} {l : Link} (h : l.Invariant conv) :
    l.far.got <+: l.near.sent.map Message.bytes := by
  obtain ⟨t, above, d⟩ := h.forth
  obtain ⟨taken, left, hd, hgot⟩ := d.delivers
  rw [hgot, hd.split, List.map_append]
  exact List.prefix_append _ _

/-- Whatever the network loses, repeats or reorders, what an end took is the beginning of what the other
sent: every message whole, once and in order. -/
theorem delivered_in_order {conv : UInt64} {c c' : Config} {l : Link} (h : Reaches (opened conv c c') l) :
    l.far.got <+: l.near.sent.map Message.bytes ∧ l.near.got <+: l.far.sent.map Message.bytes := by
  have hinv := (opened_invariant conv c c').reaches h
  exact ⟨hinv.delivered, hinv.swap.delivered⟩

theorem delivered_in_order_hello : takenOnce.far.got = [hello.bytes] ∧
    takenOnce.far.got <+: takenOnce.near.sent.map Message.bytes ∧ takenOnce.near.got <+: takenOnce.far.sent.map Message.bytes :=
  ⟨by decide +kernel, delivered_in_order reaches_takenOnce⟩

end Yagips.Kcp
