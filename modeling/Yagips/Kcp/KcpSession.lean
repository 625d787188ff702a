import Yagips.Kcp.Datagrams

/-!
# `KcpSession`

The control block of a session and its clock. Whatever the other end sends, and however the calls
follow one another, the control block stays as it should be, and no datagram is longer than 1400 bytes.
-/
namespace Yagips.Kcp

open Yagips.Lib

/-- `kcp` is not `NULL` once the constructor returns. -/
structure KcpSession where
  kcp : Ikcpcb
  kcpNextUpdate : UInt32 := 0

namespace KcpSession

def new (id kcpInterval : UInt64) : KcpSession where
  kcp := (sessionConfig kcpInterval).opened id

def send (s : KcpSession) (buf : Bytes) : Int × KcpSession :=
  let (ret, kcp) := ikcpSend s.kcp buf
  (ret, { s with kcp })

/-- The length is cut to an `int` at the call. -/
def recv (s : KcpSession) (len : Nat) : Int × Bytes × KcpSession :=
  let (ret, data, kcp) := ikcpRecv s.kcp (Int32.ofNat len).toInt
  (ret, data, { s with kcp })

def pushToKcp (s : KcpSession) (buf : Bytes) : Int × KcpSession :=
  let (ret, kcp) := ikcpInput s.kcp buf
  (ret, { s with kcp })

/-- The session, and the datagrams that go out. -/
def update (s : KcpSession) (ms : UInt32) : KcpSession × List Bytes :=
  let next := ikcpCheck s.kcp s.kcpNextUpdate
  let (kcp, sent) := if next ≤ s.kcpNextUpdate then ikcpUpdate s.kcp s.kcpNextUpdate else (s.kcp, [])
  ({ kcp, kcpNextUpdate := s.kcpNextUpdate + ms }, sent)

/-- A call of one of them. -/
inductive Event where
  | send (buf : Bytes)
  | recv (len : Nat)
  | pushToKcp (buf : Bytes)
  | update (ms : UInt32)

def step (s : KcpSession) : Event → KcpSession × List Bytes
  | .send buf => ((s.send buf).2, [])
  | .recv len => ((s.recv len).2.2, [])
  | .pushToKcp buf => ((s.pushToKcp buf).2, [])
  | .update ms => s.update ms

def after (s : KcpSession) (events : List Event) : KcpSession := events.foldl (fun s e => (s.step e).1) s

theorem update_cases (s : KcpSession) (ms : UInt32) :
    s.update ms = ({ kcp := (ikcpUpdate s.kcp s.kcpNextUpdate).1, kcpNextUpdate := s.kcpNextUpdate + ms },
      (ikcpUpdate s.kcp s.kcpNextUpdate).2) ∨
    s.update ms = ({ s with kcpNextUpdate := s.kcpNextUpdate + ms }, []) := by
  rw [update]
  dsimp only
  split
  · exact .inl rfl
  · exact .inr rfl

end KcpSession

/-! ## Whatever comes in -/

theorem flush_lengths {kcp : Ikcpcb} (h : kcp.WellFormed) :
    ∀ packet ∈ (ikcpFlush kcp).2, 28 ≤ packet.length ∧ packet.length ≤ kcp.mtu.toNat := by
  rcases ikcpFlush_sends h with ⟨-, heq⟩ | ⟨-, added, rest, probes, packets, -, hout, hpackets, -⟩
  · rw [heq]
    simp
  · rw [hout]
    intro packet hpacket
    obtain ⟨segs, hsegs, rfl⟩ := List.mem_map.mp hpacket
    have hp := hpackets segs hsegs
    obtain ⟨seg, rest', rfl⟩ := List.exists_cons_of_ne_nil hp.nonempty
    refine ⟨?_, hp.fits⟩
    rw [encodeSegs_cons, List.length_append, ikcpEncodeSeg_length]
    omega

theorem update_lengths {kcp : Ikcpcb} (h : kcp.WellFormed) (current : UInt32) :
    ∀ packet ∈ (ikcpUpdate kcp current).2, 28 ≤ packet.length ∧ packet.length ≤ kcp.mtu.toNat := by
  obtain ⟨tsFlush, heq | ⟨heq, -⟩⟩ := ikcpUpdate_cases kcp current
  · rw [heq]
    exact flush_lengths (h.of_frame ⟨rfl, rfl, rfl⟩ : (kcp.atTime current tsFlush).WellFormed)
  · rw [heq]
    simp

/-! ## The time until a segment is sent again -/

/-- The timeout of segments is at least that of a session and at most a minute. -/
structure Ikcpcb.Timely (kcp : Ikcpcb) : Prop where
  minrto : kcp.rxMinrto = 30
  rto_ge : 30 ≤ kcp.rxRto.toInt
  rto_le : kcp.rxRto.toInt ≤ 60000

theorem Ikcpcb.Timely.of_frame {kcp kcp' : Ikcpcb} (h : kcp.Timely)
    (hframe : kcp'.rxMinrto = kcp.rxMinrto ∧ kcp'.rxRto = kcp.rxRto) : kcp'.Timely :=
  ⟨hframe.1.trans h.minrto, hframe.2.symm ▸ h.rto_ge, hframe.2.symm ▸ h.rto_le⟩

theorem ibound_toInt (rto : UInt32) :
    30 ≤ (ibound 30 rto 60000).toInt32.toInt ∧ (ibound 30 rto 60000).toInt32.toInt ≤ 60000 := by
  have hcases : ∀ x : UInt32, 30 ≤ x.toNat → 30 ≤ (imin x 60000).toInt32.toInt ∧ (imin x 60000).toInt32.toInt ≤ 60000 := by
    intro x hx
    rw [imin]
    split
    case isTrue hle =>
      have hnat : x.toNat ≤ 60000 := UInt32.le_iff_toNat_le.mp hle
      have hint : asInt x = x.toNat := asInt_eq (by omega)
      rw [asInt] at hint
      omega
    case isFalse => decide
  rw [ibound]
  apply hcases
  rw [imax]
  split
  case isTrue => decide
  case isFalse hlt => exact (UInt32.lt_iff_toNat_lt.mp (UInt32.not_le.mp hlt)).le

theorem Ikcpcb.Timely.updateAck {kcp : Ikcpcb} (h : kcp.Timely) (rtt : Int32) : (ikcpUpdateAck kcp rtt).Timely := by
  have hmin : (ikcpUpdateAck kcp rtt).rxMinrto = 30 := by
    rw [ikcpUpdateAck]
    dsimp only
    split
    · exact h.minrto
    · exact h.minrto
  have hrto : ∃ rto, (ikcpUpdateAck kcp rtt).rxRto = (ibound 30 rto 60000).toInt32 := by
    have h30 : kcp.rxMinrto.toUInt32 = 30 := by rw [h.minrto]; rfl
    rw [ikcpUpdateAck]
    dsimp only
    split
    · rw [h30]
      exact ⟨_, rfl⟩
    · rw [h30]
      exact ⟨_, rfl⟩
  obtain ⟨rto, hrto⟩ := hrto
  have hbound := ibound_toInt rto
  rw [← hrto] at hbound
  exact ⟨hmin, hbound.1, hbound.2⟩

theorem Ikcpcb.Timely.measureRtt {kcp : Ikcpcb} (h : kcp.Timely) (ts : UInt32) : (Kcp.measureRtt kcp ts).Timely := by
  rw [Kcp.measureRtt]
  split
  · exact h.updateAck _
  · exact h

theorem Ikcpcb.Timely.inputSeg {kcp : Ikcpcb} (h : kcp.Timely) (vars : InputVars) (head : Head) (data : Bytes) :
    (Kcp.inputSeg kcp vars head data).1.Timely := by
  rw [Kcp.inputSeg]
  dsimp only
  split
  · have hacked : (Ikcpcb.setSnd { kcp with rmtWnd := head.wnd.toUInt32 } (ikcpShrinkBuf (ikcpParseUna kcp.snd head.una))).Timely :=
      h.of_frame ⟨rfl, rfl⟩
    exact (hacked.measureRtt head.ts).of_frame ⟨rfl, rfl⟩
  · split
    · exact h.of_frame ⟨rfl, rfl⟩
    · split
      · exact h.of_frame ⟨rfl, rfl⟩
      · exact h.of_frame ⟨rfl, rfl⟩

theorem growCwnd_rto (kcp : Ikcpcb) : (growCwnd kcp).rxMinrto = kcp.rxMinrto ∧ (growCwnd kcp).rxRto = kcp.rxRto := by
  rw [growCwnd]
  dsimp only
  split_ifs <;> exact ⟨rfl, rfl⟩

theorem Ikcpcb.Timely.input {kcp : Ikcpcb} (h : kcp.Timely) (data : Bytes) : (ikcpInput kcp data).2.Timely :=
  ikcpInput_keeps (fun _ vars head data hk => hk.inputSeg vars head data) (fun _ _ hk => hk.of_frame ⟨rfl, rfl⟩)
    (fun k hk => hk.of_frame (growCwnd_rto k)) h data

theorem flush_rto (kcp : Ikcpcb) : (ikcpFlush kcp).1.rxMinrto = kcp.rxMinrto ∧ (ikcpFlush kcp).1.rxRto = kcp.rxRto := by
  have hprobe : ∀ k : Ikcpcb, (probeWindow k).rxMinrto = k.rxMinrto ∧ (probeWindow k).rxRto = k.rxRto := by
    intro k
    rw [probeWindow]
    split
    · split
      · exact ⟨rfl, rfl⟩
      · split
        · exact ⟨rfl, rfl⟩
        · exact ⟨rfl, rfl⟩
    · exact ⟨rfl, rfl⟩
  have hlast : ∀ (k : Ikcpcb) cwnd p, (updateSsthresh k cwnd p).rxMinrto = k.rxMinrto ∧ (updateSsthresh k cwnd p).rxRto = k.rxRto := by
    intro k cwnd p
    rw [updateSsthresh]
    dsimp only
    split_ifs <;> exact ⟨rfl, rfl⟩
  rw [ikcpFlush]
  split
  · exact ⟨rfl, rfl⟩
  · obtain ⟨hmin, hrto⟩ := hprobe (kcp.setRcv { kcp.rcv with acklist := [] })
    obtain ⟨hmin', hrto'⟩ := hlast (flushData (flushControl kcp).1 (flushControl kcp).2).1 (windowSize (flushControl kcp).1)
      (flushData (flushControl kcp).1 (flushControl kcp).2).2
    exact ⟨hmin'.trans hmin, hrto'.trans hrto⟩

theorem update_rto (kcp : Ikcpcb) (current : UInt32) :
    (ikcpUpdate kcp current).1.rxMinrto = kcp.rxMinrto ∧ (ikcpUpdate kcp current).1.rxRto = kcp.rxRto := by
  obtain ⟨tsFlush, heq | ⟨heq, -⟩⟩ := ikcpUpdate_cases kcp current
  · rw [heq]
    exact flush_rto (kcp.atTime current tsFlush)
  · rw [heq]
    exact ⟨rfl, rfl⟩

theorem send_rto (kcp : Ikcpcb) (buffer : Bytes) :
    (ikcpSend kcp buffer).2.rxMinrto = kcp.rxMinrto ∧ (ikcpSend kcp buffer).2.rxRto = kcp.rxRto := by
  rcases ikcpSend_cases kcp buffer with heq | ⟨m, heq⟩
  · rw [heq]
    exact ⟨rfl, rfl⟩
  · rw [heq, ikcpSend_eq]
    exact ⟨rfl, rfl⟩

/-! ## Any calls -/

namespace KcpSession

/-- What holds of a session that was set up with these settings. -/
structure Sound (settings : Settings) (s : KcpSession) : Prop where
  wellFormed : s.kcp.WellFormed
  timely : s.kcp.Timely
  same : s.kcp.settings = settings

variable {settings : Settings} {s : KcpSession}

theorem Sound.step (h : s.Sound settings) (e : Event) : (s.step e).1.Sound settings := by
  cases e with
  | send buf => exact ⟨h.wellFormed.send buf, h.timely.of_frame (send_rto _ _), (send_settings _ _).trans h.same⟩
  | recv len => exact ⟨h.wellFormed.recv _, h.timely.of_frame ⟨rfl, rfl⟩, (setRcv_settings s.kcp (recv_wnd _ _)).trans h.same⟩
  | pushToKcp buf => exact ⟨h.wellFormed.input buf, h.timely.input buf, (input_settings _ _).trans h.same⟩
  | update ms =>
    show (s.update ms).1.Sound settings
    rcases s.update_cases ms with heq | heq
    · rw [heq]
      exact ⟨h.wellFormed.update _, h.timely.of_frame (update_rto _ _), (update_settings _ _).trans h.same⟩
    · rw [heq]
      exact ⟨h.wellFormed, h.timely, h.same⟩

theorem Sound.after (h : s.Sound settings) (events : List Event) : (s.after events).Sound settings :=
  Run.foldl_keeps (fun _ e _ hs => hs.step e) h

theorem Sound.lengths (h : s.Sound settings) (e : Event) :
    ∀ packet ∈ (s.step e).2, 28 ≤ packet.length ∧ packet.length ≤ settings.mtu.toNat := by
  cases e with
  | update ms =>
    show ∀ packet ∈ (s.update ms).2, _
    rcases s.update_cases ms with heq | heq
    · rw [heq, ← h.same]
      exact update_lengths h.wellFormed _
    · rw [heq]
      simp
  | _ => simp [KcpSession.step]

theorem nodelay_rto (kcp : Ikcpcb) (interval : Int32) :
    (ikcpNodelay kcp 1 interval 2 1).rxMinrto = 30 ∧ (ikcpNodelay kcp 1 interval 2 1).rxRto = kcp.rxRto := by
  have hpos : (1 : Int32) ≥ 0 ∧ (2 : Int32) ≥ 0 := by decide
  rw [ikcpNodelay, if_pos hpos.1, if_pos hpos.2, if_pos hpos.1]
  split <;> exact ⟨rfl, rfl⟩

theorem new_timely (id kcpInterval : UInt64) : (new id kcpInterval).kcp.Timely := by
  obtain ⟨hmin, hrto⟩ := nodelay_rto (ikcpCreate id) kcpInterval.toUInt32.toInt32
  have hsame : ∀ k : Ikcpcb, (ikcpWndsize (ikcpSetmtu k 1400).2 256 256).rxMinrto = k.rxMinrto ∧
      (ikcpWndsize (ikcpSetmtu k 1400).2 256 256).rxRto = k.rxRto := fun _ => ⟨rfl, rfl⟩
  have htimely : (ikcpNodelay (ikcpCreate id) 1 kcpInterval.toUInt32.toInt32 2 1).Timely := by
    refine ⟨hmin, ?_, ?_⟩
    · rw [hrto]
      show 30 ≤ (200 : Int32).toInt
      decide
    · rw [hrto]
      show (200 : Int32).toInt ≤ 60000
      decide
  exact htimely.of_frame (hsame _)

theorem new_sound (id kcpInterval : UInt64) : (new id kcpInterval).Sound (new id kcpInterval).kcp.settings :=
  ⟨((sessionConfig kcpInterval).opened_fresh id).wellFormed, new_timely id kcpInterval, rfl⟩

/-- What every session is set up with. -/
theorem new_settings (id kcpInterval : UInt64) :
    (new id kcpInterval).kcp.settings =
      { conv := id, mtu := 1400, mss := 1372, buffer := 4284, sndWnd := 256, rcvWnd := 256, stream := 0, nocwnd := 1
        interval := (ikcpNodelay (ikcpCreate id) 1 kcpInterval.toUInt32.toInt32 2 1).interval } := by
  have hset := (nodelay_frame (ikcpCreate id) 1 kcpInterval.toUInt32.toInt32 2 1).2.2
  have hnocwnd : (ikcpNodelay (ikcpCreate id) 1 kcpInterval.toUInt32.toInt32 2 1).nocwnd = 1 := rfl
  rw [hnocwnd] at hset
  generalize hkcp : ikcpNodelay (ikcpCreate id) 1 kcpInterval.toUInt32.toInt32 2 1 = kcp at hset
  have hnew : (new id kcpInterval).kcp = ikcpWndsize (ikcpSetmtu kcp 1400).2 256 256 := by
    rw [← hkcp]
    rfl
  have hmtu : (ikcpSetmtu kcp 1400).2 = { kcp with mtu := 1400, mss := 1372, buffer := 4284 } := rfl
  have hwnd : (new id kcpInterval).kcp.settings =
      { kcp.settings with mtu := 1400, mss := 1372, buffer := 4284, sndWnd := 256, rcvWnd := 256 } := by
    rw [hnew, hmtu]
    rfl
  rw [hwnd, hset]
  rfl

/-- Whatever comes in, a session holds no more segments than its windows, waits between 30 ms and a minute
for an acknowledgement, and sends datagrams of at least a header and at most 1400 bytes. -/
theorem bounded (id kcpInterval : UInt64) (events : List Event) :
    ((new id kcpInterval).after events).kcp.WellFormed ∧ ((new id kcpInterval).after events).kcp.Timely ∧
      ((new id kcpInterval).after events).kcp.snd.sndBuf.length ≤ 256 ∧
      ((new id kcpInterval).after events).kcp.rcv.rcvBuf.length ≤ 256 ∧
      ((new id kcpInterval).after events).kcp.rcv.rcvQueue.length ≤ 256 ∧
      ∀ packet ∈ Run.outputs KcpSession.step (new id kcpInterval) events, 28 ≤ packet.length ∧ packet.length ≤ 1400 := by
  have hset := new_settings id kcpInterval
  have hsound := (new_sound id kcpInterval).after events
  have hsnd : ((new id kcpInterval).after events).kcp.sndWnd = 256 :=
    congrArg Settings.sndWnd (hsound.same.trans hset)
  have hrcv : ((new id kcpInterval).after events).kcp.rcv.rcvWnd = 256 :=
    congrArg Settings.rcvWnd (hsound.same.trans hset)
  have hmtu : (new id kcpInterval).kcp.settings.mtu = 1400 := congrArg Settings.mtu hset
  have hwf := hsound.wellFormed
  have hwidth := hwf.snd.width
  have hbuf := hwf.rcv.buf_le
  have hroom := hwf.rcv.room
  rw [hsnd] at hwidth
  rw [hrcv] at hbuf hroom
  refine ⟨hwf, hsound.timely, hwf.snd.buf_le.trans hwidth, hbuf, hroom, ?_⟩
  refine Run.forall_outputs (fun _ e hs => hs.step e) (fun s e hs packet hpacket => ?_) _ events (new_sound id kcpInterval)
  have hle := hs.lengths e packet hpacket
  rw [hmtu] at hle
  exact hle

end KcpSession

/-! ## A message that is too long for its buffer -/

theorem moveAvailable_queue (r : Rcv) : r.rcvQueue <+: r.moveAvailable.rcvQueue := by
  obtain ⟨moved, rest, -, heq⟩ := moveLoop_spec r.rcvBuf r
  rw [Rcv.moveAvailable, heq]
  exact List.prefix_append _ _

theorem parseData_queue (r : Rcv) (new : IkcpSeg) : r.rcvQueue <+: (ikcpParseData r new).rcvQueue := by
  rw [ikcpParseData]
  split
  · exact List.prefix_rfl
  · dsimp only
    refine List.IsPrefix.trans ?_ (moveAvailable_queue _)
    split <;> exact List.prefix_rfl

theorem hear_queue (r : Rcv) (h : Head) (data : Bytes) : r.rcvQueue <+: (r.hear h data).rcvQueue := by
  rw [Rcv.hear]
  split
  · rw [pushSeg]
    split
    · dsimp only
      split
      · exact parseData_queue (ikcpAckPush r h.sn h.ts) _
      · exact List.prefix_rfl
    · exact List.prefix_rfl
  · exact List.prefix_rfl

theorem lengthLoop_append (p more : List IkcpSeg) : lengthLoop p ≤ lengthLoop (p ++ more) := by
  induction p with
  | nil => exact Nat.zero_le _
  | cons seg p ih =>
    rw [List.cons_append, lengthLoop, lengthLoop]
    split
    · exact le_rfl
    · exact Nat.add_le_add_left ih _

/-- A message that is there is not shorter when more is there. -/
theorem peeksize_grows {r r' : Rcv} (hr : r.Ordered) (hr' : r'.Ordered) (hqueue : r.rcvQueue <+: r'.rcvQueue)
    (hpeek : 0 ≤ ikcpPeeksize r) : ikcpPeeksize r ≤ ikcpPeeksize r' := by
  obtain ⟨more, hmore⟩ := hqueue
  have hlen := congrArg List.length hmore
  have hque := hr.que
  have hque' := hr'.que
  rw [List.length_append] at hlen
  rw [ikcpPeeksize] at hpeek ⊢
  rw [ikcpPeeksize, ← hmore]
  cases hq : r.rcvQueue with
  | nil =>
    rw [hq] at hpeek
    exact absurd hpeek (show ¬ (0 : Int) ≤ -1 by decide)
  | cons seg p =>
    rw [hq] at hpeek
    dsimp only [List.cons_append] at hpeek ⊢
    by_cases hfrg : seg.frg = 0
    · rw [if_pos hfrg, if_pos hfrg]
    · rw [if_neg hfrg] at hpeek ⊢
      rw [if_neg hfrg]
      by_cases hshort : r.nrcvQue < seg.frg + 1
      · rw [if_pos hshort] at hpeek
        exact absurd hpeek (by decide)
      · have hlong : ¬ r'.nrcvQue < seg.frg + 1 := by
          rw [UInt32.lt_iff_toNat_lt] at hshort ⊢
          omega
        rw [if_neg hshort, if_neg hlong]
        exact Int.ofNat_le.mpr (lengthLoop_append (seg :: p) more)

/-- The next message is longer than a buffer. -/
def Rcv.TooLong (n : Nat) (r : Rcv) : Prop := (n : Int) < ikcpPeeksize r

theorem Rcv.TooLong.grows {n : Nat} {r r' : Rcv} (h : r.TooLong n) (hr : r.Ordered) (hr' : r'.Ordered)
    (hqueue : r.rcvQueue <+: r'.rcvQueue) : r'.TooLong n := by
  have hlt : (n : Int) < ikcpPeeksize r := h
  exact hlt.trans_le (peeksize_grows hr hr' hqueue (by omega))

theorem Rcv.TooLong.recv {n : Nat} {r : Rcv} (h : r.TooLong n) (len : Int) (hlen : len.natAbs ≤ n) :
    r.recv len = (-3, [], r) := by
  have hlt : (n : Int) < ikcpPeeksize r := h
  have hne : r.rcvQueue ≠ [] := by
    intro hempty
    rw [ikcpPeeksize, hempty] at hlt
    change (n : Int) < -1 at hlt
    omega
  rw [Rcv.recv, if_neg hne]
  dsimp only
  rw [if_neg (by omega), if_pos (by omega)]

theorem input_tooLong {n : Nat} {kcp : Ikcpcb} (hwf : kcp.WellFormed) (h : kcp.rcv.TooLong n) (data : Bytes) :
    (ikcpInput kcp data).2.rcv.TooLong n := by
  refine (ikcpInput_keeps (P := fun k => k.WellFormed ∧ k.rcv.TooLong n) (fun k vars head data hk => ?_)
    (fun k sn hk => ⟨hk.1.parseFastack sn, hk.2⟩) (fun k hk => ?_) ⟨hwf, h⟩ data).2
  · refine ⟨hk.1.inputSeg vars head data, ?_⟩
    rw [(inputSeg_spec k vars head data).2.1]
    exact hk.2.grows hk.1.rcv.toOrdered (hk.1.rcv.hear head data).toOrdered (hear_queue k.rcv head data)
  · obtain ⟨hsnd, hrcv, hset⟩ := growCwnd_frame k
    exact ⟨hk.1.of_frame ⟨hsnd, hrcv, hset⟩, hrcv.symm ▸ hk.2⟩

theorem flush_tooLong {n : Nat} {kcp : Ikcpcb} (h : kcp.rcv.TooLong n) : (ikcpFlush kcp).1.rcv.TooLong n := by
  rcases ikcpFlush_spec kcp with ⟨-, heq⟩ | ⟨-, added, rest, hf⟩
  · rw [heq]
    exact h
  · rw [hf.rcv]
    exact h

theorem update_tooLong {n : Nat} {kcp : Ikcpcb} (h : kcp.rcv.TooLong n) (current : UInt32) :
    (ikcpUpdate kcp current).1.rcv.TooLong n := by
  obtain ⟨tsFlush, heq | ⟨heq, -⟩⟩ := ikcpUpdate_cases kcp current
  · rw [heq]
    exact @flush_tooLong n (kcp.atTime current tsFlush) h
  · rw [heq]
    exact h

namespace KcpSession

variable {settings : Settings} {s : KcpSession} {n : Nat}

theorem recv_tooLong (h : s.kcp.rcv.TooLong n) (hn : n < 2 ^ 31) {len : Nat} (hlen : len ≤ n) :
    s.recv len = (-3, [], s) := by
  have hint := ofNat_toInt (n := len) (by omega)
  have hrecv := h.recv (Int32.ofNat len).toInt (by omega)
  rw [KcpSession.recv, ikcpRecv]
  dsimp only
  rw [hrecv]
  dsimp only
  rw [if_neg (fun hpos => absurd hpos.1 (by decide))]

theorem step_tooLong (hs : s.Sound settings) (h : s.kcp.rcv.TooLong n) (hn : n < 2 ^ 31) {e : Event}
    (he : ∀ len, e = .recv len → len ≤ n) : (s.step e).1.kcp.rcv.TooLong n := by
  cases e with
  | send buf =>
    have hrcv : (ikcpSend s.kcp buf).2.rcv = s.kcp.rcv := by
      rcases ikcpSend_cases s.kcp buf with heq | ⟨m, heq⟩
      · rw [heq]
      · rw [heq, ikcpSend_eq]
        rfl
    show (ikcpSend s.kcp buf).2.rcv.TooLong n
    rw [hrcv]
    exact h
  | recv len =>
    show (s.recv len).2.2.kcp.rcv.TooLong n
    rw [recv_tooLong h hn (he len rfl)]
    exact h
  | pushToKcp buf => exact input_tooLong hs.wellFormed h buf
  | update ms =>
    show (s.update ms).1.kcp.rcv.TooLong n
    rcases s.update_cases ms with heq | heq
    · rw [heq]
      exact update_tooLong h _
    · rw [heq]
      exact h

/-- Once the next message is longer than the buffer it is received with, nothing is received any more,
whatever else is called and whatever comes in. -/
theorem too_long_blocks {id kcpInterval : UInt64} {before events : List Event} (hn : n < 2 ^ 31)
    (hlong : (n : Int) < ikcpPeeksize ((new id kcpInterval).after before).kcp.rcv)
    (hrecv : ∀ len, Event.recv len ∈ events → len ≤ n) {len : Nat} (hlen : len ≤ n) :
    (((new id kcpInterval).after before).after events).recv len =
      (-3, [], ((new id kcpInterval).after before).after events) := by
  have hsound := (new_sound id kcpInterval).after before
  refine recv_tooLong (n := n) (Run.foldl_keeps (P := fun s : KcpSession => s.Sound (new id kcpInterval).kcp.settings ∧
    s.kcp.rcv.TooLong n) (fun s e he hs => ⟨hs.1.step e, ?_⟩) ⟨hsound, hlong⟩).2 hn hlen
  exact step_tooLong hs.1 hs.2 hn fun len heq => hrecv len (heq ▸ he)

/-- Five bytes from the other end. -/
def fiveBytes : Bytes := encodeSegs [{ conv := 7, cmd := ikcpCmdPush, frg := 0, wnd := 256, data := [1, 2, 3, 4, 5] }]

theorem too_long_blocks_five :
    (((new 7 100).after [.pushToKcp fiveBytes]).after [.recv 4, .pushToKcp fiveBytes, .update 50]).recv 4 =
      (-3, [], ((new 7 100).after [.pushToKcp fiveBytes]).after [.recv 4, .pushToKcp fiveBytes, .update 50]) :=
  too_long_blocks (n := 4) (by decide) (by decide +kernel) (by simp) (by decide)

end KcpSession

end Yagips.Kcp
