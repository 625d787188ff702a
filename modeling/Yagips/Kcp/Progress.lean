import Yagips.Kcp.Link

/-!
# Nothing is lost

A sender gives up only what the other end has, so that a sender with nothing left to send has sent it
all: what is not taken yet can be taken without another datagram.
-/
namespace Yagips.Kcp

open Yagips.Lib

/-- A buffer that is long enough for any message. -/
def anyLen : Int := 2 ^ 31 - 1

/-- The next message is taken if all of it is there. -/
theorem recv_takes {mss : UInt32} (hmss : SegmentSize mss) {queue : List IkcpSeg} {sent taken left : List Message}
    {m : Message} {r : Rcv} {t : Transfer Fragment} (hwf : r.WellFormed)
    (h : Delivers mss queue sent taken (m :: left) r t) (hle : (fragments mss m).length ≤ r.rcvQueue.length) :
    (r.recv anyLen).1 = m.bytes.length ∧ (r.recv anyLen).2.1 = m.bytes := by
  obtain ⟨n, hlen, -, -⟩ := fragments_length hmss m
  have hne : r.rcvQueue ≠ [] := by
    intro hempty
    rw [hempty, hlen] at hle
    cases hle
  have hshort : (fragments mss m).length < 128 := by
    apply h.short
    rw [h.split]
    exact List.mem_append_right _ List.mem_cons_self
  have hfits := m.fits
  have hany : anyLen = 2 ^ 31 - 1 := rfl
  rcases peeksize_cases hmss hwf.que hne hshort h.waiting with ⟨hlt, -⟩ | ⟨-, hpeek, hmerge⟩
  · omega
  · rw [Rcv.recv, if_neg hne]
    dsimp only
    rw [hpeek, if_neg (by omega), if_neg (by omega), hmerge]
    exact ⟨rfl, rfl⟩

namespace Direction

variable {s r : End} {t : Transfer Fragment} {above : Nat}

theorem got_recv {taken left : List Message} {m : Message} (hmss : SegmentSize s.kcp.mss) (hwf : r.kcp.WellFormed)
    (h : Delivers s.kcp.mss s.kcp.snd.sndQueue s.sent taken (m :: left) r.kcp.rcv t)
    (hle : (fragments s.kcp.mss m).length ≤ r.kcp.rcv.rcvQueue.length) : (r.recv anyLen).got = r.got ++ [m.bytes] := by
  obtain ⟨hret, hdata⟩ := recv_takes hmss hwf.rcv h hle
  have hgot : (r.recv anyLen).got = if 0 ≤ (r.kcp.rcv.recv anyLen).1 ∧ 0 ≤ anyLen
      then r.got ++ [(r.kcp.rcv.recv anyLen).2.1] else r.got := rfl
  rw [hgot, hret, hdata, if_pos ⟨Int.natCast_nonneg _, by decide⟩]

/-- What is received without a gap is in the queue or taken: a segment that is next waits only while the
queue is full. -/
theorem next_waits (d : Direction s r t above) (hwf : r.kcp.WellFormed) (hhas : t.Has t.next) :
    r.kcp.rcv.rcvWnd.toNat ≤ r.kcp.rcv.rcvQueue.length := by
  have hearly : t.next ∈ t.early := hhas.resolve_left (Nat.lt_irrefl _)
  obtain ⟨seg, hseg, hsn⟩ := d.receiving.early.number t.next ⟨hearly, le_rfl⟩
  have hzero : ahead r.kcp.rcv.rcvNxt seg.sn = 0 := by
    rw [hsn, d.receiving.nxt, ahead_self]
  have hsorted := hwf.rcv.sorted
  obtain ⟨first, rest, hbuf⟩ := List.exists_cons_of_ne_nil (List.ne_nil_of_mem hseg)
  refine hwf.rcv.available first (by rw [hbuf]; rfl) ?_
  rw [hbuf] at hseg hsorted
  -- the first segment is not past this one
  rcases List.mem_cons.mp hseg with rfl | hrest
  · exact hsn.trans d.receiving.nxt.symm
  · have hlt := (List.pairwise_cons.mp hsorted).1 seg hrest
    omega

/-- Where all that waits is less than a window, everything received without a gap was next. -/
theorem next_free (d : Direction s r t above) (hwf : r.kcp.WellFormed)
    (hroom : r.kcp.rcv.rcvQueue.length < r.kcp.rcv.rcvWnd.toNat) : ¬ t.Has t.next := fun hhas =>
  absurd (d.next_waits hwf hhas) (Nat.not_le.mpr hroom)

/-- Messages are taken one by one until it is enough. -/
theorem take_until {conv : UInt64} (hmss : SegmentSize s.kcp.mss) (Enough : End → Prop) {t₀ : Transfer Fragment}
    (hmore : ∀ r t, t₀.Leads t → t.log = t₀.log → Direction s r t above → r.Good conv → ¬ Enough r →
      ∃ taken m left, Delivers s.kcp.mss s.kcp.snd.sndQueue s.sent taken (m :: left) r.kcp.rcv t ∧
        r.got = taken.map Message.bytes ∧ (fragments s.kcp.mss m).length ≤ r.kcp.rcv.rcvQueue.length)
    (d : Direction s r t above) (hgood : r.Good conv) (hleads : t₀.Leads t) (hlog : t.log = t₀.log) :
    ∃ n, Enough ((End.recv · anyLen)^[n] r) := by
  obtain ⟨k, hk⟩ : ∃ k, s.sent.length - r.got.length = k := ⟨_, rfl⟩
  induction k generalizing r t with
  | zero =>
    refine ⟨0, ?_⟩
    by_contra hno
    obtain ⟨taken, m, left, hd, hgot, -⟩ := hmore r t hleads hlog d hgood hno
    have hlen := congrArg List.length hd.split
    rw [hgot, List.length_map] at hk
    rw [List.length_append, List.length_cons] at hlen
    omega
  | succ k ih =>
    by_cases henough : Enough r
    · exact ⟨0, henough⟩
    · obtain ⟨taken, m, left, hd, hgot, hle⟩ := hmore r t hleads hlog d hgood henough
      obtain ⟨t', hleads', hlog', d'⟩ := d.recv hmss hgood.wellFormed hgood.rcvWnd_le anyLen
      have hone := got_recv hmss hgood.wellFormed hd hle
      obtain ⟨n, hn⟩ := ih d' (hgood.recv anyLen) (hleads.trans hleads') (hlog'.trans hlog) (by
        rw [hone, List.length_append, List.length_singleton]
        omega)
      exact ⟨n + 1, hn⟩

/-- Taking makes room. -/
theorem take_room {conv : UInt64} (hmss : SegmentSize s.kcp.mss) (d : Direction s r t above) (hgood : r.Good conv) :
    ∃ n, ((End.recv · anyLen)^[n] r).kcp.rcv.rcvQueue.length < 128 := by
  refine take_until hmss (fun r => r.kcp.rcv.rcvQueue.length < 128) (fun r t _ _ d hgood hfull => ?_) d hgood
    (Transfer.Leads.refl t) rfl
  obtain ⟨taken, left, hd, hgot⟩ := d.delivers
  cases left with
  | nil =>
    have hempty := List.map_eq_nil_iff.mp (List.prefix_nil.mp hd.waiting)
    rw [hempty] at hfull
    exact absurd (by decide) hfull
  | cons m left =>
    have hshort : (fragments s.kcp.mss m).length < 128 := by
      apply hd.short
      rw [hd.split]
      exact List.mem_append_right _ List.mem_cons_self
    exact ⟨taken, m, left, hd, hgot, by omega⟩

/-- What is received completely can be taken completely. -/
theorem take_all {conv : UInt64} (hmss : SegmentSize s.kcp.mss) (d : Direction s r t above) (hgood : r.Good conv)
    (hqueue : s.kcp.snd.sndQueue = []) (hall : ∀ i < t.log.length, t.Has i) :
    ∃ n, ((End.recv · anyLen)^[n] r).got = s.sent.map Message.bytes := by
  refine take_until hmss (fun r => r.got = s.sent.map Message.bytes) (fun r t' hleads hlog d hgood hmore => ?_) d
    hgood (Transfer.Leads.refl t) rfl
  obtain ⟨taken, left, hd, hgot⟩ := d.delivers
  cases left with
  | nil =>
    rw [hgot, hd.split, List.append_nil] at hmore
    exact absurd rfl hmore
  | cons m left =>
    have hshort : (fragments s.kcp.mss m).length < 128 := by
      apply hd.short
      rw [hd.split]
      exact List.mem_append_right _ List.mem_cons_self
    refine ⟨taken, m, left, hd, hgot, ?_⟩
    rcases Nat.lt_or_ge t'.next t'.log.length with hlt | hge
    · -- something is left to move, so the queue is full
      have hwaits := d.next_waits hgood.wellFormed (hleads.has _ (hall _ (hlog ▸ hlt)))
      have hge := hgood.rcvWnd_ge
      omega
    · have hframes := hd.frames
      rw [hqueue, List.map_nil, List.append_nil, hd.split, frames_append, frames_cons] at hframes
      have hreceived := hd.received
      rw [List.take_of_length_le hge, ← hframes] at hreceived
      have hlen := congrArg List.length (List.append_cancel_left hreceived)
      rw [List.length_append, List.length_map] at hlen
      omega

end Direction

/-- An end with no segment left has sent everything. -/
theorem Link.Invariant.all_taken {conv : UInt64} {l : Link} (hinv : l.Invariant conv)
    (hqueue : l.near.kcp.snd.sndQueue = []) (hbuf : l.near.kcp.snd.sndBuf = []) :
    ∃ n, ((End.recv · anyLen)^[n] l.far).got = l.near.sent.map Message.bytes := by
  obtain ⟨t, above, d⟩ := hinv.forth
  have hkept : t.kept = ∅ := by
    ext i
    refine iff_of_false (fun hi => ?_) (Set.notMem_empty i)
    obtain ⟨seg, hseg, -⟩ := d.sending.kept.number i hi
    rw [hbuf] at hseg
    cases hseg
  exact d.take_all hinv.near.wellFormed.good.mss hinv.far hqueue (d.sound.all_has hkept)

/-- Where nothing waits to be sent or to be acknowledged, everything sent can be taken at the other end. -/
theorem all_received {conv : UInt64} {c c' : Config} {l : Link} (h : Reaches (opened conv c c') l)
    (hfew : l.near.kcp.snd.sndQueue.length < 2 ^ 31) (hwait : ikcpWaitsnd l.near.kcp = 0) :
    ∃ n, ((End.recv · anyLen)^[n] l.far).got = l.near.sent.map Message.bytes := by
  have hinv := (opened_invariant conv c c').reaches h
  have hwf := hinv.near.wellFormed
  have hlen : l.near.kcp.snd.sndBuf.length + l.near.kcp.snd.sndQueue.length = 0 := by
    have hbuf := hwf.snd.buf_le
    have hwidth := hwf.snd.width
    have hsmall : l.near.kcp.sndWnd.toNat < 2 ^ 31 := hwf.good.sndWnd
    have hsum := congrArg UInt32.toNat hwait
    rw [ikcpWaitsnd, hwf.snd.que, add_ofNat_toNat hwf.snd.buf (by omega)] at hsum
    exact hsum
  exact hinv.all_taken (List.length_eq_zero_iff.mp (by omega)) (List.length_eq_zero_iff.mp (by omega))

/-- The acknowledgement arrives at the near end. -/
def acknowledgedOnce : Link := { takenOnce with near := takenOnce.near.input ackPacket.packet }

theorem reaches_acknowledgedOnce : Reaches (opened 7 (sessionConfig 100) (sessionConfig 100)) acknowledgedOnce :=
  reaches_takenOnce.tail (.near (.deliver takenOnce (by decide +kernel) (by decide +kernel) (by decide +kernel)))

theorem all_received_hello :
    acknowledgedOnce.near.sent = [hello] ∧
      ∃ n, ((End.recv · anyLen)^[n] acknowledgedOnce.far).got = acknowledgedOnce.near.sent.map Message.bytes :=
  ⟨by decide +kernel, all_received reaches_acknowledgedOnce (by decide +kernel) (by decide +kernel)⟩

end Yagips.Kcp
