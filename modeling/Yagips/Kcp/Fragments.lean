import Yagips.Kcp.Control

/-!
# Messages and their fragments

A message is cut into fragments that count down to 0, so that the first one tells how many there are.
What is merged behind whole messages is the next message, once all of it is there.
-/
namespace Yagips.Kcp

open Yagips.Lib

/-- What a segment carries of a message. -/
abbrev Fragment := UInt32 × Bytes

def IkcpSeg.fragment (seg : IkcpSeg) : Fragment := (seg.frg, seg.data)

/-- A message whose length is an `int`. -/
structure Message where
  bytes : Bytes
  fits : bytes.length < 2 ^ 31
  deriving DecidableEq

def cut (size : Nat) : Nat → Bytes → List Fragment
  | 0, _ => []
  | n + 1, buffer => (UInt32.ofNat n, buffer.take size) :: cut size n (buffer.drop size)

/-- A segment size that `ikcp_setmtu` sets, or that is there from the start. -/
structure SegmentSize (mss : UInt32) : Prop where
  pos : 0 < mss.toNat
  lt : mss.toNat < 2 ^ 31

def fragments (mss : UInt32) (m : Message) : List Fragment :=
  cut mss.toNat (fragmentCount mss m.bytes.length).toNat m.bytes

/-! ## Numbers read as an `int` -/

theorem asInt_eq {x : UInt32} (h : x.toNat < 2 ^ 31) : asInt x = x.toNat :=
  Serial.toInt_of_lt (w := 31) h

theorem ofNat_toInt {n : Nat} (h : n < 2 ^ 31) : (Int32.ofNat n).toInt = n := by
  have hmod : (BitVec.ofNat 32 n).toNat = n := by
    rw [BitVec.toNat_ofNat]
    exact Nat.mod_eq_of_lt (by omega)
  have hlt : (BitVec.ofNat 32 n).toNat < 2 ^ 31 := by omega
  have hint := Serial.toInt_of_lt (w := 31) hlt
  rw [hmod] at hint
  exact hint

variable {mss : UInt32}

/-- There are enough fragments, and at least one. -/
theorem fragmentCount_spec (h : SegmentSize mss) {len : Nat} (hlen : len < 2 ^ 31) :
    1 ≤ fragmentCount mss len ∧ len ≤ (fragmentCount mss len).toNat * mss.toNat := by
  have hpos := h.pos
  have hlt := h.lt
  rw [fragmentCount, asInt_eq hlt]
  by_cases hone : (len : Int) ≤ mss.toNat
  · rw [if_pos hone, if_neg (by decide)]
    refine ⟨le_rfl, ?_⟩
    show len ≤ 1 * mss.toNat
    omega
  · have hsum : (UInt32.ofNat len + mss - 1).toNat = len + mss.toNat - 1 := by
      have hofNat : (UInt32.ofNat len).toNat = len :=
        UInt32.toNat_ofNat_of_lt' (hlen.trans (by decide))
      have hadd : (UInt32.ofNat len + mss).toNat = len + mss.toNat := by
        rw [UInt32.toNat_add, hofNat]
        exact Nat.mod_eq_of_lt (by omega)
      have hle : (1 : UInt32) ≤ UInt32.ofNat len + mss := by
        rw [UInt32.le_iff_toNat_le, hadd]
        show 1 ≤ len + mss.toNat
        omega
      rw [UInt32.toNat_sub_of_le _ _ hle, hadd]
      rfl
    have hdiv : ((UInt32.ofNat len + mss - 1) / mss).toNat = (len + mss.toNat - 1) / mss.toNat := by
      rw [UInt32.toNat_div, hsum]
    have hquot : (len + mss.toNat - 1) / mss.toNat ≤ len := by
      apply Nat.div_le_of_le_mul
      obtain ⟨a, ha⟩ := Nat.exists_eq_succ_of_ne_zero hpos.ne'
      obtain ⟨b, rfl⟩ : ∃ b, len = b + 1 := ⟨len - 1, by omega⟩
      have hmul : (a + 1) * (b + 1) = a * b + a + b + 1 := by ring
      rw [ha, Nat.succ_eq_add_one, hmul]
      omega
    have hge : 1 ≤ (len + mss.toNat - 1) / mss.toNat := by
      rw [Nat.le_div_iff_mul_le hpos]
      omega
    have hbound : len ≤ (len + mss.toNat - 1) / mss.toNat * mss.toNat := by
      have hmod := Nat.mod_lt (len + mss.toNat - 1) hpos
      have hsplit := Nat.div_add_mod' (len + mss.toNat - 1) mss.toNat
      omega
    have hint : asInt ((UInt32.ofNat len + mss - 1) / mss) = ((len + mss.toNat - 1) / mss.toNat : Nat) := by
      rw [asInt_eq (by omega), hdiv]
    rw [if_neg hone, hint, if_neg (by omega)]
    exact ⟨by omega, by rw [Int.toNat_natCast]; exact hbound⟩

/-! ## Cutting -/

theorem cut_length (size n : Nat) (buffer : Bytes) : (cut size n buffer).length = n := by
  induction n generalizing buffer with
  | zero => rfl
  | succ n ih => rw [cut, List.length_cons, ih]

theorem cut_data_le {size n : Nat} {buffer : Bytes} {f : Fragment} (h : f ∈ cut size n buffer) :
    f.2.length ≤ size := by
  induction n generalizing buffer with
  | zero => cases h
  | succ n ih =>
    rcases List.mem_cons.mp h with rfl | h
    · exact List.length_take_le _ _
    · exact ih h

theorem cut_frg_lt {size n : Nat} {buffer : Bytes} {f : Fragment} (h : f ∈ cut size n buffer) :
    f.1.toNat < n := by
  induction n generalizing buffer with
  | zero => cases h
  | succ n ih =>
    rcases List.mem_cons.mp h with rfl | h
    · rw [UInt32.toNat_ofNat']
      exact Nat.lt_succ_of_le (Nat.mod_le _ _)
    · exact (ih h).trans (Nat.lt_succ_self n)

theorem ofNat_eq_zero_iff {n : Nat} (h : n < 2 ^ 32) : UInt32.ofNat n = 0 ↔ n = 0 := by
  rw [← UInt32.toNat_inj, UInt32.toNat_ofNat_of_lt' h]
  rfl

/-- Merging undoes cutting, whatever follows. -/
theorem mergeLoop_cut {size : Nat} {n : Nat} {buffer : Bytes} {segs : List IkcpSeg} {more : List Fragment}
    (hn : n + 1 < 2 ^ 32) (hfit : buffer.length ≤ (n + 1) * size)
    (h : segs.map IkcpSeg.fragment = cut size (n + 1) buffer ++ more) :
    mergeLoop segs = (buffer, n + 1) ∧ lengthLoop segs = buffer.length := by
  induction n generalizing buffer segs with
  | zero =>
    cases segs with
    | nil => cases h
    | cons seg segs =>
      obtain ⟨hseg, -⟩ := List.cons.inj h
      obtain ⟨hfrg, hdata⟩ := Prod.mk.inj hseg
      have hall : buffer.take size = buffer := List.take_of_length_le (by omega)
      have hzero : seg.frg = 0 := hfrg
      rw [mergeLoop, lengthLoop, if_pos hzero, if_pos hzero, hdata, hall]
      exact ⟨rfl, rfl⟩
  | succ n ih =>
    cases segs with
    | nil => cases h
    | cons seg segs =>
      obtain ⟨hseg, hrest⟩ := List.cons.inj h
      obtain ⟨hfrg, hdata⟩ := Prod.mk.inj hseg
      have hne : ¬ seg.frg = 0 := by
        rw [hfrg, ofNat_eq_zero_iff (by omega)]
        omega
      have hleft : (buffer.drop size).length ≤ (n + 1) * size := by
        rw [List.length_drop]
        have hmul : (n + 1 + 1) * size = (n + 1) * size + size := Nat.succ_mul _ _
        omega
      obtain ⟨hmerge, hlength⟩ := ih (by omega) hleft hrest
      rw [mergeLoop, lengthLoop, if_neg hne, if_neg hne, hmerge, hlength, hdata]
      refine ⟨Prod.ext (List.take_append_drop _ _) rfl, ?_⟩
      rw [← List.length_append, List.take_append_drop]

/-- The first fragment tells how many there are. -/
theorem cut_head {size n : Nat} {buffer : Bytes} {seg : IkcpSeg} {segs : List IkcpSeg} {more more' : List Fragment}
    (h : (seg :: segs).map IkcpSeg.fragment ++ more = cut size (n + 1) buffer ++ more') : seg.frg = UInt32.ofNat n :=
  congrArg Prod.fst (List.cons.inj h).1

/-- The fragments of messages one after the other. -/
def frames (mss : UInt32) (ms : List Message) : List Fragment := ms.flatMap (fragments mss)

theorem frames_append (mss : UInt32) (ms ms' : List Message) : frames mss (ms ++ ms') = frames mss ms ++ frames mss ms' :=
  List.flatMap_append

theorem frames_cons (mss : UInt32) (m : Message) (ms : List Message) :
    frames mss (m :: ms) = fragments mss m ++ frames mss ms := List.flatMap_cons

/-- A message that is sent has at least one fragment. -/
theorem fragments_length (h : SegmentSize mss) (m : Message) :
    ∃ n, (fragments mss m).length = n + 1 ∧ fragments mss m = cut mss.toNat (n + 1) m.bytes ∧
      m.bytes.length ≤ (n + 1) * mss.toNat := by
  obtain ⟨hone, hfit⟩ := fragmentCount_spec h m.fits
  obtain ⟨n, hn⟩ : ∃ n, (fragmentCount mss m.bytes.length).toNat = n + 1 :=
    ⟨(fragmentCount mss m.bytes.length).toNat - 1, by omega⟩
  rw [hn] at hfit
  refine ⟨n, ?_, ?_, hfit⟩
  · rw [fragments, cut_length, hn]
  · rw [fragments, hn]

/-- What is in the queue is the fragments of these messages, as far as they are there: the first message
is taken when all of it is there. -/
theorem peeksize_cases (h : SegmentSize mss) {r : Rcv} (hque : r.nrcvQue.toNat = r.rcvQueue.length)
    (hne : r.rcvQueue ≠ []) {m : Message} (hshort : (fragments mss m).length < 128) {rest : List Message}
    (hpre : r.rcvQueue.map IkcpSeg.fragment <+: frames mss (m :: rest)) :
    (r.rcvQueue.length < (fragments mss m).length ∧ ikcpPeeksize r = -1) ∨
    (fragments mss m).length ≤ r.rcvQueue.length ∧ ikcpPeeksize r = m.bytes.length ∧
      mergeLoop r.rcvQueue = (m.bytes, (fragments mss m).length) := by
  obtain ⟨n, hlen, hcut, hfit⟩ := fragments_length h m
  obtain ⟨more, hmore⟩ := hpre
  rw [frames_cons] at hmore
  obtain ⟨seg, segs, hqueue⟩ := List.exists_cons_of_ne_nil hne
  have hfrg : seg.frg = UInt32.ofNat n := by
    rw [hqueue, hcut] at hmore
    exact cut_head hmore
  have hfrg' : (seg.frg + 1).toNat = n + 1 := by
    rw [hfrg, UInt32.toNat_add, UInt32.toNat_ofNat_of_lt' (show n < 2 ^ 32 by omega)]
    exact Nat.mod_eq_of_lt (show n + 1 < 2 ^ 32 by omega)
  have hpeek : ikcpPeeksize r = if seg.frg = 0 then (seg.data.length : Int)
      else if r.nrcvQue < seg.frg + 1 then -1 else lengthLoop (seg :: segs) := by
    rw [ikcpPeeksize, hqueue]
  have hzero : seg.frg = 0 ↔ n = 0 := by
    rw [hfrg]
    exact ofNat_eq_zero_iff (by omega)
  have hwait : r.nrcvQue < seg.frg + 1 ↔ r.rcvQueue.length < n + 1 := by
    rw [UInt32.lt_iff_toNat_lt, hfrg', hque]
  have hpos : 1 ≤ r.rcvQueue.length := by
    rw [hqueue, List.length_cons]
    omega
  rw [hlen, hpeek]
  rcases Nat.lt_or_ge r.rcvQueue.length (n + 1) with hlt | hge
  · rw [if_neg (fun hfrg => by have := hzero.mp hfrg; omega), if_pos (hwait.mpr hlt)]
    exact .inl ⟨hlt, rfl⟩
  · have hall : r.rcvQueue.map IkcpSeg.fragment = cut mss.toNat (n + 1) m.bytes ++
        (r.rcvQueue.drop (n + 1)).map IkcpSeg.fragment := by
      have htake : (r.rcvQueue.map IkcpSeg.fragment).take (n + 1) = cut mss.toNat (n + 1) m.bytes := by
        have hfirst := congrArg (List.take (n + 1)) hmore
        rw [List.take_append_of_le_length (by rw [List.length_map]; omega), List.take_left' hlen, hcut] at hfirst
        exact hfirst
      rw [← htake, List.map_drop, List.take_append_drop]
    obtain ⟨hmerge, hlength⟩ := mergeLoop_cut (by omega) hfit hall
    refine .inr ⟨hge, ?_, hmerge⟩
    rw [hqueue, lengthLoop] at hlength
    split
    case isTrue hfirst =>
      rw [if_pos hfirst] at hlength
      rw [hlength]
    case isFalse hmany =>
      rw [if_neg (fun hlt => by have := hwait.mp hlt; omega), lengthLoop, if_neg hmany]
      rw [if_neg hmany] at hlength
      rw [hlength]

/-! ## What a call of `ikcp_send` queues -/

theorem fragmentLoop_spec (h : SegmentSize mss) (n : Nat) (buffer : Bytes) (s : Snd) :
    ∃ segs, segs.map IkcpSeg.fragment = cut mss.toNat n buffer ∧
      fragmentLoop mss 0 n buffer s = { s with
        sndQueue := s.sndQueue ++ segs, nsndQue := s.nsndQue + UInt32.ofNat n } := by
  induction n generalizing buffer s with
  | zero => exact ⟨[], rfl, by simp [fragmentLoop]⟩
  | succ n ih =>
    have hint := asInt_eq h.lt
    have hsize : (if asInt mss < buffer.length then (asInt mss).toNat else buffer.length) =
        min mss.toNat buffer.length := by
      rw [hint]
      split <;> omega
    have htake : buffer.take (min mss.toNat buffer.length) = buffer.take mss.toNat := by
      rw [List.take_eq_take_min, Nat.min_assoc, Nat.min_self, ← List.take_eq_take_min]
    have hdrop : buffer.drop (min mss.toNat buffer.length) = buffer.drop mss.toNat := by
      rcases Nat.le_total mss.toNat buffer.length with hle | hle
      · rw [Nat.min_eq_left hle]
      · rw [Nat.min_eq_right hle, List.drop_length, List.drop_of_length_le hle]
    obtain ⟨segs, hsegs, hloop⟩ := ih (buffer.drop mss.toNat)
      (s.push { frg := UInt32.ofNat n, data := buffer.take mss.toNat })
    refine ⟨{ frg := UInt32.ofNat n, data := buffer.take mss.toNat } :: segs, ?_, ?_⟩
    · rw [List.map_cons, hsegs]
      rfl
    · have hcount : s.nsndQue + 1 + UInt32.ofNat n = s.nsndQue + UInt32.ofNat (n + 1) := by
        rw [UInt32.ofNat_add, UInt32.add_comm (UInt32.ofNat n), UInt32.add_assoc]
        rfl
      rw [fragmentLoop, hsize, htake, hdrop]
      rw [if_pos rfl, hloop, Snd.push]
      dsimp only
      rw [hcount, List.append_assoc]
      rfl

/-- A message is queued whole, or refused for its length. -/
theorem send_cases (h : SegmentSize mss) (s : Snd) (m : Message) :
    (s.send mss 0 m.bytes = (-2, s) ∧ 128 ≤ (fragments mss m).length) ∨
    ∃ segs, segs.map IkcpSeg.fragment = fragments mss m ∧ segs.length < 128 ∧
      s.send mss 0 m.bytes = (0, { s with
        sndQueue := s.sndQueue ++ segs, nsndQue := s.nsndQue + UInt32.ofNat segs.length }) := by
  obtain ⟨hone, -⟩ := fragmentCount_spec h m.fits
  have hcount : (fragments mss m).length = (fragmentCount mss m.bytes.length).toNat := cut_length _ _ _
  have hwnd : asInt ikcpWndRcv = 128 := rfl
  have hsend : s.send mss 0 m.bytes =
      if fragmentCount mss m.bytes.length ≥ 128 then (-2, s)
      else (0, fragmentLoop mss 0 (fragmentCount mss m.bytes.length).toNat m.bytes s) := rfl
  rw [hsend]
  by_cases hlong : fragmentCount mss m.bytes.length ≥ 128
  · rw [if_pos hlong]
    exact .inl ⟨rfl, by omega⟩
  · rw [if_neg hlong]
    obtain ⟨segs, hsegs, hloop⟩ := fragmentLoop_spec h (fragmentCount mss m.bytes.length).toNat m.bytes s
    have hsame : segs.length = (fragmentCount mss m.bytes.length).toNat := by
      have hlen := congrArg List.length hsegs
      rw [List.length_map] at hlen
      exact hlen.trans hcount
    refine .inr ⟨segs, hsegs, by omega, ?_⟩
    rw [hloop, hsame]

theorem ikcpSend_eq (kcp : Ikcpcb) (m : Message) :
    ikcpSend kcp m.bytes = ((kcp.snd.send kcp.mss kcp.stream m.bytes).1,
      kcp.setSnd (kcp.snd.send kcp.mss kcp.stream m.bytes).2) := by
  have htake : m.bytes.take (m.bytes.length : Int).toNat = m.bytes := by
    rw [Int.toNat_natCast, List.take_length]
  rw [ikcpSend, ofNat_toInt m.fits, if_neg (by omega), htake]

end Yagips.Kcp
