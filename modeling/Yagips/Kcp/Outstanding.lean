import Yagips.Kcp.Queues

/-!
# Outstanding segments

The segments that are sent and not acknowledged lie between `snd_una` and `snd_nxt`, in order, and
`snd_una` is the number of the first of them. Acknowledgements only take some of them out, and a flush
only adds the next numbers at the end, as far as the window goes.
-/
namespace Yagips.Kcp

open Yagips.Lib

/-- What of a segment stays as it is once it has a number. -/
structure Body where
  conv : UInt64
  cmd : UInt32
  sn : UInt32
  frg : UInt32
  data : Bytes

def IkcpSeg.body (seg : IkcpSeg) : Body where
  conv := seg.conv
  cmd := seg.cmd
  sn := seg.sn
  frg := seg.frg
  data := seg.data

structure Snd.Ordered (wnd : Nat) (s : Snd) : Prop where
  width : ahead s.sndUna s.sndNxt ≤ wnd
  que : s.nsndQue = UInt32.ofNat s.sndQueue.length
  buf : s.nsndBuf.toNat = s.sndBuf.length
  below : ∀ seg ∈ s.sndBuf, ahead s.sndUna seg.sn < ahead s.sndUna s.sndNxt
  sorted : Sorted s.sndUna s.sndBuf

structure Snd.WellFormed (wnd : Nat) (s : Snd) : Prop extends s.Ordered wnd where
  front : s.sndUna = (s.sndBuf.head?.map IkcpSeg.sn).getD s.sndNxt

variable {wnd : Nat} {s : Snd}

theorem Snd.Ordered.buf_le (h : s.Ordered wnd) : s.sndBuf.length ≤ ahead s.sndUna s.sndNxt :=
  h.sorted.length_le h.below

/-- What the first segment, or the next number, is in front of. -/
theorem shrinkBuf_eq (s : Snd) :
    ikcpShrinkBuf s = { s with sndUna := (s.sndBuf.head?.map IkcpSeg.sn).getD s.sndNxt } := by
  rw [ikcpShrinkBuf]
  split
  case h_1 seg rest hbuf => rw [hbuf]; rfl
  case h_2 hbuf => rw [hbuf]; rfl

/-- Nothing is before the number that `ikcp_shrink_buf` sets. -/
theorem Snd.Ordered.front_le (h : s.Ordered wnd) :
    ahead s.sndUna ((s.sndBuf.head?.map IkcpSeg.sn).getD s.sndNxt) ≤ ahead s.sndUna s.sndNxt ∧
    ∀ seg ∈ s.sndBuf, ahead s.sndUna ((s.sndBuf.head?.map IkcpSeg.sn).getD s.sndNxt) ≤ ahead s.sndUna seg.sn := by
  have hbelow := h.below
  have hsorted := h.sorted
  cases hbuf : s.sndBuf with
  | nil => exact ⟨le_rfl, by simp⟩
  | cons seg rest =>
    rw [hbuf] at hbelow hsorted
    refine ⟨(hbelow seg List.mem_cons_self).le, fun seg' hseg' => ?_⟩
    rcases List.mem_cons.mp hseg' with rfl | hseg'
    · exact le_rfl
    · exact ((List.pairwise_cons.mp hsorted).1 seg' hseg').le

theorem Snd.Ordered.shrink (h : s.Ordered wnd) : (ikcpShrinkBuf s).WellFormed wnd := by
  obtain ⟨hnxt, hall⟩ := h.front_le
  rw [shrinkBuf_eq]
  refine ⟨⟨?_, h.que, h.buf, fun seg hseg => ?_, h.sorted.rebase hall⟩, rfl⟩
  · rw [ahead_of_le hnxt]
    exact (Nat.sub_le _ _).trans h.width
  · have hlt := h.below seg hseg
    have hle := hall seg hseg
    rw [ahead_of_le hnxt, ahead_of_le hle]
    omega

/-- Some of the segments, with the counter for them. -/
theorem Snd.Ordered.sublist (h : s.Ordered wnd) {buf : List IkcpSeg} (hsub : buf.Sublist s.sndBuf)
    {n : UInt32} (hn : n.toNat = buf.length) : Snd.Ordered wnd { s with sndBuf := buf, nsndBuf := n } :=
  ⟨h.width, h.que, hn, fun seg hseg => h.below seg (hsub.subset hseg), h.sorted.sublist hsub⟩

/-! ## Acknowledgements -/

theorem unaLoop_spec (una : UInt32) (buf : List IkcpSeg) (s : Snd) :
    ∃ gone rest, buf = gone ++ rest ∧ (∀ seg ∈ gone, 0 < itimediff una seg.sn) ∧
      unaLoop una buf s = { s with sndBuf := rest, nsndBuf := s.nsndBuf - UInt32.ofNat gone.length } := by
  induction buf generalizing s with
  | nil => exact ⟨[], [], rfl, by simp, by simp [unaLoop]⟩
  | cons seg buf ih =>
    rw [unaLoop]
    split
    case isTrue hpast =>
      obtain ⟨gone, rest, hsplit, hgone, heq⟩ := ih { s with nsndBuf := s.nsndBuf - 1 }
      refine ⟨seg :: gone, rest, by rw [hsplit, List.cons_append], ?_, ?_⟩
      · intro seg' hseg'
        rcases List.mem_cons.mp hseg' with rfl | hseg'
        · exact hpast
        · exact hgone seg' hseg'
      · rw [heq, List.length_cons, sub_ofNat_succ]
    case isFalse => exact ⟨[], seg :: buf, rfl, by simp, by simp⟩

theorem ackLoop_spec (sn : UInt32) (buf : List IkcpSeg) :
    ackLoop sn buf = (buf, false) ∨
    ∃ before seg after, buf = before ++ seg :: after ∧ seg.sn = sn ∧ ackLoop sn buf = (before ++ after, true) := by
  induction buf with
  | nil => exact .inl rfl
  | cons seg buf ih =>
    rw [ackLoop]
    split_ifs with heq hbefore
    · exact .inr ⟨[], seg, buf, rfl, heq.symm, rfl⟩
    · exact .inl rfl
    · rcases ih with hsame | ⟨before, seg', after, hsplit, hsn, hrest⟩
      · rw [hsame]
        exact .inl rfl
      · rw [hrest]
        exact .inr ⟨seg :: before, seg', after, by rw [hsplit, List.cons_append], hsn, rfl⟩

theorem fastackLoop_body (sn : UInt32) (buf : List IkcpSeg) :
    (fastackLoop sn buf).map IkcpSeg.body = buf.map IkcpSeg.body := by
  induction buf with
  | nil => rfl
  | cons seg buf ih =>
    rw [fastackLoop]
    split_ifs
    · rfl
    · rw [List.map_cons, List.map_cons, ih]
      rfl
    · rw [List.map_cons, List.map_cons, ih]

/-- What an acknowledgement takes out: a segment that it is about, or segments before the number that
all are received below. -/
structure Takes (s s' : Snd) (gone : IkcpSeg → Prop) : Prop where
  same : s' = { s with sndBuf := s'.sndBuf, nsndBuf := s'.nsndBuf }
  sublist : s'.sndBuf.Sublist s.sndBuf
  gone : ∀ seg ∈ s.sndBuf, seg ∈ s'.sndBuf ∨ gone seg
  count : s'.nsndBuf.toNat = s'.sndBuf.length

theorem parseUna_takes (h : s.Ordered wnd) (una : UInt32) :
    Takes s (ikcpParseUna s una) fun seg => 0 < itimediff una seg.sn := by
  obtain ⟨gone, rest, hsplit, hgone, heq⟩ := unaLoop_spec una s.sndBuf s
  have hlen : s.sndBuf.length = gone.length + rest.length := by rw [hsplit, List.length_append]
  rw [ikcpParseUna, heq]
  refine ⟨rfl, ?_, fun seg hseg => ?_, ?_⟩
  · rw [hsplit]
    exact List.sublist_append_right gone rest
  · rw [hsplit] at hseg
    rcases List.mem_append.mp hseg with hmem | hmem
    · exact .inr (hgone seg hmem)
    · exact .inl hmem
  · show (s.nsndBuf - UInt32.ofNat gone.length).toNat = rest.length
    rw [sub_ofNat_toNat h.buf (by omega)]
    omega

theorem parseAck_takes (h : s.Ordered wnd) (sn : UInt32) : Takes s (ikcpParseAck s sn) fun seg => seg.sn = sn := by
  rw [ikcpParseAck]
  split
  case isTrue => exact ⟨rfl, List.Sublist.refl _, fun seg hseg => .inl hseg, h.buf⟩
  case isFalse =>
    rcases ackLoop_spec sn s.sndBuf with hsame | ⟨before, seg, after, hsplit, hsn, hrest⟩
    · rw [hsame]
      exact ⟨rfl, List.Sublist.refl _, fun seg hseg => .inl hseg, h.buf⟩
    · have hlen : s.sndBuf.length = before.length + after.length + 1 := by
        rw [hsplit, List.length_append, List.length_cons]
        omega
      rw [hrest]
      refine ⟨rfl, ?_, fun seg' hseg' => ?_, ?_⟩
      · rw [hsplit]
        exact List.Sublist.append_left (List.sublist_cons_self seg after) before
      · rw [hsplit] at hseg'
        rcases List.mem_append.mp hseg' with hmem | hmem
        · exact .inl (List.mem_append_left _ hmem)
        · rcases List.mem_cons.mp hmem with rfl | hmem
          · exact .inr hsn
          · exact .inl (List.mem_append_right _ hmem)
      · show (s.nsndBuf - UInt32.ofNat 1).toNat = (before ++ after).length
        rw [sub_ofNat_toNat h.buf (by omega), List.length_append]
        omega

theorem Takes.ordered {s' : Snd} {gone : IkcpSeg → Prop} (ht : Takes s s' gone) (h : s.Ordered wnd) :
    s'.Ordered wnd := by
  rw [ht.same]
  exact h.sublist ht.sublist ht.count

/-! ## Segments with the same bodies -/

theorem Sorted.of_body {base : UInt32} {buf buf' : List IkcpSeg} (h : Sorted base buf)
    (hbody : buf'.map IkcpSeg.body = buf.map IkcpSeg.body) : Sorted base buf' := by
  have hmap : (buf.map IkcpSeg.body).Pairwise fun a b => ahead base a.sn < ahead base b.sn :=
    List.pairwise_map.mpr h
  rw [← hbody, List.pairwise_map] at hmap
  exact hmap

theorem exists_body {buf buf' : List IkcpSeg} (hbody : buf'.map IkcpSeg.body = buf.map IkcpSeg.body)
    {seg : IkcpSeg} (hseg : seg ∈ buf') : ∃ seg' ∈ buf, seg'.body = seg.body := by
  have hmem := List.mem_map_of_mem (f := IkcpSeg.body) hseg
  rw [hbody] at hmem
  exact List.mem_map.mp hmem

theorem head_body {buf buf' : List IkcpSeg} (hbody : buf'.map IkcpSeg.body = buf.map IkcpSeg.body) :
    buf'.head?.map IkcpSeg.sn = buf.head?.map IkcpSeg.sn := by
  have hhead := congrArg (fun l => l.head?.map Body.sn) hbody
  simp only [List.head?_map, Option.map_map] at hhead
  exact hhead

theorem Snd.WellFormed.body (h : s.WellFormed wnd) {buf : List IkcpSeg}
    (hbody : buf.map IkcpSeg.body = s.sndBuf.map IkcpSeg.body) : Snd.WellFormed wnd { s with sndBuf := buf } := by
  have hlen := congrArg List.length hbody
  rw [List.length_map, List.length_map] at hlen
  refine ⟨⟨h.width, h.que, h.buf.trans hlen.symm, fun seg hseg => ?_, h.sorted.of_body hbody⟩, ?_⟩
  · obtain ⟨seg', hseg', heq⟩ := exists_body hbody hseg
    have hsn : seg'.sn = seg.sn := congrArg Body.sn heq
    have hlt := h.below seg' hseg'
    rwa [hsn] at hlt
  · rw [head_body hbody]
    exact h.front

theorem Snd.WellFormed.parseFastack (h : s.WellFormed wnd) (sn : UInt32) :
    (ikcpParseFastack s sn).WellFormed wnd := by
  rw [ikcpParseFastack]
  split
  case isTrue => exact h
  case isFalse => exact h.body (fastackLoop_body sn s.sndBuf)

/-! ## New numbers -/

/-- A segment of the queue with the next number. -/
def numberedSeg (kcp : Ikcpcb) (wnd : UInt32) (sn : UInt32) (seg : IkcpSeg) : IkcpSeg :=
  { seg with
    conv := kcp.conv, cmd := ikcpCmdPush, wnd, ts := kcp.current, sn, una := kcp.rcv.rcvNxt
    resendts := kcp.current, rto := kcp.rxRto.toUInt32, fastack := 0, xmit := 0 }

def numberFrom (kcp : Ikcpcb) (wnd : UInt32) : UInt32 → List IkcpSeg → List IkcpSeg
  | _, [] => []
  | sn, seg :: segs => numberedSeg kcp wnd sn seg :: numberFrom kcp wnd (sn + 1) segs

@[simp] theorem numberFrom_length (kcp : Ikcpcb) (wnd sn : UInt32) (segs : List IkcpSeg) :
    (numberFrom kcp wnd sn segs).length = segs.length := by
  induction segs generalizing sn with
  | nil => rfl
  | cons seg segs ih => rw [numberFrom, List.length_cons, List.length_cons, ih]

theorem numberFrom_getElem? (kcp : Ikcpcb) (wnd sn : UInt32) (segs : List IkcpSeg) (j : Nat) :
    (numberFrom kcp wnd sn segs)[j]? = segs[j]?.map (numberedSeg kcp wnd (sn + UInt32.ofNat j)) := by
  induction segs generalizing sn j with
  | nil => rfl
  | cons seg segs ih =>
    rw [numberFrom]
    cases j with
    | zero =>
      have hzero : sn + UInt32.ofNat 0 = sn := UInt32.add_zero sn
      rw [hzero]
      rfl
    | succ j =>
      rw [List.getElem?_cons_succ, List.getElem?_cons_succ, ih, add_ofNat_succ]

/-- What a flush adds to the outstanding segments, and what it leaves in the queue. -/
structure Fills (s : Snd) (cwnd : UInt32) (queue added rest : List IkcpSeg) : Prop where
  split : queue = added ++ rest
  window : ∀ j < added.length, itimediff (s.sndNxt + UInt32.ofNat j) (s.sndUna + cwnd) < 0
  stops : rest = [] ∨ 0 ≤ itimediff (s.sndNxt + UInt32.ofNat added.length) (s.sndUna + cwnd)

def Snd.filled (kcp : Ikcpcb) (wnd : UInt32) (s : Snd) (added rest : List IkcpSeg) : Snd :=
  { s with
    sndQueue := rest
    sndBuf := s.sndBuf ++ numberFrom kcp wnd s.sndNxt added
    nsndQue := s.nsndQue - UInt32.ofNat added.length
    nsndBuf := s.nsndBuf + UInt32.ofNat added.length
    sndNxt := s.sndNxt + UInt32.ofNat added.length }

theorem fillLoop_spec (kcp : Ikcpcb) (cwnd wnd : UInt32) (queue : List IkcpSeg) (s : Snd) :
    ∃ added rest, Fills s cwnd queue added rest ∧ fillLoop kcp cwnd wnd queue s = s.filled kcp wnd added rest := by
  have hzero : ∀ x : UInt32, x + UInt32.ofNat 0 = x := UInt32.add_zero
  have hzero' : ∀ x : UInt32, x - UInt32.ofNat 0 = x := UInt32.sub_zero
  induction queue generalizing s with
  | nil =>
    refine ⟨[], [], ⟨rfl, by simp, .inl rfl⟩, ?_⟩
    rw [fillLoop, Snd.filled, List.length_nil, hzero, hzero, hzero', numberFrom, List.append_nil]
  | cons seg queue ih =>
    rw [fillLoop]
    split
    case isTrue hroom =>
      obtain ⟨added, rest, hf, heq⟩ := ih { s with
        sndBuf := s.sndBuf ++ [numberedSeg kcp wnd s.sndNxt seg], nsndQue := s.nsndQue - 1
        nsndBuf := s.nsndBuf + 1, sndNxt := s.sndNxt + 1 }
      refine ⟨seg :: added, rest, ⟨by rw [hf.split, List.cons_append], ?_, ?_⟩, ?_⟩
      · intro j hj
        cases j with
        | zero => rwa [hzero]
        | succ j =>
          rw [add_ofNat_succ]
          exact hf.window j (Nat.lt_of_succ_lt_succ hj)
      · rw [List.length_cons, add_ofNat_succ]
        exact hf.stops
      · refine heq.trans ?_
        rw [Snd.filled, Snd.filled, List.length_cons, add_ofNat_succ, add_ofNat_succ, sub_ofNat_succ, numberFrom]
        simp only [List.append_assoc, List.singleton_append]
    case isFalse hfull =>
      refine ⟨[], seg :: queue, ⟨rfl, by simp, .inr ?_⟩, ?_⟩
      · rw [List.length_nil, hzero]
        omega
      · rw [Snd.filled, List.length_nil, hzero, hzero, hzero', numberFrom, List.append_nil]

/-- The window is not passed. -/
theorem Fills.width {cwnd : UInt32} {queue added rest : List IkcpSeg} (hf : Fills s cwnd queue added rest)
    (h : s.Ordered wnd) (hwnd : wnd < 2 ^ 31) (hcwnd : cwnd.toNat ≤ wnd) :
    ahead s.sndUna s.sndNxt + added.length ≤ wnd := by
  have hwidth := h.width
  have hend := ahead_add_toNat s.sndUna cwnd
  have hstep : ∀ k ≤ added.length, ahead s.sndUna s.sndNxt + k ≤ wnd := by
    intro k hk
    induction k with
    | zero => exact hwidth
    | succ k ih =>
      have hle := ih (by omega)
      have hnext : ahead s.sndUna (s.sndNxt + UInt32.ofNat k) = ahead s.sndUna s.sndNxt + k :=
        ahead_add_of_lt (by omega)
      have hlt := hf.window k (by omega)
      rw [itimediff_eq s.sndUna (by omega) (by omega), hnext, hend] at hlt
      omega
  exact hstep added.length le_rfl

/-- The new segments have the numbers from `snd_nxt` on. -/
theorem numberFrom_mem {kcp : Ikcpcb} {w : UInt32} {sn : UInt32} {added : List IkcpSeg} {seg : IkcpSeg}
    (h : seg ∈ numberFrom kcp w sn added) :
    ∃ j q, added[j]? = some q ∧ seg = numberedSeg kcp w (sn + UInt32.ofNat j) q := by
  obtain ⟨j, hj⟩ := List.mem_iff_getElem?.mp h
  rw [numberFrom_getElem?] at hj
  obtain ⟨q, hq, heq⟩ := Option.map_eq_some_iff.mp hj
  exact ⟨j, q, hq, heq.symm⟩

theorem numberFrom_sorted {kcp : Ikcpcb} {w base sn : UInt32} {added : List IkcpSeg}
    (h : ahead base sn + added.length < 2 ^ 32) : Sorted base (numberFrom kcp w sn added) := by
  induction added generalizing sn with
  | nil => exact List.Pairwise.nil
  | cons seg added ih =>
    rw [List.length_cons] at h
    have hnext : ahead base (sn + 1) = ahead base sn + 1 := ahead_add_of_lt (n := 1) (by omega)
    rw [numberFrom]
    refine List.pairwise_cons.mpr ⟨fun seg' hseg' => ?_, ih (by omega)⟩
    obtain ⟨j, q, hq, rfl⟩ := numberFrom_mem hseg'
    have hj := (List.getElem?_eq_some_iff.mp hq).1
    show ahead base sn < ahead base (sn + 1 + UInt32.ofNat j)
    rw [ahead_add_of_lt (by omega), hnext]
    omega

theorem Snd.WellFormed.filled (h : s.WellFormed wnd) (hwnd : wnd < 2 ^ 31) {kcp : Ikcpcb} {w cwnd : UInt32}
    (hcwnd : cwnd.toNat ≤ wnd) {added rest : List IkcpSeg} (hf : Fills s cwnd s.sndQueue added rest) :
    (s.filled kcp w added rest).WellFormed wnd := by
  have hwidth := hf.width h.toOrdered hwnd hcwnd
  have hnxt : ahead s.sndUna (s.sndNxt + UInt32.ofNat added.length) = ahead s.sndUna s.sndNxt + added.length :=
    ahead_add_of_lt (by omega)
  have hbuf := h.buf_le
  constructor
  · constructor
    · rw [Snd.filled, hnxt]
      exact hwidth
    · rw [Snd.filled, h.que, hf.split, List.length_append, Nat.add_comm, UInt32.ofNat_add]
      exact UInt32.add_sub_cancel _ _
    · rw [Snd.filled, add_ofNat_toNat h.buf (by omega), List.length_append, numberFrom_length]
    · intro seg hseg
      show ahead s.sndUna seg.sn < ahead s.sndUna (s.sndNxt + UInt32.ofNat added.length)
      rw [hnxt]
      rcases List.mem_append.mp hseg with hold | hnew
      · exact Nat.lt_add_right _ (h.below seg hold)
      · obtain ⟨j, q, hq, rfl⟩ := numberFrom_mem hnew
        have hj := (List.getElem?_eq_some_iff.mp hq).1
        show ahead s.sndUna (s.sndNxt + UInt32.ofNat j) < _
        rw [ahead_add_of_lt (by omega)]
        omega
    · have hnew : Sorted s.sndUna (numberFrom kcp w s.sndNxt added) := numberFrom_sorted (by omega)
      refine List.pairwise_append.mpr ⟨h.sorted, hnew, fun a ha b hb => ?_⟩
      obtain ⟨j, q, hq, rfl⟩ := numberFrom_mem hb
      have hj := (List.getElem?_eq_some_iff.mp hq).1
      have hlt := h.below a ha
      show ahead s.sndUna a.sn < ahead s.sndUna (s.sndNxt + UInt32.ofNat j)
      rw [ahead_add_of_lt (by omega)]
      omega
  · have hfront := h.front
    rw [Snd.filled]
    dsimp only
    cases hold : s.sndBuf with
    | cons seg buf =>
      rw [hold] at hfront
      exact hfront
    | nil =>
      rw [hold] at hfront
      cases added with
      | nil =>
        rw [hfront]
        exact (UInt32.add_zero _).symm
      | cons q added => exact hfront

theorem flushSeg_body (kcp : Ikcpcb) (w : UInt32) (segment : IkcpSeg) (p : Pass) :
    (flushSeg kcp w segment p).1.body = segment.body := by
  rw [flushSeg]
  cases dueOf kcp segment <;> rfl

theorem flushSegs_body (kcp : Ikcpcb) (w : UInt32) (buf : List IkcpSeg) (p : Pass) :
    (flushSegs kcp w buf p).1.map IkcpSeg.body = buf.map IkcpSeg.body := by
  induction buf generalizing p with
  | nil => rfl
  | cons seg buf ih =>
    rw [flushSegs, List.map_cons, List.map_cons, ← ih (flushSeg kcp w seg p).2, ← flushSeg_body kcp w seg p]

theorem Snd.WellFormed.push (h : s.WellFormed wnd) (segs : List IkcpSeg) :
    Snd.WellFormed wnd { s with
      sndQueue := s.sndQueue ++ segs, nsndQue := s.nsndQue + UInt32.ofNat segs.length } := by
  refine ⟨⟨h.width, ?_, h.buf, h.below, h.sorted⟩, h.front⟩
  show s.nsndQue + UInt32.ofNat segs.length = UInt32.ofNat (s.sndQueue ++ segs).length
  rw [h.que, List.length_append, UInt32.ofNat_add]

end Yagips.Kcp
