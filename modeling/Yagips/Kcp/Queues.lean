import Yagips.Kcp.Flush

/-!
# The four queues

Whatever comes in, the counters tell how long the queues are, the early segments are in the window
and in order, and the segments to be acknowledged are between `snd_una` and `snd_nxt`, in order.
-/
namespace Yagips.Kcp

open Yagips.Lib

/-! ## Numbers past a base -/

/-- How far a number is past another, going up. -/
def ahead (base x : UInt32) : Nat := (x - base).toNat

variable {base x y : UInt32}

theorem itimediff_eq (base : UInt32) {x y : UInt32} (hx : ahead base x < 2 ^ 31) (hy : ahead base y < 2 ^ 31) :
    itimediff x y = (ahead base x : Int) - ahead base y :=
  Serial.diff_eq_offset (w := 31) hx hy

theorem ahead_self (base : UInt32) : ahead base base = 0 := Serial.offset_self (w := 31) base.toBitVec

theorem ahead_inj : ahead base x = ahead base y ↔ x = y :=
  (Serial.offset_inj (w := 31)).trans UInt32.toBitVec_inj

theorem ahead_of_le (h : ahead base x ≤ ahead base y) : ahead x y = ahead base y - ahead base x :=
  Serial.offset_of_le (w := 31) h

theorem ahead_add (base : UInt32) {n : Nat} (h : n < 2 ^ 32) : ahead base (base + UInt32.ofNat n) = n :=
  Serial.offset_add (w := 31) base.toBitVec h

theorem ahead_add_toNat (base wnd : UInt32) : ahead base (base + wnd) = wnd.toNat := by
  have h := ahead_add base wnd.toNat_lt
  rwa [UInt32.ofNat_toNat] at h

theorem eq_add_ahead (base x : UInt32) : x = base + UInt32.ofNat (ahead base x) := by
  have hadd := ahead_add base (x - base).toNat_lt
  exact ahead_inj.mp hadd.symm

theorem ahead_add_of_lt {n : Nat} (h : ahead base x + n < 2 ^ 32) :
    ahead base (x + UInt32.ofNat n) = ahead base x + n := by
  have hsum : x + UInt32.ofNat n = base + UInt32.ofNat (ahead base x + n) := by
    rw [UInt32.ofNat_add, ← UInt32.add_assoc, ← eq_add_ahead base x]
  rw [hsum, ahead_add _ h]

theorem outside_iff (base x : UInt32) {wnd : UInt32} (h : wnd.toNat < 2 ^ 31) :
    itimediff x (base + wnd) ≥ 0 ∨ itimediff x base < 0 ↔ wnd.toNat ≤ ahead base x := by
  have hiff := Serial.outside_iff (w := 31) base.toBitVec x.toBitVec h
  have hwnd : BitVec.ofNat (31 + 1) wnd.toNat = wnd.toBitVec := congrArg UInt32.toBitVec UInt32.ofNat_toNat
  rw [hwnd] at hiff
  exact hiff

/-! Segments are counted without end; their numbers start over. -/

theorem itimediff_ofNat {a b : Nat} (hab : a < b + 2 ^ 31) (hba : b ≤ a + 2 ^ 31) :
    itimediff (UInt32.ofNat a) (UInt32.ofNat b) = (a : Int) - b := Serial.diff_ofNat (w := 31) hab hba

theorem ofNat_inj {a b : Nat} (hab : a < b + 2 ^ 32) (hba : b < a + 2 ^ 32) (h : UInt32.ofNat a = UInt32.ofNat b) :
    a = b := (Serial.ofNat_inj (w := 31) hab hba).mp (congrArg UInt32.toBitVec h)

theorem ahead_ofNat {a b : Nat} (hab : a ≤ b) (hba : b < a + 2 ^ 32) :
    ahead (UInt32.ofNat a) (UInt32.ofNat b) = b - a := by
  have hsum : UInt32.ofNat b = UInt32.ofNat a + UInt32.ofNat (b - a) := by
    rw [← UInt32.ofNat_add, Nat.add_sub_cancel' hab]
  rw [hsum, ahead_add _ (by omega)]

/-- In the order of their numbers, counted from a base. -/
def Sorted (base : UInt32) (l : List IkcpSeg) : Prop :=
  l.Pairwise fun a b => ahead base a.sn < ahead base b.sn

theorem Sorted.length_le {l : List IkcpSeg} (h : Sorted base l) {n : Nat}
    (hn : ∀ seg ∈ l, ahead base seg.sn < n) : l.length ≤ n := by
  have hnodup : (l.map fun seg => ahead base seg.sn).Nodup := List.Pairwise.map _ (fun _ _ hlt => hlt.ne) h
  have hsub : (l.map fun seg => ahead base seg.sn) ⊆ List.range n := by
    intro k hk
    obtain ⟨seg, hseg, rfl⟩ := List.mem_map.mp hk
    exact List.mem_range.mpr (hn seg hseg)
  have hle := (hnodup.subperm hsub).length_le
  rwa [List.length_map, List.length_range] at hle

/-- Counted from a later base, the order is the same. -/
theorem Sorted.rebase {l : List IkcpSeg} (h : Sorted base l) (hle : ∀ seg ∈ l, ahead base x ≤ ahead base seg.sn) :
    Sorted x l := by
  refine h.imp_of_mem fun ha hb hlt => ?_
  rw [ahead_of_le (hle _ ha), ahead_of_le (hle _ hb)]
  have hx := hle _ ha
  omega

/-! ## What is received -/

structure Rcv.Ordered (r : Rcv) : Prop where
  wnd : r.rcvWnd.toNat < 2 ^ 31
  que : r.nrcvQue.toNat = r.rcvQueue.length
  room : r.rcvQueue.length ≤ r.rcvWnd.toNat
  buf : r.nrcvBuf.toNat = r.rcvBuf.length
  window : ∀ seg ∈ r.rcvBuf, ahead r.rcvNxt seg.sn < r.rcvWnd.toNat
  sorted : Sorted r.rcvNxt r.rcvBuf
  acks : r.acklist.length ≤ r.ackblock

/-- A segment that is next is only early where the queue is full. -/
structure Rcv.WellFormed (r : Rcv) : Prop extends r.Ordered where
  available : ∀ seg ∈ r.rcvBuf.head?, seg.sn = r.rcvNxt → r.rcvWnd.toNat ≤ r.rcvQueue.length

/-- What moving some segments makes of it. -/
def Rcv.moved (r : Rcv) (moved rest : List IkcpSeg) : Rcv :=
  { r with
    rcvBuf := rest
    nrcvBuf := r.nrcvBuf - UInt32.ofNat moved.length
    rcvQueue := r.rcvQueue ++ moved
    nrcvQue := r.nrcvQue + UInt32.ofNat moved.length
    rcvNxt := r.rcvNxt + UInt32.ofNat moved.length }

/-- Segments with the next numbers move, up to a gap or until the queue is full. -/
structure Moves (r : Rcv) (buf moved rest : List IkcpSeg) : Prop where
  split : buf = moved ++ rest
  consecutive : ∀ j seg, moved[j]? = some seg → seg.sn = r.rcvNxt + UInt32.ofNat j
  stops : ∀ seg ∈ rest.head?, seg.sn = r.rcvNxt + UInt32.ofNat moved.length →
    r.rcvWnd ≤ r.nrcvQue + UInt32.ofNat moved.length
  fits : ∀ j < moved.length, r.nrcvQue + UInt32.ofNat j < r.rcvWnd

theorem add_ofNat_succ (x : UInt32) (n : Nat) : x + UInt32.ofNat (n + 1) = x + 1 + UInt32.ofNat n := by
  rw [UInt32.ofNat_add, UInt32.add_comm (UInt32.ofNat n), UInt32.add_assoc]
  rfl

theorem sub_ofNat_succ (x : UInt32) (n : Nat) : x - UInt32.ofNat (n + 1) = x - 1 - UInt32.ofNat n := by
  rw [UInt32.ofNat_add, UInt32.add_comm (UInt32.ofNat n)]
  exact UInt32.toBitVec_inj.mp (sub_add_eq_sub_sub x.toBitVec 1 (UInt32.ofNat n).toBitVec)

theorem moveLoop_spec (buf : List IkcpSeg) (r : Rcv) :
    ∃ moved rest, Moves r buf moved rest ∧ moveLoop buf r = r.moved moved rest := by
  induction buf generalizing r with
  | nil =>
    refine ⟨[], [], ⟨rfl, by simp, by simp, by simp⟩, ?_⟩
    rw [moveLoop, Rcv.moved]
    simp
  | cons seg buf ih =>
    rw [moveLoop]
    split
    case isTrue hnext =>
      obtain ⟨moved, rest, hmoves, heq⟩ := ih { r with
        nrcvBuf := r.nrcvBuf - 1
        rcvQueue := r.rcvQueue ++ [seg]
        nrcvQue := r.nrcvQue + 1
        rcvNxt := r.rcvNxt + 1 }
      refine ⟨seg :: moved, rest, ⟨by rw [hmoves.split, List.cons_append], ?_, ?_, ?_⟩, ?_⟩
      · intro j seg' hj
        cases j with
        | zero =>
          cases hj
          rw [hnext.1]
          simp
        | succ j =>
          rw [add_ofNat_succ]
          exact hmoves.consecutive j seg' hj
      · intro seg' hhead hsn
        rw [List.length_cons, add_ofNat_succ] at hsn ⊢
        exact hmoves.stops seg' hhead hsn
      · intro j hj
        cases j with
        | zero => simpa using hnext.2
        | succ j =>
          rw [add_ofNat_succ]
          exact hmoves.fits j (Nat.lt_of_succ_lt_succ hj)
      · rw [heq, Rcv.moved, Rcv.moved, List.length_cons, add_ofNat_succ, add_ofNat_succ, sub_ofNat_succ]
        simp only [List.append_assoc, List.singleton_append]
    case isFalse hstop =>
      refine ⟨[], seg :: buf, ⟨rfl, by simp, ?_, by simp⟩, ?_⟩
      · intro seg' hhead hsn
        cases hhead
        have hzero : ∀ x : UInt32, x + UInt32.ofNat 0 = x := fun x => UInt32.add_zero x
        rw [List.length_nil, hzero] at hsn ⊢
        exact UInt32.not_lt.mp fun hlt => hstop ⟨hsn, hlt⟩
      · rw [Rcv.moved]
        simp

theorem add_ofNat_toNat {x : UInt32} {n m : Nat} (hx : x.toNat = n) (h : n + m < 2 ^ 32) :
    (x + UInt32.ofNat m).toNat = n + m := by
  rw [UInt32.toNat_add, UInt32.toNat_ofNat_of_lt' (show m < 2 ^ 32 by omega), hx, Nat.mod_eq_of_lt h]

theorem sub_ofNat_toNat {x : UInt32} {n m : Nat} (hx : x.toNat = n) (h : m ≤ n) :
    (x - UInt32.ofNat m).toNat = n - m := by
  have hlt := x.toNat_lt
  have hm : (UInt32.ofNat m).toNat = m := UInt32.toNat_ofNat_of_lt' (show m < 2 ^ 32 by omega)
  have hle : UInt32.ofNat m ≤ x := by rw [UInt32.le_iff_toNat_le, hm, hx]; exact h
  rw [UInt32.toNat_sub_of_le _ _ hle, hx, hm]

namespace Rcv

variable {r : Rcv}

theorem Ordered.buf_le (h : r.Ordered) : r.rcvBuf.length ≤ r.rcvWnd.toNat := h.sorted.length_le h.window

/-- What stays behind is past what moves. -/
theorem Ordered.rest_past (h : r.Ordered) {moved rest : List IkcpSeg} (hm : Moves r r.rcvBuf moved rest)
    {seg : IkcpSeg} (hseg : seg ∈ rest) : moved.length ≤ ahead r.rcvNxt seg.sn := by
  rcases Nat.eq_zero_or_pos moved.length with hzero | hpos
  · omega
  · have hlen := h.buf_le
    have hwnd := h.wnd
    rw [hm.split, List.length_append] at hlen
    have hlast : moved.length - 1 < moved.length := by omega
    have hsn := hm.consecutive _ _ (List.getElem?_eq_getElem hlast)
    have hsorted := h.sorted
    rw [hm.split] at hsorted
    have hlt := (List.pairwise_append.mp hsorted).2.2 _ (List.getElem_mem hlast) seg hseg
    rw [hsn, ahead_add _ (by omega)] at hlt
    omega

theorem Ordered.moved (h : r.Ordered) {moved rest : List IkcpSeg} (hm : Moves r r.rcvBuf moved rest) :
    (r.moved moved rest).WellFormed := by
  have hwnd := h.wnd
  have hroom := h.room
  have hsplit : r.rcvBuf.length = moved.length + rest.length := by rw [hm.split, List.length_append]
  have hlen := h.buf_le
  have hpast : ∀ seg ∈ rest, ahead r.rcvNxt (r.rcvNxt + UInt32.ofNat moved.length) ≤ ahead r.rcvNxt seg.sn := by
    intro seg hseg
    rw [ahead_add _ (by omega)]
    exact h.rest_past hm hseg
  have hque : (r.nrcvQue + UInt32.ofNat moved.length).toNat = r.rcvQueue.length + moved.length :=
    add_ofNat_toNat h.que (by omega)
  have hfit : r.rcvQueue.length + moved.length ≤ r.rcvWnd.toNat := by
    rcases Nat.eq_zero_or_pos moved.length with hzero | hpos
    · omega
    · have hlast := hm.fits (moved.length - 1) (by omega)
      rw [UInt32.lt_iff_toNat_lt, add_ofNat_toNat h.que (by omega)] at hlast
      omega
  constructor
  · constructor
    · exact hwnd
    · rw [Rcv.moved, hque, List.length_append]
    · rw [Rcv.moved, List.length_append]
      exact hfit
    · rw [Rcv.moved, sub_ofNat_toNat h.buf (by omega)]
      show r.rcvBuf.length - moved.length = rest.length
      omega
    · intro seg hseg
      have hmem : seg ∈ r.rcvBuf := by rw [hm.split]; exact List.mem_append_right _ hseg
      have hlt := h.window seg hmem
      rw [Rcv.moved, ahead_of_le (hpast seg hseg)]
      show _ < r.rcvWnd.toNat
      omega
    · refine Sorted.rebase ?_ hpast
      have hsorted := h.sorted
      rw [hm.split] at hsorted
      exact (List.pairwise_append.mp hsorted).2.1
    · exact h.acks
  · intro seg hhead hsn
    have hstop := hm.stops seg hhead hsn
    rw [UInt32.le_iff_toNat_le, hque] at hstop
    rw [Rcv.moved, List.length_append]
    exact hstop

theorem Ordered.moveAvailable (h : r.Ordered) : r.moveAvailable.WellFormed := by
  obtain ⟨moved, rest, hm, heq⟩ := moveLoop_spec r.rcvBuf r
  rw [Rcv.moveAvailable, heq]
  exact h.moved hm

end Rcv

/-! ## A segment that comes in -/

/-- Going back over a sorted queue finds the segment, or the place for it. -/
theorem backLoop_spec {new : IkcpSeg} (hnew : ahead base new.sn < 2 ^ 31) {rev : List IkcpSeg}
    (hlt : ∀ seg ∈ rev, ahead base seg.sn < 2 ^ 31)
    (hsorted : rev.Pairwise fun a b => ahead base b.sn < ahead base a.sn) :
    (backLoop new rev = none ∧ ∃ seg ∈ rev, seg.sn = new.sn) ∨
    ∃ rev', backLoop new rev = some rev' ∧ rev'.Perm (new :: rev) ∧
      (rev'.Pairwise fun a b => ahead base b.sn < ahead base a.sn) ∧ ∀ seg ∈ rev, seg.sn ≠ new.sn := by
  induction rev with
  | nil => exact .inr ⟨[new], rfl, List.Perm.refl _, List.pairwise_singleton _ _, by simp⟩
  | cons seg rev ih =>
    obtain ⟨hhead, htail⟩ := List.pairwise_cons.mp hsorted
    have hseg := hlt seg List.mem_cons_self
    have hrest : ∀ s ∈ rev, ahead base s.sn < 2 ^ 31 := fun s hs => hlt s (List.mem_cons_of_mem _ hs)
    rw [backLoop]
    by_cases heq : seg.sn = new.sn
    · rw [if_pos heq]
      exact .inl ⟨rfl, seg, List.mem_cons_self, heq⟩
    · rw [if_neg heq, itimediff_eq _ hnew hseg]
      have hne : ahead base seg.sn ≠ ahead base new.sn := fun h => heq (ahead_inj.mp h)
      split
      case isTrue hpast =>
        have hgt : ahead base seg.sn < ahead base new.sn := by omega
        refine .inr ⟨new :: seg :: rev, rfl, List.Perm.refl _, List.pairwise_cons.mpr ⟨?_, hsorted⟩, ?_⟩
        · intro s hs
          rcases List.mem_cons.mp hs with rfl | hs
          · exact hgt
          · exact (hhead s hs).trans hgt
        · intro s hs hsn
          rcases List.mem_cons.mp hs with rfl | hs
          · exact heq hsn
          · have hlater := hhead s hs
            rw [hsn] at hlater
            omega
      case isFalse hbefore =>
        have hgt : ahead base new.sn < ahead base seg.sn := by omega
        rcases ih hrest htail with ⟨hnone, s, hs, hsn⟩ | ⟨rev', hsome, hperm, hpair, hall⟩
        · exact .inl ⟨by rw [hnone]; rfl, s, List.mem_cons_of_mem _ hs, hsn⟩
        · refine .inr ⟨seg :: rev', by rw [hsome]; rfl, ?_, List.pairwise_cons.mpr ⟨?_, hpair⟩, ?_⟩
          · exact (hperm.cons seg).trans (List.Perm.swap new seg rev)
          · intro s hs
            rcases List.mem_cons.mp (hperm.mem_iff.mp hs) with rfl | hs
            · exact hgt
            · exact hhead s hs
          · intro s hs
            rcases List.mem_cons.mp hs with rfl | hs
            · exact heq
            · exact hall s hs

/-- The early segments with one more. -/
structure Inserts (r : Rcv) (new : IkcpSeg) (buf : List IkcpSeg) : Prop where
  perm : buf.Perm (new :: r.rcvBuf)
  sorted : Sorted r.rcvNxt buf
  fresh : ∀ seg ∈ r.rcvBuf, seg.sn ≠ new.sn

/-- A segment outside the window or known is dropped, and others are put in order. -/
theorem parseData_cases {r : Rcv} (h : r.Ordered) (new : IkcpSeg) :
    (r.rcvWnd.toNat ≤ ahead r.rcvNxt new.sn ∧ ikcpParseData r new = r) ∨
    ahead r.rcvNxt new.sn < r.rcvWnd.toNat ∧
      (((∃ seg ∈ r.rcvBuf, seg.sn = new.sn) ∧ ikcpParseData r new = r.moveAvailable) ∨
      ∃ buf, Inserts r new buf ∧
        ikcpParseData r new = Rcv.moveAvailable { r with rcvBuf := buf, nrcvBuf := r.nrcvBuf + 1 }) := by
  have hwnd := h.wnd
  have hout := outside_iff r.rcvNxt new.sn hwnd
  rw [ikcpParseData]
  split
  case isTrue houtside => exact .inl ⟨hout.mp houtside, rfl⟩
  case isFalse hinside =>
    have hin : ahead r.rcvNxt new.sn < r.rcvWnd.toNat := Nat.lt_of_not_le fun hle => hinside (hout.mpr hle)
    refine .inr ⟨hin, ?_⟩
    have hlt : ∀ seg ∈ r.rcvBuf.reverse, ahead r.rcvNxt seg.sn < 2 ^ 31 := by
      intro seg hseg
      exact (h.window seg (List.mem_reverse.mp hseg)).trans hwnd
    rcases backLoop_spec (hin.trans hwnd) hlt (List.pairwise_reverse.mpr h.sorted) with
      ⟨hnone, seg, hseg, hsn⟩ | ⟨rev', hsome, hperm, hpair, hall⟩
    · rw [hnone]
      exact .inl ⟨⟨seg, List.mem_reverse.mp hseg, hsn⟩, rfl⟩
    · rw [hsome]
      refine .inr ⟨rev'.reverse, ⟨?_, List.pairwise_reverse.mpr hpair, ?_⟩, rfl⟩
      · exact (List.reverse_perm rev').trans (hperm.trans ((List.reverse_perm _).cons new))
      · exact fun seg hseg => hall seg (List.mem_reverse.mpr hseg)

namespace Rcv

variable {r : Rcv}

theorem Ordered.insert (h : r.Ordered) {new : IkcpSeg} (hin : ahead r.rcvNxt new.sn < r.rcvWnd.toNat)
    {buf : List IkcpSeg} (hi : Inserts r new buf) :
    Rcv.Ordered { r with rcvBuf := buf, nrcvBuf := r.nrcvBuf + 1 } := by
  have hwnd := h.wnd
  have hwindow : ∀ seg ∈ buf, ahead r.rcvNxt seg.sn < r.rcvWnd.toNat := by
    intro seg hseg
    rcases List.mem_cons.mp (hi.perm.mem_iff.mp hseg) with rfl | hseg
    · exact hin
    · exact h.window seg hseg
  have hlen : buf.length = r.rcvBuf.length + 1 := hi.perm.length_eq
  have hle := hi.sorted.length_le hwindow
  refine ⟨hwnd, h.que, h.room, ?_, hwindow, hi.sorted, h.acks⟩
  show (r.nrcvBuf + 1).toNat = buf.length
  rw [hlen]
  exact add_ofNat_toNat (m := 1) h.buf (by omega)

theorem WellFormed.parseData (h : r.WellFormed) (new : IkcpSeg) : (ikcpParseData r new).WellFormed := by
  rcases parseData_cases h.toOrdered new with ⟨-, heq⟩ | ⟨hin, ⟨-, heq⟩ | ⟨buf, hi, heq⟩⟩
  · rw [heq]
    exact h
  · rw [heq]
    exact h.toOrdered.moveAvailable
  · rw [heq]
    exact (h.toOrdered.insert hin hi).moveAvailable

end Rcv

theorem newblock_le {newsize fuel block : Nat} (h : newsize ≤ block * 2 ^ fuel) :
    newsize ≤ newblock newsize fuel block := by
  induction fuel generalizing block with
  | zero => rwa [Nat.pow_zero, Nat.mul_one] at h
  | succ fuel ih =>
    rw [newblock]
    split
    case isTrue hlt =>
      apply ih
      rwa [Nat.mul_assoc, ← Nat.pow_succ']
    case isFalse hge => exact Nat.le_of_not_lt hge

/-- An acknowledgement is written inside its block. -/
theorem ackPush_room {r : Rcv} (h : r.acklist.length ≤ r.ackblock) (sn ts : UInt32) :
    (ikcpAckPush r sn ts).acklist.length ≤ (ikcpAckPush r sn ts).ackblock := by
  rw [ikcpAckPush, List.length_append, List.length_singleton]
  dsimp only
  split
  case isTrue =>
    apply newblock_le
    have hpow := Nat.lt_two_pow_self (n := r.acklist.length + 1)
    omega
  case isFalse hroom => omega

theorem Rcv.WellFormed.ackPush {r : Rcv} (h : r.WellFormed) (sn ts : UInt32) :
    (ikcpAckPush r sn ts).WellFormed :=
  ⟨⟨h.wnd, h.que, h.room, h.buf, h.window, h.sorted, ackPush_room h.acks sn ts⟩, h.available⟩

theorem Rcv.WellFormed.pushSeg {r : Rcv} (h : r.WellFormed) (head : Head) (data : Bytes) :
    (pushSeg r head data).WellFormed := by
  rw [Kcp.pushSeg]
  dsimp only
  split_ifs
  · exact (h.ackPush _ _).parseData _
  · exact h.ackPush _ _
  · exact h

/-! ## A message that is taken -/

theorem mergeLoop_le (segs : List IkcpSeg) : (mergeLoop segs).2 ≤ segs.length := by
  induction segs with
  | nil => exact Nat.le_refl 0
  | cons seg segs ih =>
    rw [mergeLoop]
    split
    · exact Nat.succ_le_succ (Nat.zero_le _)
    · exact Nat.succ_le_succ ih

namespace Rcv

variable {r : Rcv}

theorem Ordered.remove (h : r.Ordered) {n : Nat} (hn : n ≤ r.rcvQueue.length) : (r.remove n).Ordered := by
  have hroom := h.room
  refine ⟨h.wnd, ?_, ?_, h.buf, h.window, h.sorted, h.acks⟩
  · rw [Rcv.remove, sub_ofNat_toNat h.que hn, List.length_drop]
  · rw [Rcv.remove, List.length_drop]
    exact (Nat.sub_le _ _).trans hroom

theorem WellFormed.recv (h : r.WellFormed) (len : Int) : (r.recv len).2.2.WellFormed := by
  rw [Rcv.recv]
  dsimp only
  split_ifs
  · exact h
  · exact h
  · exact h
  · exact h.toOrdered.moveAvailable
  · exact (h.toOrdered.remove (mergeLoop_le _)).moveAvailable

end Rcv

end Yagips.Kcp
