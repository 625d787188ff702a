import Yagips.Kcp.Fragments
import Yagips.Kcp.Outstanding

/-!
# Calls on a control block

What each call does to the two halves of a control block. Whatever is sent, comes in or is asked for,
in any order, the queues stay in order and the counters right.
-/
namespace Yagips.Kcp

open Yagips.Lib

/-- The fields that only `ikcp_create` and the configuring calls set. -/
structure Settings where
  conv : UInt64
  mtu : UInt32
  mss : UInt32
  buffer : UInt32
  sndWnd : UInt32
  rcvWnd : UInt32
  stream : Int32
  nocwnd : Int32
  interval : UInt32
  deriving DecidableEq

def Ikcpcb.settings (kcp : Ikcpcb) : Settings where
  conv := kcp.conv
  mtu := kcp.mtu
  mss := kcp.mss
  buffer := kcp.buffer
  sndWnd := kcp.sndWnd
  rcvWnd := kcp.rcv.rcvWnd
  stream := kcp.stream
  nocwnd := kcp.nocwnd
  interval := kcp.interval

/-- Sizes and windows that a control block can be opened with. -/
structure Settings.Good (c : Settings) : Prop where
  mss : SegmentSize c.mss
  mtu : c.mtu.toNat = c.mss.toNat + 28
  mtu_lt : c.mtu.toNat < 2 ^ 31
  buffer : c.mtu.toNat ≤ c.buffer.toNat
  sndWnd : c.sndWnd.toNat < 2 ^ 31
  sndWnd_pos : 0 < c.sndWnd.toNat
  stream : c.stream = 0

/-- A fragment that fits in a datagram, with a number that fits in its byte. -/
def Fragment.Fits (mss : UInt32) (f : Fragment) : Prop := f.2.length ≤ mss.toNat ∧ f.1.toNat < 128

/-- A segment that the other end takes. -/
def Ikcpcb.Carries (kcp : Ikcpcb) (seg : IkcpSeg) : Prop :=
  seg.fragment.Fits kcp.mss ∧ seg.conv = kcp.conv ∧ seg.cmd = ikcpCmdPush

structure Ikcpcb.WellFormed (kcp : Ikcpcb) : Prop where
  good : kcp.settings.Good
  snd : kcp.snd.WellFormed kcp.sndWnd.toNat
  rcv : kcp.rcv.WellFormed
  queued : ∀ seg ∈ kcp.snd.sndQueue, seg.fragment.Fits kcp.mss
  numbered : ∀ seg ∈ kcp.snd.sndBuf, kcp.Carries seg

/-! ## The receive window stays -/

theorem moveAvailable_wnd (r : Rcv) : r.moveAvailable.rcvWnd = r.rcvWnd := by
  obtain ⟨moved, rest, -, heq⟩ := moveLoop_spec r.rcvBuf r
  rw [Rcv.moveAvailable, heq]
  rfl

theorem parseData_wnd (r : Rcv) (new : IkcpSeg) : (ikcpParseData r new).rcvWnd = r.rcvWnd := by
  rw [ikcpParseData]
  split
  · rfl
  · dsimp only
    rw [moveAvailable_wnd]
    split <;> rfl

theorem pushSeg_wnd (r : Rcv) (h : Head) (data : Bytes) : (pushSeg r h data).rcvWnd = r.rcvWnd := by
  rw [pushSeg]
  dsimp only
  split_ifs
  · exact parseData_wnd _ _
  · rfl
  · rfl

theorem recv_wnd (r : Rcv) (len : Int) : (r.recv len).2.2.rcvWnd = r.rcvWnd := by
  rw [Rcv.recv]
  dsimp only
  split_ifs
  · rfl
  · rfl
  · rfl
  · exact moveAvailable_wnd r
  · exact moveAvailable_wnd _

/-! ## A segment that comes in -/

/-- What a segment does to the sending half. -/
def Snd.hear (s : Snd) (h : Head) : Snd :=
  let s := ikcpShrinkBuf (ikcpParseUna s h.una)
  if h.cmd.toUInt32 = ikcpCmdAck then ikcpShrinkBuf (ikcpParseAck s h.sn) else s

/-- What a segment does to the receiving half. -/
def Rcv.hear (r : Rcv) (h : Head) (data : Bytes) : Rcv :=
  if h.cmd.toUInt32 = ikcpCmdPush then pushSeg r h data else r

@[simp] theorem setSnd_settings (kcp : Ikcpcb) (snd : Snd) : (kcp.setSnd snd).settings = kcp.settings := rfl

theorem setRcv_settings (kcp : Ikcpcb) {rcv : Rcv} (h : rcv.rcvWnd = kcp.rcv.rcvWnd) :
    (kcp.setRcv rcv).settings = kcp.settings := by
  rw [Ikcpcb.settings, Ikcpcb.settings, Ikcpcb.setRcv_rcv, h]
  rfl

theorem updateAck_frame (kcp : Ikcpcb) (rtt : Int32) :
    (ikcpUpdateAck kcp rtt).snd = kcp.snd ∧ (ikcpUpdateAck kcp rtt).rcv = kcp.rcv ∧
      (ikcpUpdateAck kcp rtt).settings = kcp.settings := by
  rw [ikcpUpdateAck]
  dsimp only
  split <;> exact ⟨rfl, rfl, rfl⟩

theorem measureRtt_frame (kcp : Ikcpcb) (ts : UInt32) :
    (measureRtt kcp ts).snd = kcp.snd ∧ (measureRtt kcp ts).rcv = kcp.rcv ∧
      (measureRtt kcp ts).settings = kcp.settings := by
  rw [measureRtt]
  split
  · exact updateAck_frame kcp _
  · exact ⟨rfl, rfl, rfl⟩

theorem inputSeg_spec (kcp : Ikcpcb) (vars : InputVars) (h : Head) (data : Bytes) :
    (inputSeg kcp vars h data).1.snd = kcp.snd.hear h ∧ (inputSeg kcp vars h data).1.rcv = kcp.rcv.hear h data ∧
      (inputSeg kcp vars h data).1.settings = kcp.settings := by
  rw [inputSeg, Snd.hear, Rcv.hear]
  by_cases hack : h.cmd.toUInt32 = ikcpCmdAck
  · have hpush : ¬ h.cmd.toUInt32 = ikcpCmdPush := by rw [hack]; decide
    rw [if_pos hack, if_pos hack, if_neg hpush]
    obtain ⟨hsnd, hrcv, hset⟩ := measureRtt_frame
      (Ikcpcb.setSnd { kcp with rmtWnd := h.wnd.toUInt32 } (ikcpShrinkBuf (ikcpParseUna kcp.snd h.una))) h.ts
    refine ⟨?_, hrcv, hset⟩
    rw [Ikcpcb.setSnd_snd]
    exact congrArg (fun s => ikcpShrinkBuf (ikcpParseAck s h.sn)) hsnd
  · rw [if_neg hack, if_neg hack]
    by_cases hpush : h.cmd.toUInt32 = ikcpCmdPush
    · rw [if_pos hpush, if_pos hpush]
      exact ⟨rfl, rfl, setRcv_settings _ (pushSeg_wnd _ _ _)⟩
    · rw [if_neg hpush, if_neg hpush]
      split
      · exact ⟨rfl, rfl, rfl⟩
      · exact ⟨rfl, rfl, rfl⟩

/-! ## A datagram that comes in -/

/-- What every segment keeps a datagram keeps, however it ends. -/
theorem inputLoop_keeps {P : Ikcpcb → Prop}
    (h : ∀ kcp vars head data, P kcp → P (inputSeg kcp vars head data).1) (fuel : Nat) (data : Bytes)
    {kcp : Ikcpcb} (vars : InputVars) (hp : P kcp) : P (inputLoop fuel data kcp vars).2.1 := by
  induction fuel generalizing data kcp vars with
  | zero => exact hp
  | succ fuel ih =>
    rw [inputLoop]
    dsimp only
    split_ifs
    · exact hp
    · exact hp
    · exact hp
    · exact hp
    · exact ih _ _ (h kcp vars _ _ hp)

theorem growCwnd_frame (kcp : Ikcpcb) :
    (growCwnd kcp).snd = kcp.snd ∧ (growCwnd kcp).rcv = kcp.rcv ∧ (growCwnd kcp).settings = kcp.settings := by
  rw [growCwnd]
  dsimp only
  split_ifs <;> exact ⟨rfl, rfl, rfl⟩

/-- What is kept by every segment, and by counting the acknowledgements that skip a segment, is kept by
a datagram. -/
theorem ikcpInput_keeps {P : Ikcpcb → Prop}
    (h : ∀ kcp vars head data, P kcp → P (inputSeg kcp vars head data).1)
    (hfast : ∀ kcp sn, P kcp → P (kcp.setSnd (ikcpParseFastack kcp.snd sn)))
    (hgrow : ∀ kcp, P kcp → P (growCwnd kcp)) {kcp : Ikcpcb} (hp : P kcp) (data : Bytes) :
    P (ikcpInput kcp data).2 := by
  have hloop := inputLoop_keeps h data.length data {} hp
  rw [ikcpInput]
  split
  case isTrue => exact hp
  case isFalse =>
    split
    case h_1 ret kcp' vars heq =>
      rw [heq] at hloop
      exact hloop
    case h_2 kcp' vars heq =>
      rw [heq] at hloop
      have hlast : ∀ k, P k → P (if itimediff k.snd.sndUna kcp.snd.sndUna > 0 then growCwnd k else k) := by
        intro k hk
        split
        · exact hgrow k hk
        · exact hk
      by_cases hflag : vars.flag = true
      · rw [if_pos hflag]
        exact hlast _ (hfast kcp' vars.maxack hloop)
      · rw [if_neg hflag]
        exact hlast _ hloop

/-! ## What goes out -/

theorem probeWindow_frame (kcp : Ikcpcb) :
    (probeWindow kcp).snd = kcp.snd ∧ (probeWindow kcp).rcv = kcp.rcv ∧ (probeWindow kcp).settings = kcp.settings := by
  have hset : ∀ probeWait tsProbe probe,
      Ikcpcb.settings { kcp with probeWait, tsProbe, probe } = kcp.settings := fun _ _ _ => rfl
  rw [probeWindow]
  split
  · split
    · exact ⟨rfl, rfl, hset _ _ _⟩
    · split
      · exact ⟨rfl, rfl, hset _ _ _⟩
      · exact ⟨rfl, rfl, rfl⟩
  · exact ⟨rfl, rfl, hset _ _ _⟩

theorem flushControl_frame (kcp : Ikcpcb) :
    (flushControl kcp).1.snd = kcp.snd ∧ (flushControl kcp).1.rcv = { kcp.rcv with acklist := [] } ∧
      (flushControl kcp).1.settings = kcp.settings := by
  obtain ⟨hsnd, hrcv, hset⟩ := probeWindow_frame (kcp.setRcv { kcp.rcv with acklist := [] })
  rw [flushControl]
  exact ⟨hsnd, hrcv, hset⟩

theorem updateSsthresh_frame (kcp : Ikcpcb) (cwnd : UInt32) (p : Pass) :
    (updateSsthresh kcp cwnd p).snd = kcp.snd ∧ (updateSsthresh kcp cwnd p).rcv = kcp.rcv ∧
      (updateSsthresh kcp cwnd p).settings = kcp.settings := by
  rw [updateSsthresh]
  dsimp only
  split_ifs <;> exact ⟨rfl, rfl, rfl⟩

theorem windowSize_le (kcp : Ikcpcb) : (windowSize kcp).toNat ≤ kcp.sndWnd.toNat := by
  have hmin : ∀ a b : UInt32, (imin a b).toNat ≤ a.toNat ∧ (imin a b).toNat ≤ b.toNat := by
    intro a b
    rw [imin]
    split
    case isTrue hle => exact ⟨le_rfl, UInt32.le_iff_toNat_le.mp hle⟩
    case isFalse hgt => exact ⟨(UInt32.le_iff_toNat_le.mp (UInt32.le_of_lt (UInt32.not_le.mp hgt))), le_rfl⟩
  rw [windowSize]
  split
  · exact (hmin _ _).2.trans (hmin _ _).1
  · exact (hmin _ _).1

/-- The sending half once `added` segments have numbers and `rest` is left in the queue. -/
def Ikcpcb.numbering (kcp : Ikcpcb) (added rest : List IkcpSeg) : Snd :=
  kcp.snd.filled (flushControl kcp).1 (ikcpWndUnused kcp.rcv) added rest

/-- What a flush does to a control block. -/
structure Flushes (kcp kcp' : Ikcpcb) (added rest : List IkcpSeg) : Prop where
  fills : Fills kcp.snd (windowSize (flushControl kcp).1) kcp.snd.sndQueue added rest
  fill : fillLoop (flushControl kcp).1 (windowSize (flushControl kcp).1) (ikcpWndUnused kcp.rcv) kcp.snd.sndQueue
    kcp.snd = kcp.numbering added rest
  snd : ∃ buf, buf.map IkcpSeg.body = (kcp.numbering added rest).sndBuf.map IkcpSeg.body ∧
    kcp'.snd = { kcp.numbering added rest with sndBuf := buf }
  rcv : kcp'.rcv = { kcp.rcv with acklist := [] }
  settings : kcp'.settings = kcp.settings

theorem flushControl_wnd (kcp : Ikcpcb) : ikcpWndUnused (flushControl kcp).1.rcv = ikcpWndUnused kcp.rcv := by
  rw [(flushControl_frame kcp).2.1]
  rfl

theorem ikcpFlush_spec (kcp : Ikcpcb) :
    ¬ kcp.updated ∧ ikcpFlush kcp = (kcp, []) ∨
      kcp.updated = true ∧ ∃ added rest, Flushes kcp (ikcpFlush kcp).1 added rest := by
  rw [ikcpFlush]
  split
  case isTrue hupdated => exact .inl ⟨hupdated, rfl⟩
  case isFalse hupdated =>
    obtain ⟨hsnd, hrcv, hset⟩ := flushControl_frame kcp
    obtain ⟨added, rest, hf, heq⟩ := fillLoop_spec (flushControl kcp).1 (windowSize (flushControl kcp).1)
      (ikcpWndUnused kcp.rcv) kcp.snd.sndQueue kcp.snd
    obtain ⟨hsnd', hrcv', hset'⟩ := updateSsthresh_frame (flushData (flushControl kcp).1 (flushControl kcp).2).1
      (windowSize (flushControl kcp).1) (flushData (flushControl kcp).1 (flushControl kcp).2).2
    refine .inr ⟨not_not.mp hupdated, added, rest, hf, heq, ?_, hrcv'.trans hrcv, hset'.trans hset⟩
    have hdata : ∃ base p, (flushData (flushControl kcp).1 (flushControl kcp).2).1.snd =
        { kcp.numbering added rest with
          sndBuf := (flushSegs base (ikcpWndUnused kcp.rcv) (kcp.numbering added rest).sndBuf p).1 } := by
      rw [flushData, flushControl_wnd, hsnd, heq]
      exact ⟨_, _, rfl⟩
    obtain ⟨base, p, hdata⟩ := hdata
    exact ⟨_, flushSegs_body _ _ _ _, hsnd'.trans hdata⟩

/-! ## Time -/

/-- The time is set, and when the next flush is. -/
def Ikcpcb.atTime (kcp : Ikcpcb) (current tsFlush : UInt32) : Ikcpcb := { kcp with current, tsFlush, updated := true }

/-- It is time to flush, or less than ten seconds before that nothing goes out. -/
theorem ikcpUpdate_cases (kcp : Ikcpcb) (current : UInt32) :
    ∃ tsFlush, ikcpUpdate kcp current = ikcpFlush (kcp.atTime current tsFlush) ∨
      ikcpUpdate kcp current = (kcp.atTime current tsFlush, []) ∧
        -10000 ≤ itimediff current kcp.tsFlush ∧ itimediff current kcp.tsFlush < 0 := by
  have hself : itimediff current current = 0 := by
    rw [itimediff, UInt32.sub_self]
    rfl
  rw [ikcpUpdate]
  dsimp only
  by_cases hupdated : kcp.updated = true
  · have hsame : ∀ tsFlush, ({ kcp with current, tsFlush } : Ikcpcb) = kcp.atTime current tsFlush := by
      intro tsFlush
      rw [Ikcpcb.atTime, ← hupdated]
    rw [if_neg (not_not.mpr hupdated)]
    by_cases hreset : itimediff current kcp.tsFlush ≥ 10000 ∨ itimediff current kcp.tsFlush < -10000
    · rw [if_pos hreset, if_pos hreset, if_pos (le_refl 0)]
      exact ⟨_, .inl (congrArg ikcpFlush (hsame _))⟩
    · rw [if_neg hreset, if_neg hreset]
      split
      case isTrue => exact ⟨_, .inl (congrArg ikcpFlush (hsame _))⟩
      case isFalse hearly =>
        have hlt : itimediff current kcp.tsFlush < 0 := Int.not_le.mp hearly
        exact ⟨kcp.tsFlush, .inr ⟨congrArg (·, []) (hsame kcp.tsFlush), by omega, hlt⟩⟩
  · rw [if_pos hupdated]
    dsimp only
    have hnever : ¬ ((0 : Int) ≥ 10000 ∨ (0 : Int) < -10000) := by decide
    rw [hself, if_neg hnever, if_neg hnever, if_pos (le_refl 0)]
    exact ⟨_, .inl rfl⟩

/-! ## What a call of `ikcp_send` gets -/

theorem ikcpSend_cases (kcp : Ikcpcb) (buffer : Bytes) :
    ikcpSend kcp buffer = (-1, kcp) ∨ ∃ m : Message, ikcpSend kcp buffer = ikcpSend kcp m.bytes := by
  rw [ikcpSend]
  dsimp only
  split
  case isTrue => exact .inl rfl
  case isFalse hlen =>
    have hlt : (Int32.ofNat buffer.length).toInt < 2 ^ 31 := Int32.toInt_lt _
    have hfits : (buffer.take (Int32.ofNat buffer.length).toInt.toNat).length < 2 ^ 31 := by
      rw [List.length_take]
      omega
    refine .inr ⟨⟨_, hfits⟩, ?_⟩
    rw [ikcpSend_eq]

/-! ## What stays true of a control block -/

/-- What acknowledgements do to the sending half: nothing but to take segments out. -/
structure Hears (s s' : Snd) (h : Head) : Prop where
  queue : s'.sndQueue = s.sndQueue
  nxt : s'.sndNxt = s.sndNxt
  sublist : s'.sndBuf.Sublist s.sndBuf
  gone : ∀ seg ∈ s.sndBuf,
    seg ∈ s'.sndBuf ∨ 0 < itimediff h.una seg.sn ∨ h.cmd.toUInt32 = ikcpCmdAck ∧ seg.sn = h.sn

theorem shrinkBuf_frame (s : Snd) :
    (ikcpShrinkBuf s).sndQueue = s.sndQueue ∧ (ikcpShrinkBuf s).sndNxt = s.sndNxt ∧
      (ikcpShrinkBuf s).sndBuf = s.sndBuf := by
  rw [shrinkBuf_eq]
  exact ⟨rfl, rfl, rfl⟩

theorem Takes.frame {s s' : Snd} {gone : IkcpSeg → Prop} (h : Takes s s' gone) :
    s'.sndQueue = s.sndQueue ∧ s'.sndNxt = s.sndNxt := by
  rw [h.same]
  exact ⟨rfl, rfl⟩

theorem Snd.WellFormed.hear {wnd : Nat} {s : Snd} (hs : s.WellFormed wnd) (h : Head) :
    (s.hear h).WellFormed wnd ∧ Hears s (s.hear h) h := by
  have huna := parseUna_takes hs.toOrdered h.una
  obtain ⟨hqueue, hnxt⟩ := huna.frame
  obtain ⟨hqueue', hnxt', hbuf'⟩ := shrinkBuf_frame (ikcpParseUna s h.una)
  have hone := (huna.ordered hs.toOrdered).shrink
  rw [Snd.hear]
  split
  case isFalse =>
    refine ⟨hone, hqueue'.trans hqueue, hnxt'.trans hnxt, hbuf' ▸ huna.sublist, fun seg hseg => ?_⟩
    rw [hbuf']
    exact (huna.gone seg hseg).imp_right .inl
  case isTrue hack =>
    have htwo := parseAck_takes hone.toOrdered h.sn
    obtain ⟨hqueue₂, hnxt₂⟩ := htwo.frame
    obtain ⟨hqueue₃, hnxt₃, hbuf₃⟩ := shrinkBuf_frame (ikcpParseAck (ikcpShrinkBuf (ikcpParseUna s h.una)) h.sn)
    refine ⟨(htwo.ordered hone.toOrdered).shrink, ?_, ?_, ?_, fun seg hseg => ?_⟩
    · exact hqueue₃.trans (hqueue₂.trans (hqueue'.trans hqueue))
    · exact hnxt₃.trans (hnxt₂.trans (hnxt'.trans hnxt))
    · rw [hbuf₃]
      exact htwo.sublist.trans (hbuf' ▸ huna.sublist)
    · rw [hbuf₃]
      rcases huna.gone seg hseg with hmem | hpast
      · exact (htwo.gone seg (hbuf' ▸ hmem)).imp_right fun hsn => .inr ⟨hack, hsn⟩
      · exact .inr (.inl hpast)

theorem Rcv.WellFormed.hear {r : Rcv} (hr : r.WellFormed) (h : Head) (data : Bytes) : (r.hear h data).WellFormed := by
  rw [Rcv.hear]
  split
  · exact hr.pushSeg h data
  · exact hr

theorem carries_of_body {kcp : Ikcpcb} {buf buf' : List IkcpSeg} (h : ∀ seg ∈ buf, kcp.Carries seg)
    (hbody : buf'.map IkcpSeg.body = buf.map IkcpSeg.body) : ∀ seg ∈ buf', kcp.Carries seg := by
  intro seg hseg
  obtain ⟨seg', hseg', heq⟩ := exists_body hbody hseg
  have hfragment : seg'.fragment = seg.fragment := congrArg (fun b => (b.frg, b.data)) heq
  have hconv : seg'.conv = seg.conv := congrArg Body.conv heq
  have hcmd : seg'.cmd = seg.cmd := congrArg Body.cmd heq
  rw [Ikcpcb.Carries, ← hfragment, ← hconv, ← hcmd]
  exact h seg' hseg'

namespace Ikcpcb.WellFormed

variable {kcp : Ikcpcb}

/-- What is well formed of the halves, under the same settings. -/
theorem of_settings (h : kcp.WellFormed) {kcp' : Ikcpcb} (hset : kcp'.settings = kcp.settings)
    (hsnd : kcp'.snd.WellFormed kcp.sndWnd.toNat) (hrcv : kcp'.rcv.WellFormed)
    (hqueue : ∀ seg ∈ kcp'.snd.sndQueue, seg.fragment.Fits kcp.mss)
    (hbuf : ∀ seg ∈ kcp'.snd.sndBuf, kcp.Carries seg) : kcp'.WellFormed := by
  have hwnd : kcp'.sndWnd = kcp.sndWnd := congrArg Settings.sndWnd hset
  have hmss : kcp'.mss = kcp.mss := congrArg Settings.mss hset
  have hconv : kcp'.conv = kcp.conv := congrArg Settings.conv hset
  refine ⟨hset ▸ h.good, hwnd ▸ hsnd, hrcv, hmss ▸ hqueue, fun seg hseg => ?_⟩
  rw [Ikcpcb.Carries, hmss, hconv]
  exact hbuf seg hseg

theorem inputSeg (h : kcp.WellFormed) (vars : InputVars) (head : Head) (data : Bytes) :
    (Kcp.inputSeg kcp vars head data).1.WellFormed := by
  obtain ⟨hsnd, hrcv, hset⟩ := inputSeg_spec kcp vars head data
  obtain ⟨hwf, hears⟩ := h.snd.hear head
  refine h.of_settings hset (hsnd ▸ hwf) (hrcv ▸ h.rcv.hear head data) ?_ ?_
  · rw [hsnd, hears.queue]
    exact h.queued
  · rw [hsnd]
    exact fun seg hseg => h.numbered seg (hears.sublist.subset hseg)

theorem of_frame (h : kcp.WellFormed) {kcp' : Ikcpcb}
    (hframe : kcp'.snd = kcp.snd ∧ kcp'.rcv = kcp.rcv ∧ kcp'.settings = kcp.settings) : kcp'.WellFormed := by
  obtain ⟨hsnd, hrcv, hset⟩ := hframe
  exact h.of_settings hset (hsnd ▸ h.snd) (hrcv ▸ h.rcv) (hsnd ▸ h.queued) (hsnd ▸ h.numbered)

theorem parseFastack (h : kcp.WellFormed) (sn : UInt32) : (kcp.setSnd (ikcpParseFastack kcp.snd sn)).WellFormed := by
  refine h.of_settings (setSnd_settings _ _) (h.snd.parseFastack sn) h.rcv ?_ ?_
  · rw [Ikcpcb.setSnd_snd, ikcpParseFastack]
    split
    · exact h.queued
    · exact h.queued
  · rw [Ikcpcb.setSnd_snd, ikcpParseFastack]
    split
    · exact h.numbered
    · exact carries_of_body h.numbered (fastackLoop_body sn _)

theorem input (h : kcp.WellFormed) (data : Bytes) : (ikcpInput kcp data).2.WellFormed :=
  ikcpInput_keeps (fun _ vars head data hk => hk.inputSeg vars head data) (fun _ sn hk => hk.parseFastack sn)
    (fun k hk => hk.of_frame (growCwnd_frame k)) h data

theorem recv (h : kcp.WellFormed) (len : Int) : (ikcpRecv kcp len).2.2.WellFormed :=
  h.of_settings (setRcv_settings kcp (recv_wnd kcp.rcv len)) h.snd (h.rcv.recv len) h.queued h.numbered

theorem numbering_carries (h : kcp.WellFormed) {cwnd : UInt32} {added rest : List IkcpSeg}
    (hf : Fills kcp.snd cwnd kcp.snd.sndQueue added rest) :
    ∀ seg ∈ (kcp.numbering added rest).sndBuf, kcp.Carries seg := by
  have hset := (flushControl_frame kcp).2.2
  intro seg hseg
  rcases List.mem_append.mp hseg with hold | hnew
  · exact h.numbered seg hold
  · obtain ⟨j, q, hq, rfl⟩ := numberFrom_mem hnew
    refine ⟨h.queued q ?_, congrArg Settings.conv hset, rfl⟩
    rw [hf.split]
    exact List.mem_append_left _ (List.mem_of_getElem? hq)

theorem flush (h : kcp.WellFormed) : (ikcpFlush kcp).1.WellFormed := by
  rcases ikcpFlush_spec kcp with ⟨-, heq⟩ | ⟨-, added, rest, hf⟩
  · rw [heq]
    exact h
  · obtain ⟨buf, hbody, hsnd⟩ := hf.snd
    have hsplit := hf.fills.split
    have hle := windowSize_le (flushControl kcp).1
    have hsndWnd : (flushControl kcp).1.sndWnd = kcp.sndWnd := congrArg Settings.sndWnd (flushControl_frame kcp).2.2
    rw [hsndWnd] at hle
    have hfilled : (kcp.numbering added rest).WellFormed kcp.sndWnd.toNat := h.snd.filled h.good.sndWnd hle hf.fills
    have hnumbered := h.numbering_carries hf.fills
    have hrcv : ({ kcp.rcv with acklist := [] } : Rcv).WellFormed :=
      ⟨⟨h.rcv.wnd, h.rcv.que, h.rcv.room, h.rcv.buf, h.rcv.window, h.rcv.sorted, Nat.zero_le _⟩, h.rcv.available⟩
    refine h.of_settings hf.settings ?_ (hf.rcv ▸ hrcv) ?_ ?_
    · rw [hsnd]
      exact hfilled.body hbody
    · intro seg hseg
      rw [hsnd] at hseg
      apply h.queued
      rw [hsplit]
      exact List.mem_append_right _ hseg
    · rw [hsnd]
      exact carries_of_body hnumbered hbody

theorem update (h : kcp.WellFormed) (current : UInt32) : (ikcpUpdate kcp current).1.WellFormed := by
  obtain ⟨tsFlush, heq | ⟨heq, -⟩⟩ := ikcpUpdate_cases kcp current
  · rw [heq]
    exact (h.of_frame ⟨rfl, rfl, rfl⟩ : (kcp.atTime current tsFlush).WellFormed).flush
  · rw [heq]
    exact h.of_frame ⟨rfl, rfl, rfl⟩

theorem sendMessage (h : kcp.WellFormed) (m : Message) : (ikcpSend kcp m.bytes).2.WellFormed := by
  have hstream : kcp.stream = 0 := h.good.stream
  have hmss : SegmentSize kcp.mss := h.good.mss
  rw [ikcpSend_eq, hstream]
  rcases send_cases hmss kcp.snd m with ⟨heq, -⟩ | ⟨segs, hsegs, hlt, heq⟩
  · rw [heq]
    exact h.of_frame ⟨rfl, rfl, rfl⟩
  · rw [heq]
    refine h.of_settings (setSnd_settings _ _) (h.snd.push segs) h.rcv (fun seg hseg => ?_) h.numbered
    rcases List.mem_append.mp hseg with hold | hnew
    · exact h.queued seg hold
    · have hmem := List.mem_map_of_mem (f := IkcpSeg.fragment) hnew
      have hlen : segs.length = (fragmentCount kcp.mss m.bytes.length).toNat := by
        have hlen := congrArg List.length hsegs
        rwa [List.length_map, fragments, cut_length] at hlen
      rw [hsegs] at hmem
      have hfrg := cut_frg_lt hmem
      exact ⟨cut_data_le hmem, by omega⟩

theorem send (h : kcp.WellFormed) (buffer : Bytes) : (ikcpSend kcp buffer).2.WellFormed := by
  rcases ikcpSend_cases kcp buffer with heq | ⟨m, heq⟩
  · rw [heq]
    exact h
  · rw [heq]
    exact h.sendMessage m

end Ikcpcb.WellFormed

/-! ## No call changes how a control block was set up -/

theorem flush_settings (kcp : Ikcpcb) : (ikcpFlush kcp).1.settings = kcp.settings := by
  rcases ikcpFlush_spec kcp with ⟨-, heq⟩ | ⟨-, added, rest, hf⟩
  · rw [heq]
  · exact hf.settings

theorem update_settings (kcp : Ikcpcb) (current : UInt32) : (ikcpUpdate kcp current).1.settings = kcp.settings := by
  obtain ⟨tsFlush, heq | ⟨heq, -⟩⟩ := ikcpUpdate_cases kcp current
  · rw [heq]
    exact flush_settings _
  · rw [heq]
    rfl

theorem send_settings (kcp : Ikcpcb) (buffer : Bytes) : (ikcpSend kcp buffer).2.settings = kcp.settings := by
  rcases ikcpSend_cases kcp buffer with heq | ⟨m, heq⟩
  · rw [heq]
  · rw [heq, ikcpSend_eq]
    exact setSnd_settings _ _

theorem input_settings (kcp : Ikcpcb) (data : Bytes) : (ikcpInput kcp data).2.settings = kcp.settings :=
  ikcpInput_keeps (P := fun k => k.settings = kcp.settings)
    (fun k vars head data hk => (inputSeg_spec k vars head data).2.2.trans hk) (fun _ _ hk => hk)
    (fun k hk => (growCwnd_frame k).2.2.trans hk) rfl data

end Yagips.Kcp
