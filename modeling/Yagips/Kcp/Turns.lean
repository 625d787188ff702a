import Yagips.Kcp.KcpSession
import Yagips.Kcp.Exchange

/-!
# Turns of a session

A session updates its control block once a turn, at a time that it counts itself. What `ikcp_check`
says only spares calls that would do nothing, and a flush comes as often as the interval asks for.
-/
namespace Yagips.Kcp

open Yagips.Lib

/-! ## When to update -/

theorem itimediff_nonneg {base x : UInt32} (h : 0 ≤ itimediff x base) :
    ahead base x < 2 ^ 31 ∧ itimediff x base = ahead base x := by
  have hlt : ahead base x < 2 ^ 31 := by
    by_contra hge
    have hneg : itimediff x base < 0 := (Serial.diff_base_neg_iff (w := 31)).mpr (Nat.not_lt.mp hge)
    omega
  have heq := itimediff_eq base hlt (by rw [ahead_self]; decide)
  rw [ahead_self] at heq
  exact ⟨hlt, by omega⟩

theorem checkLoop_bounds {current : UInt32} {buf : List IkcpSeg} {tm tm' : Int} (hpos : 0 < tm)
    (h : checkLoop current buf tm = some tm') : 0 < tm' ∧ tm' ≤ tm := by
  induction buf generalizing tm with
  | nil =>
    cases h
    exact ⟨hpos, le_rfl⟩
  | cons seg buf ih =>
    rw [checkLoop] at h
    split_ifs at h with hdue hless
    · have hrest := ih (by omega) h
      omega
    · exact ih hpos h

/-- Nothing is to be done, or nothing is before a time that is not later than the next flush. -/
theorem ikcpCheck_cases (kcp : Ikcpcb) (current : UInt32) :
    ikcpCheck kcp current = current ∨
      kcp.updated = true ∧ -10000 ≤ itimediff current kcp.tsFlush ∧ itimediff current kcp.tsFlush < 0 ∧
        ∃ wait : UInt32, ikcpCheck kcp current = current + wait ∧ (wait.toNat : Int) ≤ -itimediff current kcp.tsFlush := by
  rw [ikcpCheck]
  dsimp only
  by_cases hupdated : kcp.updated = true
  · rw [if_neg (not_not.mpr hupdated)]
    by_cases hreset : itimediff current kcp.tsFlush ≥ 10000 ∨ itimediff current kcp.tsFlush < -10000
    · rw [if_pos hreset, if_pos (itimediff_self current).ge]
      exact .inl rfl
    · rw [if_neg hreset]
      by_cases hdue : itimediff current kcp.tsFlush ≥ 0
      · rw [if_pos hdue]
        exact .inl rfl
      · rw [if_neg hdue]
        cases hloop : checkLoop current kcp.snd.sndBuf 0x7fffffff with
        | none => exact .inl rfl
        | some tmPacket =>
          dsimp only
          have hflush : itimediff kcp.tsFlush current = -itimediff current kcp.tsFlush := itimediff_comm (by omega)
          obtain ⟨hpos, -⟩ := checkLoop_bounds (by decide) hloop
          refine .inr ⟨hupdated, by omega, by omega, _, rfl, ?_⟩
          generalize hminimal : (if tmPacket < itimediff kcp.tsFlush current then tmPacket
            else itimediff kcp.tsFlush current) = minimal
          have hmin : 0 < minimal ∧ minimal ≤ itimediff kcp.tsFlush current := by
            rw [← hminimal]
            split
            · omega
            · omega
          have hnat : (Int32.ofInt minimal).toUInt32.toNat = minimal.toNat := by
            have hint : Int32.ofInt minimal = Int32.ofNat minimal.toNat := by
              rw [← Int32.ofInt_eq_ofNat, Int.toNat_of_nonneg hmin.1.le]
            have hback := toUInt32_toNat (x := Int32.ofNat minimal.toNat) (by rw [ofNat_toInt (by omega)]; omega)
            rw [ofNat_toInt (by omega)] at hback
            rw [hint]
            omega
          split
          case isTrue hge =>
            have hle := UInt32.le_iff_toNat_le.mp hge
            omega
          case isFalse => omega
  · rw [if_pos hupdated]
    exact .inl rfl

theorem update_early {kcp : Ikcpcb} {t : UInt32} (hupdated : kcp.updated = true)
    (hge : -10000 ≤ itimediff t kcp.tsFlush) (hlt : itimediff t kcp.tsFlush < 0) :
    ikcpUpdate kcp t = ({ kcp with current := t }, []) := by
  have hnear : ¬ (itimediff t kcp.tsFlush ≥ 10000 ∨ itimediff t kcp.tsFlush < -10000) := by omega
  have hearly : ¬ itimediff t kcp.tsFlush ≥ 0 := by omega
  rw [ikcpUpdate]
  dsimp only
  rw [if_neg (not_not.mpr hupdated), if_neg hnear, if_neg hnear, if_neg hearly]

/-- Before the time that `ikcp_check` says an update would do nothing but note its time. -/
theorem update_before_check {kcp : Ikcpcb} {current t : UInt32} (hlate : 0 ≤ itimediff t current)
    (hearly : itimediff t (ikcpCheck kcp current) < 0) : ikcpUpdate kcp t = ({ kcp with current := t }, []) := by
  rcases ikcpCheck_cases kcp current with heq | ⟨hupdated, hge, hlt, wait, heq, hwait⟩
  · rw [heq] at hearly
    omega
  · obtain ⟨hsmall, hahead⟩ := itimediff_nonneg hlate
    have hflush : itimediff kcp.tsFlush current = -itimediff current kcp.tsFlush := itimediff_comm (by omega)
    obtain ⟨hsmall', hahead'⟩ := itimediff_nonneg (show 0 ≤ itimediff kcp.tsFlush current by omega)
    have hcheck := itimediff_eq current (x := t) (y := current + wait) hsmall (by
      rw [ahead_add_toNat]
      omega)
    rw [ahead_add_toNat, ← heq] at hcheck
    have hdiff := itimediff_eq current (x := t) (y := kcp.tsFlush) hsmall hsmall'
    exact update_early hupdated (by omega) (by omega)

/-- Ten milliseconds after a first flush. -/
theorem update_before_check_ten :
    ikcpUpdate (ikcpUpdate (ikcpCreate 7) 0).1 20 = ({ (ikcpUpdate (ikcpCreate 7) 0).1 with current := 20 }, []) :=
  @update_before_check (ikcpUpdate (ikcpCreate 7) 0).1 10 20 (by decide +kernel) (by decide +kernel)

/-- The time of a flush is the next time for one. -/
theorem update_due {kcp : Ikcpcb} {t : UInt32} (hdue : kcp.updated = true → kcp.tsFlush = t)
    (hpos : 0 < kcp.interval.toNat) (hsmall : kcp.interval.toNat < 2 ^ 31) :
    ikcpUpdate kcp t = ikcpFlush (kcp.atTime t (t + kcp.interval)) := by
  have hself := itimediff_self t
  have hnever : ¬ ((0 : Int) ≥ 10000 ∨ (0 : Int) < -10000) := by decide
  have hnext : ¬ itimediff t (t + kcp.interval) ≥ 0 := by
    have heq := itimediff_eq t (x := t) (y := t + kcp.interval) (by rw [ahead_self]; decide) (by rwa [ahead_add_toNat])
    rw [ahead_self, ahead_add_toNat] at heq
    omega
  rw [ikcpUpdate]
  dsimp only
  by_cases hupdated : kcp.updated = true
  · rw [if_neg (not_not.mpr hupdated)]
    dsimp only
    rw [hdue hupdated, hself, if_neg hnever, if_neg hnever, if_pos (le_refl 0), if_neg hnext, Ikcpcb.atTime, hupdated]
  · rw [if_pos hupdated]
    dsimp only
    rw [hself, if_neg hnever, if_neg hnever, if_pos (le_refl 0), if_neg hnext]
    rfl

/-- A datagram acknowledges a segment that was sent at a time. -/
def Acknowledges (sn ts : UInt32) (packet : Bytes) : Prop :=
  ∃ seg ∈ segmentsOf packet, seg.1.cmd.toUInt32 = ikcpCmdAck ∧ seg.1.sn = sn ∧ seg.1.ts = ts

/-- What is to be acknowledged is acknowledged in a flush. -/
theorem flush_acks {kcp : Ikcpcb} (h : kcp.WellFormed) (hupdated : kcp.updated = true) {sn ts : UInt32}
    (hack : (sn, ts) ∈ kcp.rcv.acklist) :
    ∃ packet ∈ (ikcpFlush kcp).2, Acknowledges sn ts packet := by
  rcases ikcpFlush_sends h with ⟨hno, -⟩ | ⟨-, added, rest, probes, packets, hf, hout, -, hs⟩
  · exact absurd hupdated hno
  · have hseg : ({ controlSeg kcp with sn, ts } : IkcpSeg) ∈ packets.flatten := by
      rw [hs.split, List.append_assoc]
      exact List.mem_append_left _ (List.mem_map.mpr ⟨(sn, ts), hack, rfl⟩)
    obtain ⟨p, hp, hmem⟩ := List.mem_flatten.mp hseg
    have hpieces : segmentsOf (encodeSegs p) = p.map IkcpSeg.arrived := segmentsOf_encodeSegs fun seg hseg =>
      (hs.passes h hf.fills seg (List.mem_flatten.mpr ⟨p, hp, hseg⟩)).short
    refine ⟨encodeSegs p, hout ▸ List.mem_map_of_mem hp, IkcpSeg.arrived { controlSeg kcp with sn, ts }, ?_, rfl, rfl, rfl⟩
    rw [hpieces]
    exact List.mem_map_of_mem hmem

/-! ## What leaves the clock alone -/

/-- The time of the next flush stays. -/
def SameClock (kcp kcp' : Ikcpcb) : Prop := kcp'.updated = kcp.updated ∧ kcp'.tsFlush = kcp.tsFlush

theorem inputSeg_clock (kcp : Ikcpcb) (vars : InputVars) (h : Head) (data : Bytes) :
    SameClock kcp (inputSeg kcp vars h data).1 := by
  have hmeasure : ∀ (k : Ikcpcb) ts, SameClock k (measureRtt k ts) := by
    intro k ts
    rw [measureRtt]
    split
    · rw [ikcpUpdateAck]
      dsimp only
      split <;> exact ⟨rfl, rfl⟩
    · exact ⟨rfl, rfl⟩
  rw [inputSeg]
  dsimp only
  split
  · exact hmeasure (Ikcpcb.setSnd { kcp with rmtWnd := h.wnd.toUInt32 } (ikcpShrinkBuf (ikcpParseUna kcp.snd h.una))) h.ts
  · split
    · exact ⟨rfl, rfl⟩
    · split
      · exact ⟨rfl, rfl⟩
      · exact ⟨rfl, rfl⟩

theorem input_clock (kcp : Ikcpcb) (data : Bytes) : SameClock kcp (ikcpInput kcp data).2 := by
  refine ikcpInput_keeps (P := SameClock kcp) (fun k vars head data hk => ?_) (fun k sn hk => hk) (fun k hk => ?_) ⟨rfl, rfl⟩ data
  · obtain ⟨hupdated, htime⟩ := inputSeg_clock k vars head data
    exact ⟨hupdated.trans hk.1, htime.trans hk.2⟩
  · have hsame : SameClock k (growCwnd k) := by
      rw [growCwnd]
      dsimp only
      split_ifs <;> exact ⟨rfl, rfl⟩
    exact ⟨hsame.1.trans hk.1, hsame.2.trans hk.2⟩

theorem send_clock (kcp : Ikcpcb) (buffer : Bytes) : SameClock kcp (ikcpSend kcp buffer).2 := by
  rcases ikcpSend_cases kcp buffer with heq | ⟨m, heq⟩
  · rw [heq]
    exact ⟨rfl, rfl⟩
  · rw [heq, ikcpSend_eq]
    exact ⟨rfl, rfl⟩

/-! ## When a session flushes -/

namespace KcpSession

/-- A turn flushes. -/
def Flushes (s : KcpSession) (ms : UInt32) : Prop :=
  ∃ tsFlush, s.update ms =
    ({ kcp := (ikcpFlush (s.kcp.atTime s.kcpNextUpdate tsFlush)).1, kcpNextUpdate := s.kcpNextUpdate + ms },
      (ikcpFlush (s.kcp.atTime s.kcpNextUpdate tsFlush)).2)

/-- A turn does nothing but note the time. -/
def Rests (s : KcpSession) (ms : UInt32) : Prop :=
  ∃ current, s.update ms = ({ kcp := { s.kcp with current }, kcpNextUpdate := s.kcpNextUpdate + ms }, [])

/-- The clocks of a session after `n` turns: the next flush is in the next turn whose number is a multiple
of `k`. -/
structure OnTime (k ms n : Nat) (s : KcpSession) : Prop where
  next : s.kcpNextUpdate = UInt32.ofNat (n * ms)
  interval : s.kcp.interval.toNat = k * ms
  flush : ∃ m, n ≤ m * k ∧ m * k < n + k ∧ (s.kcp.updated = true → s.kcp.tsFlush = UInt32.ofNat (m * k * ms)) ∧
    (s.kcp.updated = false → n = m * k)

variable {k n : Nat} {ms : UInt32} {s : KcpSession}

/-- In its turn, a session flushes. -/
theorem OnTime.flushes (h : s.OnTime k ms.toNat n) (hsmall : k * ms.toNat ≤ 5000) (hpos : 0 < k * ms.toNat) (hdvd : k ∣ n) :
    s.update ms =
      ({ kcp := (ikcpFlush (s.kcp.atTime s.kcpNextUpdate (s.kcpNextUpdate + s.kcp.interval))).1
         kcpNextUpdate := s.kcpNextUpdate + ms },
        (ikcpFlush (s.kcp.atTime s.kcpNextUpdate (s.kcpNextUpdate + s.kcp.interval))).2) := by
  obtain ⟨m, hge, hlt, htime, hnew⟩ := h.flush
  have hinterval := h.interval
  have hn : n = m * k := by
    obtain ⟨j, rfl⟩ := hdvd
    have hk : 0 < k := Nat.pos_of_mul_pos_right hpos
    have hj : m < j + 1 := by
      by_contra hmj
      have hle := Nat.mul_le_mul_right k (Nat.not_lt.mp hmj)
      rw [Nat.add_mul, Nat.one_mul, Nat.mul_comm j k] at hle
      omega
    have hj' : j ≤ m := by
      rw [Nat.mul_comm m k] at hge
      exact Nat.le_of_mul_le_mul_left hge hk
    rw [show m = j by omega, Nat.mul_comm]
  have hdue : s.kcp.updated = true → s.kcp.tsFlush = s.kcpNextUpdate := by
    intro hupdated
    rw [htime hupdated, h.next, hn]
  have hcheck : ikcpCheck s.kcp s.kcpNextUpdate = s.kcpNextUpdate := by
    rcases ikcpCheck_cases s.kcp s.kcpNextUpdate with heq | ⟨hupdated, -, hneg, -⟩
    · exact heq
    · rw [hdue hupdated, itimediff_self] at hneg
      exact absurd hneg (lt_irrefl 0)
  rw [update, hcheck, if_pos (UInt32.le_refl _), update_due hdue (by omega) (by omega)]

/-- In any other turn it rests. -/
theorem OnTime.rests (h : s.OnTime k ms.toNat n) (hsmall : k * ms.toNat ≤ 5000) (hpos : 0 < k * ms.toNat) (hdvd : ¬ k ∣ n) :
    s.kcp.updated = true ∧ s.Rests ms := by
  obtain ⟨m, hge, hlt, htime, hnew⟩ := h.flush
  have hne : n ≠ m * k := fun heq => hdvd (heq ▸ Nat.dvd_mul_left k m)
  have hupdated : s.kcp.updated = true := by
    cases hcase : s.kcp.updated with
    | true => rfl
    | false => exact absurd (hnew hcase) hne
  have hms : 0 < ms.toNat := Nat.pos_of_mul_pos_left hpos
  have hdiff : -10000 ≤ itimediff s.kcpNextUpdate s.kcp.tsFlush ∧ itimediff s.kcpNextUpdate s.kcp.tsFlush < 0 := by
    have hlate : n * ms.toNat < m * k * ms.toNat := Nat.mul_lt_mul_of_pos_right (Nat.lt_of_le_of_ne hge hne) hms
    have hearly : m * k * ms.toNat ≤ (n + k) * ms.toNat := Nat.mul_le_mul_right _ hlt.le
    rw [Nat.add_mul] at hearly
    rw [h.next, htime hupdated, itimediff_ofNat (by omega) (by omega)]
    omega
  refine ⟨hupdated, ?_⟩
  rcases s.update_cases ms with heq | heq
  · rw [update_early hupdated hdiff.1 hdiff.2] at heq
    exact ⟨s.kcpNextUpdate, heq⟩
  · exact ⟨s.kcp.current, heq⟩

/-- A turn or another call. -/
def Event.isUpdate : Event → Bool
  | .update _ => true
  | _ => false

theorem OnTime.of_clock (h : s.OnTime k ms.toNat n) {s' : KcpSession} (hclock : SameClock s.kcp s'.kcp)
    (hsame : s'.kcp.settings = s.kcp.settings) (hnext : s'.kcpNextUpdate = s.kcpNextUpdate) : s'.OnTime k ms.toNat n := by
  have hinterval : s'.kcp.interval = s.kcp.interval := congrArg Settings.interval hsame
  refine ⟨hnext.trans h.next, hinterval ▸ h.interval, ?_⟩
  rw [hclock.1, hclock.2]
  exact h.flush

theorem OnTime.turn (h : s.OnTime k ms.toNat n) (hsmall : k * ms.toNat ≤ 5000) (hpos : 0 < k * ms.toNat) :
    (s.update ms).1.OnTime k ms.toNat (n + 1) := by
  have hk : 0 < k := Nat.pos_of_mul_pos_right hpos
  have hnext : s.kcpNextUpdate + ms = UInt32.ofNat ((n + 1) * ms.toNat) := by
    rw [h.next, Nat.add_mul, Nat.one_mul, UInt32.ofNat_add, UInt32.ofNat_toNat]
  by_cases hdvd : k ∣ n
  · obtain ⟨m, rfl⟩ := hdvd
    have hinterval : s.kcp.interval = UInt32.ofNat (k * ms.toNat) := by
      rw [← h.interval, UInt32.ofNat_toNat]
    have hflushed : Flushed (s.kcp.atTime s.kcpNextUpdate (s.kcpNextUpdate + s.kcp.interval)) _ := ikcpFlush_flushed rfl
    rw [h.flushes hsmall hpos ⟨m, rfl⟩]
    refine ⟨hnext, ?_, m + 1, ?_, ?_, fun _ => ?_, fun hno => ?_⟩
    · rw [← h.interval]
      exact congrArg (fun c : Settings => c.interval.toNat) (flush_settings (s.kcp.atTime _ _))
    · rw [Nat.add_mul, Nat.one_mul, Nat.mul_comm k m]
      omega
    · rw [Nat.add_mul, Nat.one_mul, Nat.mul_comm k m]
      omega
    · refine hflushed.tsFlush.trans ?_
      show s.kcpNextUpdate + s.kcp.interval = _
      rw [h.next, hinterval, ← UInt32.ofNat_add, Nat.add_mul, Nat.one_mul, Nat.mul_comm m k, Nat.add_mul]
    · rw [hflushed.updated] at hno
      cases hno
  · obtain ⟨hupdated, current, heq⟩ := h.rests hsmall hpos hdvd
    obtain ⟨m, hge, hlt, htime, -⟩ := h.flush
    have hne : n ≠ m * k := fun heq => hdvd (heq ▸ Nat.dvd_mul_left k m)
    rw [heq]
    refine ⟨hnext, h.interval, m, by omega, by omega, htime, fun hno => ?_⟩
    rw [show s.kcp.updated = false from hno] at hupdated
    cases hupdated

theorem OnTime.step (h : s.OnTime k ms.toNat n) (hsmall : k * ms.toNat ≤ 5000) (hpos : 0 < k * ms.toNat) {e : Event}
    (he : ∀ ms', e = .update ms' → ms' = ms) : (s.step e).1.OnTime k ms.toNat (n + if e.isUpdate then 1 else 0) := by
  cases e with
  | send buf => exact h.of_clock (send_clock s.kcp buf) (send_settings s.kcp buf) rfl
  | recv len => exact h.of_clock ⟨rfl, rfl⟩ (setRcv_settings s.kcp (recv_wnd s.kcp.rcv _)) rfl
  | pushToKcp buf => exact h.of_clock (input_clock s.kcp buf) (input_settings s.kcp buf) rfl
  | update ms' =>
    rw [he ms' rfl]
    exact h.turn hsmall hpos

theorem OnTime.after (h : s.OnTime k ms.toNat n) (hsmall : k * ms.toNat ≤ 5000) (hpos : 0 < k * ms.toNat) {events : List Event}
    (hms : ∀ ms', Event.update ms' ∈ events → ms' = ms) :
    (s.after events).OnTime k ms.toNat (n + events.countP Event.isUpdate) := by
  induction events generalizing s n with
  | nil => exact h
  | cons e events ih =>
    have hstep := h.step hsmall hpos (e := e) fun ms' heq => hms ms' (heq ▸ List.mem_cons_self)
    have hrest := ih hstep fun ms' hmem => hms ms' (List.mem_cons_of_mem _ hmem)
    rwa [Nat.add_assoc, Nat.add_comm (if e.isUpdate then 1 else 0), ← List.countP_cons] at hrest

theorem nodelay_clock (kcp : Ikcpcb) (interval : Int32) : (ikcpNodelay kcp 1 interval 2 1).updated = kcp.updated := by
  rw [ikcpNodelay]
  split_ifs <;> rfl

theorem nodelay_interval (kcp : Ikcpcb) {interval : Int32} (hge : 10 ≤ interval.toInt) (hle : interval.toInt ≤ 5000) :
    (ikcpNodelay kcp 1 interval 2 1).interval = interval.toUInt32 := by
  have hzero : interval ≥ 0 := Int32.le_iff_toInt_le.mpr (show (0 : Int) ≤ interval.toInt by omega)
  have hsmall : ¬ interval > 5000 := fun hlt => by
    have hint : (5000 : Int) < interval.toInt := Int32.lt_iff_toInt_lt.mp hlt
    omega
  have hlarge : ¬ interval < 10 := fun hlt => by
    have hint : interval.toInt < (10 : Int) := Int32.lt_iff_toInt_lt.mp hlt
    omega
  rw [ikcpNodelay, if_pos hzero, if_neg hsmall, if_neg hlarge]
  rfl

theorem new_onTime {id kcpInterval : UInt64} (h : kcpInterval.toNat = k * ms.toNat) (hge : 10 ≤ kcpInterval.toNat)
    (hle : kcpInterval.toNat ≤ 5000) : (new id kcpInterval).OnTime k ms.toNat 0 := by
  have hk : 0 < k := by
    rcases Nat.eq_zero_or_pos k with rfl | hk
    · omega
    · exact hk
  have hcut : kcpInterval.toUInt32.toNat = kcpInterval.toNat := by
    rw [UInt64.toNat_toUInt32]
    exact Nat.mod_eq_of_lt (by omega)
  have hint : kcpInterval.toUInt32.toInt32.toInt = kcpInterval.toNat := by
    have heq := asInt_eq (x := kcpInterval.toUInt32) (by omega)
    rwa [hcut] at heq
  have hinterval : (new id kcpInterval).kcp.interval = kcpInterval.toUInt32 := by
    have hproj : ∀ kcp : Ikcpcb, kcp.interval = kcp.settings.interval := fun _ => rfl
    rw [hproj, new_settings, nodelay_interval (ikcpCreate id) (by omega) (by omega)]
    rfl
  have hnew : (new id kcpInterval).kcp.updated = false := by
    have hrest : ∀ kcp : Ikcpcb, (ikcpWndsize (ikcpSetmtu kcp 1400).2 256 256).updated = kcp.updated := fun _ => rfl
    exact (hrest _).trans (nodelay_clock (ikcpCreate id) kcpInterval.toUInt32.toInt32)
  refine ⟨?_, ?_, 0, by omega, by omega, fun hupdated => ?_, fun _ => by omega⟩
  · rw [Nat.zero_mul]
    rfl
  · rw [hinterval, hcut, h]
  · rw [hnew] at hupdated
    cases hupdated

/-- With an interval of `k` turns, a session flushes in every `k`th turn and rests in the others, whatever is
called in between and however often its clock starts over. -/
theorem flushes_every {id kcpInterval : UInt64} (h : kcpInterval.toNat = k * ms.toNat) (hge : 10 ≤ kcpInterval.toNat)
    (hle : kcpInterval.toNat ≤ 5000) {events : List Event} (hms : ∀ ms', Event.update ms' ∈ events → ms' = ms) :
    (k ∣ events.countP Event.isUpdate → ((new id kcpInterval).after events).Flushes ms) ∧
      (¬ k ∣ events.countP Event.isUpdate → ((new id kcpInterval).after events).Rests ms) := by
  have hstart : (new id kcpInterval).OnTime k ms.toNat 0 := new_onTime h hge hle
  have honTime := hstart.after (by omega) (by omega) hms
  rw [Nat.zero_add] at honTime
  exact ⟨fun hdvd => ⟨_, honTime.flushes (by omega) (by omega) hdvd⟩,
    fun hdvd => (honTime.rests (by omega) (by omega) hdvd).2⟩

/-- In its third turn, with something sent after the second. -/
theorem flushes_every_other :
    ((new 7 100).after [.update 50, .update 50, .send [1]]).Flushes 50 := by
  have hevery := @flushes_every 2 50 7 100 (by decide) (by decide) (by decide) [.update 50, .update 50, .send [1]] (by simp)
  exact hevery.1 (by decide)

/-- No call but a flush takes out what is to be acknowledged. -/
theorem step_acklist {settings : Settings} (hs : s.Sound settings) {e : Event} (he : e.isUpdate = false) :
    s.kcp.rcv.acklist <+: (s.step e).1.kcp.rcv.acklist := by
  cases e with
  | send buf =>
    have hrcv : (ikcpSend s.kcp buf).2.rcv = s.kcp.rcv := by
      rcases ikcpSend_cases s.kcp buf with heq | ⟨m, heq⟩
      · rw [heq]
      · rw [heq, ikcpSend_eq]
        rfl
    show s.kcp.rcv.acklist <+: (ikcpSend s.kcp buf).2.rcv.acklist
    rw [hrcv]
  | recv len =>
    show s.kcp.rcv.acklist <+: (s.kcp.rcv.recv _).2.2.acklist
    rw [recv_acklist]
  | pushToKcp buf => exact (input_shrinks hs.wellFormed buf).acks
  | update ms => cases he

theorem acknowledges_until {settings : Settings} (hs : s.Sound settings) (h : s.OnTime k ms.toNat n)
    (hsmall : k * ms.toNat ≤ 5000) (hpos : 0 < k * ms.toNat) {sn ts : UInt32} (hack : (sn, ts) ∈ s.kcp.rcv.acklist)
    {events : List Event} (hms : ∀ ms', Event.update ms' ∈ events → ms' = ms)
    (hdue : ∃ j, n ≤ j * k ∧ j * k < n + events.countP Event.isUpdate) :
    ∃ packet ∈ Run.outputs KcpSession.step s events, Acknowledges sn ts packet := by
  induction events generalizing s n with
  | nil =>
    obtain ⟨j, hge, hlt⟩ := hdue
    rw [List.countP_nil] at hlt
    omega
  | cons e events ih =>
    have hms' : ∀ ms', Event.update ms' ∈ events → ms' = ms := fun ms' hmem => hms ms' (List.mem_cons_of_mem _ hmem)
    have honTime := h.step hsmall hpos (e := e) fun ms' heq => hms ms' (heq ▸ List.mem_cons_self)
    have hsound := hs.step e
    rw [Run.outputs]
    cases he : e.isUpdate with
    | false =>
      rw [he] at honTime
      rw [List.countP_cons_of_neg (by rw [he]; decide)] at hdue
      obtain ⟨packet, hpacket, hacks⟩ := ih hsound honTime ((step_acklist hs he).subset hack) hms' hdue
      exact ⟨packet, List.mem_append_right _ hpacket, hacks⟩
    | true =>
      rw [he, if_pos rfl] at honTime
      rw [List.countP_cons_of_pos he] at hdue
      obtain ⟨t, rfl⟩ : ∃ t, e = .update t := by
        cases e with
        | update t => exact ⟨t, rfl⟩
        | _ => cases he
      have ht := hms t List.mem_cons_self
      subst ht
      by_cases hdvd : k ∣ n
      · -- the turn flushes
        have hflush := h.flushes hsmall hpos hdvd
        have hwf : (s.kcp.atTime s.kcpNextUpdate (s.kcpNextUpdate + s.kcp.interval)).WellFormed :=
          hs.wellFormed.of_frame ⟨rfl, rfl, rfl⟩
        obtain ⟨packet, hpacket, hacks⟩ := flush_acks hwf rfl hack
        refine ⟨packet, List.mem_append_left _ ?_, hacks⟩
        show packet ∈ (s.update t).2
        rw [hflush]
        exact hpacket
      · obtain ⟨-, current, hrest⟩ := h.rests hsmall hpos hdvd
        have hack' : (sn, ts) ∈ (s.step (.update t)).1.kcp.rcv.acklist := by
          show (sn, ts) ∈ (s.update t).1.kcp.rcv.acklist
          rw [hrest]
          exact hack
        obtain ⟨j, hge, hlt⟩ := hdue
        have hne : n ≠ j * k := fun heq => hdvd (heq ▸ Nat.dvd_mul_left k j)
        obtain ⟨packet, hpacket, hacks⟩ := ih hsound honTime hack' hms' ⟨j, by omega, by omega⟩
        exact ⟨packet, List.mem_append_right _ hpacket, hacks⟩

/-- What a session is to acknowledge it acknowledges within an interval, whatever is called in between. -/
theorem acknowledges_in_time {id kcpInterval : UInt64} (h : kcpInterval.toNat = k * ms.toNat) (hge : 10 ≤ kcpInterval.toNat)
    (hle : kcpInterval.toNat ≤ 5000) {before events : List Event} (hms : ∀ ms', Event.update ms' ∈ before ++ events → ms' = ms)
    {sn ts : UInt32} (hack : (sn, ts) ∈ ((new id kcpInterval).after before).kcp.rcv.acklist)
    (hturns : k ≤ events.countP Event.isUpdate) :
    ∃ packet ∈ Run.outputs KcpSession.step ((new id kcpInterval).after before) events, Acknowledges sn ts packet := by
  have hstart : (new id kcpInterval).OnTime k ms.toNat 0 := new_onTime h hge hle
  have hbefore : ∀ ms', Event.update ms' ∈ before → ms' = ms := fun ms' hmem => hms ms' (List.mem_append_left _ hmem)
  have honTime := hstart.after (by omega) (by omega) hbefore
  obtain ⟨j, hge', hlt, -⟩ := honTime.flush
  exact acknowledges_until ((new_sound id kcpInterval).after before) honTime (by omega) (by omega) hack
    (fun ms' hmem => hms ms' (List.mem_append_right _ hmem)) ⟨j, hge', by omega⟩

theorem acknowledges_five :
    ∃ packet ∈ Run.outputs KcpSession.step ((new 7 100).after [.update 50, .pushToKcp fiveBytes]) [.recv 4, .update 50, .update 50],
      Acknowledges 0 0 packet :=
  @acknowledges_in_time 2 50 7 100 (by decide) (by decide) (by decide) [.update 50, .pushToKcp fiveBytes]
    [.recv 4, .update 50, .update 50] (by simp) 0 0 (by decide +kernel) (by decide)

end KcpSession

end Yagips.Kcp
