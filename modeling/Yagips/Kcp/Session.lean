import Yagips.Kcp.Calls

/-!
# Sessions

How a session sets its control block up, and what holds of it then.
-/
namespace Yagips.Kcp

open Yagips.Lib

/-- What the two ends of a link agree on or not; the windows and the unit are not absurdly large. -/
structure Config where
  nodelay : Int32
  interval : Int32
  resend : Int32
  nc : Int32
  mtu : Int32
  sndwnd : Int32
  rcvwnd : Int32
  mtu_le : mtu.toInt ≤ 2 ^ 28
  sndwnd_le : sndwnd.toInt ≤ 2 ^ 28
  rcvwnd_le : rcvwnd.toInt ≤ 2 ^ 28

/-- A control block as the constructor of `KcpSession` sets it up. -/
def Config.opened (c : Config) (conv : UInt64) : Ikcpcb :=
  let kcp := ikcpNodelay (ikcpCreate conv) c.nodelay c.interval c.resend c.nc
  ikcpWndsize (ikcpSetmtu kcp c.mtu).2 c.sndwnd c.rcvwnd

/-- What every session asks for. The interval is cut to an `int` at the call. -/
def sessionConfig (kcpInterval : UInt64) : Config where
  nodelay := 1
  interval := kcpInterval.toUInt32.toInt32
  resend := 2
  nc := 1
  mtu := 1400
  sndwnd := 256
  rcvwnd := 256
  mtu_le := by decide
  sndwnd_le := by decide
  rcvwnd_le := by decide

theorem nodelay_frame (kcp : Ikcpcb) (nodelay interval resend nc : Int32) :
    (ikcpNodelay kcp nodelay interval resend nc).snd = kcp.snd ∧
      (ikcpNodelay kcp nodelay interval resend nc).rcv = kcp.rcv ∧
      (ikcpNodelay kcp nodelay interval resend nc).settings =
        { kcp.settings with
          interval := (ikcpNodelay kcp nodelay interval resend nc).interval
          nocwnd := (ikcpNodelay kcp nodelay interval resend nc).nocwnd } := by
  rw [ikcpNodelay]
  dsimp only
  split_ifs <;> exact ⟨rfl, rfl, rfl⟩

theorem toUInt32_toNat {x : Int32} (h : 0 ≤ x.toInt) : (x.toUInt32.toNat : Int) = x.toInt := by
  have hcond := BitVec.toInt_eq_toNat_cond x.toBitVec
  have hlt := x.toUInt32.toNat_lt
  change x.toInt = if 2 * x.toUInt32.toNat < 2 ^ 32 then (x.toUInt32.toNat : Int) else x.toUInt32.toNat - (2 ^ 32 : Nat) at hcond
  split at hcond
  · exact hcond.symm
  · omega

theorem Settings.Good.setmtu {kcp : Ikcpcb} (h : kcp.settings.Good) {mtu : Int32} (hle : mtu.toInt ≤ 2 ^ 28) :
    (ikcpSetmtu kcp mtu).2.settings.Good := by
  rw [ikcpSetmtu]
  split
  case isTrue => exact h
  case isFalse hge =>
    have hfifty : 50 ≤ mtu.toInt := by
      have hlt := fun hlt => hge (.inl hlt)
      exact Int.not_lt.mp fun h => hlt (Int32.lt_iff_toInt_lt.mpr h)
    have hmtu := toUInt32_toNat (x := mtu) (by omega)
    have hmss : (mtu.toUInt32 - ikcpOverhead).toNat = mtu.toUInt32.toNat - 28 := by
      apply UInt32.toNat_sub_of_le
      rw [UInt32.le_iff_toNat_le]
      show 28 ≤ _
      omega
    have hbuffer : ((mtu.toUInt32 + ikcpOverhead) * 3).toNat = (mtu.toUInt32.toNat + 28) * 3 := by
      have hadd : (mtu.toUInt32 + ikcpOverhead).toNat = mtu.toUInt32.toNat + 28 := by
        rw [UInt32.toNat_add]
        exact Nat.mod_eq_of_lt (show mtu.toUInt32.toNat + 28 < 2 ^ 32 by omega)
      rw [UInt32.toNat_mul, hadd]
      exact Nat.mod_eq_of_lt (show (mtu.toUInt32.toNat + 28) * 3 < 2 ^ 32 by omega)
    refine ⟨⟨?_, ?_⟩, ?_, ?_, ?_, h.sndWnd, h.sndWnd_pos, h.stream⟩
    · show 0 < (mtu.toUInt32 - ikcpOverhead).toNat
      omega
    · show (mtu.toUInt32 - ikcpOverhead).toNat < 2 ^ 31
      omega
    · show mtu.toUInt32.toNat = (mtu.toUInt32 - ikcpOverhead).toNat + 28
      omega
    · show mtu.toUInt32.toNat < 2 ^ 31
      omega
    · show mtu.toUInt32.toNat ≤ ((mtu.toUInt32 + ikcpOverhead) * 3).toNat
      omega

theorem create_good (conv : UInt64) : (ikcpCreate conv).settings.Good :=
  ⟨⟨(by decide : 0 < (1400 - ikcpOverhead).toNat), (by decide : (1400 - ikcpOverhead).toNat < 2 ^ 31)⟩,
    (by decide : (1400 : UInt32).toNat = (1400 - ikcpOverhead).toNat + 28), (by decide : (1400 : UInt32).toNat < 2 ^ 31),
    (by decide : (1400 : UInt32).toNat ≤ ((1400 + ikcpOverhead) * 3).toNat), (by decide : (32 : UInt32).toNat < 2 ^ 31),
    (by decide : 0 < (32 : UInt32).toNat), rfl⟩

theorem setmtu_frame (kcp : Ikcpcb) (mtu : Int32) :
    (ikcpSetmtu kcp mtu).2.snd = kcp.snd ∧ (ikcpSetmtu kcp mtu).2.rcv = kcp.rcv ∧
      (ikcpSetmtu kcp mtu).2.conv = kcp.conv ∧ (ikcpSetmtu kcp mtu).2.sndWnd = kcp.sndWnd := by
  rw [ikcpSetmtu]
  split <;> exact ⟨rfl, rfl, rfl, rfl⟩

/-- What `ikcp_wndsize` leaves, and the windows it sets. -/
theorem wndsize_spec (kcp : Ikcpcb) (sndwnd rcvwnd : Int32) :
    (ikcpWndsize kcp sndwnd rcvwnd).snd = kcp.snd ∧
      (ikcpWndsize kcp sndwnd rcvwnd).rcv = { kcp.rcv with rcvWnd := (ikcpWndsize kcp sndwnd rcvwnd).rcv.rcvWnd } ∧
      (ikcpWndsize kcp sndwnd rcvwnd).settings = { kcp.settings with
        sndWnd := (ikcpWndsize kcp sndwnd rcvwnd).sndWnd, rcvWnd := (ikcpWndsize kcp sndwnd rcvwnd).rcv.rcvWnd } ∧
      (ikcpWndsize kcp sndwnd rcvwnd).sndWnd = (if sndwnd > 0 then sndwnd.toUInt32 else kcp.sndWnd) ∧
      (ikcpWndsize kcp sndwnd rcvwnd).rcv.rcvWnd =
        if rcvwnd > 0 then imax rcvwnd.toUInt32 ikcpWndRcv else kcp.rcv.rcvWnd := by
  rw [ikcpWndsize]
  dsimp only
  split_ifs <;> exact ⟨rfl, rfl, rfl, rfl, rfl⟩

/-- What holds of a control block when it is opened. -/
structure Fresh (conv : UInt64) (kcp : Ikcpcb) : Prop where
  conv : kcp.conv = conv
  snd : kcp.snd = {}
  rcv : kcp.rcv = { rcvWnd := kcp.rcv.rcvWnd }
  good : kcp.settings.Good
  sndWnd : kcp.sndWnd.toNat ≤ 2 ^ 28
  rcvWnd_ge : 128 ≤ kcp.rcv.rcvWnd.toNat
  rcvWnd_le : kcp.rcv.rcvWnd.toNat ≤ 2 ^ 28

theorem imax_cases (a b : UInt32) : imax a b = a ∧ b.toNat ≤ a.toNat ∨ imax a b = b ∧ a.toNat < b.toNat := by
  rw [imax]
  split
  case isTrue h => exact .inl ⟨rfl, UInt32.le_iff_toNat_le.mp h⟩
  case isFalse h => exact .inr ⟨rfl, UInt32.lt_iff_toNat_lt.mp (UInt32.not_le.mp h)⟩

theorem Config.opened_fresh (c : Config) (conv : UInt64) : Fresh conv (c.opened conv) := by
  have hpos : ∀ {x : Int32}, x > 0 → 0 < x.toInt := fun h => Int32.lt_iff_toInt_lt.mp h
  let kcp := ikcpNodelay (ikcpCreate conv) c.nodelay c.interval c.resend c.nc
  obtain ⟨hsnd, hrcv, hset⟩ := nodelay_frame (ikcpCreate conv) c.nodelay c.interval c.resend c.nc
  obtain ⟨hsnd₁, hrcv₁, hconv₁, hwnd₁⟩ := setmtu_frame kcp c.mtu
  obtain ⟨hsnd₂, hrcv₂, hset₂, hsndWnd₂, hrcvWnd₂⟩ := wndsize_spec (ikcpSetmtu kcp c.mtu).2 c.sndwnd c.rcvwnd
  have hgood : kcp.settings.Good := by
    have h := create_good conv
    rw [hset]
    exact ⟨h.mss, h.mtu, h.mtu_lt, h.buffer, h.sndWnd, h.sndWnd_pos, h.stream⟩
  have hgood₁ := hgood.setmtu c.mtu_le
  have hsndWnd : 0 < (c.opened conv).sndWnd.toNat ∧ (c.opened conv).sndWnd.toNat ≤ 2 ^ 28 := by
    have hle := c.sndwnd_le
    rw [Config.opened, hsndWnd₂]
    split
    case isTrue hsndwnd =>
      have hlt := hpos hsndwnd
      have hnat := toUInt32_toNat hlt.le
      omega
    case isFalse =>
      have hold : (ikcpSetmtu kcp c.mtu).2.sndWnd = 32 := hwnd₁.trans (congrArg Settings.sndWnd hset)
      rw [hold]
      decide
  have hrcvWnd : 128 ≤ (c.opened conv).rcv.rcvWnd.toNat ∧ (c.opened conv).rcv.rcvWnd.toNat ≤ 2 ^ 28 := by
    have hle := c.rcvwnd_le
    have h128 : ikcpWndRcv.toNat = 128 := rfl
    rw [Config.opened, hrcvWnd₂]
    split
    case isTrue hrcvwnd =>
      have hnat := toUInt32_toNat (hpos hrcvwnd).le
      rcases imax_cases c.rcvwnd.toUInt32 ikcpWndRcv with ⟨heq, hge⟩ | ⟨heq, -⟩
      · rw [heq]
        omega
      · rw [heq]
        omega
    case isFalse =>
      have hold : (ikcpSetmtu kcp c.mtu).2.rcv.rcvWnd = ikcpWndRcv := congrArg Rcv.rcvWnd (hrcv₁.trans hrcv)
      rw [hold]
      omega
  refine ⟨?_, hsnd₂.trans (hsnd₁.trans hsnd), ?_, ?_, hsndWnd.2, hrcvWnd.1, hrcvWnd.2⟩
  · have hconv₂ : (c.opened conv).conv = (ikcpSetmtu kcp c.mtu).2.conv := congrArg Settings.conv hset₂
    exact hconv₂.trans (hconv₁.trans (congrArg Settings.conv hset))
  · refine hrcv₂.trans ?_
    rw [hrcv₁.trans hrcv]
    rfl
  · have hset' : (c.opened conv).settings = { (ikcpSetmtu kcp c.mtu).2.settings with
        sndWnd := (c.opened conv).sndWnd, rcvWnd := (c.opened conv).rcv.rcvWnd } := hset₂
    rw [hset']
    exact ⟨hgood₁.mss, hgood₁.mtu, hgood₁.mtu_lt, hgood₁.buffer, show (c.opened conv).sndWnd.toNat < 2 ^ 31 by omega,
      hsndWnd.1, hgood₁.stream⟩

/-- A window that was not asked for is that of a control block just created. -/
theorem Config.opened_rcvWnd (c : Config) (conv : UInt64) {n : Nat} (hn : 128 < n) (h : c.rcvwnd.toInt < n) :
    (c.opened conv).rcv.rcvWnd.toNat < n := by
  have h128 : ikcpWndRcv.toNat = 128 := rfl
  obtain ⟨-, hrcv, -⟩ := nodelay_frame (ikcpCreate conv) c.nodelay c.interval c.resend c.nc
  obtain ⟨-, hrcv₁, -⟩ := setmtu_frame (ikcpNodelay (ikcpCreate conv) c.nodelay c.interval c.resend c.nc) c.mtu
  obtain ⟨-, -, -, -, hrcvWnd⟩ :=
    wndsize_spec (ikcpSetmtu (ikcpNodelay (ikcpCreate conv) c.nodelay c.interval c.resend c.nc) c.mtu).2 c.sndwnd c.rcvwnd
  rw [Config.opened, hrcvWnd]
  split
  case isTrue hrcvwnd =>
    have hpos : 0 < c.rcvwnd.toInt := Int32.lt_iff_toInt_lt.mp hrcvwnd
    have hnat := toUInt32_toNat hpos.le
    rcases imax_cases c.rcvwnd.toUInt32 ikcpWndRcv with ⟨heq, -⟩ | ⟨heq, -⟩
    · rw [heq]
      omega
    · rw [heq]
      omega
  case isFalse =>
    rw [hrcv₁, hrcv]
    show ikcpWndRcv.toNat < n
    omega

theorem Fresh.wellFormed {conv : UInt64} {kcp : Ikcpcb} (h : Fresh conv kcp) : kcp.WellFormed := by
  have hwnd := h.rcvWnd_le
  refine ⟨h.good, ?_, ?_, ?_, ?_⟩
  · rw [h.snd]
    exact ⟨⟨(ahead_self 0).le.trans (Nat.zero_le _), rfl, rfl, by simp, List.Pairwise.nil⟩, rfl⟩
  · rw [h.rcv]
    exact ⟨⟨show kcp.rcv.rcvWnd.toNat < 2 ^ 31 by omega, rfl, Nat.zero_le _, rfl, by simp, List.Pairwise.nil, le_rfl⟩,
      by simp⟩
  · rw [h.snd]
    simp
  · rw [h.snd]
    simp

end Yagips.Kcp
