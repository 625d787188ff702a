import Yagips.Kcp.Control

/-!
# Datagrams that come in

`ikcp_input` goes through the segments of a datagram: each tells how far the other end has received, and
an acknowledgement, a push or a question about the window besides.
-/
namespace Yagips.Kcp

open Yagips.Lib

/-! ## Acknowledgements -/

/-- The time of a round trip, from an acknowledgement. -/
def ikcpUpdateAck (kcp : Ikcpcb) (rtt : Int32) : Ikcpcb :=
  let kcp :=
    if kcp.rxSrtt = 0 then { kcp with rxSrtt := rtt, rxRttval := rtt / 2 }
    else
      let delta := (rtt - kcp.rxSrtt).toInt64
      let delta := if delta < 0 then -delta else delta
      let rxSrtt := (7 * kcp.rxSrtt + rtt) / 8
      { kcp with
        rxRttval := (((3 * kcp.rxRttval).toInt64 + delta) / 4).toInt32
        rxSrtt := if rxSrtt < 1 then 1 else rxSrtt }
  let rto := kcp.rxSrtt.toUInt32 + imax kcp.interval (4 * kcp.rxRttval).toUInt32
  { kcp with rxRto := (ibound kcp.rxMinrto.toUInt32 rto 60000).toInt32 }

def ikcpShrinkBuf (s : Snd) : Snd :=
  match s.sndBuf with
  | seg :: _ => { s with sndUna := seg.sn }
  | [] => { s with sndUna := s.sndNxt }

/-- The loop of `ikcp_parse_ack`: the segments left, and whether one was deleted. -/
def ackLoop (sn : UInt32) : List IkcpSeg → List IkcpSeg × Bool
  | [] => ([], false)
  | seg :: p =>
    if sn = seg.sn then (p, true)
    else if itimediff sn seg.sn < 0 then (seg :: p, false)
    else
      let (rest, deleted) := ackLoop sn p
      (seg :: rest, deleted)

def ikcpParseAck (s : Snd) (sn : UInt32) : Snd :=
  if itimediff sn s.sndUna < 0 ∨ itimediff sn s.sndNxt ≥ 0 then s
  else
    let (sndBuf, deleted) := ackLoop sn s.sndBuf
    { s with sndBuf, nsndBuf := if deleted then s.nsndBuf - 1 else s.nsndBuf }

def unaLoop (una : UInt32) : List IkcpSeg → Snd → Snd
  | [], s => { s with sndBuf := [] }
  | seg :: p, s =>
    if itimediff una seg.sn > 0 then unaLoop una p { s with nsndBuf := s.nsndBuf - 1 }
    else { s with sndBuf := seg :: p }

def ikcpParseUna (s : Snd) (una : UInt32) : Snd := unaLoop una s.sndBuf s

def fastackLoop (sn : UInt32) : List IkcpSeg → List IkcpSeg
  | [] => []
  | seg :: p =>
    if itimediff sn seg.sn < 0 then seg :: p
    else if sn ≠ seg.sn then { seg with fastack := seg.fastack + 1 } :: fastackLoop sn p
    else seg :: fastackLoop sn p

def ikcpParseFastack (s : Snd) (sn : UInt32) : Snd :=
  if itimediff sn s.sndUna < 0 ∨ itimediff sn s.sndNxt ≥ 0 then s
  else { s with sndBuf := fastackLoop sn s.sndBuf }

/-- The size of a new block: the first of 8, 16, 32, … that is enough. -/
def newblock (newsize : Nat) : Nat → Nat → Nat
  | 0, block => block
  | fuel + 1, block => if block < newsize then newblock newsize fuel (block * 2) else block

def ikcpAckPush (r : Rcv) (sn ts : UInt32) : Rcv :=
  let newsize := r.acklist.length + 1
  let ackblock := if newsize > r.ackblock then newblock newsize newsize 8 else r.ackblock
  { r with ackblock, acklist := r.acklist ++ [(sn, ts)] }

/-! ## Data -/

/-- The loop that goes back over `rcv_buf`, here over its reverse: what it is with the new segment, or
`none` where it has it. -/
def backLoop (newseg : IkcpSeg) : List IkcpSeg → Option (List IkcpSeg)
  | [] => some [newseg]
  | seg :: prev =>
    if seg.sn = newseg.sn then none
    else if itimediff newseg.sn seg.sn > 0 then some (newseg :: seg :: prev)
    else (backLoop newseg prev).map (seg :: ·)

def ikcpParseData (r : Rcv) (newseg : IkcpSeg) : Rcv :=
  if itimediff newseg.sn (r.rcvNxt + r.rcvWnd) ≥ 0 ∨ itimediff newseg.sn r.rcvNxt < 0 then r
  else
    let r :=
      match backLoop newseg r.rcvBuf.reverse with
      | some rev => { r with rcvBuf := rev.reverse, nrcvBuf := r.nrcvBuf + 1 }
      | none => r
    r.moveAvailable

/-- A push: it is acknowledged if it is not beyond the window, and kept if it is in it. -/
def pushSeg (r : Rcv) (h : Head) (data : Bytes) : Rcv :=
  if itimediff h.sn (r.rcvNxt + r.rcvWnd) < 0 then
    let r := ikcpAckPush r h.sn h.ts
    if itimediff h.sn r.rcvNxt ≥ 0 then
      ikcpParseData r
        { conv := h.conv, cmd := h.cmd.toUInt32, frg := h.frg.toUInt32, wnd := h.wnd.toUInt32, ts := h.ts
          sn := h.sn, una := h.una, data }
    else r
  else r

/-! ## A datagram -/

/-- `flag`, `maxack` (`latest_ts` is not used). -/
structure InputVars where
  flag : Bool := false
  maxack : UInt32 := 0

/-- The largest number acknowledged in a datagram. -/
def InputVars.ack (vars : InputVars) (sn : UInt32) : InputVars :=
  if ¬ vars.flag then { flag := true, maxack := sn }
  else if itimediff sn vars.maxack > 0 then { vars with maxack := sn }
  else vars

def measureRtt (kcp : Ikcpcb) (ts : UInt32) : Ikcpcb :=
  if itimediff kcp.current ts ≥ 0 then ikcpUpdateAck kcp (Int32.ofInt (itimediff kcp.current ts)) else kcp

/-- What is done for one segment that passes the tests. -/
def inputSeg (kcp : Ikcpcb) (vars : InputVars) (h : Head) (data : Bytes) : Ikcpcb × InputVars :=
  let kcp := { kcp with rmtWnd := h.wnd.toUInt32 }
  let kcp := kcp.setSnd (ikcpShrinkBuf (ikcpParseUna kcp.snd h.una))
  let cmd := h.cmd.toUInt32
  if cmd = ikcpCmdAck then
    let kcp := measureRtt kcp h.ts
    (kcp.setSnd (ikcpShrinkBuf (ikcpParseAck kcp.snd h.sn)), vars.ack h.sn)
  else if cmd = ikcpCmdPush then (kcp.setRcv (pushSeg kcp.rcv h data), vars)
  else if cmd = ikcpCmdWask then ({ kcp with probe := kcp.probe ||| ikcpAskTell }, vars)
  else (kcp, vars)

/-- The loop of `ikcp_input`, with what it returns early. Every turn takes 28 bytes, so that the
length of the datagram is enough fuel. -/
def inputLoop : Nat → Bytes → Ikcpcb → InputVars → Option Int × Ikcpcb × InputVars
  | 0, _, kcp, vars => (none, kcp, vars)
  | fuel + 1, data, kcp, vars =>
    if data.length < ikcpOverhead.toNat then (none, kcp, vars)
    else
      let (h, data) := decodeHead data
      if h.conv ≠ kcp.conv then (some (-1), kcp, vars)
      else if data.length < h.len.toNat ∨ asInt h.len < 0 then (some (-2), kcp, vars)
      else
        let cmd := h.cmd.toUInt32
        if cmd ≠ ikcpCmdPush ∧ cmd ≠ ikcpCmdAck ∧ cmd ≠ ikcpCmdWask ∧ cmd ≠ ikcpCmdWins then (some (-3), kcp, vars)
        else
          let (kcp, vars) := inputSeg kcp vars h (data.take h.len.toNat)
          inputLoop fuel (data.drop h.len.toNat) kcp vars

/-- The congestion window grows with what is acknowledged. -/
def growCwnd (kcp : Ikcpcb) : Ikcpcb :=
  if kcp.cwnd < kcp.rmtWnd then
    let mss := kcp.mss
    let kcp : Ikcpcb :=
      if kcp.cwnd < kcp.ssthresh then { kcp with cwnd := kcp.cwnd + 1, incr := kcp.incr + mss }
      else
        let incr := if kcp.incr < mss then mss else kcp.incr
        let incr := incr + ((mss * mss) / incr + mss / 16)
        { kcp with
          incr
          cwnd := if (kcp.cwnd + 1) * mss ≤ incr then (incr + mss - 1) / (if mss > 0 then mss else 1) else kcp.cwnd }
    if kcp.cwnd > kcp.rmtWnd then { kcp with cwnd := kcp.rmtWnd, incr := kcp.rmtWnd * mss } else kcp
  else kcp

def ikcpInput (kcp : Ikcpcb) (data : Bytes) : Int × Ikcpcb :=
  let prevUna := kcp.snd.sndUna
  if (Int32.ofNat data.length).toInt < asInt ikcpOverhead then (-1, kcp)
  else
    match inputLoop data.length data kcp {} with
    | (some ret, kcp, _) => (ret, kcp)
    | (none, kcp, vars) =>
      let kcp := if vars.flag then kcp.setSnd (ikcpParseFastack kcp.snd vars.maxack) else kcp
      (0, if itimediff kcp.snd.sndUna prevUna > 0 then growCwnd kcp else kcp)

end Yagips.Kcp
