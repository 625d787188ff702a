import Yagips.Kcp.Input

/-!
# Datagrams that go out

`ikcp_flush` writes acknowledgements, questions about the window and segments that are due one behind
the other into a buffer, and sends what is in the buffer whenever the next would make it longer than
the transmission unit.
-/
namespace Yagips.Kcp

open Yagips.Lib

/-- The bytes from `buffer` to `ptr`, and the datagrams that went out. -/
structure Out where
  pending : Bytes := []
  sent : List Bytes := []

/-- `ikcp_output`, which sends nothing of no bytes. -/
def Out.output (out : Out) : Out :=
  if out.pending = [] then out else { pending := [], sent := out.sent ++ [out.pending] }

/-- Room for a segment is made by sending what is in the buffer. -/
def Out.write (out : Out) (mtu : UInt32) (seg : IkcpSeg) : Out :=
  let need := asInt ikcpOverhead + seg.data.length
  let out := if out.pending.length + need > asInt mtu then out.output else out
  { out with pending := out.pending ++ (ikcpEncodeSeg seg ++ seg.data) }

def ikcpWndUnused (r : Rcv) : UInt32 := if r.nrcvQue < r.rcvWnd then r.rcvWnd - r.nrcvQue else 0

/-- The segment that acknowledgements and questions are written from. -/
def controlSeg (kcp : Ikcpcb) : IkcpSeg where
  conv := kcp.conv
  cmd := ikcpCmdAck
  frg := 0
  wnd := ikcpWndUnused kcp.rcv
  una := kcp.rcv.rcvNxt
  data := []

/-- The acknowledgements, and the segment as the last of them leaves it. -/
def flushAcks (mtu : UInt32) : List (UInt32 × UInt32) → IkcpSeg → Out → IkcpSeg × Out
  | [], seg, out => (seg, out)
  | (sn, ts) :: acks, seg, out =>
    let seg := { seg with sn, ts }
    flushAcks mtu acks seg (out.write mtu seg)

/-- A window of the other end that is closed is asked about, at longer and longer times. -/
def probeWindow (kcp : Ikcpcb) : Ikcpcb :=
  if kcp.rmtWnd = 0 then
    if kcp.probeWait = 0 then { kcp with probeWait := 7000, tsProbe := kcp.current + 7000 }
    else if itimediff kcp.current kcp.tsProbe ≥ 0 then
      let probeWait := if kcp.probeWait < 7000 then 7000 else kcp.probeWait
      let probeWait := probeWait + probeWait / 2
      let probeWait := if probeWait > 120000 then 120000 else probeWait
      { kcp with probeWait, tsProbe := kcp.current + probeWait, probe := kcp.probe ||| ikcpAskSend }
    else kcp
  else { kcp with tsProbe := 0, probeWait := 0 }

def flushProbe (kcp : Ikcpcb) (ask cmd : UInt32) (p : IkcpSeg × Out) : IkcpSeg × Out :=
  if kcp.probe &&& ask ≠ 0 then
    let seg := { p.1 with cmd }
    (seg, p.2.write kcp.mtu seg)
  else p

def windowSize (kcp : Ikcpcb) : UInt32 :=
  let cwnd := imin kcp.sndWnd kcp.rmtWnd
  if kcp.nocwnd = 0 then imin kcp.cwnd cwnd else cwnd

/-- Segments go from `snd_queue` to `snd_buf` and get their numbers, while the window has room. -/
def fillLoop (kcp : Ikcpcb) (cwnd wnd : UInt32) : List IkcpSeg → Snd → Snd
  | [], s => { s with sndQueue := [] }
  | newseg :: queue, s =>
    if itimediff s.sndNxt (s.sndUna + cwnd) < 0 then
      let newseg := { newseg with
        conv := kcp.conv, cmd := ikcpCmdPush, wnd, ts := kcp.current, sn := s.sndNxt, una := kcp.rcv.rcvNxt
        resendts := kcp.current, rto := kcp.rxRto.toUInt32, fastack := 0, xmit := 0 }
      fillLoop kcp cwnd wnd queue { s with
        sndBuf := s.sndBuf ++ [newseg], nsndQue := s.nsndQue - 1, nsndBuf := s.nsndBuf + 1, sndNxt := s.sndNxt + 1 }
    else { s with sndQueue := newseg :: queue }

/-- The local variables of the loop that sends, and the fields of the control block it changes. -/
structure Pass where
  out : Out
  change : Bool := false
  lost : Bool := false
  xmit : UInt32
  state : UInt32

def resent (kcp : Ikcpcb) : UInt32 := if kcp.fastresend > 0 then kcp.fastresend.toUInt32 else 0xffffffff

def rtomin (kcp : Ikcpcb) : UInt32 := if kcp.nodelay = 0 then kcp.rxRto.toUInt32 >>> 3 else 0

/-- A segment is sent for the first time, again when its time is over, or again because later ones
were acknowledged. -/
inductive Due where
  | no | first | timeout | fast
  deriving DecidableEq

def dueOf (kcp : Ikcpcb) (segment : IkcpSeg) : Due :=
  if segment.xmit = 0 then .first
  else if itimediff kcp.current segment.resendts ≥ 0 then .timeout
  else if segment.fastack ≥ resent kcp ∧ (asInt segment.xmit ≤ kcp.fastlimit.toInt ∨ kcp.fastlimit ≤ 0) then .fast
  else .no

def rescheduled (kcp : Ikcpcb) (segment : IkcpSeg) : Due → IkcpSeg
  | .no => segment
  | .first => { segment with
      xmit := segment.xmit + 1, rto := kcp.rxRto.toUInt32
      resendts := kcp.current + kcp.rxRto.toUInt32 + rtomin kcp }
  | .timeout =>
    let rto :=
      if kcp.nodelay = 0 then segment.rto + imax segment.rto kcp.rxRto.toUInt32
      else
        let step := if kcp.nodelay < 2 then segment.rto.toInt32 else kcp.rxRto
        segment.rto + (step / 2).toUInt32
    { segment with xmit := segment.xmit + 1, rto, resendts := kcp.current + rto }
  | .fast => { segment with
      xmit := segment.xmit + 1, fastack := 0, resendts := kcp.current + segment.rto }

def flushSeg (kcp : Ikcpcb) (wnd : UInt32) (segment : IkcpSeg) (p : Pass) : IkcpSeg × Pass :=
  match dueOf kcp segment with
  | .no => (segment, p)
  | due =>
    let segment := { rescheduled kcp segment due with ts := kcp.current, wnd, una := kcp.rcv.rcvNxt }
    (segment, {
      out := p.out.write kcp.mtu segment
      change := p.change || due = .fast
      lost := p.lost || due = .timeout
      xmit := if due = .timeout then p.xmit + 1 else p.xmit
      state := if segment.xmit ≥ kcp.deadLink then 0xffffffff else p.state })

def flushSegs (kcp : Ikcpcb) (wnd : UInt32) : List IkcpSeg → Pass → List IkcpSeg × Pass
  | [], p => ([], p)
  | segment :: rest, p =>
    let (segment, p) := flushSeg kcp wnd segment p
    let (rest, p) := flushSegs kcp wnd rest p
    (segment :: rest, p)

/-- The congestion window and its threshold after a pass. -/
def updateSsthresh (kcp : Ikcpcb) (cwnd : UInt32) (p : Pass) : Ikcpcb :=
  let kcp :=
    if p.change then
      let inflight := kcp.snd.sndNxt - kcp.snd.sndUna
      let ssthresh := if inflight / 2 < 2 then 2 else inflight / 2
      { kcp with ssthresh, cwnd := ssthresh + resent kcp, incr := (ssthresh + resent kcp) * kcp.mss }
    else kcp
  let kcp :=
    if p.lost then { kcp with ssthresh := if cwnd / 2 < 2 then 2 else cwnd / 2, cwnd := 1, incr := kcp.mss }
    else kcp
  if kcp.cwnd < 1 then { kcp with cwnd := 1, incr := kcp.mss } else kcp

/-- Acknowledgements and questions: the control block after them, and what is written. -/
def flushControl (kcp : Ikcpcb) : Ikcpcb × Out :=
  let acks := flushAcks kcp.mtu kcp.rcv.acklist (controlSeg kcp) {}
  let kcp := probeWindow (kcp.setRcv { kcp.rcv with acklist := [] })
  let asked := flushProbe kcp ikcpAskSend ikcpCmdWask acks
  let told := flushProbe kcp ikcpAskTell ikcpCmdWins asked
  ({ kcp with probe := 0 }, told.2)

/-- The segments that get numbers, and those that are sent. -/
def flushData (kcp : Ikcpcb) (out : Out) : Ikcpcb × Pass :=
  let wnd := ikcpWndUnused kcp.rcv
  let kcp := kcp.setSnd (fillLoop kcp (windowSize kcp) wnd kcp.snd.sndQueue kcp.snd)
  let (sndBuf, p) := flushSegs kcp wnd kcp.snd.sndBuf { out, xmit := kcp.xmit, state := kcp.state }
  ({ kcp with xmit := p.xmit, state := p.state }.setSnd { kcp.snd with sndBuf }, p)

/-- The control block, and the datagrams that go out. -/
def ikcpFlush (kcp : Ikcpcb) : Ikcpcb × List Bytes :=
  if ¬ kcp.updated then (kcp, [])
  else
    let (kcp, out) := flushControl kcp
    let cwnd := windowSize kcp
    let (kcp, p) := flushData kcp out
    (updateSsthresh kcp cwnd p, p.out.output.sent)

def ikcpUpdate (kcp : Ikcpcb) (current : UInt32) : Ikcpcb × List Bytes :=
  let kcp := { kcp with current }
  let kcp := if ¬ kcp.updated then { kcp with updated := true, tsFlush := kcp.current } else kcp
  let slap := itimediff kcp.current kcp.tsFlush
  let reset := slap ≥ 10000 ∨ slap < -10000
  let kcp := if reset then { kcp with tsFlush := kcp.current } else kcp
  let slap := if reset then 0 else slap
  if slap ≥ 0 then
    let tsFlush := kcp.tsFlush + kcp.interval
    let tsFlush := if itimediff kcp.current tsFlush ≥ 0 then kcp.current + kcp.interval else tsFlush
    ikcpFlush { kcp with tsFlush }
  else (kcp, [])

/-- The loop of `ikcp_check`: `none` where it returns `current`. -/
def checkLoop (current : UInt32) : List IkcpSeg → Int → Option Int
  | [], tmPacket => some tmPacket
  | seg :: p, tmPacket =>
    let diff := itimediff seg.resendts current
    if diff ≤ 0 then none else checkLoop current p (if diff < tmPacket then diff else tmPacket)

def ikcpCheck (kcp : Ikcpcb) (current : UInt32) : UInt32 :=
  if ¬ kcp.updated then current
  else
    let slap := itimediff current kcp.tsFlush
    let tsFlush := if slap ≥ 10000 ∨ slap < -10000 then current else kcp.tsFlush
    if itimediff current tsFlush ≥ 0 then current
    else
      let tmFlush := itimediff tsFlush current
      match checkLoop current kcp.snd.sndBuf 0x7fffffff with
      | none => current
      | some tmPacket =>
        let minimal := (Int32.ofInt (if tmPacket < tmFlush then tmPacket else tmFlush)).toUInt32
        current + (if minimal ≥ kcp.interval then kcp.interval else minimal)

end Yagips.Kcp
