import Yagips.Kcp.Segment

/-!
# The control block, sending and receiving

`ikcp_send` cuts a message into segments and `ikcp_recv` puts one together. Between them the segments
wait in four queues: those not sent, those sent and not acknowledged, those that came early, and those
that came in order.
-/
namespace Yagips.Kcp

open Yagips.Lib

def ikcpWndRcv : UInt32 := 128
def ikcpAskSend : UInt32 := 1
def ikcpAskTell : UInt32 := 2

/-- The fields of a control block that sending uses. -/
structure Snd where
  sndUna : UInt32 := 0
  sndNxt : UInt32 := 0
  nsndBuf : UInt32 := 0
  nsndQue : UInt32 := 0
  sndQueue : List IkcpSeg := []
  sndBuf : List IkcpSeg := []
  deriving DecidableEq

/-- The fields of a control block that receiving uses. `acklist` has `ackcount` pairs of a number and
a time, in a block for `ackblock` of them. -/
structure Rcv where
  rcvNxt : UInt32 := 0
  rcvWnd : UInt32 := ikcpWndRcv
  nrcvBuf : UInt32 := 0
  nrcvQue : UInt32 := 0
  rcvQueue : List IkcpSeg := []
  rcvBuf : List IkcpSeg := []
  acklist : List (UInt32 × UInt32) := []
  ackblock : Nat := 0
  deriving DecidableEq

/-- `buffer` is the number of bytes allocated for datagrams. -/
structure Ikcpcb where
  conv : UInt64
  mtu : UInt32 := 1400
  mss : UInt32 := 1400 - ikcpOverhead
  state : UInt32 := 0
  snd : Snd := {}
  rcv : Rcv := {}
  ssthresh : UInt32 := 2
  rxRttval : Int32 := 0
  rxSrtt : Int32 := 0
  rxRto : Int32 := 200
  rxMinrto : Int32 := 100
  sndWnd : UInt32 := 32
  rmtWnd : UInt32 := ikcpWndRcv
  cwnd : UInt32 := 0
  probe : UInt32 := 0
  current : UInt32 := 0
  interval : UInt32 := 100
  tsFlush : UInt32 := 100
  xmit : UInt32 := 0
  nodelay : UInt32 := 0
  updated : Bool := false
  tsProbe : UInt32 := 0
  probeWait : UInt32 := 0
  deadLink : UInt32 := 20
  incr : UInt32 := 0
  buffer : UInt32 := (1400 + ikcpOverhead) * 3
  fastresend : Int32 := 0
  fastlimit : Int32 := 5
  nocwnd : Int32 := 0
  stream : Int32 := 0
  deriving DecidableEq

def Ikcpcb.setSnd (kcp : Ikcpcb) (snd : Snd) : Ikcpcb := { kcp with snd }

def Ikcpcb.setRcv (kcp : Ikcpcb) (rcv : Rcv) : Ikcpcb := { kcp with rcv }

@[simp] theorem Ikcpcb.setSnd_snd (kcp : Ikcpcb) (snd : Snd) : (kcp.setSnd snd).snd = snd := rfl

@[simp] theorem Ikcpcb.setSnd_rcv (kcp : Ikcpcb) (snd : Snd) : (kcp.setSnd snd).rcv = kcp.rcv := rfl

@[simp] theorem Ikcpcb.setRcv_snd (kcp : Ikcpcb) (rcv : Rcv) : (kcp.setRcv rcv).snd = kcp.snd := rfl

@[simp] theorem Ikcpcb.setRcv_rcv (kcp : Ikcpcb) (rcv : Rcv) : (kcp.setRcv rcv).rcv = rcv := rfl

def ikcpCreate (conv : UInt64) : Ikcpcb := { conv }

def ikcpSetmtu (kcp : Ikcpcb) (mtu : Int32) : Int × Ikcpcb :=
  if mtu < 50 ∨ mtu < ikcpOverhead.toInt32 then (-1, kcp)
  else
    let mtu := mtu.toUInt32
    (0, { kcp with buffer := (mtu + ikcpOverhead) * 3, mtu, mss := mtu - ikcpOverhead })

def ikcpNodelay (kcp : Ikcpcb) (nodelay interval resend nc : Int32) : Ikcpcb :=
  let kcp :=
    if nodelay ≥ 0 then
      { kcp with nodelay := nodelay.toUInt32, rxMinrto := if nodelay ≠ 0 then 30 else 100 }
    else kcp
  let kcp :=
    if interval ≥ 0 then
      { kcp with interval := (if interval > 5000 then 5000 else if interval < 10 then 10 else interval).toUInt32 }
    else kcp
  let kcp := if resend ≥ 0 then { kcp with fastresend := resend } else kcp
  if nc ≥ 0 then { kcp with nocwnd := nc } else kcp

def ikcpWndsize (kcp : Ikcpcb) (sndwnd rcvwnd : Int32) : Ikcpcb :=
  let kcp := if sndwnd > 0 then { kcp with sndWnd := sndwnd.toUInt32 } else kcp
  if rcvwnd > 0 then { kcp with rcv := { kcp.rcv with rcvWnd := imax rcvwnd.toUInt32 ikcpWndRcv } } else kcp

def ikcpWaitsnd (kcp : Ikcpcb) : UInt32 := kcp.snd.nsndBuf + kcp.snd.nsndQue

/-! ## Sending -/

def Snd.push (s : Snd) (seg : IkcpSeg) : Snd :=
  { s with sndQueue := s.sndQueue ++ [seg], nsndQue := s.nsndQue + 1 }

/-- In streaming mode the last segment of the queue is filled up first. -/
def extendLast (mss : UInt32) (s : Snd) (buffer : Bytes) : Snd × Bytes :=
  match s.sndQueue.getLast? with
  | none => (s, buffer)
  | some old =>
    if old.len < mss then
      let extend := min buffer.length (asInt (mss - old.len)).toNat
      let seg : IkcpSeg := { frg := 0, data := old.data ++ buffer.take extend }
      ({ s with sndQueue := s.sndQueue.dropLast ++ [seg] }, buffer.drop extend)
    else (s, buffer)

/-- The loop that cuts the message, with the number of segments still to be made. -/
def fragmentLoop (mss : UInt32) (stream : Int32) : Nat → Bytes → Snd → Snd
  | 0, _, s => s
  | n + 1, buffer, s =>
    let size := if asInt mss < buffer.length then (asInt mss).toNat else buffer.length
    -- the other fields are not read before `ikcp_flush` sets them
    let seg : IkcpSeg := { frg := if stream = 0 then UInt32.ofNat n else 0, data := buffer.take size }
    fragmentLoop mss stream n (buffer.drop size) (s.push seg)

def fragmentCount (mss : UInt32) (len : Nat) : Int :=
  let count := if len ≤ asInt mss then 1 else asInt ((UInt32.ofNat len + mss - 1) / mss)
  if count = 0 then 1 else count

/-- The fields of the control block that `ikcp_send` changes, after a call that gets `len` bytes. -/
def Snd.send (mss : UInt32) (stream : Int32) (s : Snd) (buffer : Bytes) : Int × Snd :=
  let (s, buffer) := if stream ≠ 0 then extendLast mss s buffer else (s, buffer)
  if stream ≠ 0 ∧ buffer = [] then (0, s)
  else
    let count := fragmentCount mss buffer.length
    if count ≥ asInt ikcpWndRcv then (-2, s) else (0, fragmentLoop mss stream count.toNat buffer s)

/-- The length is cut to an `int` at the call. -/
def ikcpSend (kcp : Ikcpcb) (buffer : Bytes) : Int × Ikcpcb :=
  let len := (Int32.ofNat buffer.length).toInt
  if len < 0 then (-1, kcp)
  else
    let (ret, snd) := kcp.snd.send kcp.mss kcp.stream (buffer.take len.toNat)
    (ret, kcp.setSnd snd)

/-! ## Receiving -/

/-- The loop of `ikcp_peeksize`. -/
def lengthLoop : List IkcpSeg → Nat
  | [] => 0
  | seg :: p => if seg.frg = 0 then seg.data.length else seg.data.length + lengthLoop p

def ikcpPeeksize (r : Rcv) : Int :=
  match r.rcvQueue with
  | [] => -1
  | seg :: p =>
    if seg.frg = 0 then seg.data.length
    else if r.nrcvQue < seg.frg + 1 then -1
    else lengthLoop (seg :: p)

/-- The loop that merges segments: the bytes copied, and how many segments they come from. -/
def mergeLoop : List IkcpSeg → Bytes × Nat
  | [] => ([], 0)
  | seg :: p =>
    if seg.frg = 0 then (seg.data, 1)
    else
      let (data, n) := mergeLoop p
      (seg.data ++ data, n + 1)

/-- Segments that are next go from `rcv_buf` to `rcv_queue` while that has room. -/
def moveLoop : List IkcpSeg → Rcv → Rcv
  | [], r => { r with rcvBuf := [] }
  | seg :: buf, r =>
    if seg.sn = r.rcvNxt ∧ r.nrcvQue < r.rcvWnd then
      moveLoop buf { r with
        nrcvBuf := r.nrcvBuf - 1
        rcvQueue := r.rcvQueue ++ [seg]
        nrcvQue := r.nrcvQue + 1
        rcvNxt := r.rcvNxt + 1 }
    else { r with rcvBuf := seg :: buf }

def Rcv.moveAvailable (r : Rcv) : Rcv := moveLoop r.rcvBuf r

/-- The segments of one message out of the queue. -/
def Rcv.remove (r : Rcv) (n : Nat) : Rcv :=
  { r with rcvQueue := r.rcvQueue.drop n, nrcvQue := r.nrcvQue - UInt32.ofNat n }

/-- What is returned, what is written to the caller's buffer, and what is received after it. A negative
length only peeks. -/
def Rcv.recv (r : Rcv) (len : Int) : Int × Bytes × Rcv :=
  if r.rcvQueue = [] then (-1, [], r)
  else
    let peeksize := ikcpPeeksize r
    if peeksize < 0 then (-2, [], r)
    else if peeksize > len.natAbs then (-3, [], r)
    else
      let (data, n) := mergeLoop r.rcvQueue
      (data.length, data, (if len < 0 then r else r.remove n).moveAvailable)

/-- A window that was closed and is open again is told. -/
def ikcpRecv (kcp : Ikcpcb) (len : Int) : Int × Bytes × Ikcpcb :=
  let recover : Bool := kcp.rcv.nrcvQue ≥ kcp.rcv.rcvWnd
  let (ret, data, rcv) := kcp.rcv.recv len
  let probe := if ret ≥ 0 ∧ rcv.nrcvQue < rcv.rcvWnd ∧ recover then kcp.probe ||| ikcpAskTell else kcp.probe
  (ret, data, { kcp with rcv, probe })

end Yagips.Kcp
