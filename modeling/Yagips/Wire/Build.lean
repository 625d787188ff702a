import Yagips.Wire.Frame

/-!
# The packet builder and the key stream

`Packet.build` writes a frame into the buffer it is given and never asks how long that is.
`sendPacket` gives it a static buffer of 4096 bytes and encrypts what was written in place;
a pass of `SessionMain` decrypts what it received in place and hands it to the parser.
-/
namespace Yagips.Wire.Build

open Yagips.Lib
open Yagips.Wire.Frame

def be16Bytes (w : UInt16) : Bytes := [(w >>> 8).toUInt8, w.toUInt8]

/-- The buffer and the size `build` leaves. -/
structure Built where
  buf : Bytes
  sz : UInt64

/-- What `build` writes, in order. -/
def fields (p : Packet) : List Bytes :=
  let headerSize := UInt64.ofNat p.header.length
  let dataSize := UInt64.ofNat p.data.length
  [be16Bytes packetMagic1, be16Bytes p.opcode, be16Bytes headerSize.toUInt16,
    be16Bytes (dataSize >>> 16).toUInt16, be16Bytes (dataSize &&& 0xffff).toUInt16, p.header, p.data,
    [(packetMagic2 >>> 8).toUInt8], [(packetMagic2 &&& 0xff).toUInt8]]

/-- `none` where the source returns -1. -/
def build (p : Packet) : Option Bytes → Except Fault (Option Built)
  | none => return none
  | some buf => do
    let sz := 12 + UInt64.ofNat p.header.length + UInt64.ofNat p.data.length
    let buf ← storeAll buf 0 (fields p)
    return some { buf, sz }

/-! ## The key stream -/

/-- The loop of `HyvCryptXor`, with the bytes left. -/
def xorLoop (kbuf : Bytes) (klen : Nat) : Nat → UInt32 → Bytes → Except Fault Bytes
  | 0, _, ibuf => return ibuf
  | n + 1, i, ibuf => do
    let b ← byteAt ibuf i.toNat
    let k ← byteAt kbuf (i.toNat % klen)
    let ibuf ← storeAt ibuf i.toNat [b ^^^ k]
    xorLoop kbuf klen n (i + 1) ibuf

/-- `HyvCryptXor`, whose counter has 32 bits and its length 64. `klen` is 4096 at every
call. -/
def hyvCryptXor (ibuf : Bytes) (ilen : Nat) (kbuf : Bytes) (klen : Nat) : Except Fault Bytes :=
  if 2 ^ 32 ≤ ilen then .error .endless else xorLoop kbuf klen ilen 0 ibuf

/-- A buffer under a key, if there is one. -/
def underKey (buf : Bytes) (size : Nat) : Option Bytes → Except Fault Bytes
  | none => return buf
  | some key => hyvCryptXor buf size key 4096

/-! ## Both ends of a session -/

/-- The bytes `Session::sendPacket` hands to KCP, from what its static buffer held. -/
def sendPacket (buf : Vector UInt8 4096) (key : Option Bytes) (p : Packet) :
    Except Fault (Option Bytes) := do
  match ← build p (some buf.toList) with
  | none => return none
  | some built =>
    let buf ← underKey built.buf built.sz.toNat key
    return some (← sliceAt buf 0 built.sz.toNat)

/-- What a pass of `SessionMain` makes of the bytes KCP hands it, from what its static buffer
and its packet held. -/
def receivePacket (pktBuf : Vector UInt8 (16 * 1024)) (key : Option Bytes) (p : Packet)
    (msg : Bytes) : Except Fault (Int × Packet) := do
  let buf ← storeAt pktBuf.toList 0 msg
  let buf ← underKey buf msg.length key
  let bytes ← sliceAt buf 0 msg.length
  if fits : bytes.length < 2 ^ 64 then parse p (some { bytes, fits }) else .error (.slice 0 msg.length)

end Yagips.Wire.Build
