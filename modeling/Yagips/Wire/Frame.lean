import Yagips.Lib.Bytes

/-!
# The packet frame and its parser

A frame is `magic1, opcode, header length, data length, header, data, magic2`, all
big-endian. `Packet.parse` is transcribed with the widths the target gives it: the
two halves of the data length are promoted to a signed 32-bit `int`, the result is
converted to the 64-bit `size_t`, and every sum of lengths is a `size_t` sum.
-/
namespace Yagips.Wire.Frame

open Yagips.Lib

/-- A byte buffer whose length is representable as a `size_t`. -/
structure Buffer where
  bytes : Bytes
  fits : bytes.length < 2 ^ 64
  deriving DecidableEq

def Buffer.size (buf : Buffer) : UInt64 := UInt64.ofNat buf.bytes.length

theorem Buffer.size_toNat (buf : Buffer) : buf.size.toNat = buf.bytes.length :=
  UInt64.toNat_ofNat_of_lt' buf.fits

structure Packet where
  opcode : UInt16 := 0
  header : Bytes := []
  data : Bytes := []
  rawpktBuf : Option Buffer := none
  rawpktSz : UInt64 := 0
  deriving DecidableEq

def packetMagic1 : UInt16 := 0x4567
def packetMagic2 : UInt16 := 0x89ab

/-- Conversion of a signed 32-bit `int`, given by its bits, to `size_t`. -/
def intToSize (x : UInt32) : UInt64 := ⟨x.toBitVec.signExtend 64⟩

/-- The parser on a non-null buffer. A fault is a read outside the buffer, or a
`std::string::assign` of more bytes than the buffer has, which throws. -/
def parseBuffer (p : Packet) (buf : Buffer) : Except Fault (Int × Packet) :=
  if buf.size < 10 then pure (-1, p)
  else do
    let magic ← be16At buf.bytes 0
    if magic ≠ packetMagic1 then pure (-1, p)
    else do
      let opcode ← be16At buf.bytes 2
      let hdrSz := (← be16At buf.bytes 4).toUInt64
      if buf.size < hdrSz + 10 then pure (-1, { p with opcode := opcode })
      else do
        let dataSzHi ← be16At buf.bytes 6
        let dataSzLo ← be16At buf.bytes 8
        -- the halves are joined as `int`, so bit 31 becomes the sign
        let dataSz := intToSize ((dataSzHi.toUInt32 <<< 16) ||| dataSzLo.toUInt32)
        if buf.size < dataSz + hdrSz + 12 then pure (-1, { p with opcode := opcode })
        else do
          let magic2Hi ← byteAt buf.bytes (dataSz + hdrSz + 10).toNat
          let magic2Lo ← byteAt buf.bytes (dataSz + hdrSz + 11).toNat
          if (magic2Hi.toUInt16 <<< 8) ||| magic2Lo.toUInt16 ≠ packetMagic2 then
            pure (-1, { p with opcode := opcode })
          else do
            let header ← sliceAt buf.bytes 10 hdrSz.toNat
            let data ← sliceAt buf.bytes (hdrSz.toNat + 10) dataSz.toNat
            pure (0, { opcode := opcode, header := header, data := data,
                       rawpktBuf := some buf, rawpktSz := buf.size })

def parse (p : Packet) : Option Buffer → Except Fault (Int × Packet)
  | none => pure (-1, p)
  | some buf => parseBuffer p buf

/-! ## What a frame is -/

/-- The header length a buffer declares at offset 4. -/
def headerLength (buf : Buffer) : Nat := beNat (field buf.bytes 4 2)

/-- The data length a buffer declares at offset 6, as an unsigned number. -/
def dataLength (buf : Buffer) : Nat := beNat (field buf.bytes 6 4)

/-- The frame grammar, in unbounded integers. -/
structure WellFormed (buf : Buffer) : Prop where
  long : 12 ≤ buf.bytes.length
  magic1 : field buf.bytes 0 2 = [0x45, 0x67]
  fits : 12 + headerLength buf + dataLength buf ≤ buf.bytes.length
  magic2 : field buf.bytes (10 + headerLength buf + dataLength buf) 2 = [0x89, 0xab]

/-- What `parse` owes its caller on one buffer: it neither faults nor throws, returns
0 exactly on a well-formed frame, and then holds that frame's three parts. -/
def ParsesExactly (p : Packet) (buf : Buffer) : Prop :=
  ∃ r q, parse p (some buf) = .ok (r, q) ∧ (r = 0 ↔ WellFormed buf) ∧
    (r = 0 → q.opcode.toNat = beNat (field buf.bytes 2 2) ∧
      q.header = field buf.bytes 10 (headerLength buf) ∧
      q.data = field buf.bytes (10 + headerLength buf) (dataLength buf))

end Yagips.Wire.Frame
