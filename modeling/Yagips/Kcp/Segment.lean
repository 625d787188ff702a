import Yagips.Lib.Bytes
import Yagips.Lib.Serial

/-!
# Segments of KCP

A datagram is a sequence of segments, each a header of 28 bytes, least significant byte first, and as
many bytes of data as the header says.
-/
namespace Yagips.Kcp

open Yagips.Lib

def ikcpCmdPush : UInt32 := 81
def ikcpCmdAck : UInt32 := 82
def ikcpCmdWask : UInt32 := 83
def ikcpCmdWins : UInt32 := 84
def ikcpOverhead : UInt32 := 28

def imin (a b : UInt32) : UInt32 := if a ≤ b then a else b

def imax (a b : UInt32) : UInt32 := if a ≥ b then a else b

def ibound (lower middle upper : UInt32) : UInt32 := imin (imax lower middle) upper

def itimediff (later earlier : UInt32) : Int := (later - earlier).toInt32.toInt

/-- An `unsigned int` read as an `int`. -/
def asInt (x : UInt32) : Int := x.toInt32.toInt

/-- `len` is the length of `data`. -/
structure IkcpSeg where
  conv : UInt64 := 0
  cmd : UInt32 := 0
  frg : UInt32
  wnd : UInt32 := 0
  ts : UInt32 := 0
  sn : UInt32 := 0
  una : UInt32 := 0
  resendts : UInt32 := 0
  rto : UInt32 := 0
  fastack : UInt32 := 0
  xmit : UInt32 := 0
  data : Bytes
  deriving DecidableEq

def IkcpSeg.len (seg : IkcpSeg) : UInt32 := UInt32.ofNat seg.data.length

/-! ## Encoding and decoding -/

/-- The header, with the narrow fields cut. -/
def ikcpEncodeSeg (seg : IkcpSeg) : Bytes :=
  leBytes 8 seg.conv.toNat ++ leBytes 1 seg.cmd.toUInt8.toNat ++ leBytes 1 seg.frg.toUInt8.toNat ++
    leBytes 2 seg.wnd.toUInt16.toNat ++ leBytes 4 seg.ts.toNat ++ leBytes 4 seg.sn.toNat ++
    leBytes 4 seg.una.toNat ++ leBytes 4 seg.len.toNat

/-- The number in the first bytes at a pointer, and the pointer behind it. -/
def ikcpDecode (width : Nat) (p : Bytes) : Nat × Bytes := (leNat (p.take width), p.drop width)

/-- The header of a segment as `ikcp_input` reads it. -/
structure Head where
  conv : UInt64
  cmd : UInt8
  frg : UInt8
  wnd : UInt16
  ts : UInt32
  sn : UInt32
  una : UInt32
  len : UInt32
  deriving DecidableEq

/-- The header of a segment, and what follows it. -/
def decodeHead (data : Bytes) : Head × Bytes :=
  let (conv, data) := ikcpDecode 8 data
  let (cmd, data) := ikcpDecode 1 data
  let (frg, data) := ikcpDecode 1 data
  let (wnd, data) := ikcpDecode 2 data
  let (ts, data) := ikcpDecode 4 data
  let (sn, data) := ikcpDecode 4 data
  let (una, data) := ikcpDecode 4 data
  let (len, data) := ikcpDecode 4 data
  ({ conv := .ofNat conv, cmd := .ofNat cmd, frg := .ofNat frg, wnd := .ofNat wnd, ts := .ofNat ts
     sn := .ofNat sn, una := .ofNat una, len := .ofNat len }, data)

/-- The header that is written of a segment. -/
def IkcpSeg.head (seg : IkcpSeg) : Head where
  conv := seg.conv
  cmd := seg.cmd.toUInt8
  frg := seg.frg.toUInt8
  wnd := seg.wnd.toUInt16
  ts := seg.ts
  sn := seg.sn
  una := seg.una
  len := seg.len

theorem ikcpDecode_leBytes (width v : Nat) (rest : Bytes) :
    ikcpDecode width (leBytes width v ++ rest) = (v % 256 ^ width, rest) := by
  have hlen := leBytes_length width v
  rw [ikcpDecode, List.take_left' hlen, List.drop_left' hlen, leNat_leBytes]

@[simp] theorem ikcpEncodeSeg_length (seg : IkcpSeg) : (ikcpEncodeSeg seg).length = 28 := by
  simp only [ikcpEncodeSeg, List.length_append, leBytes_length]

/-- Decoding undoes encoding. -/
theorem decodeHead_encode (seg : IkcpSeg) (rest : Bytes) :
    decodeHead (ikcpEncodeSeg seg ++ rest) = (seg.head, rest) := by
  have h64 : ∀ x : UInt64, UInt64.ofNat (x.toNat % 256 ^ 8) = x := by
    intro x
    have hlt : x.toNat < 256 ^ 8 := x.toNat_lt
    rw [Nat.mod_eq_of_lt hlt, UInt64.ofNat_toNat]
  have h32 : ∀ x : UInt32, UInt32.ofNat (x.toNat % 256 ^ 4) = x := by
    intro x
    have hlt : x.toNat < 256 ^ 4 := x.toNat_lt
    rw [Nat.mod_eq_of_lt hlt, UInt32.ofNat_toNat]
  have h16 : ∀ x : UInt16, UInt16.ofNat (x.toNat % 256 ^ 2) = x := by
    intro x
    have hlt : x.toNat < 256 ^ 2 := x.toNat_lt
    rw [Nat.mod_eq_of_lt hlt, UInt16.ofNat_toNat]
  have h8 : ∀ x : UInt8, UInt8.ofNat (x.toNat % 256 ^ 1) = x := by
    intro x
    have hlt : x.toNat < 256 ^ 1 := x.toNat_lt
    rw [Nat.mod_eq_of_lt hlt, UInt8.ofNat_toNat]
  simp only [ikcpEncodeSeg, List.append_assoc, decodeHead, ikcpDecode_leBytes, h64, h32, h16, h8]
  rfl

/-- What a datagram of segments is. -/
def encodeSegs (segs : List IkcpSeg) : Bytes := segs.flatMap fun seg => ikcpEncodeSeg seg ++ seg.data

end Yagips.Kcp
