import Yagips.Lib.Bytes

/-!
# Sessions, their KCP objects and the handshake datagram

A `KcpSession` does not own its peer's address: it keeps the `sock_t*` it was given.
The pointer is a `SockRef`, and the memory it points into belongs to the server.
Closing a session sends one close packet through that pointer, deletes the KCP
object and the player, and leaves the slot in `NOT_CONNECTED`.
-/
namespace Yagips.Server.Sessions

open Yagips.Lib

/-- A `sock_t` in memory, by its location. -/
abbrev SockRef := Nat

/-! ## The handshake datagram -/

/-- `kcp_handshake_t`, its words in host order. -/
structure Handshake where
  magic1 : UInt32
  sid1 : UInt32
  sid2 : UInt32
  cmd : UInt32
  magic2 : UInt32
  deriving DecidableEq

def be32At (pkt : Bytes) (off : Nat) : UInt32 := UInt32.ofNat (beNat (field pkt off 4))

def be32Bytes (w : UInt32) : Bytes :=
  [(w >>> 24).toUInt8, (w >>> 16).toUInt8, (w >>> 8).toUInt8, w.toUInt8]

namespace Handshake

def read (pkt : Bytes) : Handshake where
  magic1 := be32At pkt 0
  sid1 := be32At pkt 4
  sid2 := be32At pkt 8
  cmd := be32At pkt 12
  magic2 := be32At pkt 16

def write (hs : Handshake) : Bytes :=
  be32Bytes hs.magic1 ++ be32Bytes hs.sid1 ++ be32Bytes hs.sid2 ++ be32Bytes hs.cmd ++
    be32Bytes hs.magic2

/-- The session id in handshake format. -/
def sid (hs : Handshake) : UInt64 := (hs.sid2.toUInt64 <<< 32) ||| hs.sid1.toUInt64

def isShutdown (hs : Handshake) : Prop := hs.magic1 = 0x194 ∧ hs.magic2 = 0x19419494

def isOpen (hs : Handshake) : Prop :=
  hs.magic1 = 0xff ∧ hs.cmd = 1234567890 ∧ hs.magic2 = 0xffffffff

instance (hs : Handshake) : Decidable hs.isShutdown := inferInstanceAs (Decidable (_ ∧ _))

instance (hs : Handshake) : Decidable hs.isOpen := inferInstanceAs (Decidable (_ ∧ _ ∧ _))

/-- A handshake-format message that names a session. -/
def naming (magic1 : UInt32) (id : UInt64) (cmd magic2 : UInt32) : Handshake where
  magic1 := magic1
  sid1 := id.toUInt32
  sid2 := (id >>> 32).toUInt32
  cmd := cmd
  magic2 := magic2

/-- The low half of the handshake id is always `sid1`. -/
theorem sid_low (hs : Handshake) : hs.sid &&& 0xffffffff = hs.sid1.toUInt64 := by
  have h1 := hs.sid1.toNat_lt
  have h2 := hs.sid2.toNat_lt
  have hs2 : hs.sid2.toNat <<< 32 % 2 ^ 64 = hs.sid2.toNat <<< 32 := by
    rw [Nat.shiftLeft_eq]
    exact Nat.mod_eq_of_lt (by omega)
  rw [← UInt64.toNat_inj, sid, UInt64.toNat_and, UInt64.toNat_or, UInt64.toNat_shiftLeft,
    UInt32.toNat_toUInt64, UInt32.toNat_toUInt64]
  change (hs.sid2.toNat <<< 32 % 2 ^ 64 ||| hs.sid1.toNat) &&& (2 ^ 32 - 1) = hs.sid1.toNat
  rw [hs2, shift_or_eq _ _ 32 h1, Nat.and_two_pow_sub_one_eq_mod]
  omega

end Handshake

/-- The id a KCP datagram carries: its first eight bytes, read on a little-endian host. -/
def hostSid (pkt : Bytes) : UInt64 := UInt64.ofNat (leNat (field pkt 0 8))

/-! ## Sessions -/

def notConnected : Int := 0
def tokenWait : Int := 1

/-- `input` holds the datagrams handed to `ikcp_input`, oldest first. -/
structure KcpSession where
  conv : UInt64
  client : SockRef
  input : List Bytes := []
  deriving DecidableEq

def KcpSession.pushToKcp (k : KcpSession) (pkt : Bytes) : KcpSession :=
  { k with input := k.input ++ [pkt] }

structure Session (P : Type) where
  kcpSession : Option KcpSession
  player : Option P
  state : Int
  deriving DecidableEq

variable {P : Type}

/-- The constructor: a session is born waiting for its token. -/
def Session.new (sock : SockRef) (sid : UInt64) : Session P where
  kcpSession := some { conv := sid, client := sock }
  player := none
  state := tokenWait

/-- What `close` leaves behind: the session, the packet it passed to `sendRaw` with the
socket it was passed for, and the player it deleted. -/
structure Closing (P : Type) where
  session : Session P
  sent : Option (SockRef × Bytes)
  deleted : Option P
  deriving DecidableEq

def Session.close (s : Session P) (reason : UInt32) : Closing P where
  session := { kcpSession := none, player := none, state := notConnected }
  sent := s.kcpSession.map fun k =>
    (k.client, (Handshake.naming 0x194 k.conv reason 0x19419494).write)
  deleted := s.player

theorem Session.close_sent {s : Session P} {reason : UInt32} {ref : SockRef} {msg : Bytes}
    (h : (s.close reason).sent = some (ref, msg)) : ∃ k, s.kcpSession = some k ∧ k.client = ref := by
  obtain ⟨k, hk, he⟩ := Option.map_eq_some_iff.mp h
  exact ⟨k, hk, congrArg Prod.fst he⟩

end Yagips.Server.Sessions
