import Yagips.Wire.Build
import Yagips.Wire.ParseExact

/-!
# From the builder to the parser

A frame that fits the sender's static buffer is written there whole. The key stream undoes
itself, and what the builder spells is what the parser reads: the header length in 16 bits,
the data length in two halves.
-/
namespace Yagips.Wire.RoundTrip

open Yagips.Lib
open Yagips.Wire.Frame
open Yagips.Wire.Build
open Yagips.Wire.ParseExact

/-! ## What the builder leaves -/

/-- The frame of a packet. -/
def frame (p : Packet) : Bytes := (fields p).flatten

theorem frame_length (p : Packet) : (frame p).length = 12 + p.header.length + p.data.length := by
  have h2 : ∀ w : UInt16, (be16Bytes w).length = 2 := fun _ => rfl
  simp only [frame, fields, List.flatten_cons, List.flatten_nil, List.length_append, List.length_cons,
    List.length_nil, h2]
  omega

theorem build_frame (p : Packet) {buf : Bytes} (h : (frame p).length ≤ buf.length) :
    build p (some buf) = .ok (some
      { buf := frame p ++ buf.drop (frame p).length
        sz := 12 + UInt64.ofNat p.header.length + UInt64.ofNat p.data.length }) := by
  have hstore : storeAll buf 0 (fields p) = .ok (frame p ++ buf.drop (frame p).length) :=
    storeAll_append (a := []) h
  rw [build]
  show (storeAll buf 0 (fields p) >>= _) = _
  rw [hstore, ok_bind]
  rfl

theorem beNat_be16Bytes (w : UInt16) : beNat (be16Bytes w) = w.toNat := by
  have hw := w.toNat_lt
  rw [be16Bytes, beNat_two, UInt16.toNat_toUInt8, UInt16.toNat_toUInt8, UInt16.toNat_shiftRight]
  show (w.toNat >>> 8) % 2 ^ 8 * 2 ^ 8 + w.toNat % 2 ^ 8 = w.toNat
  rw [Nat.shiftRight_eq_div_pow]
  omega


/-! ## The key stream -/

/-- Bytes under the key stream from position `i` on. -/
def masked (kbuf : Bytes) (klen : Nat) : Nat → Bytes → Bytes
  | _, [] => []
  | i, b :: bs => (b ^^^ kbuf.getD (i % klen) 0) :: masked kbuf klen (i + 1) bs

theorem masked_length (kbuf : Bytes) (klen i : Nat) (bs : Bytes) :
    (masked kbuf klen i bs).length = bs.length := by
  induction bs generalizing i with
  | nil => rfl
  | cons b bs ih => rw [masked, List.length_cons, List.length_cons, ih]

theorem masked_twice (kbuf : Bytes) (klen i : Nat) (bs : Bytes) :
    masked kbuf klen i (masked kbuf klen i bs) = bs := by
  induction bs generalizing i with
  | nil => rfl
  | cons b bs ih => rw [masked, masked, ih, UInt8.xor_assoc, UInt8.xor_self, UInt8.xor_zero]

/-- The loop replaces the bytes it passes, and never leaves either buffer. -/
theorem xorLoop_masked {kbuf : Bytes} {klen : Nat} (hpos : 0 < klen) (hkey : klen ≤ kbuf.length)
    (a msg rest : Bytes) (h : a.length + msg.length < 2 ^ 32) :
    xorLoop kbuf klen msg.length (UInt32.ofNat a.length) (a ++ (msg ++ rest)) =
      .ok (a ++ (masked kbuf klen a.length msg ++ rest)) := by
  induction msg generalizing a with
  | nil => rfl
  | cons b msg ih =>
    rw [List.length_cons] at h
    have hlt : a.length < UInt32.size := by
      show a.length < 2 ^ 32
      omega
    have hi : (UInt32.ofNat a.length).toNat = a.length := UInt32.toNat_ofNat_of_lt' hlt
    have hread : byteAt (a ++ ((b :: msg) ++ rest)) a.length = .ok b := by
      simp [byteAt]
    have hin : a.length % klen < kbuf.length := (Nat.mod_lt _ hpos).trans_le hkey
    have hk : byteAt kbuf (a.length % klen) = .ok (kbuf.getD (a.length % klen) 0) := by
      rw [byteAt_ok hin, List.getD_eq_getElem _ _ hin]
    have hstore := storeAt_append (a := a) (b := (b :: msg) ++ rest)
      (c := [b ^^^ kbuf.getD (a.length % klen) 0]) (by simp)
    have hnext := ih (a ++ [b ^^^ kbuf.getD (a.length % klen) 0]) (by simp; omega)
    rw [List.length_append, List.length_singleton, UInt32.ofNat_add] at hnext
    rw [List.length_cons, xorLoop, hi, hread, ok_bind, hk, ok_bind, hstore, ok_bind]
    simp only [List.cons_append, List.length_singleton, List.drop_succ_cons, List.drop_zero]
    have hone : (1 : UInt32) = UInt32.ofNat 1 := rfl
    rw [hone, hnext, masked]
    simp

/-- A buffer of a static array under a key is a buffer of the same bytes again under it. -/
theorem underKey_twice (key : Option (Vector UInt8 4096)) (msg : Bytes) (h : msg.length < 2 ^ 32) :
    ∃ c : Bytes, c.length = msg.length ∧
      (∀ rest, underKey (msg ++ rest) msg.length (key.map (·.toList)) = .ok (c ++ rest)) ∧
      ∀ rest, underKey (c ++ rest) msg.length (key.map (·.toList)) = .ok (msg ++ rest) := by
  cases key with
  | none => exact ⟨msg, rfl, fun _ => rfl, fun _ => rfl⟩
  | some key =>
    have hkey : 4096 ≤ key.toList.length := by simp
    have hcrypt : ∀ c rest : Bytes, c.length = msg.length →
        hyvCryptXor (c ++ rest) msg.length key.toList 4096 =
          .ok (masked key.toList 4096 0 c ++ rest) := by
      intro c rest hc
      rw [hyvCryptXor, if_neg (by omega), ← hc]
      exact xorLoop_masked (by decide) hkey [] c rest (by simp; omega)
    refine ⟨masked key.toList 4096 0 msg, masked_length _ _ _ _, fun rest => hcrypt msg rest rfl,
      fun rest => ?_⟩
    have hback := hcrypt (masked key.toList 4096 0 msg) rest (masked_length _ _ _ _)
    rw [masked_twice] at hback
    exact hback

/-! ## The frame is read back -/

/-- The ten bytes in front of the header. -/
def preamble (p : Packet) : Bytes := ((fields p).take 5).flatten

theorem frame_split (p : Packet) : frame p = preamble p ++ (p.header ++ (p.data ++ [0x89, 0xab])) := rfl

theorem field_append (a b c : Bytes) : field (a ++ (b ++ c)) a.length b.length = b := by
  rw [field, List.drop_left, List.take_left]

/-- Any size below 2^32 is read back from its two halves. -/
theorem halves_joined {n : Nat} (h : n < 2 ^ 32) :
    (UInt64.ofNat n >>> 16).toUInt16.toNat * 2 ^ 16 + (UInt64.ofNat n &&& 0xffff).toUInt16.toNat = n := by
  have hn : (UInt64.ofNat n).toNat = n := UInt64.toNat_ofNat_of_lt' (by show n < 2 ^ 64; omega)
  rw [UInt64.toNat_toUInt16, UInt64.toNat_toUInt16, UInt64.toNat_shiftRight, UInt64.toNat_and, hn]
  show (n >>> 16) % 2 ^ 16 * 2 ^ 16 + (n &&& (2 ^ 16 - 1)) % 2 ^ 16 = n
  rw [Nat.shiftRight_eq_div_pow, Nat.and_two_pow_sub_one_eq_mod]
  omega

theorem headerLength_frame {p : Packet} (h : p.header.length < 2 ^ 16)
    (fits : (frame p).length < 2 ^ 64) : headerLength ⟨frame p, fits⟩ = p.header.length := by
  show beNat (be16Bytes (UInt64.ofNat p.header.length).toUInt16) = _
  have hn : (UInt64.ofNat p.header.length).toNat = p.header.length :=
    UInt64.toNat_ofNat_of_lt' (by show p.header.length < 2 ^ 64; omega)
  rw [beNat_be16Bytes, UInt64.toNat_toUInt16, hn, Nat.mod_eq_of_lt h]

theorem dataLength_frame {p : Packet} (h : p.data.length < 2 ^ 32)
    (fits : (frame p).length < 2 ^ 64) : dataLength ⟨frame p, fits⟩ = p.data.length := by
  show beNat (be16Bytes (UInt64.ofNat p.data.length >>> 16).toUInt16 ++
    be16Bytes (UInt64.ofNat p.data.length &&& 0xffff).toUInt16) = _
  have hjoin : ∀ x y : UInt16, beNat (be16Bytes x ++ be16Bytes y) = x.toNat * 2 ^ 16 + y.toNat := by
    intro x y
    rw [← beNat_be16Bytes x, ← beNat_be16Bytes y]
    exact beNat_four _ _ _ _
  rw [hjoin, halves_joined h]

theorem field_header (p : Packet) : field (frame p) 10 p.header.length = p.header :=
  field_append (preamble p) p.header _

theorem field_data (p : Packet) :
    field (frame p) (10 + p.header.length) p.data.length = p.data := by
  have h := field_append (preamble p ++ p.header) p.data [0x89, 0xab]
  rw [List.append_assoc, ← frame_split, List.length_append] at h
  exact h

theorem field_magic2 (p : Packet) :
    field (frame p) (10 + p.header.length + p.data.length) 2 = [0x89, 0xab] := by
  have h := field_append (preamble p ++ p.header ++ p.data) [0x89, 0xab] []
  rw [List.append_nil, List.append_assoc, List.append_assoc, ← frame_split, List.length_append,
    List.length_append] at h
  exact h

/-- The parser accepts what the builder writes, and gives its parts back. -/
theorem parse_frame (p q : Packet) (hh : p.header.length < 2 ^ 16) (hd : p.data.length < 2 ^ 31)
    (fits : (frame p).length < 2 ^ 64) : ∃ r, parse q (some ⟨frame p, fits⟩) = .ok (0, r) ∧
      r.opcode = p.opcode ∧ r.header = p.header ∧ r.data = p.data := by
  have hheader := headerLength_frame hh fits
  have hdata := dataLength_frame (by omega) fits
  have hlen := frame_length p
  have hwell : WellFormed ⟨frame p, fits⟩ := by
    refine ⟨?_, rfl, ?_, ?_⟩
    · show 12 ≤ (frame p).length
      omega
    · rw [hheader, hdata, frame_length]
    · rw [hheader, hdata]
      exact field_magic2 p
  have hexact := exact_of_small q (wellFormed_not_early hwell) (by rw [hdata]; omega)
  obtain ⟨r, q', hparse, hret, hparts⟩ := hexact
  have hr := hret.mpr hwell
  obtain ⟨hop, hhdr, hdat⟩ := hparts hr
  rw [hr] at hparse
  rw [hheader] at hhdr
  rw [hheader, hdata] at hdat
  refine ⟨q', hparse, ?_, hhdr.trans (field_header p), hdat.trans (field_data p)⟩
  rw [← UInt16.toNat_inj, hop]
  exact beNat_be16Bytes p.opcode

/-! ## Over the wire -/

theorem sliceAt_prefix (a b : Bytes) : sliceAt (a ++ b) 0 a.length = .ok a := by
  rw [sliceAt_ok (by simp)]
  exact congrArg Except.ok (field_append [] a b)

/-- What fits the buffer of the sender is sent whole, and the key opens it. -/
theorem send_frame (p : Packet) (h : 12 + p.header.length + p.data.length ≤ 4096)
    (key : Option (Vector UInt8 4096)) (buf : Vector UInt8 4096) :
    ∃ c : Bytes, c.length = (frame p).length ∧
      sendPacket buf (key.map (·.toList)) p = .ok (some c) ∧
      ∀ rest, underKey (c ++ rest) c.length (key.map (·.toList)) = .ok (frame p ++ rest) := by
  have hlen := frame_length p
  have hsz : (12 + UInt64.ofNat p.header.length + UInt64.ofNat p.data.length).toNat =
      (frame p).length := by
    have h12 : (12 : UInt64).toNat = 12 := rfl
    rw [hlen, UInt64.toNat_add, UInt64.toNat_add, UInt64.toNat_ofNat', UInt64.toNat_ofNat', h12]
    omega
  obtain ⟨c, hc, hseal, hopen⟩ := underKey_twice key (frame p) (by omega)
  rw [← hc] at hopen
  refine ⟨c, hc, ?_, hopen⟩
  have hbuilt : build p (some buf.toList) = _ := build_frame p (by rw [hlen]; simpa using h)
  rw [sendPacket, hbuilt, ok_bind]
  simp only [hsz, hseal, ok_bind]
  rw [← hc, sliceAt_prefix, ok_bind]
  rfl

/-- What fits the buffer of the sender comes back whole, under any key or none, whatever
both static buffers and the receiver's packet held. -/
theorem wire_round_trip (opcode : UInt16) (header data : Bytes)
    (h : 12 + header.length + data.length ≤ 4096) (key : Option (Vector UInt8 4096))
    (buf : Vector UInt8 4096) (pktBuf : Vector UInt8 (16 * 1024)) (q : Packet) :
    ∃ msg r, sendPacket buf (key.map (·.toList)) { opcode, header, data } = .ok (some msg) ∧
      receivePacket pktBuf (key.map (·.toList)) q msg = .ok (0, r) ∧
      r.opcode = opcode ∧ r.header = header ∧ r.data = data := by
  let p : Packet := { opcode, header, data }
  have hlen : (frame p).length = 12 + header.length + data.length := frame_length p
  obtain ⟨c, hc, hsent, hopen⟩ := send_frame p h key buf
  refine ⟨c, ?_⟩
  have hfits : (frame p).length < 2 ^ 64 := by omega
  obtain ⟨r, hr, hparts⟩ := parse_frame p q (by show header.length < _; omega)
    (by show data.length < _; omega) hfits
  refine ⟨r, hsent, ?_, hparts⟩
  have hstore := storeAt_append (a := []) (b := pktBuf.toList) (c := c) (by simp; omega)
  rw [List.nil_append] at hstore
  rw [receivePacket, show storeAt pktBuf.toList 0 c = _ from hstore, ok_bind]
  simp only [List.nil_append, hopen, ok_bind]
  rw [hc, sliceAt_prefix, ok_bind, dif_pos hfits, hr]

/-- A ping under a key of equal bytes. -/
theorem wire_round_trip_ping : ∃ msg r,
    sendPacket (.replicate 4096 0) (some (Vector.replicate 4096 0x5a).toList)
      { opcode := 7, header := [0x18, 0x01], data := [0x08] } = .ok (some msg) ∧
    receivePacket (.replicate (16 * 1024) 0) (some (Vector.replicate 4096 0x5a).toList) {} msg =
      .ok (0, r) ∧
    r.opcode = 7 ∧ r.header = [0x18, 0x01] ∧ r.data = [0x08] :=
  wire_round_trip 7 [0x18, 0x01] [0x08] (by decide) (some (.replicate 4096 0x5a))
    (.replicate 4096 0) (.replicate (16 * 1024) 0) {}

end Yagips.Wire.RoundTrip
