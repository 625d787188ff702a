import Yagips.Wire.RoundTrip

/-!
# Frames that do not fit

`build` takes the capacity of its buffer in the variable it returns the frame's size in, and
overwrites it before it looks. What is too long for the buffer is written behind it.
-/
namespace Yagips.Wire.Overrun

open Yagips.Lib
open Yagips.Wire.Frame
open Yagips.Wire.Build
open Yagips.Wire.RoundTrip

/-- `Packet::build(unsigned char*, size_t*)`, where the size is the capacity. -/
def buildInto (p : Packet) (buf : Option Bytes) (sz : Option UInt64) : Except Fault (Option Built) :=
  match sz with
  | none => return none
  | some _ => build p buf

/-- In a buffer of some capacity at the start of the memory, a frame that fits is written, the
rest of the memory stays, and one that does not fit is refused. -/
def BuildsWithin (p : Packet) (mem : Bytes) (capacity : UInt64) : Prop :=
  if (frame p).length ≤ capacity.toNat then
    ∃ built, buildInto p (some mem) (some capacity) = .ok (some built) ∧
      built.buf.take (frame p).length = frame p ∧ built.buf.length = mem.length ∧
      built.buf.drop capacity.toNat = mem.drop capacity.toNat
  else buildInto p (some mem) (some capacity) = .ok none

/-- The frame is sent whole, under the key, or -1 is returned. -/
def SendsWhole (buf : Vector UInt8 4096) (key : Option (Vector UInt8 4096)) (p : Packet) : Prop :=
  sendPacket buf (key.map Vector.toList) p = .ok none ∨
  ∃ msg, sendPacket buf (key.map Vector.toList) p = .ok (some msg) ∧
    msg.length = (frame p).length ∧
    underKey msg msg.length (key.map Vector.toList) = .ok (frame p)

/-! ## Writing behind the buffer -/

theorem storeAt_fits {buf r bs : Bytes} {off : Nat} (h : storeAt buf off bs = .ok r) :
    off + bs.length ≤ buf.length ∧ r.length = buf.length := by
  unfold storeAt at h
  split at h
  case isTrue hfits =>
    cases h
    refine ⟨hfits, ?_⟩
    simp only [List.length_append, List.length_take, List.length_drop]
    omega
  case isFalse => cases h

/-- The last of the fields ends where all of them together end. -/
theorem storeAll_fits {buf r : Bytes} {pos : Nat} {fields : List Bytes} (hpos : pos ≤ buf.length)
    (h : storeAll buf pos fields = .ok r) : pos + fields.flatten.length ≤ buf.length := by
  induction fields generalizing buf pos with
  | nil => simpa using hpos
  | cons bs rest ih =>
    obtain ⟨next, hnext, hrest⟩ := bind_eq_ok.mp h
    obtain ⟨hfits, hlen⟩ := storeAt_fits hnext
    have hall := ih (by omega) hrest
    rw [List.flatten_cons, List.length_append]
    omega

/-- A frame longer than the memory is written behind it. -/
theorem build_overruns {p : Packet} {mem : Bytes} (h : mem.length < (frame p).length) :
    ∃ f, build p (some mem) = .error f := by
  cases hb : storeAll mem 0 (fields p) with
  | error f =>
    refine ⟨f, ?_⟩
    rw [build, hb]
    rfl
  | ok r =>
    have hfits := storeAll_fits (Nat.zero_le _) hb
    exact absurd h (by rw [frame]; omega)

theorem build_not_refused (p : Packet) (mem : Bytes) : build p (some mem) ≠ .ok none := by
  intro h
  obtain ⟨buf, -, h⟩ := bind_eq_ok.mp h
  cases h

theorem builds_within_iff (p : Packet) {mem : Bytes} {capacity : UInt64}
    (h : capacity.toNat ≤ mem.length) :
    BuildsWithin p mem capacity ↔ 12 + p.header.length + p.data.length ≤ capacity.toNat := by
  rw [BuildsWithin, frame_length]
  split
  case isTrue hfits =>
    refine iff_of_true ?_ hfits
    have hlen := frame_length p
    refine ⟨_, build_frame p (by omega), ?_, ?_, ?_⟩
    · dsimp only
      rw [← frame_length, List.take_left]
    · simp only [List.length_append, List.length_drop]
      omega
    · have hdrop : capacity.toNat = (frame p).length + (capacity.toNat - (frame p).length) := by omega
      rw [hdrop, List.drop_length_add_append, List.drop_drop]
  case isFalse hlong => exact iff_of_false (build_not_refused p mem) hlong

theorem send_overruns {p : Packet} (h : 4096 < 12 + p.header.length + p.data.length)
    (buf : Vector UInt8 4096) (key : Option (Vector UInt8 4096)) : ¬ SendsWhole buf key p := by
  obtain ⟨f, hf⟩ := @build_overruns p buf.toList (by
    rw [frame_length, Vector.length_toList]
    exact h)
  have hsend : sendPacket buf (key.map Vector.toList) p = .error f := by
    rw [sendPacket, hf]
    rfl
  rintro (hnone | ⟨msg, hsome, -⟩)
  · cases hnone.symm.trans hsend
  · cases hsome.symm.trans hsend

theorem send_whole {p : Packet} (h : 12 + p.header.length + p.data.length ≤ 4096)
    (buf : Vector UInt8 4096) (key : Option (Vector UInt8 4096)) : SendsWhole buf key p := by
  obtain ⟨c, hc, hsent, hopen⟩ := send_frame p h key buf
  have hopen := hopen []
  rw [List.append_nil, List.append_nil] at hopen
  exact .inr ⟨c, hsent, hc, hopen⟩

/-- Exactly the frames that fit are built where they may be, and sent. -/
theorem never_overruns_iff (p : Packet) :
    (∀ mem (capacity : UInt64), capacity.toNat ≤ mem.length →
      (BuildsWithin p mem capacity ↔ 12 + p.header.length + p.data.length ≤ capacity.toNat)) ∧
    ∀ buf key, SendsWhole buf key p ↔ 12 + p.header.length + p.data.length ≤ 4096 := by
  refine ⟨fun mem capacity h => builds_within_iff p h, fun buf key => ?_⟩
  constructor
  · intro hsends
    by_contra hlong
    exact send_overruns (Nat.lt_of_not_le hlong) buf key hsends
  · exact fun h => send_whole h buf key

/-- A frame of 4097 bytes. -/
theorem long_frame_overruns : ¬ SendsWhole (.replicate 4096 0) none
    { opcode := 0, header := [], data := List.replicate 4085 0 } := by
  apply send_overruns
  rw [List.length_replicate]
  decide

end Yagips.Wire.Overrun
