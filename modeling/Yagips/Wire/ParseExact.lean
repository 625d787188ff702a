import Yagips.Wire.Frame

/-!
# Exactly which buffers the parser handles

The declared data length reaches `size_t` through a signed `int`. Below `2^31` the
conversion is the identity and the parser is exact. From `2^31` on it adds
`2^64 - 2^32`, the sum of the lengths wraps, and the size check can pass on a buffer
that holds no such data.
-/
namespace Yagips.Wire.ParseExact

open Yagips.Lib
open Yagips.Wire.Frame

/-- The `size_t` the declared data length becomes. -/
def convertedLength (buf : Buffer) : Nat :=
  if dataLength buf < 2 ^ 31 then dataLength buf else 2 ^ 64 - 2 ^ 32 + dataLength buf

/-- The wrapped sum `data_sz + hdr_sz + k`. -/
def offsetOf (buf : Buffer) (k : Nat) : Nat :=
  (convertedLength buf + headerLength buf + k) % 2 ^ 64

/-- The buffer is refused before the data length is used. -/
def RefusedEarly (buf : Buffer) : Prop :=
  buf.bytes.length < 10 ∨ field buf.bytes 0 2 ≠ [0x45, 0x67] ∨
    buf.bytes.length < headerLength buf + 10

/-- Both bytes the parser takes for the closing magic lie in the buffer. -/
def TrailerInside (buf : Buffer) : Prop :=
  offsetOf buf 10 < buf.bytes.length ∧ offsetOf buf 11 < buf.bytes.length

def TrailerMatches (buf : Buffer) : Prop :=
  buf.bytes[offsetOf buf 10]? = some 0x89 ∧ buf.bytes[offsetOf buf 11]? = some 0xab

/-- The inputs on which the parser keeps its contract. -/
def LengthsAgree (buf : Buffer) : Prop :=
  RefusedEarly buf ∨ dataLength buf < 2 ^ 31 ∨
    (¬ WellFormed buf ∧
      (buf.bytes.length < offsetOf buf 12 ∨ (TrailerInside buf ∧ ¬ TrailerMatches buf)))

/-! ## Widths -/

theorem headerLength_lt (buf : Buffer) (h : 10 ≤ buf.bytes.length) : headerLength buf < 2 ^ 16 := by
  rw [headerLength, field_two (by omega)]
  exact beNat_two_lt _ _

theorem dataLength_eq (buf : Buffer) (h : 10 ≤ buf.bytes.length) :
    dataLength buf = beNat (field buf.bytes 6 2) * 2 ^ 16 + beNat (field buf.bytes 8 2) := by
  rw [dataLength, field_four (by omega), field_two (by omega), field_two (by omega)]
  exact beNat_four _ _ _ _

theorem intToSize_toNat (x : UInt32) :
    (intToSize x).toNat = if x.toNat < 2 ^ 31 then x.toNat else 2 ^ 64 - 2 ^ 32 + x.toNat := by
  have hx := x.toNat_lt
  change (x.toBitVec.signExtend 64).toNat = _
  rw [BitVec.toNat_signExtend, BitVec.toNat_setWidth, BitVec.msb_eq_decide]
  change x.toNat % 2 ^ 64 + (if decide (2 ^ 31 ≤ x.toNat) = true then 2 ^ 64 - 2 ^ 32 else 0) = _
  rw [Nat.mod_eq_of_lt (by omega)]
  by_cases hs : x.toNat < 2 ^ 31
  · rw [if_neg (by simpa using hs), if_pos hs, Nat.add_zero]
  · rw [if_pos (by simpa using hs), if_neg hs, Nat.add_comm]

/-- The data length as the parser computes it, from the two halves it reads. -/
theorem joined_toNat {buf : Buffer} {hi lo : UInt16} (h : 10 ≤ buf.bytes.length)
    (hhi : hi.toNat = beNat (field buf.bytes 6 2)) (hlo : lo.toNat = beNat (field buf.bytes 8 2)) :
    (intToSize ((hi.toUInt32 <<< 16) ||| lo.toUInt32)).toNat = convertedLength buf := by
  have hd : ((hi.toUInt32 <<< 16) ||| lo.toUInt32).toNat = dataLength buf := by
    rw [join32_toNat, hhi, hlo, dataLength_eq buf h]
  rw [intToSize_toNat, hd, convertedLength]

/-! ## The parser, stage by stage -/

theorem size_lt_iff (buf : Buffer) (w : UInt64) : buf.size < w ↔ buf.bytes.length < w.toNat := by
  rw [UInt64.lt_iff_toNat_lt, buf.size_toNat]

theorem parse_early (p : Packet) {buf : Buffer} (h : RefusedEarly buf) :
    ∃ q, parse p (some buf) = .ok (-1, q) := by
  unfold parse parseBuffer
  by_cases hs : buf.size < 10
  · exact ⟨p, if_pos hs⟩
  have hlen : 10 ≤ buf.bytes.length := by
    rw [size_lt_iff] at hs
    exact Nat.not_lt.mp hs
  obtain ⟨w0, e0, h0⟩ := be16At_ok buf.bytes 0 (by omega)
  obtain ⟨w2, e2, h2⟩ := be16At_ok buf.bytes 2 (by omega)
  obtain ⟨w4, e4, h4⟩ := be16At_ok buf.bytes 4 (by omega)
  have hm : w0 = packetMagic1 ↔ field buf.bytes 0 2 = [0x45, 0x67] :=
    be16At_eq_iff (by omega) h0 (by decide)
  simp only [if_neg hs, e0, e2, e4, bind, Except.bind]
  by_cases hw : w0 = packetMagic1
  · have hh : buf.size < w4.toUInt64 + 10 := by
      have hlt := headerLength_lt buf hlen
      have hr : buf.bytes.length < headerLength buf + 10 := by
        rcases h with hl | hne | hr
        · omega
        · exact absurd (hm.mp hw) hne
        · exact hr
      rw [size_lt_iff, UInt64.toNat_add, UInt16.toNat_toUInt64, h4]
      change _ < (headerLength buf + 10) % 2 ^ 64
      omega
    exact ⟨{ p with opcode := w2 }, by simp only [hw, ne_eq, not_true_eq_false, if_false, if_pos hh]; rfl⟩
  · exact ⟨p, if_pos hw⟩

/-- What the parser does once the header length has been accepted. -/
def trailer (p : Packet) (buf : Buffer) (opcode : UInt16) : Except Fault (Int × Packet) := do
  let magic2Hi ← byteAt buf.bytes (offsetOf buf 10)
  let magic2Lo ← byteAt buf.bytes (offsetOf buf 11)
  if (magic2Hi.toUInt16 <<< 8) ||| magic2Lo.toUInt16 ≠ packetMagic2 then
    pure (-1, { p with opcode := opcode })
  else do
    let header ← sliceAt buf.bytes 10 (headerLength buf)
    let data ← sliceAt buf.bytes (headerLength buf + 10) (convertedLength buf)
    pure (0, { opcode := opcode, header := header, data := data,
               rawpktBuf := some buf, rawpktSz := buf.size })

theorem parse_late (p : Packet) {buf : Buffer} (h : ¬ RefusedEarly buf) :
    ∃ opcode : UInt16, opcode.toNat = beNat (field buf.bytes 2 2) ∧
      parse p (some buf) =
        if buf.bytes.length < offsetOf buf 12 then .ok (-1, { p with opcode := opcode })
        else trailer p buf opcode := by
  obtain ⟨hlen, hmagic, hfit⟩ : 10 ≤ buf.bytes.length ∧ field buf.bytes 0 2 = [0x45, 0x67] ∧
      headerLength buf + 10 ≤ buf.bytes.length := by
    simpa only [RefusedEarly, not_or, not_lt, ne_eq, not_not] using h
  obtain ⟨w0, e0, h0⟩ := be16At_ok buf.bytes 0 (by omega)
  obtain ⟨w2, e2, h2⟩ := be16At_ok buf.bytes 2 (by omega)
  obtain ⟨w4, e4, h4⟩ := be16At_ok buf.bytes 4 (by omega)
  obtain ⟨w6, e6, h6⟩ := be16At_ok buf.bytes 6 (by omega)
  obtain ⟨w8, e8, h8⟩ := be16At_ok buf.bytes 8 (by omega)
  have hw : w0 = packetMagic1 := (be16At_eq_iff (by omega) h0 (by decide)).mpr hmagic
  have hhdr : w4.toUInt64.toNat = headerLength buf := by rw [UInt16.toNat_toUInt64, h4]; rfl
  have hdata := joined_toNat hlen h6 h8
  have hh : ¬ buf.size < w4.toUInt64 + 10 := by
    have hlt := headerLength_lt buf hlen
    rw [size_lt_iff, UInt64.toNat_add, hhdr]
    change ¬ _ < (headerLength buf + 10) % 2 ^ 64
    omega
  have hsum : ∀ k : UInt64, (intToSize ((w6.toUInt32 <<< 16) ||| w8.toUInt32) + w4.toUInt64 + k).toNat =
      offsetOf buf k.toNat := by
    intro k
    rw [UInt64.toNat_add, UInt64.toNat_add, hdata, hhdr, Nat.mod_add_mod]
    rfl
  have hs : ¬ buf.size < 10 := by
    rw [size_lt_iff]
    exact Nat.not_lt.mpr hlen
  refine ⟨w2, h2, ?_⟩
  simp only [parse, parseBuffer, if_neg hs, e0, e2, e4, e6, e8, bind, Except.bind, hw, ne_eq,
    not_true_eq_false, if_false, if_neg hh]
  simp only [size_lt_iff, hsum, hhdr, hdata, trailer]
  rfl

/-! ## The contract -/

theorem wellFormed_not_early {buf : Buffer} (h : WellFormed buf) : ¬ RefusedEarly buf := by
  have hl := h.long
  have hf := h.fits
  rintro (hs | hm | hh)
  · omega
  · exact hm h.magic1
  · omega

/-- A parse that ends in -1 keeps the contract exactly on ill-formed buffers. -/
theorem exact_of_refused {p q : Packet} {buf : Buffer} (h : parse p (some buf) = .ok (-1, q)) :
    ParsesExactly p buf ↔ ¬ WellFormed buf := by
  constructor
  · rintro ⟨r, q', hr, hw, -⟩ hwf
    rw [h] at hr
    cases hr
    exact absurd (hw.mpr hwf) (by decide)
  · intro hwf
    exact ⟨-1, q, h, iff_of_false (by decide) hwf, fun h0 => absurd h0 (by decide)⟩

theorem not_exact_of_fault {p : Packet} {buf : Buffer} {f : Fault}
    (h : parse p (some buf) = .error f) : ¬ ParsesExactly p buf := by
  rintro ⟨r, q, hr, -⟩
  rw [h] at hr
  cases hr

/-- The three ways the trailer check can go, once the size check has passed. -/
theorem trailer_cases (p : Packet) (buf : Buffer) (opcode : UInt16) :
    (¬ TrailerInside buf ∧ ∃ f, trailer p buf opcode = .error f) ∨
    (TrailerInside buf ∧ ¬ TrailerMatches buf ∧
      trailer p buf opcode = .ok (-1, { p with opcode := opcode })) ∨
    (TrailerInside buf ∧ TrailerMatches buf ∧ trailer p buf opcode = (do
      let header ← sliceAt buf.bytes 10 (headerLength buf)
      let data ← sliceAt buf.bytes (headerLength buf + 10) (convertedLength buf)
      pure (0, { opcode := opcode, header := header, data := data,
                 rawpktBuf := some buf, rawpktSz := buf.size }))) := by
  by_cases h10 : offsetOf buf 10 < buf.bytes.length
  · by_cases h11 : offsetOf buf 11 < buf.bytes.length
    · have hjoin : (buf.bytes[offsetOf buf 10].toUInt16 <<< 8) ||| buf.bytes[offsetOf buf 11].toUInt16
          = packetMagic2 ↔ TrailerMatches buf := by
        rw [← UInt16.toNat_inj, join16_toNat, TrailerMatches, List.getElem?_eq_getElem h10,
          List.getElem?_eq_getElem h11]
        refine (beNat_two_inj (c := 0x89) (d := 0xab)).trans ?_
        simp
      refine Or.inr ?_
      by_cases hm : TrailerMatches buf
      · refine Or.inr ⟨⟨h10, h11⟩, hm, ?_⟩
        simp only [trailer, byteAt_ok h10, byteAt_ok h11, bind, Except.bind, hjoin.mpr hm, ne_eq,
          not_true_eq_false, if_false]
      · refine Or.inl ⟨⟨h10, h11⟩, hm, ?_⟩
        simp only [trailer, byteAt_ok h10, byteAt_ok h11, bind, Except.bind]
        exact if_pos (fun he => hm (hjoin.mp he))
    · refine Or.inl ⟨fun h => h11 h.2, .read (offsetOf buf 11), ?_⟩
      simp only [trailer, byteAt_ok h10, byteAt_fault (Nat.not_lt.mp h11), bind, Except.bind]
  · refine Or.inl ⟨fun h => h10 h.1, .read (offsetOf buf 10), ?_⟩
    simp only [trailer, byteAt_fault (Nat.not_lt.mp h10), bind, Except.bind]

/-- Below `2^31` no sum wraps: the offsets are the true ones. -/
theorem offsetOf_small {buf : Buffer} (hd : dataLength buf < 2 ^ 31) (hh : headerLength buf < 2 ^ 16)
    {k : Nat} (hk : k ≤ 12) : offsetOf buf k = k + headerLength buf + dataLength buf := by
  rw [offsetOf, convertedLength, if_pos hd]
  omega

theorem trailerMatches_small {buf : Buffer} (hd : dataLength buf < 2 ^ 31)
    (hh : headerLength buf < 2 ^ 16)
    (hfit : 12 + headerLength buf + dataLength buf ≤ buf.bytes.length) :
    TrailerMatches buf ↔
      field buf.bytes (10 + headerLength buf + dataLength buf) 2 = [0x89, 0xab] := by
  rw [TrailerMatches, offsetOf_small hd hh (by decide), offsetOf_small hd hh (by decide),
    field_two (by omega), List.getElem?_eq_getElem (by omega), List.getElem?_eq_getElem (by omega)]
  simp only [Option.some.injEq, List.cons.injEq, and_true]
  have he : 11 + headerLength buf + dataLength buf = 10 + headerLength buf + dataLength buf + 1 := by
    omega
  simp only [he]

/-- Every accepted length below `2^31` is handled exactly. -/
theorem exact_of_small (p : Packet) {buf : Buffer} (h : ¬ RefusedEarly buf)
    (hd : dataLength buf < 2 ^ 31) : ParsesExactly p buf := by
  obtain ⟨hlen, hmagic, -⟩ : 10 ≤ buf.bytes.length ∧ field buf.bytes 0 2 = [0x45, 0x67] ∧
      headerLength buf + 10 ≤ buf.bytes.length := by
    simpa only [RefusedEarly, not_or, not_lt, ne_eq, not_not] using h
  have hh := headerLength_lt buf hlen
  obtain ⟨opcode, hop, hparse⟩ := parse_late p h
  have h12 := offsetOf_small hd hh (k := 12) (by decide)
  by_cases hfit : buf.bytes.length < offsetOf buf 12
  · rw [if_pos hfit] at hparse
    refine (exact_of_refused hparse).mpr fun hwf => ?_
    have := hwf.fits
    omega
  rw [if_neg hfit] at hparse
  have hin : TrailerInside buf := by
    constructor <;> rw [offsetOf_small hd hh (by decide)] <;> omega
  have hmatch := trailerMatches_small hd hh (by omega)
  rcases trailer_cases p buf opcode with ⟨hout, -⟩ | ⟨-, hne, ht⟩ | ⟨-, hm, ht⟩
  · exact absurd hin hout
  · rw [ht] at hparse
    exact (exact_of_refused hparse).mpr fun hwf => hne (hmatch.mpr hwf.magic2)
  · have hconv : convertedLength buf = dataLength buf := if_pos hd
    rw [ht, hconv, sliceAt_ok (by omega), sliceAt_ok (by omega)] at hparse
    refine ⟨0, _, hparse, iff_of_true rfl ?_, fun _ => ⟨hop, rfl, ?_⟩⟩
    · exact ⟨by omega, hmagic, by omega, hmatch.mp hm⟩
    · rw [Nat.add_comm (headerLength buf)]

/-- From `2^31` on, an accepted frame would hold more data than it declares. -/
theorem not_exact_of_converted {p q : Packet} {buf : Buffer} {r : Int} {off : Nat}
    (hd : ¬ dataLength buf < 2 ^ 31) (hparse : parse p (some buf) = .ok (r, q)) (hr : r = 0)
    (hoff : off + convertedLength buf ≤ buf.bytes.length)
    (hdata : q.data = field buf.bytes off (convertedLength buf)) : ¬ ParsesExactly p buf := by
  rintro ⟨r', q', hr', -, hq⟩
  rw [hparse] at hr'
  cases hr'
  have hlen := congrArg List.length ((hq hr).2.2)
  rw [hdata, field_length hoff, field, List.length_take, convertedLength, if_neg hd] at hlen
  omega

theorem parse_exact_iff (p : Packet) (buf : Buffer) : ParsesExactly p buf ↔ LengthsAgree buf := by
  by_cases he : RefusedEarly buf
  · obtain ⟨q, hq⟩ := parse_early p he
    refine iff_of_true ((exact_of_refused hq).mpr fun hwf => wellFormed_not_early hwf he) (.inl he)
  by_cases hd : dataLength buf < 2 ^ 31
  · exact iff_of_true (exact_of_small p he hd) (.inr (.inl hd))
  have hagree : LengthsAgree buf ↔ ¬ WellFormed buf ∧
      (buf.bytes.length < offsetOf buf 12 ∨ (TrailerInside buf ∧ ¬ TrailerMatches buf)) := by
    simp only [LengthsAgree, he, hd, false_or]
  rw [hagree]
  obtain ⟨opcode, -, hparse⟩ := parse_late p he
  by_cases hfit : buf.bytes.length < offsetOf buf 12
  · rw [if_pos hfit] at hparse
    rw [exact_of_refused hparse]
    simp only [hfit, true_or, and_true]
  rw [if_neg hfit] at hparse
  simp only [hfit, false_or]
  rcases trailer_cases p buf opcode with ⟨hout, f, ht⟩ | ⟨hin, hne, ht⟩ | ⟨hin, hm, ht⟩
  · rw [ht] at hparse
    exact iff_of_false (not_exact_of_fault hparse) fun h => hout h.2.1
  · rw [ht] at hparse
    rw [exact_of_refused hparse]
    simp only [hin, hne, not_false_eq_true, and_true]
  · refine iff_of_false ?_ fun h => h.2.2 hm
    have hhdr : 10 + headerLength buf ≤ buf.bytes.length := by
      simp only [RefusedEarly, not_or, not_lt] at he
      omega
    rw [ht, sliceAt_ok hhdr] at hparse
    by_cases hslice : headerLength buf + 10 + convertedLength buf ≤ buf.bytes.length
    · rw [sliceAt_ok hslice] at hparse
      exact not_exact_of_converted hd hparse rfl hslice rfl
    · rw [sliceAt_fault (by omega)] at hparse
      exact not_exact_of_fault hparse

/-- A twelve-byte frame with a one-byte header that declares `2^32 - 1` data bytes. -/
def oversized : Buffer :=
  ⟨[0x45, 0x67, 0x00, 0x01, 0x00, 0x01, 0xff, 0xff, 0xff, 0xff, 0x89, 0xab], by decide⟩

theorem oversized_throws : ¬ ∀ p buf, ParsesExactly p buf := by
  intro h
  have hparse : parse {} (some oversized) = .error (.slice 11 (2 ^ 64 - 1)) := by decide
  exact not_exact_of_fault hparse (h {} oversized)

end Yagips.Wire.ParseExact
