import Yagips.Crypto.Rsa

/-!
# Decrypting what was encrypted

Both functions take the size of a block from the cipher. The one that encrypts steps by 11 bytes less
in its input. The one that decrypts steps by 11 bytes more, which is more than a block.
-/
namespace Yagips.Crypto.RsaInverse

open Yagips.Lib
open Yagips.Crypto.Rsa

variable {evp : Evp} {k : UInt64} {keys : Keys} {keyId : UInt32}

/-! ## What is asked of the functions -/

/-- Encrypting returns the length of whole blocks. -/
def EncReturns (keys : Keys) (keyId : UInt32) (k : UInt64) (m obuf : Bytes) (olen : UInt64) : Prop :=
  ∃ out, hyvCryptRsaEnc keys (some m) (UInt64.ofNat m.length) (some obuf) olen keyId =
    .ok ((blockCount k m.length * k.toNat : Nat), out)

/-- Encrypting does, and decrypting what it wrote writes the message and returns its length. -/
def Inverts (keys : Keys) (keyId : UInt32) (k : UInt64) (m obuf : Bytes) (olen : UInt64) (dbuf : Bytes)
    (dlen : UInt64) : Prop :=
  ∃ out, hyvCryptRsaEnc keys (some m) (UInt64.ofNat m.length) (some obuf) olen keyId =
      .ok ((blockCount k m.length * k.toNat : Nat), out) ∧
    ∃ out', hyvCryptRsaDec keys (some (out.take (blockCount k m.length * k.toNat)))
        (UInt64.ofNat (blockCount k m.length * k.toNat)) (some dbuf) dlen keyId = .ok (m.length, out') ∧
      out'.take m.length = m

/-! ## One block -/

theorem sealed_one (h : Padded evp k) {m c : Bytes} (hsealed : Sealed evp k m c) (hlen : c.length = k.toNat) :
    Opens evp k c m := by
  have hk := h.long
  cases hsealed with
  | nil =>
    rw [List.length_nil] at hlen
    omega
  | cons hp hblock hrest =>
    cases hrest with
    | nil =>
      rw [List.append_nil, List.append_nil]
      exact hblock
    | cons hp' hblock' hrest' =>
      simp only [List.length_append, hblock.size, hblock'.size] at hlen
      omega

theorem toNat_step (hk : k.toNat < 2 ^ 31) : (k + 11).toNat = k.toNat + 11 := by
  rw [UInt64.toNat_add]
  exact Nat.mod_eq_of_lt (show k.toNat + 11 < 2 ^ 64 by omega)

/-- A single block is decrypted. -/
theorem dec_one (h : Padded evp k) (hkey : keys keyId = some evp) {m c : Bytes} (hopens : Opens evp k c m)
    (hk : k.toNat < 2 ^ 31) (hm : m.length ≤ k.toNat - 11) {dbuf : Bytes} {dlen : UInt64}
    (hpos : 0 < dlen.toNat) (hmax : dlen.toNat < 2 ^ 63) (hroom : m.length ≤ dbuf.length) :
    hyvCryptRsaDec keys (some c) k (some dbuf) dlen keyId = .ok (m.length, m ++ dbuf.drop m.length) := by
  have hlong := h.long
  have hne : ¬ (k = 0 ∨ dlen = 0) := not_or.mpr ⟨ne_zero_of_pos (by omega), ne_zero_of_pos hpos⟩
  have hstep : (k + 11).toNat = k.toNat + 11 := toNat_step hk
  have hcond : 0 < k.toInt64 ∧ 0 < dlen.toInt64 := by
    rw [toInt64_pos_iff, toInt64_pos_iff]
    omega
  have hshort : k < k + 11 := by
    rw [UInt64.lt_iff_toNat_lt, hstep]
    omega
  have hslice : sliceAt c 0 k.toNat = .ok c := by
    rw [sliceAt_ok (by rw [hopens.size]; omega), field, List.drop_zero, ← hopens.size, List.take_length]
  have hend : ¬ 0 < (k - (k + 11)).toInt64 := by
    rw [sub_pos_iff (by omega) (by omega), hstep]
    omega
  have hlen : (UInt64.ofNat m.length).toNat = m.length := toNat_ofLength (by omega)
  have hstore : storeAt dbuf 0 m = .ok (m ++ dbuf.drop m.length) := storeAt_append (a := []) hroom
  have hret : (0 + 1) * UInt64.ofNat m.length = UInt64.ofNat m.length := by
    rw [UInt64.zero_add, UInt64.one_mul]
  obtain ⟨fuel, hfuel⟩ : ∃ fuel, k.toNat = fuel + 1 := ⟨k.toNat - 1, by omega⟩
  simp only [hyvCryptRsaDec, rsaBlocks, if_neg hne, hkey, h.decryptSize]
  rw [blockLoop, if_pos hcond]
  simp only [if_pos hshort, hslice, ok_bind, hopens.opens _ _ (UInt64.le_refl k)]
  rw [hstore, ok_bind, hfuel, blockLoop_end]
  · rw [hret, asInt_of_lt (by rw [hlen]; omega), hlen]
  · exact fun hc => hend hc.1

/-! ## More blocks -/

/-- More than one block is not decrypted. -/
theorem dec_more (h : Padded evp k) (hkey : keys keyId = some evp) {n : Nat} (hn : 2 ≤ n)
    (hfit : n * k.toNat < 2 ^ 31) (c dbuf : Bytes) {dlen : UInt64} (hpos : 0 < dlen.toNat)
    (hmax : dlen.toNat < 2 ^ 63) {ret : Int} {out : Bytes}
    (hdec : hyvCryptRsaDec keys (some c) (UInt64.ofNat (n * k.toNat)) (some dbuf) dlen keyId = .ok (ret, out)) :
    ret = -1 := by
  have hlong := h.long
  have htwo : 2 * k.toNat ≤ n * k.toNat := Nat.mul_le_mul_right _ hn
  have hilen : (UInt64.ofNat (n * k.toNat)).toNat = n * k.toNat := toNat_ofLength (by omega)
  have hne : ¬ (UInt64.ofNat (n * k.toNat) = 0 ∨ dlen = 0) :=
    not_or.mpr ⟨ne_zero_of_pos (by omega), ne_zero_of_pos hpos⟩
  have hstep : (k + 11).toNat = k.toNat + 11 := toNat_step (by omega)
  have hcond : 0 < (UInt64.ofNat (n * k.toNat)).toInt64 ∧ 0 < dlen.toInt64 := by
    rw [toInt64_pos_iff, toInt64_pos_iff, hilen]
    omega
  have hlongStep : ¬ UInt64.ofNat (n * k.toNat) < k + 11 := by
    rw [UInt64.lt_iff_toNat_lt, hilen, hstep]
    omega
  simp only [hyvCryptRsaDec, rsaBlocks, if_neg hne, hkey, h.decryptSize] at hdec
  rw [blockLoop, if_pos hcond, if_neg hlongStep] at hdec
  obtain ⟨block, hslice, hdec⟩ := bind_eq_ok.mp hdec
  have hsize : block.length = k.toNat + 11 := (sliceAt_length hslice).trans hstep
  have hnone := h.whole (0 : UInt64).toNat k block (by omega)
  simp only [hnone] at hdec
  cases hdec
  rfl

/-! ## Every message -/

theorem encReturns_iff (h : Padded evp k) (hkey : keys keyId = some evp) {m : Bytes} (hm : m ≠ [])
    {obuf : Bytes} {olen : UInt64} (hobuf : Room k m.length obuf olen) :
    EncReturns keys keyId k m obuf olen ↔
      blockCount k m.length * k.toNat < 2 ^ 31 ∧ olen.toNat < 2 ^ 63 := by
  constructor
  · intro ⟨out, hout⟩
    have hlt := rsaBlocks_lt hout
    have hpos := List.length_pos_iff.mpr hm
    have hle := length_le_blocks h.long m.length
    refine ⟨by omega, Nat.lt_of_not_le fun hmax => ?_⟩
    have hidle := rsaBlocks_idle hmax hout
    omega
  · intro ⟨hfit, hmax⟩
    obtain ⟨c, -, -, henc⟩ := enc_ok h hkey hm hfit hobuf hmax
    exact ⟨_, henc⟩

/-- A message of one block comes back. -/
theorem inverts_one (h : Padded evp k) (hkey : keys keyId = some evp) {m : Bytes} (hm : m ≠ [])
    {obuf dbuf : Bytes} {olen dlen : UInt64} (hobuf : Room k m.length obuf olen)
    (hdbuf : Room k m.length dbuf dlen) (hone : m.length ≤ k.toNat - 11) (hsmall : k.toNat < 2 ^ 31)
    (hmax : olen.toNat < 2 ^ 63) (hdmax : dlen.toNat < 2 ^ 63) :
    Inverts keys keyId k m obuf olen dbuf dlen := by
  have hcount := blockCount_one h.long (List.length_pos_iff.mpr hm) hone
  have hfit : blockCount k m.length * k.toNat < 2 ^ 31 := by rwa [hcount, Nat.one_mul]
  obtain ⟨c, hsealed, hlen, henc⟩ := enc_ok h hkey hm hfit hobuf hmax
  have hck : c.length = k.toNat := by rw [hlen, hcount, Nat.one_mul]
  have hdpos : 0 < dlen.toNat :=
    Nat.pos_of_ne_zero fun hzero => hdbuf.ne_zero h hm (UInt64.toNat_inj.mp hzero)
  have hroom : m.length ≤ dbuf.length := by
    have hle := hdbuf.blocks.trans hdbuf.inside
    rw [hcount, Nat.one_mul] at hle
    omega
  have hdec := dec_one h hkey (sealed_one h hsealed hck) hsmall hone hdpos hdmax hroom
  refine ⟨_, henc, m ++ dbuf.drop m.length, ?_, List.take_left⟩
  rw [← hlen, List.take_left, hck, UInt64.ofNat_toNat]
  exact hdec

/-- The length of whole blocks is returned where it is an `int`, and the message comes back where it
is one block. Both functions read the room as signed. -/
theorem rsa_inverse_iff (h : Padded evp k) (hkey : keys keyId = some evp) {m : Bytes} (hm : m ≠ [])
    {obuf dbuf : Bytes} {olen dlen : UInt64} (hobuf : Room k m.length obuf olen)
    (hdbuf : Room k m.length dbuf dlen) :
    (EncReturns keys keyId k m obuf olen ↔
      blockCount k m.length * k.toNat < 2 ^ 31 ∧ olen.toNat < 2 ^ 63) ∧
    (Inverts keys keyId k m obuf olen dbuf dlen ↔
      m.length ≤ k.toNat - 11 ∧ k.toNat < 2 ^ 31 ∧ olen.toNat < 2 ^ 63 ∧ dlen.toNat < 2 ^ 63) := by
  have hk := h.long
  have hpos := List.length_pos_iff.mpr hm
  refine ⟨encReturns_iff h hkey hm hobuf, ?_⟩
  constructor
  · intro ⟨out, henc, out', hdec, _⟩
    obtain ⟨hfit, hmax⟩ := (encReturns_iff h hkey hm hobuf).mp ⟨out, henc⟩
    have hdmax : dlen.toNat < 2 ^ 63 := by
      refine Nat.lt_of_not_le fun hdmax => ?_
      have hidle := rsaBlocks_idle hdmax hdec
      omega
    by_cases hone : m.length ≤ k.toNat - 11
    · rw [blockCount_one hk hpos hone, Nat.one_mul] at hfit
      exact ⟨hone, hfit, hmax, hdmax⟩
    · have hrest : 1 ≤ blockCount k (m.length - (k.toNat - 11)) := blockCount_pos hk (by omega)
      have htwo : 2 ≤ blockCount k m.length := by
        rw [blockCount_succ hk (Nat.not_le.mp hone)]
        omega
      have hdpos : 0 < dlen.toNat :=
        Nat.pos_of_ne_zero fun hzero => hdbuf.ne_zero h hm (UInt64.toNat_inj.mp hzero)
      have hret := dec_more h hkey htwo hfit _ dbuf hdpos hdmax hdec
      omega
  · intro ⟨hone, hsmall, hmax, hdmax⟩
    exact inverts_one h hkey hm hobuf hdbuf hone hsmall hmax hdmax

/-! ## A cipher -/

/-- The padding of a block for encryption, with the same random byte throughout. -/
def pad (k : Nat) (p : Bytes) : Bytes := 0 :: 2 :: List.replicate (k - 3 - p.length) 0xff ++ 0 :: p

def unpad (block : Bytes) : Bytes := ((block.drop 2).dropWhile (· = 0xff)).drop 1

/-- The key with the exponent 1 and a modulus of 12 bytes. -/
def plainKey : Evp where
  encryptSize := some 12
  decryptSize := some 12
  encrypt _ _ p := if p.length ≤ 1 then some (pad 12 p) else none
  decrypt _ _ block := if block.length = 12 then some (unpad block) else none

theorem plainKey_padded : Padded plainKey 12 where
  long := by decide
  encryptSize := rfl
  decryptSize := rfl
  encrypts := by
    intro n room p _ hpos hlen
    obtain ⟨x, rfl⟩ : ∃ x, p = [x] := List.length_eq_one_iff.mp (Nat.le_antisymm hlen hpos)
    exact ⟨pad 12 [x], rfl, rfl, fun _ _ _ => rfl⟩
  whole _ _ _ h := if_neg h

def plainKeys : Keys := fun _ => some plainKey

def zeroBytes (n : Nat) : Bytes := List.replicate n 0

theorem one_byte_inverse :
    (EncReturns plainKeys 2 12 [7] (zeroBytes 12) 12 ↔
      blockCount 12 1 * (12 : UInt64).toNat < 2 ^ 31 ∧ (12 : UInt64).toNat < 2 ^ 63) ∧
    (Inverts plainKeys 2 12 [7] (zeroBytes 12) 12 (zeroBytes 12) 12 ↔
      1 ≤ (12 : UInt64).toNat - 11 ∧ (12 : UInt64).toNat < 2 ^ 31 ∧ (12 : UInt64).toNat < 2 ^ 63 ∧
        (12 : UInt64).toNat < 2 ^ 63) :=
  rsa_inverse_iff plainKey_padded rfl (List.cons_ne_nil _ _) ⟨by decide, by decide⟩ ⟨by decide, by decide⟩

/-- Two blocks do not come back. -/
theorem two_blocks_lost : ¬ ∀ (evp : Evp) (k : UInt64) (keys : Keys) (keyId : UInt32) (m obuf dbuf : Bytes)
    (olen dlen : UInt64), Padded evp k → keys keyId = some evp → m ≠ [] → Room k m.length obuf olen →
    Room k m.length dbuf dlen → Inverts keys keyId k m obuf olen dbuf dlen := by
  intro h
  obtain ⟨out, -, out', hdec, -⟩ := h plainKey 12 plainKeys 2 [7, 8] (zeroBytes 24) (zeroBytes 24) 24 24
    plainKey_padded rfl (List.cons_ne_nil _ _) ⟨by decide, by decide⟩ ⟨by decide, by decide⟩
  have hret := dec_more (n := 2) plainKey_padded rfl (le_refl 2) (by decide) _ _ (by decide) (by decide) hdec
  cases hret

end Yagips.Crypto.RsaInverse
