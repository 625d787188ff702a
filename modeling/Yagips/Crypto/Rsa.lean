import Yagips.Lib.Bytes

/-!
# RSA in blocks

Two functions put a buffer through a public-key cipher block by block. They ask the cipher once for
the size of a block and derive from it how far to step in both buffers. What OpenSSL does with a key is
a parameter.
-/
namespace Yagips.Crypto.Rsa

open Yagips.Lib

/-- An `EVP_PKEY_CTX` for each direction: what it answers where it is given no output buffer, and what
its calls write, which have a number and are told the room. -/
structure Evp where
  encryptSize : Option UInt64
  decryptSize : Option UInt64
  encrypt : Nat → UInt64 → Bytes → Option Bytes
  decrypt : Nat → UInt64 → Bytes → Option Bytes

/-- What is loaded and set up for the id of a key. -/
abbrev Keys := UInt32 → Option Evp

/-! ## The loop -/

/-- The variables of the loop, with the pointers as offsets into their buffers. -/
structure Progress where
  ioff : Nat
  ooff : Nat
  ilen : UInt64
  olen : UInt64
  obs : UInt64
  i : UInt64
  out : Bytes

/-- A `size_t` returned as an `int`. -/
def asInt (x : UInt64) : Int := x.toUInt32.toInt32.toInt

def blockLoop (f : Nat → UInt64 → Bytes → Option Bytes) (ibuf : Bytes) (ibs : UInt64) :
    Nat → Progress → Except Fault (Int × Bytes)
  | 0, _ => .error .endless
  | fuel + 1, p =>
    if 0 < p.ilen.toInt64 ∧ 0 < p.olen.toInt64 then do
      let block ← sliceAt ibuf p.ioff (if p.ilen < ibs then p.ilen else ibs).toNat
      match f p.i.toNat p.obs block with
      | none => return (-1, p.out)
      | some written => do
        let out ← storeAt p.out p.ooff written
        let obs := UInt64.ofNat written.length
        blockLoop f ibuf ibs fuel {
          ioff := p.ioff + ibs.toNat, ooff := p.ooff + obs.toNat, ilen := p.ilen - ibs
          olen := p.olen - obs, obs, i := p.i + 1, out }
    else return (asInt (p.i * p.obs), p.out)

/-- The body of both functions, with the output buffer they leave. A pass takes at least one byte
unless the step is 0. -/
def rsaBlocks (size : Evp → Option UInt64) (f : Evp → Nat → UInt64 → Bytes → Option Bytes)
    (step : UInt64 → UInt64) (keys : Keys) (ibuf : Option Bytes) (ilen : UInt64) (obuf : Option Bytes)
    (olen : UInt64) (keyId : UInt32) : Except Fault (Int × Bytes) :=
  match ibuf, obuf with
  | some ibuf, some obuf =>
    if ilen = 0 ∨ olen = 0 then return (-1, obuf)
    else match keys keyId with
      | none => return (-1, obuf)
      | some evp =>
        match size evp with
        | none => return (-1, obuf)
        | some obs =>
          blockLoop (f evp) ibuf (step obs) (ilen.toNat + 1)
            { ioff := 0, ooff := 0, ilen, olen, obs, i := 0, out := obuf }
  | _, obuf => return (-1, obuf.getD [])

def hyvCryptRsaEnc : Keys → Option Bytes → UInt64 → Option Bytes → UInt64 → UInt32 →
    Except Fault (Int × Bytes) := rsaBlocks Evp.encryptSize Evp.encrypt (· - 11)

def hyvCryptRsaDec : Keys → Option Bytes → UInt64 → Option Bytes → UInt64 → UInt32 →
    Except Fault (Int × Bytes) := rsaBlocks Evp.decryptSize Evp.decrypt (· + 11)

/-! ## Ciphers with PKCS #1 padding -/

/-- A block that is decrypted, whatever else is. -/
structure Opens (evp : Evp) (k : UInt64) (block p : Bytes) : Prop where
  size : block.length = k.toNat
  opens : ∀ n room, k ≤ room → evp.decrypt n room block = some p

/-- A cipher over a modulus of `k` bytes. -/
structure Padded (evp : Evp) (k : UInt64) : Prop where
  long : 11 < k.toNat
  encryptSize : evp.encryptSize = some k
  decryptSize : evp.decryptSize = some k
  encrypts : ∀ n room p, k ≤ room → 1 ≤ p.length → p.length ≤ k.toNat - 11 →
    ∃ block, evp.encrypt n room p = some block ∧ Opens evp k block p
  whole : ∀ n room block, block.length ≠ k.toNat → evp.decrypt n room block = none

/-- What the encrypting function relies on: the cipher writes `k` bytes when it is told that much room. -/
structure Encrypts (evp : Evp) (k : UInt64) : Prop where
  long : 11 < k.toNat
  encryptSize : evp.encryptSize = some k
  encrypts : ∀ n p, 1 ≤ p.length → p.length ≤ k.toNat - 11 →
    ∃ block, evp.encrypt n k p = some block ∧ block.length = k.toNat

theorem Padded.toEncrypts {evp : Evp} {k : UInt64} (h : Padded evp k) : Encrypts evp k where
  long := h.long
  encryptSize := h.encryptSize
  encrypts n p hpos hlen := by
    obtain ⟨block, hblock, hopens⟩ := h.encrypts n k p (UInt64.le_refl k) hpos hlen
    exact ⟨block, hblock, hopens.size⟩

/-- A message, and what the calls from number `i` on write for it, one behind the other. -/
inductive Encrypted (evp : Evp) (k : UInt64) : UInt64 → Bytes → Bytes → Prop where
  | nil (i : UInt64) : Encrypted evp k i [] []
  | cons {i : UInt64} {m block c : Bytes} (hm : m ≠ [])
      (hblock : evp.encrypt i.toNat k (m.take (k.toNat - 11)) = some block) (hsize : block.length = k.toNat)
      (hrest : Encrypted evp k (i + 1) (m.drop (k.toNat - 11)) c) : Encrypted evp k i m (block ++ c)

/-- How many blocks a message of `len` bytes takes. -/
def blockCount (k : UInt64) (len : Nat) : Nat := (len + (k.toNat - 12)) / (k.toNat - 11)

/-- A message and its blocks, one behind the other. -/
inductive Sealed (evp : Evp) (k : UInt64) : Bytes → Bytes → Prop where
  | nil : Sealed evp k [] []
  | cons {p block m c : Bytes} (hp : p ≠ []) (hblock : Opens evp k block p) (hrest : Sealed evp k m c) :
      Sealed evp k (p ++ m) (block ++ c)

theorem Sealed.last {evp : Evp} {k : UInt64} {rest block : Bytes} (hne : rest ≠ [])
    (hopens : Opens evp k block rest) : Sealed evp k rest block := by
  have hsealed := Sealed.cons hne hopens Sealed.nil
  rwa [List.append_nil, List.append_nil] at hsealed

theorem Sealed.more {evp : Evp} {k : UInt64} {n : Nat} {rest block c : Bytes} (hne : rest.take n ≠ [])
    (hopens : Opens evp k block (rest.take n)) (hsealed : Sealed evp k (rest.drop n) c) :
    Sealed evp k rest (block ++ c) := by
  have hall := Sealed.cons hne hopens hsealed
  rwa [List.take_append_drop] at hall

/-! ## Words -/

theorem toInt64_pos_iff (x : UInt64) : 0 < x.toInt64 ↔ 0 < x.toNat ∧ x.toNat < 2 ^ 63 := by
  rw [Int64.lt_iff_toInt_lt]
  show 0 < x.toBitVec.toInt ↔ 0 < x.toBitVec.toNat ∧ x.toBitVec.toNat < 2 ^ 63
  rw [BitVec.toInt_eq_toNat_cond]
  have hlt := x.toBitVec.isLt
  split <;> omega

theorem toNat_sub_of_lt {x y : UInt64} (h : y.toNat ≤ x.toNat) : (x - y).toNat = x.toNat - y.toNat :=
  UInt64.toNat_sub_of_le _ _ (UInt64.le_iff_toNat_le.mpr h)

theorem ne_zero_of_pos {x : UInt64} (h : 0 < x.toNat) : x ≠ 0 := by
  intro hzero
  rw [hzero] at h
  exact Nat.lt_irrefl 0 h

/-- A difference of two lengths that is not positive reads as none. -/
theorem sub_pos_iff {x y : UInt64} (hx : x.toNat < 2 ^ 63) (hy : y.toNat < 2 ^ 63) :
    0 < (x - y).toInt64 ↔ y.toNat < x.toNat := by
  rw [toInt64_pos_iff, UInt64.toNat_sub]
  omega

theorem toNat_ofLength {n : Nat} (h : n < 2 ^ 63) : (UInt64.ofNat n).toNat = n :=
  UInt64.toNat_ofNat_of_lt' (show n < 2 ^ 64 by omega)

theorem asInt_of_lt {x : UInt64} (h : x.toNat < 2 ^ 31) : asInt x = x.toNat := by
  have hsmall : x.toUInt32.toBitVec.toNat = x.toNat := by
    show x.toUInt32.toNat = _
    rw [UInt64.toNat_toUInt32]
    omega
  show x.toUInt32.toBitVec.toInt = x.toNat
  rw [BitVec.toInt_eq_toNat_of_lt (by rw [hsmall]; omega), hsmall]

theorem asInt_lt (x : UInt64) : asInt x < 2 ^ 31 := x.toUInt32.toInt32.toInt_lt

/-! ## Numbers of blocks -/

section

variable {evp : Evp} {k : UInt64}

theorem blockCount_one (hk : 11 < k.toNat) {len : Nat} (hpos : 0 < len) (hlen : len ≤ k.toNat - 11) :
    blockCount k len = 1 := by
  unfold blockCount
  rw [Nat.div_eq_iff (by omega)]
  omega

theorem blockCount_succ (hk : 11 < k.toNat) {len : Nat} (hlen : k.toNat - 11 < len) :
    blockCount k len = blockCount k (len - (k.toNat - 11)) + 1 := by
  unfold blockCount
  rw [← Nat.add_div_right _ (show 0 < k.toNat - 11 by omega)]
  congr 1
  omega

theorem blockCount_pos (hk : 11 < k.toNat) {len : Nat} (hpos : 0 < len) : 1 ≤ blockCount k len := by
  unfold blockCount
  rw [Nat.le_div_iff_mul_le (by omega)]
  omega

/-- A message is no longer than its blocks. -/
theorem length_le_blocks (hk : 11 < k.toNat) (len : Nat) : len ≤ blockCount k len * k.toNat := by
  have hmod := Nat.div_add_mod (len + (k.toNat - 12)) (k.toNat - 11)
  have hlt := Nat.mod_lt (len + (k.toNat - 12)) (show 0 < k.toNat - 11 by omega)
  have hle : (k.toNat - 11) * blockCount k len ≤ blockCount k len * k.toNat := by
    rw [Nat.mul_comm]
    exact Nat.mul_le_mul_left _ (Nat.sub_le _ _)
  change (k.toNat - 11) * blockCount k len + _ = _ at hmod
  omega

/-! ## Encrypting -/

theorem toNat_ibs (hk : 11 < k.toNat) : (k - 11).toNat = k.toNat - 11 :=
  toNat_sub_of_lt (show (11 : UInt64).toNat ≤ k.toNat from hk.le)

theorem length_take_pos (hk : 11 < k.toNat) {m : Bytes} (hm : m ≠ []) :
    1 ≤ (m.take (k.toNat - 11)).length := by
  have hpos := List.length_pos_iff.mpr hm
  rw [List.length_take]
  omega

/-- What is encrypted takes as many blocks as its length says. -/
theorem Encrypted.length {i : UInt64} {m c : Bytes} (h : Encrypted evp k i m c) (hk : 11 < k.toNat) :
    c.length = blockCount k m.length * k.toNat := by
  induction h with
  | nil i =>
    have hnone : blockCount k 0 = 0 := by
      unfold blockCount
      rw [Nat.div_eq_zero_iff]
      omega
    rw [List.length_nil, hnone, Nat.zero_mul]
  | cons hm hblock hsize hrest ih =>
    rename_i m block c
    have hpos := List.length_pos_iff.mpr hm
    rw [List.length_append, hsize, ih, List.length_drop]
    by_cases hlast : m.length ≤ k.toNat - 11
    · have hnone : blockCount k (m.length - (k.toNat - 11)) = 0 := by
        unfold blockCount
        rw [Nat.div_eq_zero_iff]
        omega
      rw [blockCount_one hk hpos hlast, hnone]
      omega
    · rw [blockCount_succ hk (Nat.not_le.mp hlast), Nat.succ_mul, Nat.add_comm]

theorem Encrypted.toSealed {i : UInt64} {m c : Bytes} (h : Encrypted evp k i m c) (hp : Padded evp k) :
    Sealed evp k m c := by
  induction h with
  | nil i => exact .nil
  | cons hm hblock hsize hrest ih =>
    rename_i i m block c
    have hk := hp.long
    have hpos := length_take_pos hk hm
    have hle : (m.take (k.toNat - 11)).length ≤ k.toNat - 11 := List.length_take_le _ _
    obtain ⟨block', hblock', hopens⟩ := hp.encrypts i.toNat k _ (UInt64.le_refl k) hpos hle
    rw [hblock] at hblock'
    cases hblock'
    exact Sealed.more (List.length_pos_iff.mp hpos) hopens ih

/-- The loop ends where the rest of one of the buffers is not positive. -/
theorem blockLoop_end (f : Nat → UInt64 → Bytes → Option Bytes) (ibuf : Bytes) (ibs : UInt64) (fuel : Nat)
    {p : Progress} (h : ¬ (0 < p.ilen.toInt64 ∧ 0 < p.olen.toInt64)) :
    blockLoop f ibuf ibs (fuel + 1) p = .ok (asInt (p.i * p.obs), p.out) := by
  rw [blockLoop, if_neg h]
  rfl

/-- A pass takes what is left, up to a block. -/
theorem pass_size (hk : 11 < k.toNat) {len : Nat} (hlen : len < 2 ^ 63) :
    (if UInt64.ofNat len < k - 11 then UInt64.ofNat len else k - 11).toNat = min (k.toNat - 11) len := by
  have hlt : UInt64.ofNat len < k - 11 ↔ len < k.toNat - 11 := by
    rw [UInt64.lt_iff_toNat_lt, toNat_ofLength hlen, toNat_ibs hk]
  split
  case isTrue hshort =>
    have hshort := hlt.mp hshort
    rw [toNat_ofLength hlen]
    omega
  case isFalse hlong =>
    have hlong := mt hlt.mpr hlong
    rw [toNat_ibs hk]
    omega

/-- Behind the last pass the rest is not positive. -/
theorem rest_done (h : 11 < k.toNat) (hk : k.toNat < 2 ^ 63) {len : Nat} (hlen : len < 2 ^ 63)
    (hlast : len ≤ k.toNat - 11) : ¬ 0 < (UInt64.ofNat len - (k - 11)).toInt64 := by
  have hibs : (k - 11).toNat < 2 ^ 63 := by
    rw [toNat_ibs h]
    omega
  rw [sub_pos_iff (by rw [toNat_ofLength hlen]; exact hlen) hibs, toNat_ofLength hlen, toNat_ibs h]
  omega

/-- Behind any other pass it is what is left. -/
theorem rest_left (h : 11 < k.toNat) {len : Nat} (hlen : len < 2 ^ 63) (hmore : k.toNat - 11 < len) :
    UInt64.ofNat len - (k - 11) = UInt64.ofNat (len - (k.toNat - 11)) := by
  have hle : (k - 11).toNat ≤ (UInt64.ofNat len).toNat := by
    rw [toNat_ofLength hlen, toNat_ibs h]
    exact hmore.le
  rw [← UInt64.toNat_inj, toNat_sub_of_lt hle, toNat_ofLength hlen, toNat_ibs h, toNat_ofLength (by omega)]

/-- One pass encrypts what is left, up to a block, and stores the block behind those stored before,
whatever room there is. -/
theorem encrypt_pass (h : Encrypts evp k) {rest : Bytes} (hne : rest ≠ []) (hrest : rest.length < 2 ^ 63)
    (x t out : Bytes) (ooff : Nat) (i : UInt64) {olen : UInt64} (hroom : 0 < olen.toNat)
    (hmax : olen.toNat < 2 ^ 63) (fuel : Nat) :
    ∃ block, evp.encrypt i.toNat k (rest.take (k.toNat - 11)) = some block ∧ block.length = k.toNat ∧
      blockLoop evp.encrypt (x ++ rest ++ t) (k - 11) (fuel + 1)
          { ioff := x.length, ooff, ilen := UInt64.ofNat rest.length, olen, obs := k, i, out } =
        storeAt out ooff block >>= fun out =>
          blockLoop evp.encrypt (x ++ rest ++ t) (k - 11) fuel
            { ioff := x.length + (k.toNat - 11), ooff := ooff + k.toNat
              ilen := UInt64.ofNat rest.length - (k - 11), olen := olen - k, obs := k, i := i + 1, out } := by
  have hpos := List.length_pos_iff.mpr hne
  have hk := h.long
  have hcond : 0 < (UInt64.ofNat rest.length).toInt64 ∧ 0 < olen.toInt64 := by
    rw [toInt64_pos_iff, toInt64_pos_iff, toNat_ofLength hrest]
    omega
  have hfield : sliceAt (x ++ rest ++ t) x.length (min (k.toNat - 11) rest.length) =
      .ok (rest.take (k.toNat - 11)) := by
    rw [sliceAt_ok (by rw [List.length_append, List.length_append]; omega), field, List.append_assoc,
      List.drop_left, List.take_append_of_le_length (Nat.min_le_right _ _)]
    congr 1
    rw [List.take_eq_take_iff]
    omega
  obtain ⟨block, hblock, hsize⟩ := h.encrypts i.toNat (rest.take (k.toNat - 11)) (length_take_pos hk hne)
    (List.length_take_le _ _)
  refine ⟨block, hblock, hsize, ?_⟩
  rw [blockLoop, if_pos hcond]
  simp only [pass_size hk hrest, hfield, ok_bind, hblock]
  simp only [hsize, UInt64.ofNat_toNat, toNat_ibs hk]

/-- The loop encrypts all that is left and stores its blocks, where there is room for them. -/
theorem encrypt_loop (h : Encrypts evp k) {fuel : Nat} {rest : Bytes} (hne : rest ≠ [])
    (hfuel : rest.length < fuel) (hrest : rest.length < 2 ^ 63) (x t a b : Bytes)
    (hb : blockCount k rest.length * k.toNat ≤ b.length) (i : UInt64) {olen : UInt64}
    (holen : blockCount k rest.length * k.toNat ≤ olen.toNat) (hmax : olen.toNat < 2 ^ 63) :
    ∃ c, Encrypted evp k i rest c ∧
      blockLoop evp.encrypt (x ++ rest ++ t) (k - 11) fuel
          { ioff := x.length, ooff := a.length, ilen := UInt64.ofNat rest.length, olen, obs := k, i
            out := a ++ b } =
        .ok (asInt ((i + UInt64.ofNat (blockCount k rest.length)) * k), a ++ c ++ b.drop c.length) := by
  induction fuel generalizing rest x a b i olen with
  | zero => exact absurd hfuel (Nat.not_lt_zero _)
  | succ fuel ih =>
    have hk := h.long
    have hpos := List.length_pos_iff.mpr hne
    have hone : k.toNat ≤ blockCount k rest.length * k.toNat :=
      Nat.le_mul_of_pos_left _ (blockCount_pos hk hpos)
    have hroom : 0 < olen.toNat := by omega
    obtain ⟨block, hblock, hsize, hpass⟩ := encrypt_pass h hne hrest x t (a ++ b) a.length i hroom hmax fuel
    rw [hpass, storeAt_append (by omega), ok_bind]
    by_cases hlast : rest.length ≤ k.toNat - 11
    · -- the last block, behind which the loop ends
      obtain ⟨fuel, rfl⟩ : ∃ n, fuel = n + 1 := ⟨fuel - 1, by omega⟩
      have hcount := blockCount_one hk hpos hlast
      have hend := rest_done hk (by omega) hrest hlast
      have hnone : Encrypted evp k (i + 1) (rest.drop (k.toNat - 11)) [] := by
        rw [List.drop_eq_nil_iff.mpr hlast]
        exact .nil _
      refine ⟨block, ?_, ?_⟩
      · have hall := Encrypted.cons hne hblock hsize hnone
        rwa [List.append_nil] at hall
      · rw [blockLoop_end, hcount, hsize]
        · rfl
        · exact fun hc => hend hc.1
    · -- a whole block, and the loop over what is left
      have hmore := Nat.not_le.mp hlast
      have hcount := blockCount_succ hk hmore
      have hdrop : (rest.drop (k.toNat - 11)).length = rest.length - (k.toNat - 11) := List.length_drop
      have htake : (rest.take (k.toNat - 11)).length = k.toNat - 11 := List.length_take_of_le hmore.le
      have htotal : blockCount k rest.length * k.toNat =
          blockCount k (rest.length - (k.toNat - 11)) * k.toNat + k.toNat := by
        rw [hcount, Nat.succ_mul]
      have holen' : (olen - k).toNat = olen.toNat - k.toNat := toNat_sub_of_lt (hone.trans holen)
      have hdropne : rest.drop (k.toNat - 11) ≠ [] := List.length_pos_iff.mp (by omega)
      obtain ⟨c, hencrypted, hloop⟩ := ih hdropne (by omega) (by omega)
        (x ++ rest.take (k.toNat - 11)) (a ++ block) (b.drop k.toNat)
        (by rw [hdrop, List.length_drop]; omega) (i + 1) (by rw [hdrop, holen']; omega) (by omega)
      have hsum : i + 1 + UInt64.ofNat (blockCount k (rest.length - (k.toNat - 11))) =
          i + UInt64.ofNat (blockCount k rest.length) := by
        rw [hcount, UInt64.ofNat_add, UInt64.add_assoc, UInt64.add_comm 1]
        rfl
      refine ⟨block ++ c, .cons hne hblock hsize hencrypted, ?_⟩
      rw [List.append_assoc x, List.take_append_drop, List.length_append, htake, List.length_append,
        hsize, hdrop, hsum] at hloop
      rw [rest_left hk hrest hmore, hsize, hloop, List.drop_drop, List.length_append, hsize]
      simp only [List.append_assoc]

/-- An output buffer with room for the blocks of a message. -/
structure Room (k : UInt64) (len : Nat) (buf : Bytes) (olen : UInt64) : Prop where
  blocks : blockCount k len * k.toNat ≤ olen.toNat
  inside : olen.toNat ≤ buf.length

theorem Room.ne_zero (h : Padded evp k) {m : Bytes} (hm : m ≠ []) {buf : Bytes} {olen : UInt64}
    (hroom : Room k m.length buf olen) : olen ≠ 0 := by
  intro hzero
  have hpos := List.length_pos_iff.mpr hm
  have hle := length_le_blocks h.long m.length
  have hblocks := hroom.blocks
  rw [hzero] at hblocks
  have hzero : (0 : UInt64).toNat = 0 := rfl
  omega

/-- `HyvCryptRsaEnc` writes the blocks of a message and returns their length, where it is an `int`
and the room reads as positive. -/
theorem enc_ok (h : Padded evp k) {keys : Keys} {keyId : UInt32} (hkey : keys keyId = some evp) {m : Bytes}
    (hm : m ≠ []) (hfit : blockCount k m.length * k.toNat < 2 ^ 31) {obuf : Bytes} {olen : UInt64}
    (hroom : Room k m.length obuf olen) (hmax : olen.toNat < 2 ^ 63) :
    ∃ c, Sealed evp k m c ∧ c.length = blockCount k m.length * k.toNat ∧
      hyvCryptRsaEnc keys (some m) (UInt64.ofNat m.length) (some obuf) olen keyId =
        .ok ((blockCount k m.length * k.toNat : Nat), c ++ obuf.drop c.length) := by
  have hpos := List.length_pos_iff.mpr hm
  have hle := length_le_blocks h.long m.length
  have hcount : blockCount k m.length ≤ blockCount k m.length * k.toNat :=
    Nat.le_mul_of_pos_right _ (Nat.zero_lt_of_lt h.long)
  have hilen : (UInt64.ofNat m.length).toNat = m.length := toNat_ofLength (by omega)
  have hne : ¬ (UInt64.ofNat m.length = 0 ∨ olen = 0) :=
    not_or.mpr ⟨ne_zero_of_pos (by omega), hroom.ne_zero h hm⟩
  have htotal : ((0 + UInt64.ofNat (blockCount k m.length)) * k).toNat = blockCount k m.length * k.toNat := by
    rw [UInt64.zero_add, UInt64.toNat_mul, UInt64.toNat_ofNat', Nat.mod_mul_mod]
    exact Nat.mod_eq_of_lt (by omega)
  obtain ⟨c, hencrypted, hloop⟩ := encrypt_loop h.toEncrypts hm (Nat.lt_succ_self m.length) (by omega) [] [] []
    obuf (hroom.blocks.trans hroom.inside) 0 hroom.blocks hmax
  refine ⟨c, hencrypted.toSealed h, hencrypted.length h.long, ?_⟩
  simp only [hyvCryptRsaEnc, rsaBlocks, if_neg hne, hkey, h.encryptSize, hilen]
  rw [asInt_of_lt (by rw [htotal]; exact hfit), htotal, List.append_nil] at hloop
  exact hloop

end

/-! ## What is returned -/

theorem blockLoop_lt {f : Nat → UInt64 → Bytes → Option Bytes} {ibuf : Bytes} {ibs : UInt64} {fuel : Nat}
    {p : Progress} {ret : Int} {out : Bytes} (h : blockLoop f ibuf ibs fuel p = .ok (ret, out)) :
    ret < 2 ^ 31 := by
  induction fuel generalizing p with
  | zero => cases h
  | succ fuel ih =>
    rw [blockLoop] at h
    split at h
    · obtain ⟨block, -, h⟩ := bind_eq_ok.mp h
      cases hf : f p.i.toNat p.obs block with
      | none =>
        rw [hf] at h
        cases h
        decide
      | some written =>
        rw [hf] at h
        obtain ⟨stored, -, h⟩ := bind_eq_ok.mp h
        exact ih h
    · cases h
      exact asInt_lt _

/-- What both functions return is an `int`. -/
theorem rsaBlocks_lt {size : Evp → Option UInt64} {f : Evp → Nat → UInt64 → Bytes → Option Bytes}
    {next : UInt64 → UInt64} {keys : Keys} {ibuf obuf : Option Bytes} {ilen olen : UInt64} {keyId : UInt32}
    {ret : Int} {out : Bytes} (h : rsaBlocks size f next keys ibuf ilen obuf olen keyId = .ok (ret, out)) :
    ret < 2 ^ 31 := by
  have hfailed : ∀ buf : Bytes, (.ok (-1, buf) : Except Fault (Int × Bytes)) = .ok (ret, out) → ret < 2 ^ 31 := by
    intro buf hfailed
    cases hfailed
    decide
  unfold rsaBlocks at h
  split at h
  · split at h
    · exact hfailed _ h
    · split at h
      · exact hfailed _ h
      · split at h
        · exact hfailed _ h
        · exact blockLoop_lt h
  · exact hfailed _ h

/-- Where the room does not read as positive, nothing is written. -/
theorem rsaBlocks_idle {size : Evp → Option UInt64} {f : Evp → Nat → UInt64 → Bytes → Option Bytes}
    {step : UInt64 → UInt64} {keys : Keys} {ibuf obuf : Option Bytes} {ilen olen : UInt64} {keyId : UInt32}
    (hmax : 2 ^ 63 ≤ olen.toNat) {ret : Int} {out : Bytes}
    (h : rsaBlocks size f step keys ibuf ilen obuf olen keyId = .ok (ret, out)) : ret ≤ 0 := by
  have hfailed : ∀ buf : Bytes, (.ok (-1, buf) : Except Fault (Int × Bytes)) = .ok (ret, out) → ret ≤ 0 := by
    intro buf hfailed
    cases hfailed
    decide
  have hidle : ¬ 0 < olen.toInt64 := by
    rw [toInt64_pos_iff]
    omega
  unfold rsaBlocks at h
  split at h
  · split at h
    · exact hfailed _ h
    · split at h
      · exact hfailed _ h
      · split at h
        · exact hfailed _ h
        case h_2 obs _ =>
          have hret : asInt (0 * obs) = 0 := by rw [UInt64.zero_mul]; rfl
          rw [blockLoop_end] at h
          · cases h
            exact hret.le
          · exact fun hc => hidle hc.2
  · exact hfailed _ h

end Yagips.Crypto.Rsa
