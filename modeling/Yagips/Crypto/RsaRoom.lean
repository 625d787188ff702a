import Yagips.Crypto.RsaInverse

/-!
# The room for encrypted blocks

`HyvCryptRsaEnc` looks at the room before each block only to see whether there is any, and tells the
cipher that there is room for a whole block. So a buffer too short for the blocks is run over, unless
it ends where a block does. Then the rest of the message is dropped.
-/
namespace Yagips.Crypto.RsaRoom

open Yagips.Lib
open Yagips.Crypto.Rsa
open Yagips.Crypto.RsaInverse (plainKey plainKeys plainKey_padded zeroBytes)

/-! ## The buffer of a region's response -/

/-- `bufsz * 2` for a response of `sz` bytes. -/
def rspRoom (sz : Nat) : UInt64 := (UInt64.ofNat sz / 256 + 1) * 256 * 2

/-- The call that encrypts a response, which was resized with NULs, into a buffer from `malloc`. -/
def rspCall (keys : Keys) (doEnc : UInt32) (ret_enc tmpbuf : Bytes) : Except Fault (Int × Bytes) :=
  let bufsz := (ret_enc.length / 256 + 1) * 256
  hyvCryptRsaEnc keys (some (ret_enc ++ zeroBytes (bufsz - ret_enc.length))) (UInt64.ofNat ret_enc.length)
    (some tmpbuf) (rspRoom ret_enc.length) doEnc

/-- The end of `getQueryCurrRegionHttpRsp`, behind the signature. -/
def encryptRsp (keys : Keys) (doEnc : UInt32) (ret_enc : Bytes) (tmpbuf : Option Bytes) : Except Fault Bytes :=
  if doEnc = 0 then .ok ret_enc
  else match tmpbuf with
    | none => .ok ret_enc
    | some tmpbuf => do
      let (j, out) ← rspCall keys doEnc ret_enc tmpbuf
      if j < 0 then return ret_enc else return out.take j.toNat

/-! ## What is asked of a call -/

section

variable {evp : Evp} {k : UInt64}

/-- A call ends without an access outside its buffers, and where it tells a length all of the message
has been encrypted to the front of the buffer. -/
def Kept (evp : Evp) (k : UInt64) (m : Bytes) (call : Except Fault (Int × Bytes)) : Prop :=
  ∃ ret out, call = .ok (ret, out) ∧ (0 ≤ ret → ∃ c, Encrypted evp k 0 m c ∧ c <+: out)

/-- There is no room at all, which is refused; or there is for all blocks; or the room ends with a block
and its length reads as a negative `int`. -/
def Fits (k : UInt64) (len : Nat) (olen : UInt64) : Prop :=
  olen = 0 ∨ (blockCount k len * k.toNat ≤ olen.toNat ∧ olen.toNat < 2 ^ 63) ∨
    (k.toNat ∣ olen.toNat ∧ len < 2 ^ 63 ∧ olen.toNat < 2 ^ 63 ∧ asInt olen < 0)

/-! ## Too little room -/

theorem storeAt_length {buf out bs : Bytes} {off : Nat} (h : storeAt buf off bs = .ok out) :
    out.length = buf.length := by
  unfold storeAt at h
  split at h
  · cases h
    simp only [List.length_append, List.length_take, List.length_drop]
    omega
  · cases h

/-- Where the room is too short the loop stops at its end, if that is the end of a block, and runs over
it if not. -/
theorem encrypt_short (h : Encrypts evp k) {fuel : Nat} {rest : Bytes} (hne : rest ≠ [])
    (hfuel : rest.length < fuel) (hrest : rest.length < 2 ^ 63) (x t out : Bytes) (ooff : Nat) (i : UInt64)
    {olen : UInt64} (hout : out.length = ooff + olen.toNat)
    (holen : olen.toNat < blockCount k rest.length * k.toNat) (hmax : olen.toNat < 2 ^ 63) :
    (k.toNat ∣ olen.toNat → ∃ out', out'.length = out.length ∧
      blockLoop evp.encrypt (x ++ rest ++ t) (k - 11) fuel
          { ioff := x.length, ooff, ilen := UInt64.ofNat rest.length, olen, obs := k, i, out } =
        .ok (asInt (i * k + olen), out')) ∧
    (¬ k.toNat ∣ olen.toNat → ∃ e,
      blockLoop evp.encrypt (x ++ rest ++ t) (k - 11) fuel
          { ioff := x.length, ooff, ilen := UInt64.ofNat rest.length, olen, obs := k, i, out } =
        .error e) := by
  induction fuel generalizing rest x out ooff i olen with
  | zero => exact absurd hfuel (Nat.not_lt_zero _)
  | succ fuel ih =>
    have hk := h.long
    have hpos := List.length_pos_iff.mpr hne
    rcases Nat.eq_zero_or_pos olen.toNat with hzero | hroom
    · -- no room is left, and none is asked for
      refine ⟨fun _ => ⟨out, rfl, ?_⟩, fun hdvd => absurd (hzero ▸ Nat.dvd_zero _) hdvd⟩
      have holen0 : olen = 0 := UInt64.toNat_inj.mp hzero
      rw [blockLoop_end, holen0, UInt64.add_zero]
      rw [toInt64_pos_iff, toInt64_pos_iff]
      dsimp only
      omega
    · obtain ⟨block, hblock, hsize, hpass⟩ := encrypt_pass h hne hrest x t out ooff i hroom hmax fuel
      rw [hpass]
      by_cases hin : k.toNat ≤ olen.toNat
      · -- a block fits, and the message goes on behind it
        have hmore : k.toNat - 11 < rest.length := by
          refine Nat.lt_of_not_le fun hlast => ?_
          rw [blockCount_one hk hpos hlast] at holen
          omega
        have hcount := blockCount_succ hk hmore
        have hdrop : (rest.drop (k.toNat - 11)).length = rest.length - (k.toNat - 11) := List.length_drop
        have htake : (rest.take (k.toNat - 11)).length = k.toNat - 11 := List.length_take_of_le hmore.le
        have holen' : (olen - k).toNat = olen.toNat - k.toNat := toNat_sub_of_lt hin
        have hdropne : rest.drop (k.toNat - 11) ≠ [] := List.length_pos_iff.mp (by omega)
        obtain ⟨stored, hstored⟩ : ∃ stored, storeAt out ooff block = .ok stored := by
          rw [storeAt, if_pos (by omega)]
          exact ⟨_, rfl⟩
        have hlen := storeAt_length hstored
        rw [hcount, Nat.succ_mul] at holen
        have hnext := ih hdropne (by omega) (by omega) (x ++ rest.take (k.toNat - 11)) stored
          (ooff + k.toNat) (i + 1) (by rw [hlen, holen']; omega) (by rw [hdrop, holen']; omega) (by omega)
        have hdvd : k.toNat ∣ (olen - k).toNat ↔ k.toNat ∣ olen.toNat := by
          rw [holen', Nat.dvd_sub_iff_left hin (dvd_refl _)]
        have hsum : (i + 1) * k + (olen - k) = i * k + olen := by
          rw [UInt64.add_mul, UInt64.one_mul, UInt64.add_assoc, UInt64.add_comm k, UInt64.sub_add_cancel]
        rw [List.append_assoc x, List.take_append_drop, List.length_append, htake, hdrop, hdvd, hsum,
          hlen] at hnext
        rw [hstored, ok_bind, rest_left hk hrest hmore]
        exact hnext
      · -- the block runs over the end
        have hover : ¬ ooff + block.length ≤ out.length := by omega
        refine ⟨fun hdvd => absurd (Nat.le_of_dvd hroom hdvd) hin, fun _ => ⟨.slice ooff block.length, ?_⟩⟩
        rw [storeAt, if_neg hover]
        rfl

/-- Any buffer may hold what the cipher does not write. -/
theorem exists_unencrypted (h : Encrypts evp k) {m : Bytes} (hm : m ≠ []) (n : Nat) :
    ∃ obuf : Bytes, obuf.length = n ∧ ¬ ∃ c, Encrypted evp k 0 m c ∧ c <+: obuf := by
  have hk := h.long
  obtain ⟨block, hblock, hsize⟩ := h.encrypts (0 : UInt64).toNat (m.take (k.toNat - 11))
    (length_take_pos hk hm) (List.length_take_le _ _)
  obtain ⟨b, rest, rfl⟩ : ∃ b rest, block = b :: rest := by
    cases block with
    | nil =>
      rw [List.length_nil] at hsize
      omega
    | cons b rest => exact ⟨b, rest, rfl⟩
  refine ⟨List.replicate n (b + 1), List.length_replicate, ?_⟩
  intro ⟨c, hc, hprefix⟩
  cases hc with
  | nil => exact hm rfl
  | cons hm hblock' hsize' hrest =>
    rw [hblock] at hblock'
    cases hblock'
    have hmem : b ∈ List.replicate n (b + 1) := hprefix.subset List.mem_cons_self
    have hsame : b = b + 1 := (List.mem_replicate.mp hmem).2
    have hnat := congrArg UInt8.toNat hsame
    rw [UInt8.toNat_add] at hnat
    have hlt := b.toNat_lt
    have hone : (1 : UInt8).toNat = 1 := rfl
    omega

theorem enc_eq {keys : Keys} {keyId : UInt32} (h : Encrypts evp k) (hkey : keys keyId = some evp) {m : Bytes}
    (hm : m ≠ []) (hlen : m.length < 2 ^ 64) (ibuf obuf : Bytes) {olen : UInt64} (holen : olen ≠ 0) :
    hyvCryptRsaEnc keys (some ibuf) (UInt64.ofNat m.length) (some obuf) olen keyId =
      blockLoop evp.encrypt ibuf (k - 11) (m.length + 1)
        { ioff := 0, ooff := 0, ilen := UInt64.ofNat m.length, olen, obs := k, i := 0, out := obuf } := by
  have hpos := List.length_pos_iff.mpr hm
  have hilen : (UInt64.ofNat m.length).toNat = m.length := UInt64.toNat_ofNat_of_lt' hlen
  have hne : ¬ (UInt64.ofNat m.length = 0 ∨ olen = 0) := not_or.mpr ⟨ne_zero_of_pos (by omega), holen⟩
  simp only [hyvCryptRsaEnc, rsaBlocks, if_neg hne, hkey, h.encryptSize, hilen]

section

variable {keys : Keys} {keyId : UInt32} {m : Bytes} {olen : UInt64} (t : Bytes)

/-- The call under test, with whatever stands behind the message in its buffer. -/
def KeptWhateverHeld (evp : Evp) (k : UInt64) (keys : Keys) (keyId : UInt32) (m t : Bytes) (olen : UInt64) :
    Prop :=
  ∀ obuf : Bytes, obuf.length = olen.toNat →
    Kept evp k m (hyvCryptRsaEnc keys (some (m ++ t)) (UInt64.ofNat m.length) (some obuf) olen keyId)

theorem kept_of_room (h : Encrypts evp k) (hkey : keys keyId = some evp) (hm : m ≠ [])
    (hrest : m.length < 2 ^ 63) (hzero : olen ≠ 0) (hmax : olen.toNat < 2 ^ 63)
    (hfit : blockCount k m.length * k.toNat ≤ olen.toNat) :
    KeptWhateverHeld evp k keys keyId m t olen := by
  intro obuf hobuf
  obtain ⟨c, hc, hloop⟩ := encrypt_loop h hm (Nat.lt_succ_self m.length) hrest [] t [] obuf
    (hobuf ▸ hfit) 0 hfit hmax
  rw [enc_eq h hkey hm (by omega) _ _ hzero]
  exact ⟨_, _, hloop, fun _ => ⟨c, hc, List.prefix_append _ _⟩⟩

/-- Too short a room helps only where it ends with a block and its length reads as negative. -/
theorem kept_short_iff (h : Encrypts evp k) (hkey : keys keyId = some evp) (hm : m ≠ [])
    (hrest : m.length < 2 ^ 63) (hzero : olen ≠ 0) (hmax : olen.toNat < 2 ^ 63)
    (hfit : olen.toNat < blockCount k m.length * k.toNat) :
    KeptWhateverHeld evp k keys keyId m t olen ↔ k.toNat ∣ olen.toNat ∧ asInt olen < 0 := by
  have hshort (obuf : Bytes) (hobuf : obuf.length = olen.toNat) :=
    encrypt_short h hm (Nat.lt_succ_self m.length) hrest [] t obuf 0 0 (by omega) hfit hmax
  constructor
  · intro hall
    obtain ⟨ret, out, hcall, hsome⟩ := hall (zeroBytes olen.toNat) List.length_replicate
    rw [enc_eq h hkey hm (by omega) _ _ hzero] at hcall
    obtain ⟨hends, hover⟩ := hshort (zeroBytes olen.toNat) List.length_replicate
    by_cases hdvd : k.toNat ∣ olen.toNat
    · obtain ⟨out', hout', hloop⟩ := hends hdvd
      rw [UInt64.zero_mul, UInt64.zero_add] at hloop
      cases hloop.symm.trans hcall
      refine ⟨hdvd, Int.not_le.mp fun hret => ?_⟩
      obtain ⟨c, hc, hprefix⟩ := hsome hret
      have hclen := hc.length h.long
      have hle := hprefix.length_le
      rw [hout', zeroBytes, List.length_replicate] at hle
      omega
    · obtain ⟨e, hloop⟩ := hover hdvd
      cases hloop.symm.trans hcall
  · intro ⟨hdvd, hneg⟩ obuf hobuf
    obtain ⟨out', -, hloop⟩ := (hshort obuf hobuf).1 hdvd
    rw [UInt64.zero_mul, UInt64.zero_add] at hloop
    rw [enc_eq h hkey hm (by omega) _ _ hzero]
    exact ⟨_, _, hloop, fun hret => absurd hneg (Int.not_lt.mpr hret)⟩

/-- A length that reads as negative leaves the buffer as it was, and the call succeeds. -/
theorem not_kept_idle (h : Encrypts evp k) (hkey : keys keyId = some evp) (hm : m ≠ [])
    (hlen : m.length < 2 ^ 64) (hzero : olen ≠ 0) (hbig : ¬ (m.length < 2 ^ 63 ∧ olen.toNat < 2 ^ 63)) :
    ¬ KeptWhateverHeld evp k keys keyId m t olen := by
  intro hall
  obtain ⟨obuf, hobuf, hnone⟩ := exists_unencrypted h hm olen.toNat
  obtain ⟨ret, out, hcall, hsome⟩ := hall obuf hobuf
  have hidle : ¬ (0 < (UInt64.ofNat m.length).toInt64 ∧ 0 < olen.toInt64) := by
    rw [toInt64_pos_iff, toInt64_pos_iff, UInt64.toNat_ofNat_of_lt' hlen]
    omega
  have hret : asInt (0 * k) = 0 := by
    rw [UInt64.zero_mul]
    rfl
  have hend : blockLoop evp.encrypt (m ++ t) (k - 11) (m.length + 1)
      { ioff := 0, ooff := 0, ilen := UInt64.ofNat m.length, olen, obs := k, i := 0, out := obuf } =
        .ok (0, obuf) := by
    rw [blockLoop_end, hret]
    exact hidle
  rw [enc_eq h hkey hm hlen _ _ hzero, hend] at hcall
  cases hcall
  exact hnone (hsome le_rfl)

/-- Whatever the buffer holds, a message of any length is encrypted within it or refused exactly where
the room fits. -/
theorem kept_iff_fits (h : Encrypts evp k) (hkey : keys keyId = some evp) (hm : m ≠ [])
    (hlen : m.length < 2 ^ 64) (olen : UInt64) :
    KeptWhateverHeld evp k keys keyId m t olen ↔ Fits k m.length olen := by
  have hblocks := length_le_blocks h.long m.length
  by_cases hzero : olen = 0
  · refine iff_of_true (fun obuf _ => ⟨-1, obuf, ?_, fun hret => absurd hret (by decide)⟩) (.inl hzero)
    simp only [hyvCryptRsaEnc, rsaBlocks, if_pos (Or.inr hzero : UInt64.ofNat m.length = 0 ∨ olen = 0)]
    rfl
  · rw [Fits, or_iff_right hzero]
    by_cases hbig : m.length < 2 ^ 63 ∧ olen.toNat < 2 ^ 63
    · obtain ⟨hrest, hmax⟩ := hbig
      by_cases hfit : blockCount k m.length * k.toNat ≤ olen.toNat
      · exact iff_of_true (kept_of_room t h hkey hm hrest hzero hmax hfit) (.inl ⟨hfit, hmax⟩)
      · rw [kept_short_iff t h hkey hm hrest hzero hmax (Nat.not_le.mp hfit),
          or_iff_right fun hle => hfit hle.1]
        exact ⟨fun hends => ⟨hends.1, hrest, hmax, hends.2⟩, fun hends => ⟨hends.1, hends.2.2.2⟩⟩
    · refine iff_of_false (not_kept_idle t h hkey hm hlen hzero hbig) fun hfits => ?_
      rcases hfits with ⟨hle, hmax⟩ | ⟨-, hrest, hmax, -⟩
      · exact hbig ⟨by omega, hmax⟩
      · exact hbig ⟨hrest, hmax⟩

end

/-! ## The response of a region -/

/-- The response is built where the call that encrypts it ends. -/
theorem encryptRsp_ok_iff (keys : Keys) {doEnc : UInt32} (hdo : doEnc ≠ 0) (ret_enc tmpbuf : Bytes) :
    (∃ r, encryptRsp keys doEnc ret_enc (some tmpbuf) = .ok r) ↔
      ∃ j out, rspCall keys doEnc ret_enc tmpbuf = .ok (j, out) := by
  rw [encryptRsp, if_neg hdo]
  dsimp only
  cases rspCall keys doEnc ret_enc tmpbuf with
  | error e => exact iff_of_false (fun ⟨_, h⟩ => (nomatch h)) fun ⟨_, _, h⟩ => (nomatch h)
  | ok r =>
    refine iff_of_true ?_ ⟨r.1, r.2, rfl⟩
    rw [ok_bind]
    split_ifs
    · exact ⟨_, rfl⟩
    · exact ⟨_, rfl⟩

theorem rspRoom_toNat (sz : Nat) (h : sz < 2 ^ 62) : (rspRoom sz).toNat = (sz / 256 + 1) * 512 := by
  have hsz : (UInt64.ofNat sz).toNat = sz := toNat_ofLength (by omega)
  have hunits : (UInt64.ofNat sz / 256 + 1).toNat = sz / 256 + 1 := by
    rw [UInt64.toNat_add, UInt64.toNat_div, hsz]
    change (sz / 256 + 1) % 2 ^ 64 = _
    omega
  have hbufsz : ((UInt64.ofNat sz / 256 + 1) * 256).toNat = (sz / 256 + 1) * 256 := by
    rw [UInt64.toNat_mul, hunits]
    change (sz / 256 + 1) * 256 % 2 ^ 64 = _
    omega
  rw [rspRoom, UInt64.toNat_mul, hbufsz]
  change (sz / 256 + 1) * 256 * 2 % 2 ^ 64 = _
  omega

/-- With a key of 2048 bits every response fits. -/
theorem rsp_fits {sz : Nat} (h : sz < 2 ^ 61) : Fits 256 sz (rspRoom sz) := by
  have hroom := rspRoom_toNat sz (by omega)
  refine .inr (.inl ⟨?_, by omega⟩)
  rw [hroom, blockCount]
  change (sz + 244) / 245 * 256 ≤ _
  omega

/-- A message is encrypted within its room or refused exactly where the room fits; and so it is for the
response of a region, whose buffer is twice the length rounded up. -/
theorem enc_room_iff {keys : Keys} {keyId : UInt32} (h : Encrypts evp k) (hkey : keys keyId = some evp)
    {m : Bytes} (hm : m ≠ []) (hlen : m.length < 2 ^ 64) :
    (∀ olen : UInt64, (∀ obuf : Bytes, obuf.length = olen.toNat →
      Kept evp k m (hyvCryptRsaEnc keys (some m) (UInt64.ofNat m.length) (some obuf) olen keyId)) ↔
        Fits k m.length olen) ∧
    ((∀ tmpbuf : Bytes, tmpbuf.length = (rspRoom m.length).toNat → Kept evp k m (rspCall keys keyId m tmpbuf)) ↔
      Fits k m.length (rspRoom m.length)) := by
  refine ⟨fun olen => ?_, kept_iff_fits _ h hkey hm hlen _⟩
  have hall := kept_iff_fits [] h hkey hm hlen olen
  rwa [KeptWhateverHeld, List.append_nil] at hall

theorem enc_room_one_byte :
    (∀ olen : UInt64, (∀ obuf : Bytes, obuf.length = olen.toNat →
      Kept plainKey 12 [7] (hyvCryptRsaEnc plainKeys (some [7]) (UInt64.ofNat 1) (some obuf) olen 2)) ↔
        Fits 12 1 olen) ∧
    ((∀ tmpbuf : Bytes, tmpbuf.length = (rspRoom 1).toNat → Kept plainKey 12 [7] (rspCall plainKeys 2 [7] tmpbuf)) ↔
      Fits 12 1 (rspRoom 1)) :=
  enc_room_iff plainKey_padded.toEncrypts rfl (List.cons_ne_nil _ _) (by decide)

/-- Two blocks of 12 bytes run over a buffer of 13. -/
theorem not_enc_room : ¬ ∀ (evp : Evp) (k : UInt64) (keys : Keys) (keyId : UInt32) (m obuf : Bytes) (olen : UInt64),
    Encrypts evp k → keys keyId = some evp → m ≠ [] → olen ≠ 0 → obuf.length = olen.toNat →
    Kept evp k m (hyvCryptRsaEnc keys (some m) (UInt64.ofNat m.length) (some obuf) olen keyId) := by
  intro h
  obtain ⟨ret, out, hcall, -⟩ := h plainKey 12 plainKeys 2 [7, 8] (zeroBytes 13) 13 plainKey_padded.toEncrypts rfl
    (List.cons_ne_nil _ _) (by decide) (by decide)
  cases hcall

end

end Yagips.Crypto.RsaRoom
