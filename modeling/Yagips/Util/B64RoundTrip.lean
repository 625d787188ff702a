import Yagips.Util.B64

/-!
# When base64 round trips

`b64enc` writes the base64 encoding of its argument with some low bits set, and
`b64dec` takes base64 back. So the round trip fails where a set bit was clear, and in
strings long enough for an index to start over.
-/
namespace Yagips.Util.B64RoundTrip

open Yagips.Lib
open Yagips.Lib.Base64
open Yagips.Util.B64

theorem smear_length (s : Bytes) : (smear s).length = s.length := by
  induction s using encode.induct with
  | case1 => rfl
  | case2 a => rfl
  | case3 a b => rfl
  | case4 a b c rest ih => simp only [smear, List.length_cons, ih]

theorem fillLow_or (mask a b : UInt8) : fillLow mask (fillLow mask a b) b = fillLow mask a b := by
  unfold fillLow
  split
  · rw [UInt8.or_assoc, UInt8.or_self]
  · rfl

theorem sign_fillLow (a b : UInt8) : 0x80 ≤ fillLow 15 a b ↔ 0x80 ≤ a := by
  unfold fillLow
  split
  · exact (or_low a).2.2.2.2
  · exact Iff.rfl

theorem fillLow_sign (mask a b c : UInt8) :
    fillLow mask a (fillLow 15 b c) = fillLow mask a b := by
  show (if 0x80 ≤ fillLow 15 b c then a ||| mask else a) = if 0x80 ≤ b then a ||| mask else a
  exact if_congr (sign_fillLow b c) rfl rfl

/-- Setting the bits leaves the signs as they are, so doing it twice is doing it once. -/
theorem smear_smear (s : Bytes) : smear (smear s) = smear s := by
  induction s using encode.induct with
  | case1 => rfl
  | case2 a => rfl
  | case3 a b => simp only [smear, fillLow_or]
  | case4 a b c rest ih => simp only [smear, fillLow_sign, fillLow_or, ih]

theorem fillLow_eq_self {mask : UInt8} (h : mask = 3 ∨ mask = 15) (a b : UInt8) :
    fillLow mask a b = a ↔ (0x80 ≤ b → a &&& mask = mask) := by
  have hor : a ||| mask = a ↔ a &&& mask = mask := by
    rcases h with rfl | rfl
    · exact (or_low a).2.2.1
    · exact (or_low a).2.2.2.1
  unfold fillLow
  split
  · simp [*]
  · simp [*]

/-- No sign bit changes a byte: where a byte from `0x80` on follows the first byte of a
group, that byte's two low bits are set, where it follows the second, its four low bits. -/
def Clean (s : Bytes) : Prop :=
  ∀ j b c, s[j]? = some b → s[j + 1]? = some c → 0x80 ≤ c →
    (j % 3 = 0 → b &&& 3 = 3) ∧ (j % 3 = 1 → b &&& 15 = 15)

theorem clean_group {a b c : UInt8} {rest : Bytes} : Clean (a :: b :: c :: rest) ↔
    (0x80 ≤ b → a &&& 3 = 3) ∧ (0x80 ≤ c → b &&& 15 = 15) ∧ Clean rest := by
  constructor
  · intro h
    refine ⟨fun hb => (h 0 a b rfl rfl hb).1 rfl, fun hc => (h 1 b c rfl rfl hc).2 rfl, ?_⟩
    intro j x y hx hy hy80
    have hj := h (j + 3) x y hx hy hy80
    rwa [Nat.add_mod_right] at hj
  · intro ⟨hab, hbc, hrest⟩ j x y hx hy hy80
    match j with
    | 0 =>
      cases hx
      cases hy
      exact ⟨fun _ => hab hy80, fun h => by omega⟩
    | 1 =>
      cases hx
      cases hy
      exact ⟨fun h => by omega, fun _ => hbc hy80⟩
    | 2 => exact ⟨fun h => by omega, fun h => by omega⟩
    | j + 3 =>
      rw [Nat.add_mod_right]
      exact hrest j x y hx hy hy80

theorem smear_eq_self_iff (s : Bytes) : smear s = s ↔ Clean s := by
  induction s using encode.induct with
  | case1 => simp [smear, Clean]
  | case2 a => simp [smear, Clean]
  | case3 a b =>
    simp only [smear, List.cons.injEq, and_true, fillLow_eq_self (Or.inl rfl)]
    constructor
    · intro h j x y hx hy hy80
      cases j with
      | zero =>
        cases hx
        cases hy
        exact ⟨fun _ => h hy80, fun h => by omega⟩
      | succ j => simp at hy
    · intro h hb
      exact (h 0 a b rfl rfl hb).1 rfl
  | case4 a b c rest ih =>
    simp only [smear, List.cons.injEq, true_and, fillLow_eq_self (Or.inl rfl),
      fillLow_eq_self (Or.inr rfl), clean_group, ih]

/-- The 32-bit indices of both loops start over in a longer string, `b64enc` after `2 ^ 32`
bytes and `b64dec` after the digits of `3 * 2 ^ 30` bytes. -/
structure Repeats (s : Bytes) : Prop where
  whole : 3 ∣ s.length
  decoded : cycle (3 * 2 ^ 30) s.length s = s
  encoded : smear (cycle (2 ^ 32) s.length s) = s

theorem cycle_encode {s : Bytes} {k : Nat} (hk : 3 * k ≤ s.length) (hpos : 0 < k) (n : Nat) :
    cycle (4 * k) (4 * n) (encode s) = encode (cycle (3 * k) (3 * n) s) := by
  induction n using Nat.strong_induction_on with
  | h n ih =>
    by_cases hn : n ≤ k
    · have hlen := encode_length s
      rw [cycle_take (by omega) (by omega), cycle_take (by omega) (by omega),
        encode_take (by omega)]
    · have h4 : 4 * n = 4 * k + 4 * (n - k) := by omega
      have h3 : 3 * n = 3 * k + 3 * (n - k) := by omega
      have hdvd : 3 ∣ (cycle (3 * k) (3 * k) s).length := ⟨k, cycle_length _ _ _⟩
      have hfirst : cycle (4 * k) (4 * k) (encode s) = encode (cycle (3 * k) (3 * k) s) := by
        have hlen := encode_length s
        rw [cycle_take le_rfl (by omega), cycle_take le_rfl hk, encode_take hk]
      rw [h4, h3, cycle_add, cycle_add, encode_append hdvd, hfirst, ih (n - k) (by omega)]

theorem b64dec_encode_short {s : Bytes} (h : s.length ≤ 3 * 2 ^ 30) :
    b64dec (encode s) = .ok s := by
  have hlen : (encode s).length ≤ 2 ^ 32 := by
    rw [encode_length]
    omega
  rw [b64dec_eq, indexed, cycle_self hlen, decChars_encode]

theorem b64dec_encode_long {s : Bytes} (h : 3 * 2 ^ 30 < s.length) :
    b64dec (encode s) = .ok (cycle (3 * 2 ^ 30) (3 * ((s.length + 2) / 3)) s) := by
  have hidx := cycle_encode h.le (by decide) ((s.length + 2) / 3)
  rw [b64dec_eq, indexed, encode_length]
  have h32 : (2 : Nat) ^ 32 = 4 * 2 ^ 30 := by decide
  rw [h32, hidx, decChars_encode]

theorem b64dec_encode_ok (s : Bytes) : ∃ r, b64dec (encode s) = .ok r := by
  by_cases h : s.length ≤ 3 * 2 ^ 30
  · exact ⟨s, b64dec_encode_short h⟩
  · exact ⟨_, b64dec_encode_long (by omega)⟩

/-- Within 3 GiB, decoding what `b64enc` wrote gives the bytes with the bits it set. -/
theorem b64dec_b64enc {s : Bytes} (h : s.length ≤ 3 * 2 ^ 30) :
    ∃ t, b64enc s = .ok t ∧ b64dec t = .ok (smear s) := by
  have hidx : indexed s = s := cycle_self (by omega)
  have hlen : (smear s).length ≤ 3 * 2 ^ 30 := by
    rw [smear_length]
    exact h
  refine ⟨encode (smear s), ?_, b64dec_encode_short hlen⟩
  rw [b64enc_eq, hidx]

theorem b64enc_exact_iff (s : Bytes) : b64enc s = .ok (encode s) ↔ smear (indexed s) = s := by
  rw [b64enc_eq]
  constructor
  · intro h
    exact encode_inj (Except.ok.inj h)
  · intro h
    rw [h]

/-- `b64enc` is the base64 encoding and `b64dec` takes it back on exactly these strings. -/
theorem b64_round_trip_iff (s : Bytes) :
    (b64enc s = .ok (encode s) ∧ b64enc s >>= b64dec = .ok s) ↔
      if s.length ≤ 3 * 2 ^ 30 then Clean s else Repeats s := by
  rw [b64enc_exact_iff]
  split
  case isTrue hlen =>
    have hidx : indexed s = s := cycle_self (by omega)
    rw [hidx, smear_eq_self_iff]
    constructor
    · intro h
      exact h.1
    · intro h
      have henc : b64enc s = .ok (encode s) := by
        rw [b64enc_exact_iff, hidx, smear_eq_self_iff]
        exact h
      rw [henc, ok_bind]
      exact ⟨h, b64dec_encode_short hlen⟩
  case isFalse hlen =>
    have hdec := @b64dec_encode_long s (by omega)
    constructor
    · intro ⟨henc, hround⟩
      rw [(b64enc_exact_iff s).mpr henc, ok_bind, hdec] at hround
      have hcyc := Except.ok.inj hround
      have hn : 3 * ((s.length + 2) / 3) = s.length := by
        have h := congrArg List.length hcyc
        rwa [cycle_length] at h
      rw [hn] at hcyc
      exact ⟨⟨(s.length + 2) / 3, hn.symm⟩, hcyc, henc⟩
    · intro h
      have hn : 3 * ((s.length + 2) / 3) = s.length := by
        have h3 := h.whole
        omega
      rw [hn, h.decoded] at hdec
      rw [(b64enc_exact_iff s).mpr h.encoded, ok_bind]
      exact ⟨h.encoded, hdec⟩

theorem b64enc_spoils : ¬ (b64enc [0x00, 0x80] = .ok (encode [0x00, 0x80]) ∧
    b64enc [0x00, 0x80] >>= b64dec = .ok [0x00, 0x80]) := by
  decide +kernel

end Yagips.Util.B64RoundTrip
