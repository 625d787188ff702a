import Yagips.Store.Gate

/-!
# Saving and loading an account

A token is kept where encoding its bytes gives its text again. The tokens the server makes
are of that kind, though `b64enc` does not encode the bytes it is given: it does encode the
bytes it has made of them. Every other field is copied, except the guest flag.
-/
namespace Yagips.Store.AccountRoundTrip

open Yagips.Lib
open Yagips.Lib.Base64
open Yagips.Util.B64
open Yagips.Util.B64RoundTrip
open Yagips.Util.Hex
open Yagips.Store.Accounts
open Yagips.Store.Gate

/-- Tokens that are empty or were made new, for whatever account. -/
structure Produced (a : Account) : Prop where
  authToken : a.authToken = [] ∨ ∃ b b' rawtoken now,
    Account.getNewAuthToken b rawtoken now = .ok b' ∧ b'.authToken = a.authToken
  comboToken : a.comboToken = [] ∨ ∃ b b' rawtoken,
    Account.getNewComboToken b rawtoken = .ok b' ∧ b'.comboToken = a.comboToken
  binderToken : a.binderToken = [] ∨ ∃ b b' rawtoken now,
    Account.getNewBinderToken b rawtoken now = .ok b' ∧ b'.binderToken = a.binderToken

/-! ## Tokens -/

/-- A text that decodes to bytes it is the encoding of. -/
def Stable (dec enc : Bytes → Except Fault Bytes) (t : Bytes) : Prop :=
  ∃ r, dec t = .ok r ∧ enc r = .ok t

/-- The bits `b64enc` sets stay set when its text is decoded and encoded again. -/
theorem stable_b64enc {s t : Bytes} (hs : s.length ≤ 3 * 2 ^ 30) (h : b64enc s = .ok t) :
    Stable b64dec b64enc t := by
  obtain ⟨t', ht', hdec⟩ := b64dec_b64enc hs
  cases h.symm.trans ht'
  refine ⟨smear s, hdec, ?_⟩
  have hidx : indexed s = s := cycle_self (by omega)
  have hidx' : indexed (smear s) = smear s := cycle_self (by rw [smear_length]; omega)
  rw [← h, b64enc_eq, b64enc_eq, hidx, hidx', smear_smear]

theorem stable_hexenc {s t : Bytes} (hs : s.length ≤ 2 ^ 31) (h : hexenc s = .ok t) :
    Stable hexdec hexenc t := by
  obtain ⟨t', ht', hdec⟩ := hexdec_hexenc hs
  cases h.symm.trans ht'
  exact ⟨s, hdec, h⟩

variable {a : Account}

theorem Produced.auth_stable (h : Produced a) : Stable b64dec b64enc a.authToken := by
  rcases h.authToken with hnil | ⟨b, b', rawtoken, now, hnew, htoken⟩
  · rw [hnil]
    exact ⟨[], rfl, rfl⟩
  · obtain ⟨t, ht, hb⟩ := bind_eq_ok.mp hnew
    cases hb
    rw [← htoken]
    exact stable_b64enc (by simp) ht

theorem Produced.combo_stable (h : Produced a) : Stable hexdec hexenc a.comboToken := by
  rcases h.comboToken with hnil | ⟨b, b', rawtoken, hnew, htoken⟩
  · rw [hnil]
    exact ⟨[], rfl, rfl⟩
  · obtain ⟨t, ht, hb⟩ := bind_eq_ok.mp hnew
    cases hb
    rw [← htoken]
    exact stable_hexenc (by simp) ht

theorem Produced.binder_stable (h : Produced a) : Stable b64dec b64enc a.binderToken := by
  rcases h.binderToken with hnil | ⟨b, b', rawtoken, now, hnew, htoken⟩
  · rw [hnil]
    exact ⟨[], rfl, rfl⟩
  · obtain ⟨t, ht, hb⟩ := bind_eq_ok.mp hnew
    cases hb
    rw [← htoken]
    exact stable_b64enc (by simp) ht

/-! ## Accounts -/

/-- What comes back of an account whose tokens are kept is no guest's. -/
theorem ofInfo_toInfo (hauth : Stable b64dec b64enc a.authToken)
    (hcombo : Stable hexdec hexenc a.comboToken) (hbind : Stable b64dec b64enc a.binderToken) :
    a.toInfo >>= Account.ofInfo = .ok { a with guest := false } := by
  obtain ⟨auth, hauth, hauth'⟩ := hauth
  obtain ⟨combo, hcombo, hcombo'⟩ := hcombo
  obtain ⟨bind, hbind, hbind'⟩ := hbind
  simp only [Account.toInfo, Account.ofInfo, hauth, hcombo, hbind, hauth', hcombo', hbind', ok_bind,
    pure_eq_ok]

theorem round_trip_iff (h : Produced a) :
    a.toInfo >>= Account.ofInfo = .ok a ↔ a.guest = false := by
  rw [ofInfo_toInfo h.auth_stable h.combo_stable h.binder_stable]
  constructor
  · intro heq
    rw [← Except.ok.inj heq]
  · intro hguest
    rw [← hguest]

/-- A named account, with tokens made of zeros. -/
def named : Account :=
  { newAccount (some [0x61]) blank 1 with
    authToken := List.replicate 32 0x41, comboToken := List.replicate 32 0x30
    binderToken := List.replicate 8 0x41 }

theorem round_trip_named : named.toInfo >>= Account.ofInfo = .ok named ↔ named.guest = false :=
  round_trip_iff {
    authToken := .inr ⟨named, named, .replicate 24 0, 0, by decide +kernel, rfl⟩
    comboToken := .inr ⟨named, named, .replicate 16 0, by decide +kernel, rfl⟩
    binderToken := .inr ⟨named, named, .replicate 6 0, 0, by decide +kernel, rfl⟩ }

/-- A guest is a guest no more once saved and loaded. -/
theorem guest_forgotten :
    ∃ a, Produced a ∧ ¬ a.toInfo >>= Account.ofInfo = .ok a := by
  refine ⟨newAccount none blank 1,
    ⟨.inl rfl, .inl rfl, .inl rfl⟩, ?_⟩
  decide +kernel

end Yagips.Store.AccountRoundTrip
