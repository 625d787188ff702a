import Yagips.Lib.Bytes

/-!
# The generators of `mt19937-64.c` and `util.cpp`

The Mersenne twister with its static state, xoshiro256 with its state in the caller, and
the XOR pad drawn from the twister.
-/
namespace Yagips.Crypto.Mt19937

open Yagips.Lib

/-- The state vector and `mti`, which is `NN + 1` before the first seeding. -/
structure Mt where
  mt : Vector UInt64 312
  mti : Nat

def initGenrand64 (seed : UInt64) : Mt where
  mt := (List.finRange 312).tail.foldl
    (fun mt i =>
      let prev := mt.get (i - 1)
      mt.set i.val ((6364136223846793005 : UInt64) * (prev ^^^ (prev >>> 62)) + UInt64.ofNat i.val)
        i.isLt)
    ((Vector.replicate 312 0).set 0 seed)
  mti := 312

def mag01 (x : UInt64) : UInt64 := if x = 0 then 0 else 0xb5026f5aa96619e9

/-- One word of the next block. The indices of the three loops are these modulo `NN`. -/
def twist (mt : Vector UInt64 312) (i : Fin 312) : Vector UInt64 312 :=
  let x := (mt.get i &&& 0xffffffff80000000) ||| (mt.get (i + 1) &&& 0x7fffffff)
  mt.set i.val (mt.get (i + 156) ^^^ (x >>> 1) ^^^ mag01 (x &&& 1)) i.isLt

def temper (x : UInt64) : UInt64 :=
  let x := x ^^^ ((x >>> 29) &&& 0x5555555555555555)
  let x := x ^^^ ((x <<< 17) &&& 0x71d67fffeda60000)
  let x := x ^^^ ((x <<< 37) &&& 0xfff7eee000000000)
  x ^^^ (x >>> 43)

def genrand64Int64 (s : Mt) : UInt64 × Mt :=
  if h : s.mti < 312 then (temper (s.mt.get ⟨s.mti, h⟩), { s with mti := s.mti + 1 })
  else
    let s := if s.mti = 313 then initGenrand64 5489 else s
    let mt := (List.finRange 312).foldl twist s.mt
    (temper (mt.get 0), { mt, mti := 1 })

def htobe64 (r : UInt64) : UInt64 := UInt64.ofNat (beNat (wordBytes r))

/-- The next `n` words. -/
def genrand64Words : Nat → Mt → List UInt64
  | 0, _ => []
  | n + 1, s =>
    let (r, s) := genrand64Int64 s
    r :: genrand64Words n s

/-- The bytes `genXorpadFromSeed` writes. It seeds the generator first, so what was drawn
before does not matter. -/
def genXorpadFromSeed (seed : UInt64) (sz : Nat) (reroll be : Bool) : Bytes :=
  let s := initGenrand64 seed
  let s :=
    if reroll then
      let (r, _) := genrand64Int64 s
      let (_, s) := genrand64Int64 (initGenrand64 r)
      s
    else s
  (genrand64Words (sz / 8) s).flatMap fun r => wordBytes (if be then htobe64 r else r)

theorem genrand64Words_length (n : Nat) (s : Mt) : (genrand64Words n s).length = n := by
  induction n generalizing s with
  | zero => rfl
  | succ n ih => simp only [genrand64Words, List.length_cons, ih]

theorem flatMap_wordBytes_length {f : UInt64 → UInt64} (ws : List UInt64) :
    (ws.flatMap fun r => wordBytes (f r)).length = 8 * ws.length := by
  induction ws with
  | nil => rfl
  | cons w ws ih =>
    rw [List.flatMap_cons, List.length_append, wordBytes_length, ih, List.length_cons]
    omega

theorem genXorpadFromSeed_length (seed : UInt64) (sz : Nat) (reroll be : Bool) :
    (genXorpadFromSeed seed sz reroll be).length = 8 * (sz / 8) := by
  unfold genXorpadFromSeed
  rw [@flatMap_wordBytes_length fun r => if be then htobe64 r else r, genrand64Words_length]

/-! ## xoshiro256 -/

structure Xoshiro where
  s0 : UInt64
  s1 : UInt64
  s2 : UInt64
  s3 : UInt64

def rotl (x : UInt64) (k : UInt64) : UInt64 := (x <<< k) ||| (x >>> (64 - k))

/-- `none` where the assertion that the state is not zero fails. -/
def randXoshiro256 (s : Xoshiro) : Option (UInt64 × Xoshiro) :=
  if s.s0 ||| s.s1 ||| s.s2 ||| s.s3 = 0 then none
  else
    let result := rotl (s.s0 + s.s3) 23 + s.s0
    let t := s.s1 <<< 17
    let s2 := s.s2 ^^^ s.s0
    let s3 := s.s3 ^^^ s.s1
    let s1 := s.s1 ^^^ s2
    let s0 := s.s0 ^^^ s3
    some (result, { s0, s1, s2 := s2 ^^^ t, s3 := rotl s3 45 })

def xoshiroWords : Nat → Xoshiro → Option (List UInt64)
  | 0, _ => some []
  | n + 1, s => do
    let (r, s) ← randXoshiro256 s
    return r :: (← xoshiroWords n s)

theorem xoshiroWords_length {n : Nat} {s : Xoshiro} {ws : List UInt64}
    (h : xoshiroWords n s = some ws) : ws.length = n := by
  induction n generalizing s ws with
  | zero =>
    cases h
    rfl
  | succ n ih =>
    obtain ⟨r, -, h⟩ := Option.bind_eq_some_iff.mp h
    obtain ⟨rest, hrest, h⟩ := Option.bind_eq_some_iff.mp h
    cases h
    rw [List.length_cons, ih hrest]

/-- The state that the assertion rejects. -/
def Xoshiro.Zero (s : Xoshiro) : Prop := s.s0 ||| s.s1 ||| s.s2 ||| s.s3 = 0

theorem Xoshiro.zero_iff {s : Xoshiro} : s.Zero ↔ s.s0 = 0 ∧ s.s1 = 0 ∧ s.s2 = 0 ∧ s.s3 = 0 := by
  simp only [Xoshiro.Zero, UInt64.or_eq_zero_iff, and_assoc]

/-- Only 0 is its own shift. -/
theorem eq_zero_of_shift {x : UInt64} (h : x = x <<< 17) : x = 0 := by
  have hn := congrArg UInt64.toNat h
  rw [UInt64.toNat_shiftLeft, Nat.shiftLeft_eq] at hn
  change x.toNat = x.toNat * 131072 % 2 ^ 64 at hn
  -- 131071 times the number is a multiple of 2 ^ 64, and 131071 is odd
  have hsplit := Nat.div_add_mod (x.toNat * 131072) (2 ^ 64)
  rw [← hn] at hsplit
  have hdvd : 2 ^ 64 ∣ x.toNat * 131071 := by
    refine ⟨x.toNat * 131072 / 2 ^ 64, ?_⟩
    have hmul : x.toNat * 131072 = x.toNat * 131071 + x.toNat := by rw [← Nat.mul_succ]
    exact Nat.add_right_cancel (hmul.symm.trans hsplit.symm)
  have hcoprime : Nat.Coprime (2 ^ 64) 131071 := Nat.Coprime.pow_left 64 (by decide)
  exact UInt64.toNat_inj.mp (Nat.eq_zero_of_dvd_of_lt (hcoprime.dvd_of_dvd_mul_right hdvd) x.toNat_lt)

theorem eq_zero_of_rotl {x : UInt64} (h : rotl x 45 = 0) : x = 0 := by
  obtain ⟨hl, hr⟩ := UInt64.or_eq_zero_iff.mp h
  have hln := congrArg UInt64.toNat hl
  have hrn := congrArg UInt64.toNat hr
  rw [UInt64.toNat_shiftLeft, Nat.shiftLeft_eq] at hln
  rw [UInt64.toNat_shiftRight, Nat.shiftRight_eq_div_pow] at hrn
  change x.toNat * 2 ^ 45 % 2 ^ 64 = 0 at hln
  change x.toNat / 2 ^ 19 = 0 at hrn
  rw [← UInt64.toNat_inj]
  change x.toNat = 0
  omega

/-- The update takes no other state to the one that is rejected. -/
theorem randXoshiro256_of_ne_zero {s : Xoshiro} (h : ¬ s.Zero) :
    ∃ r s', randXoshiro256 s = some (r, s') ∧ ¬ s'.Zero := by
  refine ⟨_, _, if_neg h, fun hzero => ?_⟩
  obtain ⟨h0, h1, h2, h3⟩ := Xoshiro.zero_iff.mp hzero
  -- the last word gives s3 = s1, then the first s0 = 0, the second s1 = s2, the third s1 = 0
  have h31 := UInt64.xor_eq_zero_iff.mp (eq_zero_of_rotl h3)
  dsimp only at h0 h1 h2
  rw [h31, UInt64.xor_self, UInt64.xor_zero] at h0
  rw [h0, UInt64.xor_zero] at h1 h2
  have h12 := UInt64.xor_eq_zero_iff.mp h1
  rw [← h12] at h2
  have hs1 := eq_zero_of_shift (UInt64.xor_eq_zero_iff.mp h2)
  exact h (Xoshiro.zero_iff.mpr ⟨h0, hs1, h12 ▸ hs1, h31.trans hs1⟩)

theorem xoshiroWords_of_ne_zero {s : Xoshiro} (h : ¬ s.Zero) (n : Nat) :
    ∃ ws, xoshiroWords n s = some ws := by
  induction n generalizing s with
  | zero => exact ⟨[], rfl⟩
  | succ n ih =>
    obtain ⟨r, s', hrand, hs'⟩ := randXoshiro256_of_ne_zero h
    obtain ⟨ws, hws⟩ := ih hs'
    refine ⟨r :: ws, ?_⟩
    rw [xoshiroWords, hrand]
    simp only [Option.bind_eq_bind, Option.bind_some, hws, Option.pure_def]

theorem xoshiroWords_of_zero {s : Xoshiro} (h : s.Zero) (n : Nat) : xoshiroWords (n + 1) s = none := by
  have hnone : randXoshiro256 s = none := if_pos h
  rw [xoshiroWords, hnone]
  rfl

end Yagips.Crypto.Mt19937
