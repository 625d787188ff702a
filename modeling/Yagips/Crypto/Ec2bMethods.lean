import Yagips.Crypto.Ec2bAgrees

/-!
# Methods for drawing key and data

`getFromSeed` has one local buffer for the key and one for the data, which the case of the method
fills. The default case only sets the method to the random one, which nobody asks for again, and the
generator behind one method rejects a seed of 0.
-/
namespace Yagips.Crypto.Ec2bMethods

open Yagips.Lib
open Yagips.Crypto.KeyScramble
open Yagips.Crypto.Mt19937
open Yagips.Crypto.Ec2bObject
open Yagips.Crypto.Ec2bAgrees

/-- What ends a run before it returns: a failed assertion, a copy that leaves its string, or a local
buffer read before anything was written to it. -/
inductive Stop where
  | assertion
  | copy
  | unset
  deriving DecidableEq

def orStop {α : Type} (stop : Stop) : Option α → Except Stop α
  | some a => .ok a
  | none => .error stop

/-- The two local buffers and the member `data` behind the `switch`, with what `getrandom` writes. -/
def drawBuffers (o : Ec2b) (random : Filled) : Method → Except Stop (Key × Bytes × Bytes)
  | .object =>
    if 16 ≤ o.key.length ∧ 2048 ≤ o.data.length then do
      let k ← orStop .copy (copyOut 16 o.key)
      let d ← orStop .copy (copyOut 2048 o.data)
      return (k, d.toList, o.data)
    else .error .assertion
  | .rand => .ok (random.key, random.data.toList, random.data.toList)
  | .seed | .seedMt => orStop .copy (splitWords (genrand64Words 258 (initGenrand64 o.seed)))
  | .seedXor => do
    let ws ← orStop .assertion (xoshiroWords 258 ⟨o.seed, 0, 0, 0⟩)
    orStop .copy (splitWords ws)
  | .zero => .ok (Vector.replicate 16 0, List.replicate 2048 0, List.replicate 2048 0)
  | .constHighByte v => .ok (Vector.replicate 16 v, List.replicate 2048 v, List.replicate 2048 v)
  -- the first of the words that are joined to the seed is not set
  | .other => .error .unset

def getFromSeed (o : Ec2b) (method : Int32) (random : Filled) : Except Stop Ec2b := do
  let (k, d, data) ← drawBuffers o random (Method.ofInt method)
  let seed := xorWords (~~~0) d
  let seed := seed ^^^ word64 k.toList 1 ^^^ 0xceac3b5a867837ac ^^^ o.seed
  let k := unscrambleKey (storeWord k seed)
  return { o with key := k.toList, data }

/-- `setSeed`, and the constructor from a seed and a method where the members hold nothing. -/
def setSeed (o : Ec2b) (s : UInt64) (m : Int32) (random : Filled) : Except Stop Ec2b :=
  getFromSeed { o with seed := s, xorpad := genXorpadFromSeed s 4096 false false } m random

/-! ## The two models of the `switch` -/

/-- A run that does not stop is the run of the object's own model, and one that fails an assertion is
none there. -/
theorem drawBuffers_toOption {m : Method} (hm : m ≠ .other) (o : Ec2b) (random : Filled) :
    Ec2bObject.drawBuffers o random m = (drawBuffers o random m).toOption := by
  have hstop (x : Option (Key × Bytes × Bytes)) : (orStop .copy x).toOption = x := by
    cases x with
    | none => rfl
    | some drawn => rfl
  cases m with
  | object =>
    rw [Ec2bObject.drawBuffers, drawBuffers]
    split_ifs
    · cases copyOut 16 o.key with
      | none => rfl
      | some k =>
        cases copyOut 2048 o.data with
        | none => rfl
        | some d => rfl
    · rfl
  | rand => rfl
  | seed => exact (hstop _).symm
  | seedMt => exact (hstop _).symm
  | seedXor =>
    rw [Ec2bObject.drawBuffers, drawBuffers]
    cases xoshiroWords 258 ⟨o.seed, 0, 0, 0⟩ with
    | none => rfl
    | some ws => exact (hstop _).symm
  | zero => rfl
  | constHighByte v => rfl
  | other => exact absurd rfl hm

theorem setSeed_toOption {m : Int32} (hm : Method.ofInt m ≠ .other) (o : Ec2b) (s : UInt64)
    (random : Filled) : setSeedBy o s m random = (setSeed o s m random).toOption := by
  rw [setSeedBy, setSeed, Ec2bObject.getFromSeed, getFromSeed, drawBuffers_toOption hm]
  cases drawBuffers _ random (Method.ofInt m) with
  | error stop => rfl
  | ok drawn => rfl

/-! ## Which methods return -/

theorem splitWords_of_length {ws : List UInt64} (h : ws.length = 258) : ∃ drawn, splitWords ws = some drawn := by
  match ws with
  | [] => cases h
  | [w0] => cases h
  | w0 :: w1 :: ws => exact ⟨_, rfl⟩

theorem seedXor_zero_iff (s : UInt64) : (⟨s, 0, 0, 0⟩ : Xoshiro).Zero ↔ s = 0 := by
  rw [Xoshiro.zero_iff]
  exact and_iff_left ⟨rfl, rfl, rfl⟩

/-- Without an object to draw from, the buffers are drawn but for an unknown method and a seed of 0. -/
theorem drawBuffers_ok_iff {m : Method} (hm : m ≠ .object) (o : Ec2b) (random : Filled) :
    (∃ drawn, drawBuffers o random m = .ok drawn) ↔ m ≠ .other ∧ ¬ (m = .seedXor ∧ o.seed = 0) := by
  have hsplit {ws : List UInt64} (h : ws.length = 258) :
      ∃ drawn, orStop .copy (splitWords ws) = .ok drawn := by
    obtain ⟨drawn, hdrawn⟩ := splitWords_of_length h
    rw [hdrawn]
    exact ⟨drawn, rfl⟩
  cases m with
  | object => exact absurd rfl hm
  | rand => exact iff_of_true ⟨_, rfl⟩ ⟨by decide, fun h => (nomatch h.1)⟩
  | seed =>
    rw [drawBuffers]
    exact iff_of_true (hsplit (genrand64Words_length _ _)) ⟨by decide, fun h => (nomatch h.1)⟩
  | seedMt =>
    rw [drawBuffers]
    exact iff_of_true (hsplit (genrand64Words_length _ _)) ⟨by decide, fun h => (nomatch h.1)⟩
  | seedXor =>
    rw [drawBuffers]
    by_cases hs : o.seed = 0
    · rw [xoshiroWords_of_zero ((seedXor_zero_iff o.seed).mpr hs)]
      exact iff_of_false (fun ⟨_, h⟩ => (nomatch h)) fun h => h.2 ⟨rfl, hs⟩
    · obtain ⟨ws, hws⟩ := xoshiroWords_of_ne_zero (mt (seedXor_zero_iff o.seed).mp hs) 258
      rw [hws]
      exact iff_of_true (hsplit (xoshiroWords_length hws)) ⟨by decide, fun h => hs h.2⟩
  | zero => exact iff_of_true ⟨_, rfl⟩ ⟨by decide, fun h => (nomatch h.1)⟩
  | constHighByte v => exact iff_of_true ⟨_, rfl⟩ ⟨fun h => (nomatch h), fun h => (nomatch h.1)⟩
  | other => exact iff_of_false (fun ⟨_, h⟩ => (nomatch h)) fun h => h.1 rfl

/-! ## What is asked of a method -/

/-- The values of the class's enumeration, the last one with any high byte. -/
def Documented (m : Int32) : Prop := m ∈ [0, 1, 2, 3, 4, 5] ∨ m &&& 0xff = 6

/-- The call returns an object from whose key and data the seed is derived again. -/
def Seeds (s : UInt64) (call : Except Stop Ec2b) : Prop :=
  ∃ o, call = .ok o ∧ ∃ o', deriveXor o = some o' ∧ o'.seed = s

/-- It does, and a method that is not documented does what the random one does. -/
def Builds (o : Ec2b) (s : UInt64) (m : Int32) (random : Filled) : Prop :=
  Seeds s (setSeed o s m random) ∧ (¬ Documented m → setSeed o s m random = setSeed o s 1 random)

theorem ofInt_eq_other_iff {m : Int32} : Method.ofInt m = .other ↔ ¬ Documented m := by
  constructor
  · intro h hdoc
    exact ofInt_documented hdoc h
  · intro h
    simp only [Documented, List.mem_cons, List.not_mem_nil, or_false, not_or] at h
    obtain ⟨⟨h0, h1, h2, h3, h4, h5⟩, h6⟩ := h
    rw [Method.ofInt, if_neg h0, if_neg h1, if_neg h2, if_neg h3, if_neg h4, if_neg h5, if_neg h6]

theorem ofInt_eq_object_iff {m : Int32} : Method.ofInt m = .object ↔ m = 0 := by
  unfold Method.ofInt
  split_ifs with h <;> simp [h]

theorem ofInt_eq_seedXor_iff {m : Int32} : Method.ofInt m = .seedXor ↔ m = 4 := by
  unfold Method.ofInt
  split_ifs with h0 h1 h2 h3 h4 h5 h6
  · subst h0; decide
  · subst h1; decide
  · subst h2; decide
  · subst h3; decide
  · subst h4; decide
  · subst h5; decide
  · simp [h4]
  · simp [h4]

theorem builds_iff {m : Int32} (hm : m ≠ 0) (o : Ec2b) (s : UInt64) (random : Filled) :
    Builds o s m random ↔ Documented m ∧ ¬ (m = 4 ∧ s = 0) := by
  by_cases hdoc : Documented m
  · have hother : Method.ofInt m ≠ .other := fun h => ofInt_eq_other_iff.mp h hdoc
    have hobject : Method.ofInt m ≠ .object := fun h => hm (ofInt_eq_object_iff.mp h)
    have hdraw := drawBuffers_ok_iff hobject
      { o with seed := s, xorpad := genXorpadFromSeed s 4096 false false } random
    rw [ofInt_eq_seedXor_iff] at hdraw
    have hseeds : Seeds s (setSeed o s m random) ↔ ∃ drawn, drawBuffers
        { o with seed := s, xorpad := genXorpadFromSeed s 4096 false false } random (Method.ofInt m) =
          .ok drawn := by
      constructor
      · intro ⟨o', hset, _⟩
        obtain ⟨drawn, hdrawn, -⟩ := bind_eq_ok.mp hset
        exact ⟨drawn, hdrawn⟩
      · intro ⟨drawn, hdrawn⟩
        obtain ⟨o', hset⟩ : ∃ o', setSeed o s m random = .ok o' := by
          rw [setSeed, getFromSeed, hdrawn]
          exact ⟨_, rfl⟩
        have hsome : setSeedBy o s m random = some o' := by
          rw [setSeed_toOption hother, hset]
          rfl
        obtain ⟨hconsistent, hseed⟩ := setSeedBy_spec hother hsome
        exact ⟨o', hset, o', hconsistent.derived, hseed⟩
    rw [Builds, hseeds, hdraw]
    exact ⟨fun h => ⟨hdoc, h.1.2⟩, fun h => ⟨⟨hother, h.2⟩, fun hnot => absurd hdoc hnot⟩⟩
  · refine iff_of_false (fun h => ?_) fun h => hdoc h.1
    obtain ⟨⟨o', hset, -⟩, -⟩ := h
    rw [setSeed, getFromSeed, ofInt_eq_other_iff.mpr hdoc] at hset
    cases hset

/-- A new object can be built, and an old one given its seed, exactly by the documented methods, but for
the seed 0 by the method that seeds its generator with it. -/
theorem seed_method_iff {m : Int32} (hm : m ≠ 0) (s : UInt64) (random : Filled) :
    (∀ stale : UInt64, Builds (blank stale) s m random ↔ Documented m ∧ ¬ (m = 4 ∧ s = 0)) ∧
    (∀ o : Ec2b, 16 ≤ o.key.length → 2048 ≤ o.data.length →
      (Builds o s m random ↔ Documented m ∧ ¬ (m = 4 ∧ s = 0))) :=
  ⟨fun stale => builds_iff hm (blank stale) s random, fun o _ _ => builds_iff hm o s random⟩

def zeroFilled : Filled where
  key := Vector.replicate 16 0
  data := Vector.replicate 2048 0

theorem seed_method_rand :
    (∀ stale : UInt64, Builds (blank stale) 0 1 zeroFilled ↔ Documented 1 ∧ ¬ ((1 : Int32) = 4 ∧ (0 : UInt64) = 0)) ∧
    (∀ o : Ec2b, 16 ≤ o.key.length → 2048 ≤ o.data.length →
      (Builds o 0 1 zeroFilled ↔ Documented 1 ∧ ¬ ((1 : Int32) = 4 ∧ (0 : UInt64) = 0))) :=
  seed_method_iff (by decide) 0 zeroFilled

/-- A method of none of the cases leaves both buffers unset. -/
theorem not_builds_unknown : ¬ ∀ (stale s : UInt64) (m : Int32) (random : Filled), m ≠ 0 →
    Builds (blank stale) s m random := by
  intro h
  obtain ⟨⟨o, hset, -⟩, -⟩ := h 0 0 7 zeroFilled (by decide)
  have hstop : setSeed (blank 0) 0 7 zeroFilled = .error .unset := rfl
  rw [hstop] at hset
  cases hset

end Yagips.Crypto.Ec2bMethods
