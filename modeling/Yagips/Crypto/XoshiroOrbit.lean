import Mathlib.Algebra.Group.Hom.Basic
import Mathlib.Algebra.Group.MinimalAxioms
import Mathlib.Data.Finite.Prod
import Mathlib.Dynamics.PeriodicPts.Lemmas
import Yagips.Crypto.Mt19937

/-!
# The orbits of xoshiro256

Under XOR the states are a group, and the update of `rand_xoshiro256` is a homomorphism of it. Only the
zero state is updated to zero, so no two states are updated to the same one. The state that the assertion
rejects is reached from no other, and every state comes back.
-/
namespace Yagips.Crypto.XoshiroOrbit

open Yagips.Crypto.Mt19937

/-! ## One call -/

/-- What a call returns. -/
def result (s : Xoshiro) : UInt64 := rotl (s.s0 + s.s3) 23 + s.s0

/-- What a call leaves in the four words of its caller. -/
def update (s : Xoshiro) : Xoshiro :=
  let t := s.s1 <<< 17
  let s2 := s.s2 ^^^ s.s0
  let s3 := s.s3 ^^^ s.s1
  let s1 := s.s1 ^^^ s2
  let s0 := s.s0 ^^^ s3
  { s0, s1, s2 := s2 ^^^ t, s3 := rotl s3 45 }

theorem randXoshiro256_of_zero {s : Xoshiro} (h : s.Zero) : randXoshiro256 s = none := if_pos h

theorem randXoshiro256_eq {s : Xoshiro} (h : ¬ s.Zero) : randXoshiro256 s = some (result s, update s) :=
  if_neg h

/-- The next `n` calls: what they return, and what they leave. -/
def xoshiroCalls : Nat → Xoshiro → Option (List UInt64 × Xoshiro)
  | 0, s => some ([], s)
  | n + 1, s => do
    let (r, s) ← randXoshiro256 s
    let (rs, s) ← xoshiroCalls n s
    return (r :: rs, s)

/-! ## The group of the states -/

theorem state_ext {a b : Xoshiro} (h0 : a.s0 = b.s0) (h1 : a.s1 = b.s1) (h2 : a.s2 = b.s2)
    (h3 : a.s3 = b.s3) : a = b := by
  cases a
  cases b
  simp only at h0 h1 h2 h3
  rw [h0, h1, h2, h3]

instance : Add Xoshiro where
  add a b := { s0 := a.s0 ^^^ b.s0, s1 := a.s1 ^^^ b.s1, s2 := a.s2 ^^^ b.s2, s3 := a.s3 ^^^ b.s3 }

instance : Zero Xoshiro where
  zero := { s0 := 0, s1 := 0, s2 := 0, s3 := 0 }

/-- Each state cancels itself. -/
instance : Neg Xoshiro where
  neg a := a

instance : AddGroup Xoshiro := AddGroup.ofLeftAxioms
  (fun _ _ _ => state_ext (UInt64.xor_assoc ..) (UInt64.xor_assoc ..) (UInt64.xor_assoc ..)
    (UInt64.xor_assoc ..))
  (fun _ => state_ext UInt64.zero_xor UInt64.zero_xor UInt64.zero_xor UInt64.zero_xor)
  (fun _ => state_ext UInt64.xor_self UInt64.xor_self UInt64.xor_self UInt64.xor_self)

theorem zero_iff {s : Xoshiro} : s.Zero ↔ s = 0 := by
  rw [Xoshiro.zero_iff]
  constructor
  · rintro ⟨h0, h1, h2, h3⟩
    exact state_ext h0 h1 h2 h3
  · rintro rfl
    exact ⟨rfl, rfl, rfl, rfl⟩

/-! ## The update as a homomorphism -/

/-- A rotation takes each bit from one place. -/
theorem rotl_bit (x k : UInt64) {i : Nat} (hi : i < 64) :
    (rotl x k).toBitVec.getLsbD i = x.toBitVec.getLsbD ((i + (64 - k.toNat % 64)) % 64) := by
  have hk := Nat.mod_lt k.toNat (by decide : 0 < 64)
  have hrest : (64 - k).toNat % 64 = (64 - k.toNat % 64) % 64 := by
    rw [UInt64.toNat_sub]
    have h64 : (64 : UInt64).toNat = 64 := rfl
    have hk := k.toNat_lt
    omega
  have hleft : (x <<< k).toBitVec.getLsbD i =
      (!decide (i < k.toNat % 64) && x.toBitVec.getLsbD (i - k.toNat % 64)) := by
    simp only [UInt64.toBitVec_shiftLeft, BitVec.shiftLeft_eq', BitVec.toNat_umod, UInt64.toNat_toBitVec,
      BitVec.getLsbD_shiftLeft, hi, decide_true, Bool.true_and]
    rfl
  have hright : (x >>> (64 - k)).toBitVec.getLsbD i = x.toBitVec.getLsbD ((64 - k).toNat % 64 + i) := by
    simp only [UInt64.toBitVec_shiftRight, BitVec.ushiftRight_eq', BitVec.toNat_umod, UInt64.toNat_toBitVec,
      BitVec.getLsbD_ushiftRight]
    rfl
  rw [rotl, UInt64.toBitVec_or, BitVec.getLsbD_or, hleft, hright, hrest]
  rcases Nat.lt_or_ge i (k.toNat % 64) with hlt | hge
  · have hin : (i + (64 - k.toNat % 64)) % 64 = (64 - k.toNat % 64) % 64 + i := by omega
    rw [decide_eq_true hlt, hin]
    rfl
  · have hin : (i + (64 - k.toNat % 64)) % 64 = i - k.toNat % 64 := by omega
    rw [decide_eq_false (Nat.not_lt.mpr hge), hin]
    rcases Nat.eq_zero_or_pos (k.toNat % 64) with hzero | hpos
    · simp [hzero]
    · -- what was shifted in from behind the word is 0
      have hout : x.toBitVec.getLsbD ((64 - k.toNat % 64) % 64 + i) = false :=
        BitVec.getLsbD_of_ge _ _ (by omega)
      rw [hout, Bool.or_false]
      rfl

theorem rotl_xor (x y k : UInt64) : rotl (x ^^^ y) k = rotl x k ^^^ rotl y k := by
  apply UInt64.toBitVec_inj.mp
  apply BitVec.eq_of_getLsbD_eq
  intro i hi
  rw [UInt64.toBitVec_xor, BitVec.getLsbD_xor, rotl_bit _ _ hi, rotl_bit _ _ hi, rotl_bit _ _ hi,
    UInt64.toBitVec_xor, BitVec.getLsbD_xor]

theorem xor_exchange (a b c d : UInt64) : a ^^^ b ^^^ (c ^^^ d) = a ^^^ c ^^^ (b ^^^ d) := by
  rw [UInt64.xor_assoc, ← UInt64.xor_assoc b, UInt64.xor_comm b, UInt64.xor_assoc c, ← UInt64.xor_assoc a]

theorem update_add (a b : Xoshiro) : update (a + b) = update a + update b := by
  refine state_ext ?_ ?_ ?_ ?_
  · show a.s0 ^^^ b.s0 ^^^ (a.s3 ^^^ b.s3 ^^^ (a.s1 ^^^ b.s1)) =
      a.s0 ^^^ (a.s3 ^^^ a.s1) ^^^ (b.s0 ^^^ (b.s3 ^^^ b.s1))
    rw [xor_exchange a.s3, xor_exchange a.s0]
  · show a.s1 ^^^ b.s1 ^^^ (a.s2 ^^^ b.s2 ^^^ (a.s0 ^^^ b.s0)) =
      a.s1 ^^^ (a.s2 ^^^ a.s0) ^^^ (b.s1 ^^^ (b.s2 ^^^ b.s0))
    rw [xor_exchange a.s2, xor_exchange a.s1]
  · show a.s2 ^^^ b.s2 ^^^ (a.s0 ^^^ b.s0) ^^^ (a.s1 ^^^ b.s1) <<< 17 =
      a.s2 ^^^ a.s0 ^^^ a.s1 <<< 17 ^^^ (b.s2 ^^^ b.s0 ^^^ b.s1 <<< 17)
    rw [UInt64.shiftLeft_xor, xor_exchange a.s2, xor_exchange (a.s2 ^^^ a.s0)]
  · show rotl (a.s3 ^^^ b.s3 ^^^ (a.s1 ^^^ b.s1)) 45 = rotl (a.s3 ^^^ a.s1) 45 ^^^ rotl (b.s3 ^^^ b.s1) 45
    rw [xor_exchange a.s3, rotl_xor]

def updateHom : Xoshiro →+ Xoshiro := AddMonoidHom.mk' update update_add

/-- Only the zero state is updated to zero. -/
theorem update_eq_zero {s : Xoshiro} (h : update s = 0) : s = 0 := by
  by_contra hne
  have hnot : ¬ s.Zero := fun hzero => hne (zero_iff.mp hzero)
  obtain ⟨r, s', hrand, hs'⟩ := randXoshiro256_of_ne_zero hnot
  rw [randXoshiro256_eq hnot] at hrand
  cases hrand
  exact hs' (zero_iff.mpr h)

theorem update_injective : Function.Injective update :=
  (injective_iff_map_eq_zero updateHom).mpr fun _ => update_eq_zero

instance : Finite Xoshiro := by
  refine Finite.of_injective (fun s => (s.s0.toFin, s.s1.toFin, s.s2.toFin, s.s3.toFin)) fun a b h => ?_
  obtain ⟨h0, h⟩ := Prod.mk.inj h
  obtain ⟨h1, h⟩ := Prod.mk.inj h
  obtain ⟨h2, h3⟩ := Prod.mk.inj h
  exact state_ext (UInt64.toFin_inj.mp h0) (UInt64.toFin_inj.mp h1) (UInt64.toFin_inj.mp h2)
    (UInt64.toFin_inj.mp h3)

/-- Every state is updated to itself again. -/
theorem update_returns (s : Xoshiro) : ∃ n > 0, update^[n] s = s :=
  update_injective.mem_periodicPts s

/-! ## Runs -/

theorem iterate_ne_zero {s : Xoshiro} (h : ¬ s.Zero) (n : Nat) : ¬ (update^[n] s).Zero := by
  induction n with
  | zero => exact h
  | succ n ih =>
    rw [Function.iterate_succ_apply']
    intro hzero
    exact ih (zero_iff.mpr (update_eq_zero (zero_iff.mp hzero)))

/-- The calls return the results of the states on the way. -/
theorem xoshiroCalls_eq {s : Xoshiro} (h : ¬ s.Zero) (n : Nat) :
    xoshiroCalls n s = some ((List.range n).map fun i => result (update^[i] s), update^[n] s) := by
  induction n generalizing s with
  | zero => rfl
  | succ n ih =>
    have hnext : ¬ (update s).Zero := iterate_ne_zero h 1
    rw [xoshiroCalls, randXoshiro256_eq h, List.range_succ_eq_map, List.map_cons, List.map_map]
    simp only [Option.bind_eq_bind, Option.bind_some, ih hnext]
    rfl

theorem xoshiroWords_eq (n : Nat) (s : Xoshiro) : xoshiroWords n s = (xoshiroCalls n s).map (·.1) := by
  induction n generalizing s with
  | zero => rfl
  | succ n ih =>
    rw [xoshiroWords, xoshiroCalls]
    cases randXoshiro256 s with
    | none => rfl
    | some drawn =>
      simp only [Option.bind_eq_bind, Option.bind_some, ih]
      cases xoshiroCalls n drawn.2 <;> rfl

/-- The update of a call is injective and keeps the zero state, so from any other state every call is
answered, and leaves a state that is not zero. -/
theorem never_rejected :
    (∀ s, randXoshiro256 s = if s.s0 ||| s.s1 ||| s.s2 ||| s.s3 = 0 then none else some (result s, update s)) ∧
    Function.Injective update ∧ update 0 = 0 ∧
    ∀ s : Xoshiro, s ≠ 0 → ∀ n, ∃ rs s', xoshiroCalls n s = some (rs, s') ∧ s' ≠ 0 := by
  refine ⟨fun _ => rfl, update_injective, map_zero updateHom, fun s hs n => ?_⟩
  have hnot : ¬ s.Zero := fun hzero => hs (zero_iff.mp hzero)
  exact ⟨_, _, xoshiroCalls_eq hnot n, fun hzero => iterate_ne_zero hnot n (zero_iff.mpr hzero)⟩

/-- The words that `getFromSeed` draws for the seed 1. -/
theorem never_rejected_one : ∃ rs s', xoshiroCalls 258 { s0 := 1, s1 := 0, s2 := 0, s3 := 0 } = some (rs, s') ∧
    s' ≠ 0 :=
  never_rejected.2.2.2 _ (fun h => absurd (congrArg Xoshiro.s0 h) (by decide)) 258

end Yagips.Crypto.XoshiroOrbit
