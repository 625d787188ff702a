import Yagips.Util.B64

/-!
# What `b64dec` takes for digits

The loop skips what is not in its table, and writes a byte for every eight bits of digits
that are complete. Bits that are left over are written as a byte more where the string ends
with a digit, and forgotten where skipped characters follow.
-/
namespace Yagips.Util.B64Digits

open Yagips.Lib
open Yagips.Util.B64

/-! ## Digits -/

/-- The six bits of a character that is in the table. -/
def value (t : UInt8) : Option UInt8 :=
  match look t with
  | .ok (.six v) => some v
  | _ => none

/-- The base64 digits of a string. -/
def sextets (s : Bytes) : List UInt8 := s.filterMap value

/-- A string without the characters that are no base64 digits. -/
def stripped (s : Bytes) : Bytes := s.filter fun t => (value t).isSome

def endsSix (s : Bytes) : Bool := s.getLast?.any fun t => (value t).isSome

/-- A string does not end with a digit or a character outside the range of the table. -/
def EndsUnlisted (s : Bytes) : Prop := ∀ t ∈ s.getLast?, t < 128 ∧ value t = none

instance (s : Bytes) : Decidable (EndsUnlisted s) :=
  decidable_of_iff (s.getLast?.all (fun t => t < 128 ∧ value t = none) = true) (by
    unfold EndsUnlisted
    cases s.getLast? <;> simp)

theorem look_eq (t : UInt8) : look t =
    (if t = 128 then .error (.read 128)
      else if 128 < t then .ok .foreign
      else match value t with
        | none => .ok .unlisted
        | some v => .ok (.six v)) ∧ ∀ v ∈ value t, v < 64 ∧ t < 128 := by
  have hbytes : look t = (if t = 128 then .error (.read 128)
        else if 128 < t then .ok .foreign
        else match value t with
          | none => .ok .unlisted
          | some v => .ok (.six v)) ∧ (value t).all (fun v => v < 64 ∧ t < 128) = true := by
    revert t
    apply forall_byte
    decide +kernel
  obtain ⟨hlook, hvalue⟩ := hbytes
  exact ⟨hlook, fun v hv => of_decide_eq_true ((Option.all_eq_true _ _).mp hvalue v hv)⟩

theorem sextets_small (s : Bytes) : ∀ v ∈ sextets s, v < 64 := by
  intro v hv
  obtain ⟨t, -, ht⟩ := List.mem_filterMap.mp hv
  exact ((look_eq t).2 v ht).1

/-! ## The bytes of the digits -/

/-- The bytes the loop writes for digits, with the byte begun so far. -/
def bytesOf (ends : Bool) : Label → UInt8 → List UInt8 → Bytes
  | .idx0, _, [] => []
  | _, e, [] => if ends then [e] else []
  | .idx0, _, v :: rest => bytesOf ends .idx1 (v <<< 2) rest
  | .idx1, e, v :: rest => (e ||| v >>> 4) :: bytesOf ends .idx2 (v <<< 4) rest
  | .idx2, e, v :: rest => (e ||| v >>> 2) :: bytesOf ends .idx3 (v <<< 6) rest
  | .idx3, e, v :: rest => (e ||| v) :: bytesOf ends .idx0 e rest

/-- The label the loop skips at without asking for the end of the string is waited at there. -/
def Overruns (l : Label) (cs : Bytes) : Prop :=
  (l.place + (sextets cs).length) % 4 = 1 ∧ EndsUnlisted cs

instance (l : Label) (cs : Bytes) : Decidable (Overruns l cs) := by
  unfold Overruns
  infer_instance

/-! A character does not matter to how a string ends that goes on behind it. -/

theorem endsSix_cons {t : UInt8} {rest : Bytes} (h : rest ≠ []) : endsSix (t :: rest) = endsSix rest := by
  unfold endsSix
  rw [List.getLast?_cons_of_ne_nil h]

theorem endsUnlisted_cons {t : UInt8} {rest : Bytes} (h : rest ≠ []) :
    EndsUnlisted (t :: rest) ↔ EndsUnlisted rest := by
  unfold EndsUnlisted
  rw [List.getLast?_cons_of_ne_nil h]

theorem sextets_cons_none {t : UInt8} (h : value t = none) (rest : Bytes) :
    sextets (t :: rest) = sextets rest := by
  rw [sextets, List.filterMap_cons, h]
  rfl

theorem sextets_cons_some {t v : UInt8} (h : value t = some v) (rest : Bytes) :
    sextets (t :: rest) = v :: sextets rest := by
  rw [sextets, List.filterMap_cons, h]
  rfl

theorem overruns_skip {t : UInt8} {rest : Bytes} (l : Label) (h : value t = none) (hrest : rest ≠ []) :
    Overruns l (t :: rest) ↔ Overruns l rest := by
  rw [Overruns, Overruns, sextets_cons_none h, endsUnlisted_cons hrest]

theorem overruns_digit {t v : UInt8} {rest : Bytes} {l k : Label} (h : value t = some v) (hrest : rest ≠ [])
    (hk : (l.place + 1) % 4 = k.place) : Overruns l (t :: rest) ↔ Overruns k rest := by
  have hmod : (l.place + ((sextets rest).length + 1)) % 4 = (k.place + (sextets rest).length) % 4 := by
    omega
  rw [Overruns, Overruns, sextets_cons_some h, List.length_cons, endsUnlisted_cons hrest, hmod]

/-- A character that can be looked up is out of range, without a value, or a digit. -/
theorem look_cases {t : UInt8} (h128 : t ≠ 128) :
    (look t = .ok .foreign ∧ value t = none ∧ ¬ t < 128) ∨
    (look t = .ok .unlisted ∧ value t = none ∧ t < 128) ∨
    ∃ v, look t = .ok (.six v) ∧ value t = some v := by
  obtain ⟨hlook, hsmall⟩ := look_eq t
  rw [if_neg h128] at hlook
  by_cases hforeign : 128 < t
  · rw [if_pos hforeign] at hlook
    refine .inl ⟨hlook, Option.eq_none_iff_forall_ne_some.mpr fun v hv => ?_, UInt8.lt_asymm hforeign⟩
    exact UInt8.lt_asymm hforeign (hsmall v hv).2
  · rw [if_neg hforeign] at hlook
    cases hv : value t with
    | some v =>
      rw [hv] at hlook
      exact .inr (.inr ⟨v, hlook, rfl⟩)
    | none =>
      rw [hv] at hlook
      have hne : t.toNat ≠ UInt8.toNat 128 := fun heq => h128 (UInt8.toNat_inj.mp heq)
      have hlt : t < 128 := by
        rw [UInt8.lt_iff_toNat_lt] at hforeign ⊢
        omega
      exact .inr (.inl ⟨hlook, rfl, hlt⟩)

/-- What the loop makes of the last character. -/
theorem decChars_last (behind : Fault) (l : Label) (e : UInt8) {t : UInt8} (h128 : t ≠ 128) :
    decChars behind l e [t] =
      if Overruns l [t] then .error behind else .ok (bytesOf (endsSix [t]) l e (sextets [t])) := by
  have hunlisted : EndsUnlisted [t] ↔ t < 128 ∧ value t = none := by simp [EndsUnlisted]
  obtain ⟨hlook, hv, hlt⟩ | ⟨hlook, hv, hlt⟩ | ⟨v, hlook, hv⟩ := look_cases h128
  · have hend : endsSix [t] = false := by simp [endsSix, hv]
    simp only [decChars, hlook, ok_bind, Overruns, hunlisted, hlt, false_and, and_false, if_false, if_true,
      sextets_cons_none hv, hend]
    cases l <;> rfl
  · have hend : endsSix [t] = false := by simp [endsSix, hv]
    simp only [decChars, hlook, ok_bind, Overruns, hunlisted, hlt, hv, and_self, and_true,
      sextets_cons_none hv, hend]
    cases l <;> rfl
  · have hend : endsSix [t] = true := by simp [endsSix, hv]
    simp only [decChars, hlook, ok_bind, Overruns, hunlisted, hv, reduceCtorEq, and_false, if_false,
      sextets_cons_some hv, hend]
    cases l <;> rfl

/-- Before the end a character that is no digit is passed over. -/
theorem decChars_skip (behind : Fault) (l : Label) (e : UInt8) {t : UInt8} {rest : Bytes} (h128 : t ≠ 128)
    (hv : value t = none) (hrest : rest ≠ []) : decChars behind l e (t :: rest) = decChars behind l e rest := by
  obtain ⟨hlook, -, -⟩ | ⟨hlook, -, -⟩ | ⟨v, -, hsome⟩ := look_cases h128
  · rw [decChars, hlook, ok_bind]
    exact if_neg hrest
  · rw [decChars, hlook, ok_bind]
    exact if_neg fun hlast => hrest hlast.1
  · cases hv.symm.trans hsome

/-- What the loop makes of the characters its index reaches. -/
theorem decChars_eq (behind : Fault) (l : Label) (e : UInt8) (cs : Bytes) :
    decChars behind l e cs =
      if 128 ∈ cs then .error (.read 128)
      else if Overruns l cs then .error behind
      else .ok (bytesOf (endsSix cs) l e (sextets cs)) := by
  induction cs generalizing l e with
  | nil =>
    rw [if_neg List.not_mem_nil]
    cases l <;> rfl
  | cons t rest ih =>
    by_cases h128 : t = 128
    · have hin : 128 ∈ t :: rest := h128 ▸ List.mem_cons_self
      rw [decChars, (look_eq t).1, if_pos h128, if_pos hin]
      rfl
    by_cases hrest : rest = []
    · subst hrest
      have hout : ¬ (128 ∈ [t]) := fun hin => h128 (List.mem_singleton.mp hin).symm
      rw [if_neg hout]
      exact decChars_last behind l e h128
    have hmem : (128 ∈ t :: rest) ↔ 128 ∈ rest := by simp [Ne.symm h128]
    simp only [hmem, endsSix_cons hrest]
    cases hv : value t with
    | none =>
      simp only [decChars_skip behind l e h128 hv hrest, ih l e, overruns_skip l hv hrest, sextets_cons_none hv]
    | some v =>
      have hlook : look t = .ok (.six v) := by
        obtain ⟨-, hnone, -⟩ | ⟨-, hnone, -⟩ | ⟨v', hlook, hv'⟩ := look_cases h128
        · cases hnone.symm.trans hv
        · cases hnone.symm.trans hv
        · rw [hlook, Option.some.inj (hv'.symm.trans hv)]
      rw [decChars, hlook, ok_bind]
      cases l with
      | idx0 =>
        simp only [if_neg hrest, ih .idx1, overruns_digit (l := .idx0) (k := .idx1) hv hrest rfl,
          sextets_cons_some hv, bytesOf]
      | idx1 =>
        simp only [if_neg hrest, ih .idx2, overruns_digit (l := .idx1) (k := .idx2) hv hrest rfl,
          sextets_cons_some hv, bytesOf]
        split
        · rfl
        · split <;> rfl
      | idx2 =>
        simp only [if_neg hrest, ih .idx3, overruns_digit (l := .idx2) (k := .idx3) hv hrest rfl,
          sextets_cons_some hv, bytesOf]
        split
        · rfl
        · split <;> rfl
      | idx3 =>
        simp only [ih .idx0, overruns_digit (l := .idx3) (k := .idx0) hv hrest rfl, sextets_cons_some hv, bytesOf]
        split
        · rfl
        · split <;> rfl

theorem b64dec_digits (s : Bytes) : b64dec s =
    if 128 ∈ indexed s then .error (.read 128)
    else if Overruns .idx0 (indexed s) then .error (.read (s.length + 1))
    else .ok (bytesOf (endsSix (indexed s)) .idx0 0 (sextets (indexed s))) := by
  rw [b64dec_eq, decChars_eq]

/-! ## Which digits the bytes spell -/

/-- How many bytes bits left over behind `n` digits are written as. -/
def leftOver (ends : Bool) (n : Nat) : Nat := if ends ∧ n % 4 ≠ 0 then 1 else 0

/-- A byte for every eight bits, and one more for what is left over at the end. -/
theorem bytesOf_length (ends : Bool) (l : Label) (e : UInt8) (vs : List UInt8) :
    (bytesOf ends l e vs).length + 6 * l.place / 8 =
      6 * (l.place + vs.length) / 8 + leftOver ends (l.place + vs.length) := by
  induction vs generalizing l e with
  | nil => cases ends <;> cases l <;> simp [bytesOf, Label.place, leftOver]
  | cons v rest ih =>
    cases l with
    | idx0 =>
      have hindex : Label.idx0.place + (v :: rest).length = Label.idx1.place + rest.length := by
        simp only [Label.place, List.length_cons]
        omega
      rw [hindex, bytesOf]
      exact ih .idx1 (v <<< 2)
    | idx1 =>
      have h := ih .idx2 (v <<< 4)
      have hindex : Label.idx1.place + (v :: rest).length = Label.idx2.place + rest.length := by
        simp only [Label.place, List.length_cons]
        omega
      rw [hindex, bytesOf, ← h, List.length_cons]
      simp only [Label.place]
    | idx2 =>
      have h := ih .idx3 (v <<< 6)
      have hindex : Label.idx2.place + (v :: rest).length = Label.idx3.place + rest.length := by
        simp only [Label.place, List.length_cons]
        omega
      rw [hindex, bytesOf, ← h, List.length_cons]
      simp only [Label.place]
    | idx3 =>
      have h := ih .idx0 e
      have hindex : Label.idx3.place + (v :: rest).length = Label.idx0.place + rest.length + 4 := by
        simp only [Label.place, List.length_cons]
        omega
      have hmod : leftOver ends (Label.idx0.place + rest.length + 4) =
          leftOver ends (Label.idx0.place + rest.length) := by
        simp only [leftOver, Nat.add_mod_right]
      rw [hindex, hmod, bytesOf, List.length_cons]
      simp only [Label.place] at h ⊢
      omega

/-- How whole groups end makes no difference. -/
theorem bytesOf_whole (ends ends' : Bool) (l : Label) (e : UInt8) {vs : List UInt8}
    (h : (l.place + vs.length) % 4 = 0) : bytesOf ends l e vs = bytesOf ends' l e vs := by
  induction vs generalizing l e with
  | nil =>
    cases l with
    | idx0 => rfl
    | _ => exact absurd h (by decide)
  | cons v rest ih =>
    rw [List.length_cons] at h
    cases l with
    | idx0 => exact ih .idx1 _ (by simp only [Label.place] at h ⊢; omega)
    | idx1 => exact congrArg _ (ih .idx2 _ (by simp only [Label.place] at h ⊢; omega))
    | idx2 => exact congrArg _ (ih .idx3 _ (by simp only [Label.place] at h ⊢; omega))
    | idx3 => exact congrArg _ (ih .idx0 _ (by simp only [Label.place] at h ⊢; omega))

/-- Bits left over at the end are what a further digit 0 completes. -/
theorem bytesOf_snoc_zero (ends : Bool) (l : Label) (e : UInt8) {vs : List UInt8}
    (h : (l.place + vs.length) % 4 = 3) : bytesOf true l e vs = bytesOf ends l e (vs ++ [0]) := by
  induction vs generalizing l e with
  | nil =>
    cases l with
    | idx3 =>
      show [e] = [e ||| 0]
      rw [UInt8.or_zero]
    | _ => exact absurd h (by decide)
  | cons v rest ih =>
    rw [List.length_cons] at h
    cases l with
    | idx0 => exact ih .idx1 _ (by simp only [Label.place] at h ⊢; omega)
    | idx1 => exact congrArg _ (ih .idx2 _ (by simp only [Label.place] at h ⊢; omega))
    | idx2 => exact congrArg _ (ih .idx3 _ (by simp only [Label.place] at h ⊢; omega))
    | idx3 => exact congrArg _ (ih .idx0 _ (by simp only [Label.place] at h ⊢; omega))

/-- The bytes of four digits as numbers. -/
theorem group_toNat {a b c d : UInt8} (ha : a < 64) (hb : b < 64) (hc : c < 64) (hd : d < 64) :
    (a <<< 2 ||| b >>> 4).toNat = a.toNat * 4 + b.toNat / 16 ∧
    (b <<< 4 ||| c >>> 2).toNat = b.toNat % 16 * 16 + c.toNat / 4 ∧
    (c <<< 6 ||| d).toNat = c.toNat % 4 * 64 + d.toNat := by
  rw [UInt8.lt_iff_toNat_lt] at ha hb hc hd
  change a.toNat < 64 at ha
  change b.toNat < 64 at hb
  change c.toNat < 64 at hc
  change d.toNat < 64 at hd
  have hb4 : (b >>> 4).toNat = b.toNat / 16 := by
    rw [UInt8.toNat_shiftRight]
    exact Nat.shiftRight_eq_div_pow b.toNat 4
  have hc2 : (c >>> 2).toNat = c.toNat / 4 := by
    rw [UInt8.toNat_shiftRight]
    exact Nat.shiftRight_eq_div_pow c.toNat 2
  refine ⟨?_, ?_, ?_⟩
  · rw [join8_toNat (by decide) (by rw [hb4]; show _ < 4; omega), hb4]
    show a.toNat * 4 % 256 + _ = _
    omega
  · rw [join8_toNat (by decide) (by rw [hc2]; show _ < 16; omega), hc2]
    show b.toNat * 16 % 256 + _ = _
    omega
  · rw [join8_toNat (by decide) (by show _ < 64; omega)]
    show c.toNat * 64 % 256 + _ = _
    omega

/-- Whole groups are told apart by their bytes. -/
theorem bytesOf_inj {ends ends' : Bool} {e e' : UInt8} {x y : List UInt8} (hx : ∀ v ∈ x, v < 64)
    (hy : ∀ v ∈ y, v < 64) (hxl : x.length % 4 = 0) (hyl : y.length % 4 = 0)
    (h : bytesOf ends .idx0 e x = bytesOf ends' .idx0 e' y) : x = y := by
  induction hn : x.length using Nat.strong_induction_on generalizing x y e e' with
  | h n ih =>
    match x, y, h with
    | [], [], _ => rfl
    | [_], _, _ | [_, _], _, _ | [_, _, _], _, _ => exact absurd hxl (by simp)
    | _, [_], _ | _, [_, _], _ | _, [_, _, _], _ => exact absurd hyl (by simp)
    | [], _ :: _ :: _ :: _ :: _, h => cases h
    | _ :: _ :: _ :: _ :: _, [], h => cases h
    | a :: b :: c :: d :: rest, a' :: b' :: c' :: d' :: rest', h =>
      simp only [List.forall_mem_cons] at hx hy
      obtain ⟨ha, hb, hc, hd, hx⟩ := hx
      obtain ⟨ha', hb', hc', hd', hy⟩ := hy
      obtain ⟨h1, htail⟩ := List.cons.inj h
      obtain ⟨h2, htail₂⟩ := List.cons.inj htail
      obtain ⟨h3, hnext⟩ := List.cons.inj htail₂
      obtain ⟨g1, g2, g3⟩ := group_toNat ha hb hc hd
      obtain ⟨g1', g2', g3'⟩ := group_toNat ha' hb' hc' hd'
      have h1 := congrArg UInt8.toNat h1
      have h2 := congrArg UInt8.toNat h2
      have h3 := congrArg UInt8.toNat h3
      rw [g1, g1'] at h1
      rw [g2, g2'] at h2
      rw [g3, g3'] at h3
      rw [UInt8.lt_iff_toNat_lt] at hb hb' hd hd' hc hc'
      change b.toNat < 64 at hb
      change b'.toNat < 64 at hb'
      change c.toNat < 64 at hc
      change c'.toNat < 64 at hc'
      change d.toNat < 64 at hd
      change d'.toNat < 64 at hd'
      have hnat : a.toNat = a'.toNat ∧ b.toNat = b'.toNat ∧ c.toNat = c'.toNat ∧ d.toNat = d'.toNat := by
        omega
      simp only [UInt8.toNat_inj] at hnat
      obtain ⟨rfl, rfl, rfl, rfl⟩ := hnat
      simp only [List.length_cons] at hn hxl hyl
      rw [ih rest.length (by omega) hx hy (by omega) (by omega) hnext rfl]

/-! ## Skipped characters -/

/-- Deleting the characters that are no digits changes nothing, and every eight bits of digits
are a byte. -/
structure IgnoresOthers (s : Bytes) : Prop where
  same : b64dec (stripped s) = b64dec s
  size : ∃ r, b64dec s = .ok r ∧ r.length = 6 * (sextets s).length / 8

/-- The digits among the characters the 32-bit index reaches are the same with and without
the other characters, perhaps after a 0 for bits that are left over. -/
def ReachesSame (s : Bytes) : Prop :=
  sextets (indexed (stripped s)) = sextets (indexed s) ∨
    endsSix (indexed s) = true ∧ sextets (indexed (stripped s)) = sextets (indexed s) ++ [0]

theorem mem_indexed {s : Bytes} {t : UInt8} (h : t ∈ indexed s) : t ∈ s := by
  obtain ⟨j, hj, rfl⟩ := List.mem_map.mp h
  have hin : j % 2 ^ 32 < s.length := (Nat.mod_le _ _).trans_lt (List.mem_range.mp hj)
  rw [List.getD_eq_getElem _ _ hin]
  exact List.getElem_mem hin

theorem sextets_length_of_all {cs : Bytes} (h : ∀ t ∈ cs, (value t).isSome) :
    (sextets cs).length = cs.length := by
  induction cs with
  | nil => rfl
  | cons t cs ih =>
    obtain ⟨v, hv⟩ := Option.isSome_iff_exists.mp (h t List.mem_cons_self)
    rw [sextets_cons_some hv, List.length_cons, List.length_cons,
      ih fun t ht => h t (List.mem_cons_of_mem _ ht)]

theorem stripped_value {s : Bytes} {t : UInt8} (h : t ∈ stripped s) : (value t).isSome :=
  (List.mem_filter.mp h).2

theorem sextets_stripped (s : Bytes) : sextets (stripped s) = sextets s := by
  induction s with
  | nil => rfl
  | cons t s ih =>
    cases hv : value t with
    | none =>
      have hout : stripped (t :: s) = stripped s := List.filter_cons_of_neg (by simp [hv])
      rw [hout, ih, sextets_cons_none hv]
    | some v =>
      have hin : stripped (t :: s) = t :: stripped s := List.filter_cons_of_pos (by simp [hv])
      rw [hin, sextets_cons_some hv, sextets_cons_some hv, ih]

theorem stripped_length (s : Bytes) : (stripped s).length = (sextets s).length := by
  rw [← sextets_stripped s, sextets_length_of_all fun t ht => stripped_value ht]

/-- Without other characters nothing is skipped, and the last character is a digit. -/
theorem b64dec_stripped (s : Bytes) : b64dec (stripped s) =
    .ok (bytesOf (endsSix (indexed (stripped s))) .idx0 0 (sextets (indexed (stripped s)))) ∧
      (sextets (indexed (stripped s))).length = (sextets s).length ∧
      ((sextets s).length ≠ 0 → endsSix (indexed (stripped s)) = true) := by
  have hall : ∀ t ∈ indexed (stripped s), (value t).isSome := fun t ht => stripped_value (mem_indexed ht)
  have hlength : (sextets (indexed (stripped s))).length = (sextets s).length := by
    rw [sextets_length_of_all hall, indexed, cycle_length, stripped_length]
  have hends : (sextets s).length ≠ 0 → ∃ t, (indexed (stripped s)).getLast? = some t ∧ (value t).isSome := by
    intro hne
    have hnil : indexed (stripped s) ≠ [] := by
      intro hnil
      rw [hnil] at hlength
      exact hne hlength.symm
    exact ⟨_, List.getLast?_eq_some_getLast hnil, hall _ (List.getLast_mem hnil)⟩
  refine ⟨?_, hlength, fun hne => ?_⟩
  · have hno128 : 128 ∉ indexed (stripped s) := by
      intro h128
      exact absurd (hall 128 h128) (by decide)
    have hno : ¬ Overruns .idx0 (indexed (stripped s)) := by
      rintro ⟨hmod, hunlisted⟩
      rw [hlength] at hmod
      obtain ⟨t, ht, hsome⟩ := hends (by intro h0; rw [h0] at hmod; exact absurd hmod (by decide))
      rw [(hunlisted t ht).2] at hsome
      cases hsome
    rw [b64dec_digits, if_neg hno128, if_neg hno]
  · obtain ⟨t, ht, hsome⟩ := hends hne
    rw [endsSix, ht]
    exact hsome

theorem indexed_no128 {s : Bytes} (hs : ∀ t ∈ s, t < 128) : 128 ∉ indexed s :=
  fun h => absurd (hs 128 (mem_indexed h)) (by decide)

theorem reachesSame_short {s : Bytes} (hlen : s.length ≤ 2 ^ 32) : ReachesSame s := by
  have hidx : indexed s = s := cycle_self hlen
  have hidx' : indexed (stripped s) = stripped s :=
    cycle_self ((List.length_filter_le _ _).trans hlen)
  left
  rw [hidx, hidx', sextets_stripped]

/-- Digits that give the same bytes, as many as there should be, are the same, up to one that is
left over. -/
theorem reachesSame_of_same {s r : Bytes} (hs : ∀ t ∈ s, t < 128) (hzero : (sextets s).length % 4 = 0)
    (hsame : b64dec (stripped s) = b64dec s) (hr : b64dec s = .ok r)
    (hrl : r.length = 6 * (sextets s).length / 8) : ReachesSame s := by
  obtain ⟨hstripped, hlength, -⟩ := b64dec_stripped s
  have hbytes := Except.ok.inj (hstripped.symm.trans (hsame.trans hr))
  rw [b64dec_digits, if_neg (indexed_no128 hs)] at hr
  split at hr
  case isTrue => cases hr
  case isFalse hno =>
    have hr := Except.ok.inj hr
    have hwhole := bytesOf_length (endsSix (indexed s)) .idx0 0 (sextets (indexed s))
    simp only [Label.place, Nat.zero_add, hr, hrl] at hwhole
    by_cases hq : (sextets (indexed s)).length % 4 = 0
    · left
      rw [← hr] at hbytes
      exact bytesOf_inj (sextets_small _) (sextets_small _) (by omega) hq hbytes
    · have hsix : endsSix (indexed s) = true ∧ (sextets (indexed s)).length % 4 = 3 := by
        by_cases hsix : endsSix (indexed s) = true
        · rw [leftOver, if_pos ⟨hsix, hq⟩] at hwhole
          exact ⟨hsix, by omega⟩
        · rw [leftOver, if_neg (fun h => hsix h.1)] at hwhole
          refine absurd ⟨by simp only [Label.place]; omega, ?_⟩ hno
          intro t ht
          refine ⟨hs t (mem_indexed (List.mem_of_getLast? ht)), ?_⟩
          rw [endsSix, ht] at hsix
          simpa using hsix
      right
      refine ⟨hsix.1, ?_⟩
      rw [← hr, hsix.1, bytesOf_snoc_zero true .idx0 0 (by simp only [Label.place]; omega)] at hbytes
      refine bytesOf_inj (sextets_small _) ?_ (by omega) ?_ hbytes
      · intro v hv
        rcases List.mem_append.mp hv with hv | hv
        · exact sextets_small _ v hv
        · rw [List.mem_singleton.mp hv]
          decide
      · rw [List.length_append, List.length_singleton]
        omega

theorem same_of_reachesSame {s : Bytes} (hs : ∀ t ∈ s, t < 128) (hzero : (sextets s).length % 4 = 0)
    (h : ReachesSame s) : b64dec s = b64dec (stripped s) := by
  obtain ⟨hstripped, hlength, -⟩ := b64dec_stripped s
  rw [hstripped, b64dec_digits, if_neg (indexed_no128 hs)]
  rcases h with heq | ⟨hsix, heq⟩
  · have hq : (sextets (indexed s)).length % 4 = 0 := by
      rw [← heq, hlength]
      exact hzero
    rw [if_neg (fun h => absurd h.1 (by simp only [Label.place]; omega)), heq,
      bytesOf_whole _ _ .idx0 0 (by simp only [Label.place]; omega)]
  · have hq : (sextets (indexed s)).length % 4 = 3 := by
      rw [heq, List.length_append, List.length_singleton] at hlength
      omega
    rw [if_neg (fun h => absurd h.1 (by simp only [Label.place]; omega)), heq, hsix,
      bytesOf_snoc_zero _ .idx0 0 (by simp only [Label.place]; omega)]

/-- Skipped characters change nothing in exactly the strings whose digits are whole groups, and
in strings over 4 GiB as far as the index reaches the same digits. -/
theorem others_ignored_iff {s : Bytes} (hs : ∀ t ∈ s, t < 128) :
    IgnoresOthers s ↔
      (sextets s).length % 4 = 0 ∧ (s.length ≤ 2 ^ 32 ∨ ReachesSame s) := by
  obtain ⟨hstripped, hlength, hends⟩ := b64dec_stripped s
  have hsize := bytesOf_length (endsSix (indexed (stripped s))) .idx0 0 (sextets (indexed (stripped s)))
  simp only [Label.place, Nat.zero_add, hlength] at hsize
  constructor
  · intro ⟨hsame, r, hr, hrl⟩
    have hbytes := Except.ok.inj (hstripped.symm.trans (hsame.trans hr))
    have hzero : (sextets s).length % 4 = 0 := by
      by_contra hne
      rw [hbytes, hends (by omega), leftOver, if_pos ⟨rfl, hne⟩] at hsize
      omega
    exact ⟨hzero, .inr (reachesSame_of_same hs hzero hsame hr hrl)⟩
  · intro ⟨hzero, hlong⟩
    have hsame := same_of_reachesSame hs hzero (hlong.elim reachesSame_short id)
    rw [leftOver, if_neg (fun h => h.2 hzero)] at hsize
    refine ⟨hsame.symm, _, hsame.trans hstripped, ?_⟩
    simpa using hsize

theorem below_of_all {s : Bytes} (h : s.all (· < 128) = true) : ∀ t ∈ s, t < 128 :=
  fun t ht => of_decide_eq_true (List.all_eq_true.mp h t ht)

/-- A line break between digits. -/
theorem line_break_ignored : (∀ t ∈ ascii "QU\nJD", t < 128) ∧
    (IgnoresOthers (ascii "QU\nJD") ↔ (sextets (ascii "QU\nJD")).length % 4 = 0 ∧
      ((ascii "QU\nJD").length ≤ 2 ^ 32 ∨ ReachesSame (ascii "QU\nJD"))) :=
  ⟨below_of_all (by decide), others_ignored_iff (below_of_all (by decide))⟩

/-- Two digits are two bytes, and one byte where padding follows. -/
theorem padding_shortens : ∃ s, (∀ t ∈ s, t < 128) ∧ (sextets s).length % 4 ≠ 1 ∧ ¬ IgnoresOthers s := by
  refine ⟨ascii "QQ==", below_of_all (by decide), by decide, fun h => ?_⟩
  have hsame := h.same
  revert hsame
  decide +kernel

/-! ## Strings that are left -/

/-- The loop stays in its string and its table on exactly the strings without the character
behind the table's end and without a lone digit followed at the end by a character without a
value. -/
theorem b64dec_ok_iff (s : Bytes) : (∃ r, b64dec s = .ok r) ↔
    128 ∉ indexed s ∧ ¬ Overruns .idx0 (indexed s) := by
  rw [b64dec_digits]
  split
  case isTrue h128 => simp [h128]
  case isFalse h128 =>
    split
    case isTrue hover => simp [hover]
    case isFalse hover => simp [h128, hover]

end Yagips.Util.B64Digits
