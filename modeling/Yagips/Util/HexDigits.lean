import Mathlib.Data.List.Basic
import Yagips.Util.B64
import Yagips.Util.Hex

/-!
# What `hexdec` takes for digits

It takes the hexadecimal digits, and the seven characters between `9` and `A` for 3 to 9. A
high digit without a low one is written where the string ends with it, and forgotten where
skipped characters follow.
-/
namespace Yagips.Util.HexDigits

open Yagips.Lib
open Yagips.Util.B64 (indexed byteAt_indexed)
open Yagips.Util.Hex

/-! ## Decoding the digits -/

/-- The value of a hexadecimal digit. -/
def digit (t : UInt8) : Option UInt8 :=
  if 48 ≤ t ∧ t ≤ 57 then some (t - 48)
  else if 65 ≤ t ∧ t ≤ 70 then some (t - 55)
  else if 97 ≤ t ∧ t ≤ 102 then some (t - 87)
  else none

/-- Digits in pairs, high digit first. An odd one at the end is a high digit. -/
def pair : List UInt8 → Bytes
  | [] => []
  | [d] => [d * 16]
  | h :: l :: rest => (h * 16 + l) :: pair rest

/-- The hexadecimal digits of a string. -/
def digits (s : Bytes) : List UInt8 := s.filterMap digit

/-- The bytes the hexadecimal digits of a string spell. -/
def decoded (s : Bytes) : Bytes := pair (digits s)

/-! ## What the loop takes -/

/-- The digits the loop takes from a string. -/
def taken (s : Bytes) : List UInt8 := s.filterMap hexValue

/-- Whether the last character of a string is taken for a digit. -/
def EndsTaken (s : Bytes) : Prop := ∃ t ∈ s.getLast?, (hexValue t).isSome

instance (s : Bytes) : Decidable (EndsTaken s) := by
  unfold EndsTaken
  infer_instance

/-- One of the characters from `:` to `@`. -/
def Between (t : UInt8) : Prop := 58 ≤ t ∧ t ≤ 64

instance (t : UInt8) : Decidable (Between t) := by
  unfold Between
  infer_instance

/-- A last digit without a partner, unless the string ends with it, is left out. -/
def paired (ds : List UInt8) (ends : Prop) [Decidable ends] : List UInt8 :=
  if ds.length % 2 = 1 ∧ ¬ ends then ds.dropLast else ds

/-- The loop of `hexdec` over the characters its index reaches. -/
def decChars : Option UInt8 → Bytes → Bytes
  | _, [] => []
  | e, t :: rest =>
    match hexValue t with
    | none => decChars e rest
    | some v =>
      match e with
      | none => if rest = [] then [v <<< 4] else decChars (some (v <<< 4)) rest
      | some e => (e ||| v) :: decChars none rest

theorem decLoop_indexed {s rest : Bytes} {p i : Nat} {e : Option UInt8}
    (h : (indexed s).drop p = rest) (hp : p = i + if e.isSome then 1 else 0) :
    decLoop s rest.length (UInt32.ofNat i) e = .ok (decChars e rest) := by
  induction rest generalizing p i e with
  | nil => rfl
  | cons t rest ih =>
    have hread : byteAt s (UInt32.ofNat i + if e.isSome then 1 else 0).toNat = .ok t := by
      have hi : (UInt32.ofNat i + if e.isSome then 1 else 0) = UInt32.ofNat p := by
        rw [hp, UInt32.ofNat_add]
        cases e <;> rfl
      rw [hi]
      exact byteAt_indexed h
    have hrest := drop_tail h
    have hskip : UInt32.ofNat i + 1 = UInt32.ofNat (i + 1) := by
      rw [UInt32.ofNat_add]
      rfl
    have hpair : UInt32.ofNat i + 2 = UInt32.ofNat (i + 2) := by
      rw [UInt32.ofNat_add]
      rfl
    have hdone : rest.length = 0 ↔ rest = [] := List.length_eq_zero_iff
    rw [List.length_cons, decLoop, hread, ok_bind, decChars]
    cases hexValue t with
    | none =>
      simp only [hskip]
      exact ih hrest (by omega)
    | some v =>
      cases e with
      | none =>
        simp only [hdone]
        split
        case isTrue => rfl
        case isFalse => exact ih hrest (by rw [hp]; rfl)
      | some e =>
        simp only [hpair]
        rw [ih hrest (by rw [hp]; rfl), ok_bind]
        rfl

theorem hexdec_chars (s : Bytes) : hexdec s = .ok (decChars none (indexed s)) := by
  have h := @decLoop_indexed s (indexed s) 0 0 none rfl rfl
  rw [indexed, cycle_length] at h
  exact h

/-! ## Characters and digits -/

/-- Beside the digits, the loop takes the characters between `9` and `A`, for digits other
than 0. No digit is 16 or more. -/
theorem hexValue_char (t : UInt8) : (hexValue t = if Between t then some (t - 55) else digit t) ∧
    (Between t → digit t = none ∧ t - 55 ≠ 0) ∧ (∀ v ∈ hexValue t, v < 16) ∧ ∀ v ∈ digit t, v < 16 := by
  have hbytes : (hexValue t = if Between t then some (t - 55) else digit t) ∧
      (Between t → digit t = none ∧ t - 55 ≠ 0) ∧ (hexValue t).all (· < 16) = true ∧
        (digit t).all (· < 16) = true := by
    revert t
    apply forall_byte
    decide +kernel
  obtain ⟨hvalue, hbetween, htaken, hdigit⟩ := hbytes
  refine ⟨hvalue, hbetween, fun v hv => ?_, fun v hv => ?_⟩
  · exact of_decide_eq_true ((Option.all_eq_true _ _).mp htaken v hv)
  · exact of_decide_eq_true ((Option.all_eq_true _ _).mp hdigit v hv)

theorem join_digits (h : UInt8) {l : UInt8} (hl : l < 16) : h <<< 4 ||| l = h * 16 + l := by
  have hlow : l.toNat < 16 := UInt8.lt_iff_toNat_lt.mp hl
  apply UInt8.toNat_inj.mp
  rw [join8_toNat (by decide) hlow, UInt8.toNat_add, UInt8.toNat_mul]
  show h.toNat * 16 % 256 + l.toNat = (h.toNat * 16 % 256 + l.toNat) % 256
  omega

theorem shift_digit (h : UInt8) : h <<< 4 = h * 16 := by
  have hjoin := join_digits h (l := 0) (by decide)
  rwa [UInt8.or_zero, UInt8.add_zero] at hjoin

theorem endsTaken_cons {t : UInt8} {rest : Bytes} (h : rest ≠ []) :
    EndsTaken (t :: rest) ↔ EndsTaken rest := by
  unfold EndsTaken
  rw [List.getLast?_cons_of_ne_nil h]

theorem endsTaken_singleton (t : UInt8) : EndsTaken [t] ↔ (hexValue t).isSome := by
  simp [EndsTaken]

theorem paired_cons_cons (h l : UInt8) (ds : List UInt8) (ends : Prop) [Decidable ends] :
    paired (h :: l :: ds) ends = h :: l :: paired ds ends := by
  have hparity : (h :: l :: ds).length % 2 = ds.length % 2 := by
    simp only [List.length_cons]
    omega
  unfold paired
  rw [hparity]
  split
  case isTrue hodd =>
    have hne : ds ≠ [] := by
      intro hnil
      rw [hnil] at hodd
      exact absurd hodd.1 (by decide)
    rw [List.dropLast_cons_of_ne_nil (List.cons_ne_nil l ds), List.dropLast_cons_of_ne_nil hne]
  case isFalse => rfl

/-- The loop writes the digits it takes in pairs, with a high digit that waits for a low one
or without. -/
theorem decChars_pair (cs : Bytes) :
    decChars none cs = pair (paired (taken cs) (EndsTaken cs)) ∧
      ∀ h : UInt8, decChars (some (h <<< 4)) cs = pair (paired (h :: taken cs) (EndsTaken cs)) := by
  induction cs with
  | nil => exact ⟨rfl, fun h => rfl⟩
  | cons t rest ih =>
    have hvalues := (hexValue_char t).2.2.1
    cases hv : hexValue t with
    | none =>
      have htaken : taken (t :: rest) = taken rest := by rw [taken, List.filterMap_cons, hv]; rfl
      have hends : EndsTaken (t :: rest) ↔ EndsTaken rest := by
        by_cases hrest : rest = []
        · rw [hrest, endsTaken_singleton, hv]
          simp [EndsTaken]
        · exact endsTaken_cons hrest
      simp only [decChars, hv, htaken, paired, hends]
      exact ih
    | some v =>
      have hlt : v < 16 := hvalues v hv
      have htaken : taken (t :: rest) = v :: taken rest := by rw [taken, List.filterMap_cons, hv]; rfl
      by_cases hrest : rest = []
      · have hends : EndsTaken [t] := (endsTaken_singleton t).mpr (by rw [hv]; rfl)
        subst hrest
        simp only [decChars, hv, htaken, paired, hends, not_true_eq_false, and_false, if_false, if_true]
        exact ⟨by rw [shift_digit]; rfl, fun h => by rw [join_digits h hlt]; rfl⟩
      · have hends := endsTaken_cons (t := t) hrest
        simp only [decChars, hv, htaken, if_neg hrest, paired_cons_cons, pair]
        constructor
        · rw [ih.2 v]
          simp only [paired, hends]
        · intro h
          rw [ih.1, join_digits h hlt]
          simp only [paired, hends]

/-- The digits that come out of a string. -/
def emitted (s : Bytes) : List UInt8 := paired (taken s) (EndsTaken s)

theorem hexdec_eq (s : Bytes) : hexdec s = .ok (pair (emitted (indexed s))) := by
  rw [hexdec_chars, (decChars_pair (indexed s)).1]
  rfl

/-! ## Digits that spell the same bytes -/

/-- With a 0 as the partner of an odd digit. -/
def padded (ds : List UInt8) : List UInt8 := if ds.length % 2 = 1 then ds ++ [0] else ds

theorem padded_cons_cons (h l : UInt8) (ds : List UInt8) :
    padded (h :: l :: ds) = h :: l :: padded ds := by
  have hparity : (h :: l :: ds).length % 2 = ds.length % 2 := by
    simp only [List.length_cons]
    omega
  unfold padded
  rw [hparity]
  split <;> rfl

theorem pair_padded (ds : List UInt8) : pair (padded ds) = pair ds := by
  induction ds using pair.induct with
  | case1 => rfl
  | case2 d =>
    show [d * 16 + 0] = [d * 16]
    rw [UInt8.add_zero]
  | case3 h l rest ih => rw [padded_cons_cons, pair, pair, ih]

theorem halves_inj {h l h' l' : UInt8} (hh : h < 16) (hl : l < 16) (hh' : h' < 16) (hl' : l' < 16)
    (heq : h * 16 + l = h' * 16 + l') : h = h' ∧ l = l' := by
  have heq := congrArg UInt8.toNat heq
  rw [UInt8.toNat_add, UInt8.toNat_add, UInt8.toNat_mul, UInt8.toNat_mul] at heq
  change (h.toNat * 16 % 256 + l.toNat) % 256 = (h'.toNat * 16 % 256 + l'.toNat) % 256 at heq
  rw [UInt8.lt_iff_toNat_lt] at hh hl hh' hl'
  change h.toNat < 16 at hh
  change l.toNat < 16 at hl
  change h'.toNat < 16 at hh'
  change l'.toNat < 16 at hl'
  rw [← UInt8.toNat_inj, ← UInt8.toNat_inj]
  omega

theorem pair_inj_even {x y : List UInt8} (hx : ∀ d ∈ x, d < 16) (hy : ∀ d ∈ y, d < 16)
    (hxe : x.length % 2 = 0) (hye : y.length % 2 = 0) (h : pair x = pair y) : x = y := by
  induction x using pair.induct generalizing y with
  | case1 =>
    match y with
    | [] => rfl
    | [d] => exact absurd hye (by simp)
    | h' :: l' :: rest' => cases h
  | case2 d => exact absurd hxe (by simp)
  | case3 a b rest ih =>
    match y with
    | [] => cases h
    | [d] => exact absurd hye (by simp)
    | a' :: b' :: rest' =>
      obtain ⟨hbyte, hrest⟩ := List.cons.inj h
      obtain ⟨rfl, rfl⟩ := halves_inj (hx a (by simp)) (hx b (by simp)) (hy a' (by simp))
        (hy b' (by simp)) hbyte
      simp only [List.length_cons] at hxe hye
      rw [ih (fun d hd => hx d (by simp [hd])) (fun d hd => hy d (by simp [hd])) (by omega) (by omega)
        hrest]

theorem padded_even (ds : List UInt8) : (padded ds).length % 2 = 0 := by
  unfold padded
  split
  case isTrue h =>
    rw [List.length_append, List.length_singleton]
    omega
  case isFalse h => omega

theorem padded_small {ds : List UInt8} (h : ∀ d ∈ ds, d < 16) : ∀ d ∈ padded ds, d < 16 := by
  unfold padded
  split
  case isTrue =>
    intro d hd
    rcases List.mem_append.mp hd with hd | hd
    · exact h d hd
    · rw [List.mem_singleton.mp hd]
      decide
  case isFalse => exact h

theorem pair_eq_iff {x y : List UInt8} (hx : ∀ d ∈ x, d < 16) (hy : ∀ d ∈ y, d < 16) :
    pair x = pair y ↔ padded x = padded y := by
  rw [← pair_padded x, ← pair_padded y]
  constructor
  · exact pair_inj_even (padded_small hx) (padded_small hy) (padded_even x) (padded_even y)
  · exact congrArg pair

/-! ## Against the hexadecimal digits -/

theorem digits_small (s : Bytes) : ∀ d ∈ digits s, d < 16 := by
  intro d hd
  obtain ⟨t, -, ht⟩ := List.mem_filterMap.mp hd
  exact (hexValue_char t).2.2.2 d ht

theorem emitted_small (s : Bytes) : ∀ d ∈ emitted s, d < 16 := by
  intro d hd
  have htaken : d ∈ taken s := by
    unfold emitted paired at hd
    split at hd
    · exact (List.dropLast_sublist _).subset hd
    · exact hd
  obtain ⟨t, -, ht⟩ := List.mem_filterMap.mp htaken
  exact (hexValue_char t).2.2.1 d ht

/-- Every character between is one digit more, and not a 0. -/
theorem taken_count (s : Bytes) :
    (taken s).length = (digits s).length + s.countP (fun t => decide (Between t)) ∧
      (taken s).count 0 = (digits s).count 0 := by
  induction s with
  | nil => exact ⟨rfl, rfl⟩
  | cons t s ih =>
    obtain ⟨hvalue, hbetween, -⟩ := hexValue_char t
    by_cases ht : Between t
    · obtain ⟨hnone, hne⟩ := hbetween ht
      rw [if_pos ht] at hvalue
      have htaken : taken (t :: s) = (t - 55) :: taken s := by rw [taken, List.filterMap_cons, hvalue]; rfl
      have hdigits : digits (t :: s) = digits s := by rw [digits, List.filterMap_cons, hnone]; rfl
      rw [htaken, hdigits, List.length_cons, List.count_cons_of_ne hne, List.countP_cons, ih.1, ih.2]
      simp [ht, Nat.add_assoc]
    · rw [if_neg ht] at hvalue
      cases hd : digit t with
      | none =>
        rw [hd] at hvalue
        have htaken : taken (t :: s) = taken s := by rw [taken, List.filterMap_cons, hvalue]; rfl
        have hdigits : digits (t :: s) = digits s := by rw [digits, List.filterMap_cons, hd]; rfl
        rw [htaken, hdigits, List.countP_cons, ih.1, ih.2]
        simp [ht]
      | some v =>
        rw [hd] at hvalue
        have htaken : taken (t :: s) = v :: taken s := by rw [taken, List.filterMap_cons, hvalue]; rfl
        have hdigits : digits (t :: s) = v :: digits s := by rw [digits, List.filterMap_cons, hd]; rfl
        rw [htaken, hdigits, List.length_cons, List.length_cons, List.countP_cons, ih.1, List.count_cons,
          List.count_cons, ih.2]
        simp [ht]
        omega

theorem taken_eq_digits {s : Bytes} (h : ∀ t ∈ s, ¬ Between t) : taken s = digits s := by
  apply List.filterMap_congr
  intro t ht
  rw [(hexValue_char t).1, if_neg (h t ht)]

theorem none_between {s : Bytes} (h : s.countP (fun t => decide (Between t)) = 0) :
    ∀ t ∈ s, ¬ Between t := by
  intro t ht hb
  exact List.countP_eq_zero.mp h t ht (decide_eq_true hb)

/-- A first element that may as well stand at the end. -/
theorem cons_eq_append_singleton {α : Type} {x : α} {l : List α} :
    (∃ d, x :: l = l ++ [d]) ↔ ∀ y ∈ l, y = x := by
  induction l generalizing x with
  | nil => simp
  | cons z l ih =>
    constructor
    · intro ⟨d, h⟩
      obtain ⟨rfl, h⟩ := List.cons.inj h
      intro y hy
      rcases List.mem_cons.mp hy with rfl | hy
      · rfl
      · exact ih.mp ⟨d, h⟩ y hy
    · intro h
      obtain rfl : z = x := h z List.mem_cons_self
      obtain ⟨d, hd⟩ := ih.mpr fun y hy => h y (List.mem_cons_of_mem z hy)
      exact ⟨d, by rw [List.cons_append, ← hd]⟩

/-- One character between, with the value of every digit behind it. -/
def OneBetween (s : Bytes) : Prop :=
  ∃ a g b, s = a ++ g :: b ∧ Between g ∧ (∀ t ∈ a ++ b, ¬ Between t) ∧ ∀ d ∈ digits b, d = g - 55

theorem oneBetween_iff {s : Bytes} : OneBetween s ↔ ∃ d, taken s = digits s ++ [d] := by
  have hsplit : ∀ {a b : Bytes} {g : UInt8}, Between g → (∀ t ∈ a ++ b, ¬ Between t) →
      ((∃ d, taken (a ++ g :: b) = digits (a ++ g :: b) ++ [d]) ↔ ∀ d ∈ digits b, d = g - 55) := by
    intro a b g hg hab
    have hvalue := (hexValue_char g).1
    rw [if_pos hg] at hvalue
    have htaken : taken (a ++ g :: b) = digits a ++ (g - 55) :: digits b := by
      rw [taken, List.filterMap_append, List.filterMap_cons, hvalue, ← taken, ← taken,
        taken_eq_digits fun t ht => hab t (List.mem_append_left b ht),
        taken_eq_digits fun t ht => hab t (List.mem_append_right a ht)]
    have hdigits : digits (a ++ g :: b) = digits a ++ digits b := by
      rw [digits, List.filterMap_append, List.filterMap_cons, ((hexValue_char g).2.1 hg).1]
      rfl
    rw [htaken, hdigits, ← cons_eq_append_singleton]
    simp only [List.append_assoc, List.append_cancel_left_eq]
  constructor
  · rintro ⟨a, g, b, rfl, hg, hab, hbehind⟩
    exact (hsplit hg hab).mpr hbehind
  · intro ⟨d, hd⟩
    have hcount := (taken_count s).1
    rw [hd, List.length_append, List.length_singleton] at hcount
    obtain ⟨g, hmem, hg⟩ := List.countP_pos_iff.mp (by omega : 0 < s.countP (fun t => decide (Between t)))
    have hg := of_decide_eq_true hg
    obtain ⟨a, b, rfl⟩ := List.append_of_mem hmem
    rw [List.countP_append, List.countP_cons_of_pos (by simpa using hg)] at hcount
    have hab : ∀ t ∈ a ++ b, ¬ Between t := by
      apply none_between
      rw [List.countP_append]
      omega
    exact ⟨a, g, b, rfl, hg, hab, (hsplit hg hab).mp ⟨d, hd⟩⟩

/-- No character between, and no lone digit with something behind it; or a lone digit taken
from a character between that is left out again. -/
def DecodesDigits (s : Bytes) : Prop :=
  (∀ t ∈ s, ¬ Between t) ∧ ((digits s).length % 2 = 0 ∨ EndsTaken s) ∨
    OneBetween s ∧ (digits s).length % 2 = 0 ∧ ¬ EndsTaken s

theorem count_padded (ds : List UInt8) : (padded ds).count 0 = ds.count 0 + ds.length % 2 ∧
    (padded ds).length = ds.length + ds.length % 2 := by
  unfold padded
  split
  case isTrue h =>
    rw [List.count_append, List.length_append, h]
    exact ⟨rfl, rfl⟩
  case isFalse h =>
    have heven : ds.length % 2 = 0 := by omega
    rw [heven]
    exact ⟨rfl, rfl⟩

theorem padded_emitted_iff (s : Bytes) :
    padded (emitted s) = padded (digits s) ↔ DecodesDigits s := by
  obtain ⟨hlength, hzeros⟩ := taken_count s
  obtain ⟨hpadZeros, hpadLength⟩ := count_padded (digits s)
  unfold DecodesDigits emitted paired
  rw [oneBetween_iff]
  split
  case isTrue hcut =>
    obtain ⟨hodd, hends⟩ := hcut
    have hne : taken s ≠ [] := by
      intro hnil
      rw [hnil] at hodd
      exact absurd hodd (by decide)
    have heven : padded (taken s).dropLast = (taken s).dropLast := by
      unfold padded
      rw [if_neg (by rw [List.length_dropLast]; omega)]
    rw [heven]
    constructor
    · intro h
      have hle := (List.dropLast_sublist (taken s)).count_le 0
      rw [h, hpadZeros, hzeros] at hle
      have hdigits : padded (digits s) = digits s := if_neg (by omega)
      rw [hdigits] at h
      refine .inr ⟨⟨(taken s).getLast hne, ?_⟩, by omega, hends⟩
      rw [← h, List.dropLast_concat_getLast]
    · rintro (⟨hnone, heven | htaken⟩ | ⟨⟨d, hd⟩, heven, -⟩)
      · rw [taken_eq_digits hnone] at hodd
        omega
      · exact absurd htaken hends
      · rw [hd, List.dropLast_concat]
        exact (if_neg (by omega)).symm
  case isFalse hkeep =>
    obtain ⟨hkeptZeros, hkeptLength⟩ := count_padded (taken s)
    constructor
    · intro h
      rw [h, hpadZeros, hzeros] at hkeptZeros
      rw [h, hpadLength] at hkeptLength
      have hnone := none_between (s := s) (by omega)
      rw [taken_eq_digits hnone] at hkeep
      refine .inl ⟨hnone, ?_⟩
      by_cases hends : EndsTaken s
      · exact .inr hends
      · exact .inl (by by_contra hodd; exact hkeep ⟨by omega, hends⟩)
    · rintro (⟨hnone, -⟩ | ⟨⟨d, hd⟩, heven, hends⟩)
      · rw [taken_eq_digits hnone]
      · refine absurd ⟨?_, hends⟩ hkeep
        rw [hd, List.length_append, List.length_singleton]
        omega

/-- Decoding never leaves the string, and gives the bytes of its hexadecimal digits on exactly
these strings. -/
theorem hexdec_digits_iff (s : Bytes) : (∃ r, hexdec s = .ok r) ∧
    (hexdec s = .ok (decoded s) ↔
      if s.length ≤ 2 ^ 32 then DecodesDigits s
      else padded (emitted (indexed s)) = padded (digits s)) := by
  refine ⟨hexdec_ok s, ?_⟩
  have hsame : hexdec s = .ok (decoded s) ↔ padded (emitted (indexed s)) = padded (digits s) := by
    rw [hexdec_eq, decoded, ← pair_eq_iff (emitted_small _) (digits_small s), Except.ok.injEq]
  rw [hsame]
  split
  case isTrue hlen =>
    have hidx : indexed s = s := cycle_self hlen
    rw [hidx, padded_emitted_iff]
  case isFalse => exact Iff.rfl

/-- A colon is no digit. -/
theorem colon_decoded : hexdec [0x3a] = .ok [0x30] ∧ hexdec [0x3a] ≠ .ok (decoded [0x3a]) := by
  decide +kernel

end Yagips.Util.HexDigits
