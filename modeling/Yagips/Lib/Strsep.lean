import Yagips.Lib.Bytes

/-!
# Taking a text apart with `strsep`

`strsep` hands out the part of a text up to a delimiter and moves its pointer behind it, or to null
behind the last part. Called again and again it hands out the parts of the whole text.
-/
namespace Yagips.Lib.Strsep

variable (delim : UInt8 → Bool)

/-- The token and the pointer afterwards. -/
def strsep : Option Bytes → Option Bytes × Option Bytes
  | none => (none, none)
  | some s =>
    (some (s.takeWhile fun b => !delim b),
      match s.dropWhile fun b => !delim b with
      | [] => none
      | _ :: rest => some rest)

/-- What is still to be handed out. -/
def parts : Option Bytes → List Bytes
  | none => []
  | some s => s.splitOnP delim

/-- The parts of a text are the first and those of the rest. -/
theorem splitOnP_eq (s : Bytes) :
    s.splitOnP delim = (s.takeWhile fun b => !delim b) :: parts delim (strsep delim (some s)).2 := by
  induction s with
  | nil => rfl
  | cons b s ih =>
    rw [List.splitOnP_cons_eq_if_modifyHead]
    by_cases hb : delim b = true
    · simp [strsep, parts, hb]
    · rw [if_neg hb, ih]
      simp [strsep, hb]

theorem strsep_some (s : Bytes) :
    ∃ t j, strsep delim (some s) = (some t, j) ∧ parts delim (some s) = t :: parts delim j :=
  ⟨_, _, rfl, splitOnP_eq delim s⟩

theorem parts_eq_nil {p : Option Bytes} : parts delim p = [] ↔ p = none := by
  cases p with
  | none => exact iff_of_true rfl rfl
  | some s =>
    refine iff_of_false ?_ fun h => (nomatch h)
    rw [parts, splitOnP_eq]
    exact List.cons_ne_nil _ _

/-- No text has more parts than bytes, but for one. -/
theorem parts_length_le (s : Bytes) : (parts delim (some s)).length ≤ s.length + 1 := by
  induction s with
  | nil => exact le_rfl
  | cons b s ih =>
    rw [parts] at ih ⊢
    rw [List.splitOnP_cons_eq_if_modifyHead, List.length_cons]
    split_ifs
    · rw [List.length_cons]
      omega
    · rw [List.length_modifyHead]
      omega

theorem mem_intercalate {d b : UInt8} {cells : List Bytes} (h : b ∈ [d].intercalate cells) :
    b = d ∨ ∃ c ∈ cells, b ∈ c := by
  induction cells with
  | nil => cases h
  | cons c cells ih =>
    cases cells with
    | nil =>
      rw [List.intercalate_singleton] at h
      exact .inr ⟨c, List.mem_cons_self, h⟩
    | cons c' cells =>
      rw [List.intercalate_cons_cons] at h
      rcases List.mem_append.mp h with hfirst | hrest
      · rcases List.mem_append.mp hfirst with hc | hd
        · exact .inr ⟨c, List.mem_cons_self, hc⟩
        · exact .inl (List.mem_singleton.mp hd)
      · rcases ih hrest with hd | ⟨c, hc, hb⟩
        · exact .inl hd
        · exact .inr ⟨c, List.mem_cons_of_mem _ hc, hb⟩

/-- Texts without a delimiter, joined by one and followed by nothing or another one, are the first parts. -/
theorem prefix_parts {d : UInt8} (hd : delim d = true) {cells : List Bytes} (hne : cells ≠ [])
    (hcells : ∀ c ∈ cells, ∀ b ∈ c, delim b = false) {tail : Bytes}
    (htail : tail = [] ∨ ∃ b rest, tail = b :: rest ∧ delim b = true) :
    cells <+: parts delim (some ([d].intercalate cells ++ tail)) := by
  induction cells with
  | nil => exact absurd rfl hne
  | cons c cells ih =>
    have hc := hcells c List.mem_cons_self
    cases cells with
    | nil =>
      rw [List.intercalate_singleton, parts]
      rcases htail with rfl | ⟨b, rest, rfl, hb⟩
      · refine ⟨[], ?_⟩
        rw [List.append_nil, List.append_nil, List.splitOnP_eq_singleton hc]
      · rw [List.splitOnP_append_cons_of_forall_mem hc b hb]
        exact ⟨_, rfl⟩
    | cons c' cells =>
      rw [List.intercalate_cons_cons, List.append_assoc, List.append_assoc, parts]
      rw [List.singleton_append, List.splitOnP_append_cons_of_forall_mem hc d hd, List.cons_prefix_cons]
      exact ⟨rfl, ih (List.cons_ne_nil _ _) fun c hc => hcells c (List.mem_cons_of_mem _ hc)⟩

/-- With nothing behind them they are all the parts. -/
theorem parts_intercalate {d : UInt8} (hd : ∀ b, delim b = true ↔ b = d) {cells : List Bytes} (hne : cells ≠ [])
    (hcells : ∀ c ∈ cells, d ∉ c) : parts delim (some ([d].intercalate cells)) = cells := by
  have hdelim : delim = fun b => b == d := by
    funext b
    rw [Bool.eq_iff_iff, hd, beq_iff_eq]
  rw [parts, hdelim]
  exact List.splitOn_intercalate d hcells hne

end Yagips.Lib.Strsep
