import Mathlib.Data.List.Basic

/-!
# Runs of a machine

A machine takes events one at a time. One that emits a list of outputs with each emits over
a run what its steps emit from states of an invariant. One that may stop keeps an invariant
over a run whose steps are all taken under a condition, and one whose steps stop except under
a condition stops except where all of them are met.
-/
namespace Yagips.Lib.Run

variable {S E O : Type}

/-- Everything a run emits, in order. -/
def outputs (step : S → E → S × List O) : S → List E → List O
  | _, [] => []
  | s, e :: es => (step s e).2 ++ outputs step (step s e).1 es

theorem forall_outputs {step : S → E → S × List O} {Inv : S → Prop} {Q : O → Prop}
    (hkeep : ∀ s e, Inv s → Inv (step s e).1) (hemit : ∀ s e, Inv s → ∀ o ∈ (step s e).2, Q o)
    (s : S) (es : List E) (hs : Inv s) : ∀ o ∈ outputs step s es, Q o := by
  induction es generalizing s with
  | nil => intro o ho; cases ho
  | cons e es ih =>
    intro o ho
    rcases List.mem_append.mp ho with h | h
    · exact hemit s e hs o h
    · exact ih _ (hkeep s e hs) o h

/-! ## Machines that may stop -/

section Stopping

variable {F : Type}

def run (step : S → E → Except F S) : S → List E → Except F S
  | s, [] => .ok s
  | s, e :: es =>
    match step s e with
    | .error f => .error f
    | .ok s' => run step s' es

/-- Every step of a run, up to where it stops, is taken from a state that satisfies a
condition on it. -/
def Along (step : S → E → Except F S) (C : S → E → Prop) : S → List E → Prop
  | _, [] => True
  | s, e :: es => C s e ∧ ∀ s', step s e = .ok s' → Along step C s' es

theorem run_keeps {step : S → E → Except F S} {C : S → E → Prop} {Inv : S → Prop}
    (hkeep : ∀ s e s', Inv s → C s e → step s e = .ok s' → Inv s') {s s' : S} {es : List E}
    (hs : Inv s) (hc : Along step C s es) (hrun : run step s es = .ok s') : Inv s' := by
  induction es generalizing s with
  | nil =>
    cases hrun
    exact hs
  | cons e es ih =>
    rw [run] at hrun
    cases hstep : step s e with
    | error f =>
      rw [hstep] at hrun
      cases hrun
    | ok t =>
      rw [hstep] at hrun
      exact ih (hkeep s e t hs hc.1 hstep) (hc.2 t hstep) hrun

/-- A condition that steps from an invariant's states meet is met along a run. -/
theorem along_of {step : S → E → Except F S} {C Q : S → E → Prop} {Inv : S → Prop}
    (hkeep : ∀ s e s', Inv s → C s e → step s e = .ok s' → Inv s')
    (hmeet : ∀ s e, Inv s → C s e → Q s e) {s : S} {es : List E} (hs : Inv s)
    (hc : Along step C s es) : Along step Q s es := by
  induction es generalizing s with
  | nil => trivial
  | cons e es ih =>
    exact ⟨hmeet s e hs hc.1, fun s' hstep => ih (hkeep s e s' hs hc.1 hstep) (hc.2 s' hstep)⟩

/-- Two conditions that agree on an invariant's states are met along the same runs, if the first
keeps the invariant. -/
theorem along_congr {step : S → E → Except F S} {C Q : S → E → Prop} (Inv : S → Prop)
    (hkeep : ∀ s e s', Inv s → C s e → step s e = .ok s' → Inv s')
    (hiff : ∀ s e, Inv s → (C s e ↔ Q s e)) {s : S} {es : List E} (hs : Inv s) :
    Along step C s es ↔ Along step Q s es := by
  constructor
  · exact along_of hkeep (fun s e hs => (hiff s e hs).mp) hs
  · refine along_of (fun s e s' hs hq => hkeep s e s' hs ((hiff s e hs).mpr hq))
      (fun s e hs => (hiff s e hs).mpr) hs

/-- Every state a run reaches is in a set that its start is in, where every step of it ends in the
set. -/
theorem reached_iff {step : S → E → Except F S} {P : S → Prop} {s : S} {es : List E} (hs : P s) :
    (∀ done rest s', es = done ++ rest → run step s done = .ok s' → P s') ↔
      Along step (fun s e => ∀ s', step s e = .ok s' → P s') s es := by
  constructor
  · intro h
    induction es generalizing s with
    | nil => trivial
    | cons e es ih =>
      have hstep : ∀ s', step s e = .ok s' → P s' := by
        intro s' he
        refine h [e] es s' rfl ?_
        rw [run, he]
        rfl
      refine ⟨hstep, fun s' he => ih (hstep s' he) fun done rest t hes ht => ?_⟩
      refine h (e :: done) rest t (congrArg (e :: ·) hes) ?_
      rw [run, he]
      exact ht
  · intro h done rest s' hes hrun
    induction done generalizing s es with
    | nil =>
      cases hrun
      exact hs
    | cons e done ih =>
      subst hes
      rw [run] at hrun
      cases he : step s e with
      | error f =>
        rw [he] at hrun
        cases hrun
      | ok t =>
        rw [he] at hrun
        exact ih (h.1 t he) (h.2 t he) rfl hrun

theorem along_at {step : S → E → Except F S} {C : S → E → Prop} {s s' : S} {es : List E} {e : E}
    {rest : List E} (hc : Along step C s (es ++ e :: rest)) (hrun : run step s es = .ok s') : C s' e := by
  induction es generalizing s with
  | nil =>
    cases hrun
    exact hc.1
  | cons e' es ih =>
    rw [run] at hrun
    cases hstep : step s e' with
    | error f =>
      rw [hstep] at hrun
      cases hrun
    | ok t =>
      rw [hstep] at hrun
      exact ih (hc.2 t hstep) hrun

/-- A run with one more event. -/
theorem run_concat {step : S → E → Except F S} {s s' : S} {es : List E} {e : E} :
    run step s (es ++ [e]) = .ok s' ↔ ∃ t, run step s es = .ok t ∧ step t e = .ok s' := by
  induction es generalizing s with
  | nil =>
    rw [List.nil_append, run]
    cases hstep : step s e with
    | error f => simp [run, hstep]
    | ok t => simp [run, hstep]
  | cons e' es ih =>
    rw [List.cons_append, run, run]
    cases hstep : step s e' with
    | error f => simp
    | ok t => exact ih

theorem along_of_prefixes {step : S → E → Except F S} {C : S → E → Prop} {s : S} {es : List E}
    (h : ∀ done e rest s', es = done ++ e :: rest → run step s done = .ok s' → C s' e) :
    Along step C s es := by
  induction es generalizing s with
  | nil => trivial
  | cons e es ih =>
    refine ⟨h [] e es s rfl rfl, fun t hstep => ih fun done e' rest s' hes hrun => ?_⟩
    refine h (e :: done) e' rest s' (congrArg (e :: ·) hes) ?_
    rw [run, hstep]
    exact hrun

theorem along_of_append {step : S → E → Except F S} {C : S → E → Prop} {s : S} {es rest : List E}
    (h : Along step C s (es ++ rest)) : Along step C s es := by
  induction es generalizing s with
  | nil => trivial
  | cons e es ih => exact ⟨h.1, fun s' hstep => ih (h.2 s' hstep)⟩

theorem along_and {step : S → E → Except F S} {C D : S → E → Prop} {s : S} {es : List E} :
    Along step (fun s e => C s e ∧ D s e) s es ↔ Along step C s es ∧ Along step D s es := by
  induction es generalizing s with
  | nil => exact iff_of_true trivial ⟨trivial, trivial⟩
  | cons e es ih =>
    constructor
    · intro ⟨⟨hc, hd⟩, hrest⟩
      exact ⟨⟨hc, fun s' h => (ih.mp (hrest s' h)).1⟩, ⟨hd, fun s' h => (ih.mp (hrest s' h)).2⟩⟩
    · intro ⟨⟨hc, hcrest⟩, ⟨hd, hdrest⟩⟩
      exact ⟨⟨hc, hd⟩, fun s' h => ih.mpr ⟨hcrest s' h, hdrest s' h⟩⟩

theorem along_true (step : S → E → Except F S) (s : S) (es : List E) :
    Along step (fun _ _ => True) s es := by
  induction es generalizing s with
  | nil => trivial
  | cons e es ih => exact ⟨trivial, fun s' _ => ih s'⟩

/-- What every step keeps holds after every run. -/
theorem run_invariant {step : S → E → Except F S} (Inv : S → Prop)
    (hkeep : ∀ s e s', Inv s → step s e = .ok s' → Inv s') {s s' : S} {es : List E}
    (hs : Inv s) (hrun : run step s es = .ok s') : Inv s' :=
  run_keeps (fun s e s' hs _ => hkeep s e s' hs) hs (along_true step s es) hrun

end Stopping

/-! ## Where a computation ends -/

section Exact

variable {F A B : Type} {P P' : Prop} {Q Q' : A → Prop} {R : B → Prop}

/-- A computation ends under a condition, with a result of a set, and stops otherwise. -/
def Exact (P : Prop) (Q : A → Prop) : Except F A → Prop
  | .ok a => P ∧ Q a
  | .error _ => ¬ P

theorem exact_ok {a : A} (h : Q a) : Exact True Q (.ok a : Except F A) := ⟨trivial, h⟩

theorem Exact.congr (hiff : P ↔ P') {r : Except F A} (h : Exact P Q r) : Exact P' Q r := by
  cases r with
  | ok a => exact ⟨hiff.mp h.1, h.2⟩
  | error f => exact fun hp => h (hiff.mpr hp)

theorem Exact.imp (himp : ∀ a, Q a → Q' a) {r : Except F A} (h : Exact P Q r) : Exact P Q' r := by
  cases r with
  | ok a => exact ⟨h.1, himp a h.2⟩
  | error f => exact h

/-- Of two computations one behind the other both end, or the first that does not stops. -/
theorem Exact.bind {r : Except F A} {k : A → Except F B} (h : Exact P Q r) (hk : ∀ a, Q a → Exact P' R (k a)) :
    Exact (P ∧ P') R (r >>= k) := by
  cases r with
  | error f => exact fun hand => h hand.1
  | ok a =>
    have hnext := hk a h.2
    change Exact (P ∧ P') R (k a)
    cases hka : k a with
    | error f =>
      rw [hka] at hnext
      exact fun hand => hnext hand.2
    | ok b =>
      rw [hka] at hnext
      exact ⟨⟨h.1, hnext.1⟩, hnext.2⟩

theorem Exact.ret {r : Except F A} {f : A → B} (h : Exact P Q r) (hf : ∀ a, Q a → R (f a)) :
    Exact P R (r >>= fun a => pure (f a)) :=
  (h.bind fun a ha => exact_ok (hf a ha)).congr (and_iff_left trivial)

theorem Exact.map {r : Except F A} {f : A → B} (h : Exact P Q r) (hf : ∀ a, Q a → R (f a)) :
    Exact P R (r.map f) := by
  cases r with
  | error e => exact h
  | ok a => exact ⟨h.1, hf a h.2⟩

end Exact

/-! ## Undoing a loop -/

/-- Steps taken in one order are undone by their inverses in the other. -/
theorem foldl_reverse_undo {S I : Type} {f g : S → I → S} (h : ∀ s i, f (g s i) i = s)
    (is : List I) (s : S) : is.foldl f (is.reverse.foldl g s) = s := by
  induction is generalizing s with
  | nil => rfl
  | cons i is ih =>
    rw [List.reverse_cons, List.foldl_append, List.foldl_cons]
    simp only [List.foldl_cons, List.foldl_nil, h, ih]

/-! ## Machines that take every event -/

section Total

variable {step : S → E → S} {P Q : S → Prop} {es : List E}

theorem foldl_keeps (h : ∀ s, ∀ e ∈ es, P s → P (step s e)) {s : S} (hs : P s) : P (es.foldl step s) :=
  List.foldlRecOn es step hs fun s hs e he => h s e he hs

/-- What one event brings about and the others keep holds after all of them. -/
theorem foldl_brings {e : E} (he : e ∈ es) (h : ∀ s, ∀ e ∈ es, P s → P (step s e)) (hone : ∀ s, P s → Q (step s e))
    (hkeep : ∀ s, ∀ e ∈ es, P s → Q s → Q (step s e)) {s : S} (hs : P s) : Q (es.foldl step s) := by
  obtain ⟨before, after, rfl⟩ := List.append_of_mem he
  have hbefore : P (before.foldl step s) := foldl_keeps (fun s e he => h s e (List.mem_append_left _ he)) hs
  rw [List.foldl_append, List.foldl_cons]
  refine (foldl_keeps (P := fun s => P s ∧ Q s) (fun s e' he' hs => ?_) ?_).2
  · have hmem : e' ∈ before ++ e :: after := List.mem_append_right _ (List.mem_cons_of_mem _ he')
    exact ⟨h s e' hmem hs.1, hkeep s e' hmem hs.1 hs.2⟩
  · exact ⟨h _ e he hbefore, hone _ hbefore⟩

end Total

end Yagips.Lib.Run
