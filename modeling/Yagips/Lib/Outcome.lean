import Mathlib.Order.Basic

/-!
# What a computation may come to

A computation that may stop meets a pair of predicates: one for the reasons it stops for, one for its
results. The rules follow the way computations are put together.
-/
namespace Yagips.Lib

section Outcome

variable {ε A B : Type} {E E' : ε → Prop} {Q Q' : A → Prop} {R : B → Prop}

/-- A computation stops for a reason of `E` or ends in a result of `Q`. -/
def Meets (E : ε → Prop) (Q : A → Prop) : Except ε A → Prop
  | .ok a => Q a
  | .error e => E e

namespace Meets

@[simp] theorem ok_iff {a : A} : Meets E Q (.ok a) ↔ Q a := Iff.rfl

@[simp] theorem error_iff {e : ε} : Meets E Q (.error e : Except ε A) ↔ E e := Iff.rfl

theorem imp (hE : ∀ e, E e → E' e) (hQ : ∀ a, Q a → Q' a) {r : Except ε A} (h : Meets E Q r) : Meets E' Q' r := by
  cases r with
  | ok a => exact hQ a h
  | error e => exact hE e h

theorem post (hQ : ∀ a, Q a → Q' a) {r : Except ε A} (h : Meets E Q r) : Meets E Q' r := h.imp (fun _ he => he) hQ

/-- One computation behind the other. -/
theorem bind {r : Except ε A} {k : A → Except ε B} (h : Meets E Q r) (hk : ∀ a, Q a → Meets E R (k a)) :
    Meets E R (r >>= k) := by
  cases r with
  | ok a => exact hk a h
  | error e => exact h

theorem ret {r : Except ε A} {f : A → B} (h : Meets E Q r) (hf : ∀ a, Q a → R (f a)) :
    Meets E R (r >>= fun a => pure (f a)) :=
  h.bind fun a ha => hf a ha

/-- Where it ends, it ends in a result of the set. -/
theorem result {r : Except ε A} {a : A} (h : Meets E Q r) (hr : r = .ok a) : Q a := by
  rw [hr] at h
  exact h

end Meets

end Outcome

end Yagips.Lib
