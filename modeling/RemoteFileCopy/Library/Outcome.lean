import Mathlib.Init

/-!
# Library/Outcome — what a computation that may fail promises

`Outcome P Q x`: if `x` fails its error satisfies `P`, and if it succeeds its result satisfies `Q`.
A sequence of computations is taken apart at its binds (`Outcome.bind`).
-/

/-- **A promise about both ends of a computation.** -/
def Outcome {ε α : Type} (P : ε → Prop) (Q : α → Prop) : Except ε α → Prop
  | .error e => P e
  | .ok a => Q a

namespace Outcome

variable {ε α β : Type} {P : ε → Prop} {Q : α → Prop} {R : β → Prop}

/-- **The rule for a sequence.** -/
theorem bind {x : Except ε α} {f : α → Except ε β} (h : Outcome P Q x)
    (hf : ∀ a, Q a → Outcome P R (f a)) : Outcome P R (x >>= f) := by
  cases x with
  | error e => exact h
  | ok a => exact hf a h

/-- A promise is about the error or about the result, whichever there is. -/
theorem of_cases {x : Except ε α} (hP : ∀ e, x = .error e → P e) (hQ : ∀ a, x = .ok a → Q a) :
    Outcome P Q x := by
  cases x with
  | error e => exact hP e rfl
  | ok a => exact hQ a rfl

/-- A result meets what was promised. -/
theorem of_ok {x : Except ε α} {a : α} (h : Outcome P Q x) (hx : x = .ok a) : Q a := by
  rwa [hx] at h

/-- An error meets what was promised. -/
theorem of_error {x : Except ε α} {e : ε} (h : Outcome P Q x) (hx : x = .error e) : P e := by
  rwa [hx] at h

end Outcome
