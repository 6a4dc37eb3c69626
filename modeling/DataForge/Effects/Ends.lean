import Mathlib.Data.List.Basic

/-!
# Where a computation that may fail can end

What holds of the result of a computation and what holds of its failure.
-/

namespace Effects

variable {ε α β : Type}

/-- The result of a computation meets the one condition, its failure the other. -/
def Ends (x : Except ε α) (result : α → Prop) (failure : ε → Prop) : Prop :=
  match x with
  | .ok a => result a
  | .error e => failure e

variable {result : α → Prop} {failure : ε → Prop}

theorem ends_ok {a : α} : Ends (.ok a) result failure ↔ result a := Iff.rfl

theorem ends_error {e : ε} : Ends (α := α) (.error e) result failure ↔ failure e := Iff.rfl

theorem Ends.imp {x : Except ε α} {result' : α → Prop} {failure' : ε → Prop}
    (h : Ends x result failure) (hr : ∀ a, result a → result' a)
    (hf : ∀ e, failure e → failure' e) : Ends x result' failure' := by
  cases x with
  | ok a => exact hr a h
  | error e => exact hf e h

theorem Ends.bind {x : Except ε α} {f : α → Except ε β} {final : β → Prop}
    (hx : Ends x result failure) (hf : ∀ a, result a → Ends (f a) final failure) :
    Ends (x >>= f) final failure := by
  cases x with
  | ok a => exact hf a hx
  | error e => exact hx

end Effects
