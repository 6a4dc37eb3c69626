import Mathlib.Data.List.Basic
import Mathlib.Data.Option.Basic

/-!
# Three-valued truth across a row

Kleene's strong logic on `Option Bool`, where `none` is the unknown value, and its
conjunction and disjunction over a list.
-/

namespace Kleene

/-- Negation keeps the unknown value. -/
def not : Option Bool → Option Bool :=
  Option.map (!·)

/-- Conjunction: a false side decides it. -/
def and : Option Bool → Option Bool → Option Bool
  | some false, _ => some false
  | some true, b => b
  | none, some false => some false
  | none, _ => none

/-- Disjunction: a true side decides it. -/
def or : Option Bool → Option Bool → Option Bool
  | some true, _ => some true
  | some false, b => b
  | none, some true => some true
  | none, _ => none

/-- Conjunction over a list. -/
def all (l : List (Option Bool)) : Option Bool :=
  l.foldr and (some true)

/-- Disjunction over a list. -/
def any (l : List (Option Bool)) : Option Bool :=
  l.foldr or (some false)

variable {a b : Option Bool} {l : List (Option Bool)}

theorem not_or : not (or a b) = and (not a) (not b) := by
  rcases a with _ | _ | _ <;> rcases b with _ | _ | _ <;> rfl

@[simp]
theorem and_true : and a (some true) = a := by
  rcases a with _ | _ | _ <;> rfl

@[simp]
theorem or_false : or a (some false) = a := by
  rcases a with _ | _ | _ <;> rfl

@[simp]
theorem all_cons : all (a :: l) = and a (all l) := rfl

@[simp]
theorem any_cons : any (a :: l) = or a (any l) := rfl

theorem any_map_some (l : List Bool) : any (l.map some) = some (l.any id) := by
  induction l with
  | nil => rfl
  | cons b l ih =>
    rw [List.map_cons, any_cons, ih, List.any_cons]
    cases b <;> rfl

theorem all_map_some (l : List Bool) : all (l.map some) = some (l.all id) := by
  induction l with
  | nil => rfl
  | cons b l ih =>
    rw [List.map_cons, all_cons, ih, List.all_cons]
    cases b <;> rfl

end Kleene

