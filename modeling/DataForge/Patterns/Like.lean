import Mathlib.Data.List.Infix

/-!
# Patterns with wildcards

Patterns in the manner of the SQL operator `LIKE`: one letter stands for any sequence, one for any
letter, and an escape takes the next letter literally. Escaping a text and adding the wildcard
gives the pattern of the texts that start with it.
-/

namespace Patterns

variable {α : Type} [DecidableEq α]

/-- A token of a pattern. -/
inductive Token (α : Type) where
  | literal (a : α)
  | one
  | any

/-- The letters with a meaning. -/
structure Wildcards (α : Type) where
  escape : α
  one : α
  any : α

/-- A letter that is not escaped. -/
def Wildcards.token (W : Wildcards α) (a : α) : Token α :=
  if a = W.any then .any else if a = W.one then .one else .literal a

/-- The tokens of a pattern; none if it ends in an escape. -/
def Wildcards.parse (W : Wildcards α) : List α → Option (List (Token α))
  | [] => some []
  | [a] => if a = W.escape then none else some [W.token a]
  | a :: b :: rest =>
    if a = W.escape then (W.parse rest).map (.literal b :: ·)
    else (W.parse (b :: rest)).map (W.token a :: ·)

/-- A text matches tokens. -/
def accepts : List (Token α) → List α → Bool
  | [], text => text.isEmpty
  | .literal a :: rest, text =>
    match text with
    | [] => false
    | b :: text => b = a && accepts rest text
  | .one :: rest, text =>
    match text with
    | [] => false
    | _ :: text => accepts rest text
  | .any :: rest, text => text.tails.any (accepts rest)

/-- A text matches a pattern. -/
def Wildcards.like (W : Wildcards α) (pattern text : List α) : Bool :=
  (W.parse pattern).any (accepts · text)

/-- The text with an escape before each letter with a meaning. -/
def Wildcards.escaped (W : Wildcards α) (text : List α) : List α :=
  text.flatMap fun a =>
    if a = W.escape ∨ a = W.one ∨ a = W.any then [W.escape, a] else [a]

theorem accepts_any (text : List α) : accepts [.any] text = true := by
  rw [accepts, List.any_eq_true]
  exact ⟨[], (List.mem_tails _ _).mpr List.nil_suffix, rfl⟩

theorem accepts_literals (l : List α) (rest : List (Token α)) (text : List α) :
    accepts (l.map .literal ++ rest) text = true ↔
      ∃ tail, text = l ++ tail ∧ accepts rest tail = true := by
  induction l generalizing text with
  | nil => exact ⟨fun h => ⟨text, rfl, h⟩, by rintro ⟨tail, rfl, h⟩; exact h⟩
  | cons a l ih =>
    cases text with
    | nil =>
      refine iff_of_false (fun h => by cases h) ?_
      rintro ⟨tail, h, -⟩
      cases h
    | cons b text =>
      rw [List.map_cons, List.cons_append, accepts, Bool.and_eq_true, ih]
      constructor
      · rintro ⟨hb, tail, rfl, h⟩
        rw [of_decide_eq_true hb]
        exact ⟨tail, rfl, h⟩
      · rintro ⟨tail, h, hrest⟩
        obtain ⟨rfl, rfl⟩ := List.cons_eq_cons.mp h
        exact ⟨decide_eq_true rfl, tail, rfl, hrest⟩

/-- Escaped text is read letter by letter. -/
theorem Wildcards.parse_escaped (W : Wildcards α) (hany : W.any ≠ W.escape) (text : List α) :
    W.parse (W.escaped text ++ [W.any]) = some (text.map .literal ++ [.any]) := by
  induction text with
  | nil =>
    change W.parse [W.any] = _
    rw [parse, if_neg hany, token, if_pos rfl]
    rfl
  | cons a text ih =>
    unfold escaped at ih ⊢
    rw [List.flatMap_cons, List.append_assoc]
    by_cases ha : a = W.escape ∨ a = W.one ∨ a = W.any
    · rw [if_pos ha, List.cons_append, List.cons_append, List.nil_append, parse, if_pos rfl, ih]
      rfl
    · rw [if_neg ha]
      obtain ⟨hesc, hone, hnany⟩ : a ≠ W.escape ∧ a ≠ W.one ∧ a ≠ W.any := by
        simpa [not_or] using ha
      have hcons : ∀ l : List α, l ≠ [] →
          W.parse (a :: l) = (W.parse l).map (W.token a :: ·) := by
        intro l hl
        cases l with
        | nil => exact absurd rfl hl
        | cons b rest => rw [parse, if_neg hesc]
      rw [List.cons_append, List.nil_append, hcons _ (by simp), ih, token, if_neg hnany,
        if_neg hone]
      rfl

theorem Wildcards.like_escaped (W : Wildcards α) (hany : W.any ≠ W.escape) (start text : List α) :
    W.like (W.escaped start ++ [W.any]) text = true ↔ start <+: text := by
  rw [like, W.parse_escaped hany, Option.any_some, accepts_literals]
  constructor
  · rintro ⟨tail, rfl, -⟩
    exact List.prefix_append _ _
  · rintro ⟨tail, rfl⟩
    exact ⟨tail, rfl, accepts_any tail⟩

end Patterns
