import Mathlib.Data.List.TakeWhile

/-!
# Texts that are split at a separator

Library `Texts`. A separator that does not occur in front of its first occurrence, or behind its
last one, is found again there. Numbers are written in decimal digits.
-/

namespace Texts

variable {α : Type} {c : α} {xs ys xs' ys' : List α}

theorem append_cons_inj (hx : c ∉ xs) (hx' : c ∉ xs') (h : xs ++ c :: ys = xs' ++ c :: ys') :
    xs = xs' ∧ ys = ys' := by
  induction xs generalizing xs' with
  | nil =>
    cases xs' with
    | nil => exact ⟨rfl, List.tail_eq_of_cons_eq h⟩
    | cons x' xs' => exact absurd (List.head_eq_of_cons_eq h ▸ List.mem_cons_self) hx'
  | cons x xs ih =>
    cases xs' with
    | nil => exact absurd (List.head_eq_of_cons_eq h ▸ List.mem_cons_self) hx
    | cons x' xs' =>
      obtain ⟨hfront, hback⟩ := ih (fun hc => hx (List.mem_cons_of_mem x hc))
        (fun hc => hx' (List.mem_cons_of_mem x' hc)) (List.tail_eq_of_cons_eq h)
      exact ⟨by rw [List.head_eq_of_cons_eq h, hfront], hback⟩

theorem append_cons_inj_last (hy : c ∉ ys) (hy' : c ∉ ys')
    (h : xs ++ c :: ys = xs' ++ c :: ys') : xs = xs' ∧ ys = ys' := by
  have hreverse := congrArg List.reverse h
  simp only [List.reverse_append, List.reverse_cons, List.append_assoc, List.singleton_append]
    at hreverse
  obtain ⟨hback, hfront⟩ := append_cons_inj (fun hc => hy (List.mem_reverse.mp hc))
    (fun hc => hy' (List.mem_reverse.mp hc)) hreverse
  exact ⟨List.reverse_inj.mp hfront, List.reverse_inj.mp hback⟩

variable [DecidableEq α]

private theorem decide_ne (h : c ∉ xs) : ∀ x ∈ xs, decide (x ≠ c) = true := by
  intro x hx
  rw [decide_eq_true_eq]
  rintro rfl
  exact h hx

theorem takeWhile_ne (h : c ∉ xs) : (xs ++ c :: ys).takeWhile (· ≠ c) = xs := by
  rw [List.takeWhile_append_of_pos (decide_ne h)]
  simp

theorem dropWhile_ne (h : c ∉ xs) : (xs ++ c :: ys).dropWhile (· ≠ c) = c :: ys := by
  rw [List.dropWhile_append_of_pos (decide_ne h)]
  simp

theorem toString_inj {m n : ℕ} (h : toString m = toString n) : m = n := by
  have hlist := congrArg String.toList (show m.repr = n.repr from h)
  rw [Nat.toList_repr, Nat.toList_repr] at hlist
  have hdigits := congrArg (Nat.ofDigitChars 10 · 0) hlist
  simpa only [Nat.ofDigitChars_ten_toDigits] using hdigits

theorem notMem_toString {c : Char} (hc : c.isDigit = false) (n : ℕ) :
    c ∉ (toString n).toList := by
  intro hmem
  rw [show (toString n).toList = Nat.toDigits 10 n from Nat.toList_repr] at hmem
  rw [Nat.isDigit_of_mem_toDigits (by decide) (by decide) hmem] at hc
  cases hc

end Texts
