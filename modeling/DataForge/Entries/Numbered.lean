import Mathlib.Data.Nat.Notation

/-!
# Numbered entries

Library `Entries`. A list whose entries are known by their number: what stands under a number after
an entry was changed or added.
-/

namespace Entries

variable {α : Type} {l : List α} {i j : ℕ} {x y c : α}

theorem set_cases (h : (l.set i x)[j]? = some y) : j = i ∧ y = x ∨ j ≠ i ∧ l[j]? = some y := by
  by_cases hij : i = j
  · subst hij
    rw [List.getElem?_set] at h
    split at h
    case isTrue =>
      split at h
      case isTrue => exact .inl ⟨rfl, (Option.some.inj h).symm⟩
      case isFalse => cases h
    case isFalse hne => exact absurd rfl hne
  · rw [List.getElem?_set_ne hij] at h
    exact .inr ⟨fun heq => hij heq.symm, h⟩

theorem append_cases (h : (l ++ [x])[j]? = some y) : l[j]? = some y ∨ j = l.length ∧ y = x := by
  rw [List.getElem?_append] at h
  split at h
  case isTrue => exact .inl h
  case isFalse =>
    rw [List.getElem?_singleton] at h
    split at h
    case isTrue => exact .inr ⟨by omega, (Option.some.inj h).symm⟩
    case isFalse => cases h

theorem set_self (hi : l[i]? = some c) : (l.set i x)[i]? = some x :=
  List.getElem?_set_self (List.getElem?_eq_some_iff.mp hi).1

theorem append_old (hi : l[i]? = some c) : (l ++ [x])[i]? = some c :=
  (List.getElem?_append_left (List.getElem?_eq_some_iff.mp hi).1).trans hi

theorem countP_set_add (p : α → Bool) (hi : l[i]? = some c) :
    (l.set i x).countP p + (if p c then 1 else 0) = l.countP p + if p x then 1 else 0 := by
  obtain ⟨hlt, rfl⟩ := List.getElem?_eq_some_iff.mp hi
  rw [List.countP_set hlt]
  have hpos : p l[i] = true → 0 < l.countP p :=
    fun hp => List.countP_pos_iff.mpr ⟨l[i], List.getElem_mem hlt, hp⟩
  by_cases hp : p l[i] = true
  · have hcount := hpos hp
    simp only [hp, if_true]
    omega
  · simp [hp]

end Entries
