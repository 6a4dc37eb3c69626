import Mathlib.Algebra.Order.Ring.Nat
import Mathlib.Data.Nat.Multiplicity
import Mathlib.Tactic.Positivity
import Mathlib.Tactic.Ring

/-!
# Rounding to nearest

Library `Rounding`. A quotient of natural numbers is rounded to the nearest number with a
significand of `p` bits, ties to the even significand. The numbers that rounding keeps are the ones
with such a significand (`roundTo_eq_self`).
-/

namespace Rounding

/-- The natural number nearest to `n / d`; halfway between two it is the even one. -/
def roundHalfEven (n d : ℕ) : ℕ :=
  let q := n / d
  let r := n % d
  if 2 * r < d then q else if d < 2 * r then q + 1 else q + q % 2

/-- How many bits of `n / d` do not fit into `p` bits. -/
def excess (p n d : ℕ) : ℕ := (n / d).log2 + 1 - p

/-- `n / d` with a significand of `p` bits. -/
def roundTo (p n d : ℕ) : ℕ :=
  roundHalfEven n (d * 2 ^ excess p n d) * 2 ^ excess p n d

/-- A number with a significand of `p` bits. -/
def Representable (p n : ℕ) : Prop := ∃ m k, m < 2 ^ p ∧ n = m * 2 ^ k

variable {p n d e : ℕ}

theorem roundHalfEven_mul (hd : 0 < d) : roundHalfEven (n * d) d = n := by
  unfold roundHalfEven
  dsimp only
  rw [Nat.mul_div_cancel n hd, Nat.mul_mod_left, if_pos (by omega)]

theorem roundHalfEven_le {q : ℕ} (hd : 0 < d) (h : n ≤ q * d) : roundHalfEven n d ≤ q := by
  have hquot : n / d ≤ q := Nat.div_le_of_le_mul (Nat.mul_comm q d ▸ h)
  have hparts := Nat.div_add_mod n d
  unfold roundHalfEven
  dsimp only
  split
  case isTrue => exact hquot
  case isFalse hhalf =>
    have hlt : n / d < q := by
      refine lt_of_le_of_ne hquot fun heq => hhalf ?_
      rw [heq, Nat.mul_comm d q] at hparts
      omega
    split <;> omega

theorem lt_two_pow_excess (hd : 0 < d) : n < 2 ^ p * (d * 2 ^ excess p n d) := by
  have hlog : n / d < 2 ^ ((n / d).log2 + 1) := Nat.lt_log2_self
  have hpow : 2 ^ ((n / d).log2 + 1) ≤ 2 ^ (p + excess p n d) :=
    Nat.pow_le_pow_right (by decide) (by unfold excess; omega)
  have hlt := (Nat.div_lt_iff_lt_mul hd).mp (lt_of_lt_of_le hlog hpow)
  calc n < 2 ^ (p + excess p n d) * d := hlt
    _ = 2 ^ p * (d * 2 ^ excess p n d) := by rw [Nat.pow_add]; ring

theorem representable_roundTo (hp : 0 < p) (hd : 0 < d) : Representable p (roundTo p n d) := by
  have hle : roundHalfEven n (d * 2 ^ excess p n d) ≤ 2 ^ p :=
    roundHalfEven_le (by positivity) (lt_two_pow_excess hd).le
  rcases hle.lt_or_eq with hlt | heq
  · exact ⟨_, _, hlt, rfl⟩
  · refine ⟨1, p + excess p n d, Nat.one_lt_two_pow hp.ne', ?_⟩
    rw [roundTo, heq, Nat.pow_add, Nat.one_mul]

theorem roundTo_eq_self (hp : 0 < p) : roundTo p n 1 = n ↔ Representable p n := by
  constructor
  · intro h
    exact h ▸ representable_roundTo hp Nat.one_pos
  · rintro ⟨m, k, hm, rfl⟩
    have hexcess : excess p (m * 2 ^ k) 1 ≤ k := by
      unfold excess
      rw [Nat.div_one]
      by_cases hzero : m = 0
      · subst hzero
        simp
        omega
      · have hlog : (m * 2 ^ k).log2 < p + k := by
          rw [Nat.log2_lt (by positivity), Nat.pow_add]
          exact Nat.mul_lt_mul_of_pos_right hm (by positivity)
        omega
    obtain ⟨j, hj⟩ := Nat.exists_eq_add_of_le hexcess
    rw [roundTo, Nat.one_mul]
    generalize excess p (m * 2 ^ k) 1 = x at hj
    have hsplit : m * 2 ^ k = m * 2 ^ j * 2 ^ x := by
      calc m * 2 ^ k = m * (2 ^ x * 2 ^ j) := by rw [hj, Nat.pow_add]
        _ = m * 2 ^ j * 2 ^ x := by ring
    rw [hsplit, roundHalfEven_mul (by positivity)]

theorem representable_mul_two_pow : Representable p (n * 2 ^ e) ↔ Representable p n := by
  constructor
  · rintro ⟨m, k, hm, h⟩
    by_cases hzero : n = 0
    · exact ⟨0, 0, by positivity, by simp [hzero]⟩
    · obtain ⟨j, o, hodd, rfl⟩ := Nat.exists_eq_two_pow_mul_odd hzero
      have hodd' : o ∣ m := by
        refine (Nat.Coprime.pow_right k hodd.coprime_two_right).dvd_of_dvd_mul_right ?_
        exact h ▸ (Nat.dvd_mul_left o (2 ^ j)).mul_right (2 ^ e)
      have hm' : m ≠ 0 := by
        rintro rfl
        rw [Nat.zero_mul] at h
        exact absurd h (Nat.mul_ne_zero hzero (by positivity))
      exact ⟨o, j, (Nat.le_of_dvd (Nat.pos_of_ne_zero hm') hodd').trans_lt hm, Nat.mul_comm ..⟩
  · rintro ⟨m, k, hm, rfl⟩
    exact ⟨m, k + e, hm, by rw [Nat.pow_add, Nat.mul_assoc]⟩

end Rounding
