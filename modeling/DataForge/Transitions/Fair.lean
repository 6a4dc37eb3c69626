import Mathlib.Data.List.Monad
import Mathlib.Order.WellFounded

/-!
# Infinite runs and what they lead to

Library `Transitions`. A run of a step function takes one action, or pauses, at every time, so
a finite run is one that pauses for ever after its last action. What eventually happens is shown
by a rank: no action raises it, and the actions that fairness promises lower it
(`Run.leadsTo_of_rank`).
-/

namespace Transitions

variable {σ α : Type} {step : σ → α → Option σ}

/-- An infinite run; `none` is a pause. -/
structure Run (step : σ → α → Option σ) where
  st : ℕ → σ
  act : ℕ → Option α
  next : ∀ t, (act t).elim (some (st t)) (step (st t)) = some (st (t + 1))

namespace Run

variable (ρ : Run step) {P Q R : σ → Prop}

theorem next_of_act {t : ℕ} {a : α} (h : ρ.act t = some a) :
    step (ρ.st t) a = some (ρ.st (t + 1)) := by
  have hn := ρ.next t
  rwa [h] at hn

theorem next_of_pause {t : ℕ} (h : ρ.act t = none) : ρ.st (t + 1) = ρ.st t := by
  have hn := ρ.next t
  rw [h] at hn
  exact (Option.some.inj hn).symm

theorem invariant (h0 : P (ρ.st 0)) (hstep : ∀ s a s', P s → step s a = some s' → P s') (t : ℕ) :
    P (ρ.st t) := by
  induction t with
  | zero => exact h0
  | succ t ih =>
    cases ha : ρ.act t with
    | none => exact ρ.next_of_pause ha ▸ ih
    | some a => exact hstep _ a _ ih (ρ.next_of_act ha)

/-- Whenever `P` holds, `Q` holds then or later. -/
def LeadsTo (P Q : σ → Prop) : Prop := ∀ t, P (ρ.st t) → ∃ t' ≥ t, Q (ρ.st t')

variable {ρ}

theorem stays_until {t t' : ℕ} (hp : P (ρ.st t)) (ht : t ≤ t')
    (hstep : ∀ u ≥ t, u < t' → ∀ a, ρ.act u = some a → P (ρ.st u) →
      Q (ρ.st (u + 1)) ∨ P (ρ.st (u + 1))) : P (ρ.st t') ∨ ∃ u ≥ t, Q (ρ.st u) := by
  induction t', ht using Nat.le_induction with
  | base => exact .inl hp
  | succ m hm ih =>
    cases ih fun u hu hlt => hstep u hu (by omega) with
    | inl ih =>
      cases ha : ρ.act m with
      | none => exact .inl (ρ.next_of_pause ha ▸ ih)
      | some a =>
        exact (hstep m hm (Nat.lt_succ_self m) a ha ih).symm.imp id fun h => ⟨m + 1, by omega, h⟩
    | inr h => exact .inr h

/-- From `P` the run comes to `Q` when no action raises the rank and, while `P` lasts, an action
that lowers it is taken again and again. -/
theorem leadsTo_of_rank {β : Type} [Preorder β] [WellFoundedLT β] (rank : σ → β)
    (helpful : α → Prop)
    (hfair : ∀ t, P (ρ.st t) → ∃ t' ≥ t, (∃ a ∈ ρ.act t', helpful a) ∨ ¬ P (ρ.st t'))
    (hstep : ∀ t a, ρ.act t = some a → P (ρ.st t) → Q (ρ.st (t + 1)) ∨
      P (ρ.st (t + 1)) ∧ rank (ρ.st (t + 1)) ≤ rank (ρ.st t) ∧
        (helpful a → rank (ρ.st (t + 1)) < rank (ρ.st t))) :
    ρ.LeadsTo P Q := by
  suffices h : ∀ b t, rank (ρ.st t) = b → P (ρ.st t) → ∃ t' ≥ t, Q (ρ.st t') from
    fun t hp => h _ t rfl hp
  intro b
  induction b using WellFoundedLT.induction with
  | ind b ih =>
    intro t hb hp
    obtain ⟨t', ht', hhelp⟩ := hfair t hp
    have hstays : (P (ρ.st t') ∧ rank (ρ.st t') ≤ b) ∨ ∃ u ≥ t, Q (ρ.st u) := by
      refine stays_until (P := fun s => P s ∧ rank s ≤ b) ⟨hp, hb.le⟩ ht' fun u _ _ a ha hu => ?_
      exact (hstep u a ha hu.1).imp id fun h => ⟨h.1, h.2.1.trans hu.2⟩
    cases hstays with
    | inl hat =>
      cases hhelp with
      | inl hhelp =>
        obtain ⟨a, ha, hhelp⟩ := hhelp
        cases hstep t' a ha hat.1 with
        | inl h => exact ⟨t' + 1, by omega, h⟩
        | inr h =>
          obtain ⟨t2, h2, hq⟩ := ih _ ((h.2.2 hhelp).trans_le hat.2) (t' + 1) rfl h.1
          exact ⟨t2, by omega, hq⟩
      | inr hno => exact absurd hat.1 hno
    | inr h => exact h

/-- In a run some agent is always in charge, with a rank that no other agent's action changes and
that its own lowers, unless the action ends in `Q`. When an agent in charge acts sometime, the
run comes to `Q`. -/
theorem leadsTo_of_charge {ι β : Type} [Preorder β] [WellFoundedLT β] (agent : α → Option ι)
    (Charged : σ → ι → β → Prop) (t0 : ℕ)
    (hfair : ∀ t g b, Charged (ρ.st t) g b →
      ∃ t' ≥ t, (∃ a ∈ ρ.act t', agent a = some g) ∨ ∀ b', ¬ Charged (ρ.st t') g b')
    (hstep : ∀ t ≥ t0, ∀ a, ρ.act t = some a → ∀ g b, Charged (ρ.st t) g b → Q (ρ.st (t + 1)) ∨
      (∃ g' b', b' < b ∧ Charged (ρ.st (t + 1)) g' b') ∨
        agent a ≠ some g ∧ Charged (ρ.st (t + 1)) g b)
    {t : ℕ} (ht : t0 ≤ t) {g : ι} {b : β} (h : Charged (ρ.st t) g b) :
    ∃ t' ≥ t, Q (ρ.st t') := by
  induction b using WellFoundedLT.induction generalizing t g with
  | ind b ih =>
    obtain ⟨t', ht', hend⟩ := hfair t g b h
    have hstays : Charged (ρ.st t') g b ∨
        ∃ u ≥ t, Q (ρ.st u) ∨ ∃ g' b', b' < b ∧ Charged (ρ.st u) g' b' := by
      refine stays_until (P := fun s => Charged s g b)
        (Q := fun s => Q s ∨ ∃ g' b', b' < b ∧ Charged s g' b') h ht' fun u hu _ a ha hc => ?_
      rcases hstep u (ht.trans hu) a ha g b hc with hq | hlow | ⟨-, hsame⟩
      · exact .inl (.inl hq)
      · exact .inl (.inr hlow)
      · exact .inr hsame
    have hlower : ∀ u ≥ t, (∃ g' b', b' < b ∧ Charged (ρ.st u) g' b') → ∃ t' ≥ t, Q (ρ.st t') := by
      rintro u hu ⟨g', b', hb, hc⟩
      obtain ⟨t'', h'', hq⟩ := ih b' hb (ht.trans hu) hc
      exact ⟨t'', hu.trans h'', hq⟩
    rcases hstays with hat | ⟨u, hu, hq | hlow⟩
    · rcases hend with ⟨a, ha, hagent⟩ | hno
      · rcases hstep t' (ht.trans ht') a ha g b hat with hq | hlow | ⟨hne, -⟩
        · exact ⟨t' + 1, by omega, hq⟩
        · exact hlower (t' + 1) (by omega) hlow
        · exact absurd hagent hne
      · exact absurd hat (hno b)
    · exact ⟨u, hu, hq⟩
    · exact hlower u hu hlow

theorem exists_ends {t t' : ℕ} (ht : t ≤ t') (hp : P (ρ.st t)) (hn : ¬ P (ρ.st t')) :
    ∃ u ≥ t, u < t' ∧ P (ρ.st u) ∧ ¬ P (ρ.st (u + 1)) ∧ ∃ a, ρ.act u = some a := by
  induction t', ht using Nat.le_induction with
  | base => exact absurd hp hn
  | succ m hm ih =>
    by_cases h : P (ρ.st m)
    · refine ⟨m, hm, Nat.lt_succ_self m, h, hn, ?_⟩
      cases ha : ρ.act m with
      | none => exact absurd (ρ.next_of_pause ha ▸ h) hn
      | some a => exact ⟨a, rfl⟩
    · obtain ⟨u, hu, hlt, hrest⟩ := ih h
      exact ⟨u, hu, by omega, hrest⟩

/-- The run from some time on. -/
def drop (ρ : Run step) (t : ℕ) : Run step where
  st n := ρ.st (t + n)
  act n := ρ.act (t + n)
  next n := ρ.next (t + n)

/-- The run that replays a list of actions and then pauses. -/
def ofReplay (s : σ) (acts : List α) {e : σ} (h : acts.foldlM step s = some e) : Run step where
  st t := ((acts.take t).foldlM step s).getD s
  act t := acts[t]?
  next t := by
    have hpre : ∀ n, ∃ u, (acts.take n).foldlM step s = some u := by
      intro n
      rw [← List.take_append_drop n acts, List.foldlM_append] at h
      obtain ⟨u, hu, -⟩ := Option.bind_eq_some_iff.mp h
      exact ⟨u, hu⟩
    obtain ⟨u, hu⟩ := hpre t
    obtain ⟨v, hv⟩ := hpre (t + 1)
    rw [List.take_add_one, List.foldlM_append, hu] at hv
    rw [List.take_add_one, List.foldlM_append, hu]
    cases hacts : acts[t]? with
    | none => rfl
    | some a =>
      rw [hacts] at hv
      simp only [Option.toList_some, List.foldlM_cons, List.foldlM_nil, Option.bind_eq_bind,
        Option.bind_some, bind_pure] at hv ⊢
      simp [hv]

@[simp] theorem ofReplay_zero {s e : σ} {acts : List α} (h : acts.foldlM step s = some e) :
    (ofReplay s acts h).st 0 = s := rfl

theorem ofReplay_end {s e : σ} {acts : List α} (h : acts.foldlM step s = some e) {t : ℕ}
    (ht : acts.length ≤ t) : (ofReplay s acts h).st t = e := by
  simp [ofReplay, List.take_of_length_le ht, h]

end Run

end Transitions
