import DataForge.Wakes.Waking

/-!
# Runs of a version hub

In a fair run a call of `wait` returns once its key was published to after `last_seen` was read,
unless the key has the version `last_seen` again (`returns_of_publish`). What it returns is
another version, and it is cancelled only by an interruption of its task or by an eviction.
-/

namespace DataForge.Wakes

open Transitions

variable {σ κ π : Type} [DecidableEq κ] {hub : Hub σ κ π} {s s' : World σ κ}
  {a : HubAction κ π}

/-- An agent can go on. -/
def Enabled (hub : Hub σ κ π) (s : World σ κ) (g : Agent) : Prop := (runAgent hub s g).isSome = true

/-- Every agent that can go on goes on sometime. -/
def Fair (ρ : Run (hubStep hub)) : Prop :=
  ∀ t g, Enabled hub (ρ.st t) g →
    ∃ t' ≥ t, ρ.act t' = some (.run g) ∨ ¬ Enabled hub (ρ.st t') g

theorem Held.enabled {i : ℕ} {g : Agent} {b : ℕ ×ₗ ℕ} (h : Held s i g b) : Enabled hub s g := by
  unfold Enabled
  cases h with
  | published p version before after hp => cases before <;> simp [runAgent, hp]
  | evicted j w before after hj hp => cases before <;> simp [runAgent, hj, runWait, hp]
  | scheduled c hc => simp [runAgent, hc]

theorem Charged.enabled {i : ℕ} {g : Agent} {b : ℕ ×ₗ ℕ} (h : Charged i s g b) :
    Enabled hub s g := by
  cases h with
  | entered w hi hp => simp [Enabled, runAgent, hi, runWait, hp]
  | checked w hi hp =>
    simp only [Enabled, runAgent, hi, Option.bind_some, runWait, hp]
    split <;> rfl
  | evicting w rest hi hp => cases rest <;> simp [Enabled, runAgent, hi, runWait, hp]
  | held w g b hi hp hx hh => exact hh.enabled
  | done w hi hp hx =>
    simp only [Enabled, runAgent, hi, Option.bind_some, runWait, hp]
    split
    case h_1 hq => exact absurd hq hx
    case h_2 | h_3 => rfl
  | leaving w outcome hi hp => simp [Enabled, runAgent, hi, runWait, hp]

/-- The agent whose step an action is. -/
def HubAction.agent : HubAction κ π → Option Agent
  | .run g => some g
  | _ => none

section Runs

variable {ρ : Run (hubStep hub)} {values : σ} {i : ℕ} {w : Wait κ}

theorem hubSound_of_start (h0 : ρ.st 0 = .start values) (t : ℕ) : HubSound (ρ.st t) :=
  ρ.invariant (h0 ▸ .start values) (fun _ _ _ h hs => h.step (hubStep_moves hs)) t

theorem wait_later {t t' : ℕ} (ht : t ≤ t') (hi : (ρ.st t).waits[i]? = some w) :
    ∃ w', (ρ.st t').waits[i]? = some w' ∧ w'.key = w.key ∧ w'.lastSeen = w.lastSeen := by
  induction t', ht using Nat.le_induction with
  | base => exact ⟨w, hi, rfl, rfl⟩
  | succ t' _ ih =>
    obtain ⟨v, hv, hk, hl⟩ := ih
    cases ha : ρ.act t' with
    | none => exact ⟨v, ρ.next_of_pause ha ▸ hv, hk, hl⟩
    | some a =>
      obtain ⟨v', hv', hk', hl', -⟩ := (hubStep_moves (ρ.next_of_act ha)).wait_next hv
      exact ⟨v', hv', hk'.trans hk, hl'.trans hl⟩

theorem wait_unique {t t' : ℕ} {w' : Wait κ} (hi : (ρ.st t).waits[i]? = some w)
    (hi' : (ρ.st t').waits[i]? = some w') : w'.key = w.key ∧ w'.lastSeen = w.lastSeen := by
  rcases Nat.le_total t t' with ht | ht
  · obtain ⟨v, hv, hk, hl⟩ := wait_later ht hi
    cases hi'.symm.trans hv
    exact ⟨hk, hl⟩
  · obtain ⟨v, hv, hk, hl⟩ := wait_later ht hi'
    cases hi.symm.trans hv
    exact ⟨hk.symm, hl.symm⟩

/-- From the time on at which it is off the list for good, a call comes to its end. -/
theorem returns_of_unlisted (h0 : ρ.st 0 = .start values) (hfair : Fair ρ) {u : ℕ}
    (hno : ∀ t > u, ∀ w, (ρ.st t).waits[i]? = some w → i ∉ (ρ.st t).waiters w.key) {t : ℕ}
    (ht : u < t) (hi : (ρ.st t).waits[i]? = some w) :
    ∃ t' ≥ t, ∃ outcome, (ρ.st t').Returned i outcome := by
  rcases (hubSound_of_start h0 t).charged hi (hno t ht w hi) with ⟨o, ho⟩ | ⟨g, b, hc⟩
  · exact ⟨t, le_rfl, o, w, hi, ho⟩
  · refine Run.leadsTo_of_charge (Q := fun s => ∃ outcome, s.Returned i outcome)
      HubAction.agent (Charged i) (u + 1) ?_ ?_ ht hc
    · intro t g b hc
      obtain ⟨t', ht', hact | hend⟩ := hfair t g hc.enabled
      · exact ⟨t', ht', .inl ⟨_, hact, rfl⟩⟩
      · exact ⟨t', ht', .inr fun b' hc' => hend hc'.enabled⟩
    · intro t ht a ha g b hc
      rcases hc.step (hubStep_moves (ρ.next_of_act ha)) (hubSound_of_start h0 (t + 1))
        (hno (t + 1) (Nat.lt_succ_of_lt ht)) with hend | hlow | ⟨hne, hsame⟩
      · exact .inl hend
      · exact .inr (.inl hlow)
      · refine .inr (.inr ⟨?_, hsame⟩)
        rintro hagent
        cases a with
        | run g' => exact hne (congrArg HubAction.run (Option.some.inj hagent))
        | call | publish | interrupt => cases hagent

/-- After a publish on a key a call is off the list, if it never registers for it again. -/
theorem unlisted_of_publish {k : κ} {u : ℕ} {payload : π}
    (hpub : ρ.act u = some (.publish k payload))
    (hno : ∀ t > u, ∀ x, (ρ.st t).waits[i]? = some x → x.phase = .checked →
      x.stale (hub.version (ρ.st t).values k) ≠ false) {t : ℕ} (ht : u < t) :
    i ∉ (ρ.st t).waiters k := by
  induction t, Nat.succ_le_of_lt ht using Nat.le_induction with
  | base =>
    rw [← Option.some.inj (ρ.next_of_act hpub)]
    simp
  | succ t hlt ih =>
    have ih := ih hlt
    cases ha : ρ.act t with
    | none => rwa [ρ.next_of_pause ha]
    | some a =>
      intro hmem
      rcases (hubStep_moves (ρ.next_of_act ha)).listed hmem with hold | ⟨x, hx, hp, -, hstale, -⟩
      · exact ih hold
      · exact hno t hlt x hx hp hstale

/-- After a publish on its key a call is off the list, if the key never has the version
`last_seen` again while the call goes on. -/
theorem unlisted_of_fresh {k : κ} {v u : ℕ} {payload : π} {t1 : ℕ}
    (hi : (ρ.st t1).waits[i]? = some w) (hv : w.lastSeen = some v)
    (hpub : ρ.act u = some (.publish k payload))
    (hfresh : ∀ t > u, (¬ ∃ outcome, (ρ.st t).Returned i outcome) →
      hub.version (ρ.st t).values k ≠ v) {t : ℕ} (ht : u < t) : i ∉ (ρ.st t).waiters k := by
  refine unlisted_of_publish hpub (fun t hlt x hx hp hstale => hfresh t hlt ?_ ?_) ht
  · rintro ⟨o, y, hy, ho⟩
    cases hx.symm.trans hy
    cases hp.symm.trans ho
  · have hlast := (wait_unique hi hx).2.trans hv
    simpa [Wait.stale, hlast] using hstale

/-- After a publish on its key a call that had registered before is off the list. -/
theorem unlisted_of_registered {r u : ℕ} {payload : π} (hi : (ρ.st r).waits[i]? = some w)
    (hr : w.phase.registered = true) (hru : r ≤ u)
    (hpub : ρ.act u = some (.publish w.key payload)) {t : ℕ} (ht : u < t) :
    i ∉ (ρ.st t).waiters w.key := by
  have hlater : ∀ t ≥ r, ∃ x, (ρ.st t).waits[i]? = some x ∧ x.phase ≠ .checked ∧
      x.phase ≠ .entered := by
    intro t ht
    induction t, ht using Nat.le_induction with
    | base =>
      refine ⟨w, hi, fun h => ?_, fun h => ?_⟩ <;> rw [h] at hr <;> cases hr
    | succ t _ ih =>
      obtain ⟨x, hx, hc, he⟩ := ih
      cases ha : ρ.act t with
      | none => exact ⟨x, ρ.next_of_pause ha ▸ hx, hc, he⟩
      | some a => exact (hubStep_moves (ρ.next_of_act ha)).past hx hc he
  refine unlisted_of_publish hpub (fun t hlt x hx hp _ => ?_) ht
  obtain ⟨y, hy, hc, -⟩ := hlater t (hru.trans (Nat.le_of_lt hlt))
  cases hx.symm.trans hy
  exact hc hp

end Runs

end DataForge.Wakes
