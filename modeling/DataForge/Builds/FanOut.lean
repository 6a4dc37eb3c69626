import DataForge.Builds.Scheduler
import Mathlib.Data.List.Induction

/-!
# Outcomes of a trigger

The builds of one trigger report to their schedule in any order and any number of times; the row
lock of `apply_schedule_run_reconciliation` makes these reports one sequence. The schedule
remembers one successful build and the latest failure, so the outcome of a trigger is well defined
exactly when at most one of its builds completes, and not before the success on record.
-/

namespace DataForge.Builds

/-- A trigger of a schedule: the row as `enqueue_schedule_run` finds it, and its builds once they
are terminal. -/
structure FanOut where
  args : EnqueueArgs
  before : Schedule
  builds : List (String × BuildRun)
  nonempty : builds ≠ []
  distinct : (builds.map Prod.fst).Nodup
  ended : ∀ b ∈ builds, b.2.status.isTerminal = true
  created : ∀ b ∈ builds, b.2.createdAt = args.stamp
  fresh : ∀ b ∈ builds, before.lastSuccessfulBuildId ≠ some b.1

/-- A reconciliation: a build and the time of the call. -/
abbrev Report := (String × BuildRun) × ℕ

/-- One `apply_schedule_run_reconciliation` on the row it has locked. -/
def reconcileOnce (p : Platform) (s : Schedule) (c : Report) : Schedule :=
  (applyReconciliation p c.1.1 c.1.2 c.2 s).getD s

/-- What a schedule records of the outcome of its builds. -/
def Schedule.outcome (s : Schedule) : Option ℕ × Option ℕ × Option String × Option ℕ :=
  (s.lastRun, s.lastSuccessAt, s.lastSuccessfulBuildId, s.lastFailureAt)

/-- An optional time that is no earlier than another. -/
def NoEarlier (a b : Option ℕ) : Prop := ∀ t, a = some t → ∃ t', b = some t' ∧ t ≤ t'

theorem NoEarlier.refl (a : Option ℕ) : NoEarlier a a := fun t h => ⟨t, h, Nat.le_refl t⟩

theorem NoEarlier.antisymm {a b : Option ℕ} (h : NoEarlier a b) (h' : NoEarlier b a) : a = b := by
  cases a with
  | none =>
    cases b with
    | none => rfl
    | some t =>
      obtain ⟨_, hnone, _⟩ := h' t rfl
      cases hnone
  | some t =>
    obtain ⟨t', rfl, hle⟩ := h t rfl
    obtain ⟨_, heq, hle'⟩ := h' t' rfl
    cases heq
    rw [Nat.le_antisymm hle hle']

namespace FanOut

variable (f : FanOut) (p : Platform)

/-- The row the trigger leaves. -/
def row : Schedule := triggeredSchedule f.args f.before

/-- The row after a sequence of reconciliations. -/
def after (calls : List Report) : Schedule := calls.foldl (reconcileOnce p) f.row

/-- Reconciliations of builds of this trigger. -/
def Calls (calls : List Report) : Prop := ∀ c ∈ calls, c.1 ∈ f.builds

/-- Reconciliations of builds of this trigger, at least one for each. -/
def Covers (calls : List Report) : Prop := f.Calls calls ∧ ∀ b ∈ f.builds, ∃ c ∈ calls, c.1 = b

/-- The outcome does not depend on the order and the number of reconciliations, none of them
moves a success backwards, and once every build is reconciled nothing changes any more. -/
def WellDefined : Prop :=
  (∀ σ σ', f.Covers σ → f.Covers σ' → (f.after p σ).outcome = (f.after p σ').outcome) ∧
  (∀ σ c, f.Calls (σ ++ [c]) →
    NoEarlier (f.after p σ).lastRun (f.after p (σ ++ [c])).lastRun ∧
      NoEarlier (f.after p σ).lastSuccessAt (f.after p (σ ++ [c])).lastSuccessAt) ∧
  (∀ σ σ', f.Covers σ → f.Calls σ' → f.after p (σ ++ σ') = f.after p σ)

/-- At most one build of the trigger completed, and not before the success on record. -/
def OneSuccess : Prop :=
  (∀ b ∈ f.builds, ∀ b' ∈ f.builds, b.2.status = .completed → b'.2.status = .completed →
    b = b') ∧
  ∀ b ∈ f.builds, b.2.status = .completed →
    NoEarlier f.before.lastRun (some b.2.settledAt) ∧
      NoEarlier f.before.lastSuccessAt (some b.2.settledAt)

variable {f p} {σ σ' : List Report} {c : Report} {s : Schedule}

theorem after_append : f.after p (σ ++ σ') = σ'.foldl (reconcileOnce p) (f.after p σ) :=
  List.foldl_append

theorem after_concat : f.after p (σ ++ [c]) = reconcileOnce p (f.after p σ) c := after_append

theorem eq_of_id {b b' : String × BuildRun} (hb : b ∈ f.builds) (hb' : b' ∈ f.builds)
    (h : b.1 = b'.1) : b = b' := List.inj_on_of_nodup_map f.distinct hb hb' h

/-- What is recorded after the reconciliations `σ`, if at most one build completed. -/
structure Recorded (f : FanOut) (σ : List Report) (s : Schedule) : Prop where
  triggered : s.lastTriggeredAt = some f.args.stamp
  released : σ ≠ [] → s.leaseOwner = none
  success : ∀ c ∈ σ, c.1.2.status = .completed → s.lastRun = some c.1.2.settledAt ∧
    s.lastSuccessAt = some c.1.2.settledAt ∧ s.lastSuccessfulBuildId = some c.1.1
  kept : (∀ c ∈ σ, c.1.2.status ≠ .completed) → s.lastRun = f.before.lastRun ∧
    s.lastSuccessAt = f.before.lastSuccessAt ∧
    s.lastSuccessfulBuildId = f.before.lastSuccessfulBuildId
  failed : ∀ c ∈ σ, c.1.2.status ≠ .completed →
    ∃ t, s.lastFailureAt = some t ∧ c.1.2.settledAt ≤ t
  failure : ∀ t, s.lastFailureAt = some t →
    ∃ c ∈ σ, c.1.2.status ≠ .completed ∧ c.1.2.settledAt = t

theorem recorded_nil : Recorded f [] f.row where
  triggered := rfl
  released h := absurd rfl h
  success _ hc := by cases hc
  kept _ := ⟨rfl, rfl, rfl⟩
  failed _ hc := by cases hc
  failure t h := by cases h

theorem applyReconciliation_eq (ht : s.lastTriggeredAt = some f.args.stamp)
    (hc : c.1 ∈ f.builds) : applyReconciliation p c.1.1 c.1.2 c.2 s =
      if s.leaseOwner = none ∧ alreadyApplied c.1.1 c.1.2 s then none
      else some (reconciledSchedule p c.1.1 c.1.2 c.2 s) := by
  unfold applyReconciliation
  rw [ht, f.created c.1 hc, if_neg (by simp)]

/-- A call that finds its outcome on record changes nothing, and there was none to add. -/
theorem Recorded.skip (hone : f.OneSuccess) (hσ : f.Calls (σ ++ [c])) (h : Recorded f σ s)
    (hlease : s.leaseOwner = none) (happlied : alreadyApplied c.1.1 c.1.2 s = true) :
    Recorded f (σ ++ [c]) s := by
  have hc : c.1 ∈ f.builds := hσ c (by simp)
  -- the success on record is that of a build of this trigger
  have hsuccess (hst : c.1.2.status = .completed) : ∃ d ∈ σ, d.1 = c.1 := by
    rw [alreadyApplied, if_pos hst, decide_eq_true_eq] at happlied
    by_contra hnone
    have hkept := h.kept fun d hd hdst => hnone ⟨d, hd,
      hone.1 d.1 (hσ d (List.mem_append_left _ hd)) c.1 hc hdst hst⟩
    exact f.fresh c.1 hc (hkept.2.2 ▸ happlied)
  refine ⟨h.triggered, fun _ => hlease, ?_, ?_, ?_, ?_⟩
  · intro d hd hst
    rcases List.mem_append.mp hd with hd | hd
    · exact h.success d hd hst
    · obtain rfl := List.mem_singleton.mp hd
      obtain ⟨e, he, hec⟩ := hsuccess hst
      rw [← hec]
      exact h.success e he (hec ▸ hst)
  · intro hnone
    exact h.kept fun d hd => hnone d (List.mem_append_left _ hd)
  · intro d hd hst
    rcases List.mem_append.mp hd with hd | hd
    · exact h.failed d hd hst
    · obtain rfl := List.mem_singleton.mp hd
      rw [alreadyApplied, if_neg hst, Option.any_eq_true] at happlied
      obtain ⟨t, ht, hle⟩ := happlied
      exact ⟨t, ht, of_decide_eq_true hle⟩
  · intro t ht
    obtain ⟨d, hd, hst, heq⟩ := h.failure t ht
    exact ⟨d, List.mem_append_left _ hd, hst, heq⟩

theorem Recorded.complete (hone : f.OneSuccess) (hσ : f.Calls (σ ++ [c])) (h : Recorded f σ s)
    (hst : c.1.2.status = .completed) :
    Recorded f (σ ++ [c]) (reconciledSchedule p c.1.1 c.1.2 c.2 s) := by
  have hc : c.1 ∈ f.builds := hσ c (by simp)
  unfold reconciledSchedule
  rw [if_pos hst]
  refine ⟨h.triggered, fun _ => rfl, ?_, ?_, ?_, ?_⟩
  · intro d hd hdst
    rw [hone.1 d.1 (hσ d hd) c.1 hc hdst hst]
    exact ⟨rfl, rfl, rfl⟩
  · intro hnone
    exact absurd hst (hnone c (by simp))
  · intro d hd hdst
    rcases List.mem_append.mp hd with hd | hd
    · exact h.failed d hd hdst
    · obtain rfl := List.mem_singleton.mp hd
      exact absurd hst hdst
  · intro t ht
    obtain ⟨d, hd, hdst, heq⟩ := h.failure t ht
    exact ⟨d, List.mem_append_left _ hd, hdst, heq⟩

theorem Recorded.fail (h : Recorded f σ s) (hst : c.1.2.status ≠ .completed)
    (hlater : ∀ t, s.lastFailureAt = some t → t < c.1.2.settledAt) :
    Recorded f (σ ++ [c]) (reconciledSchedule p c.1.1 c.1.2 c.2 s) := by
  unfold reconciledSchedule
  rw [if_neg hst]
  refine ⟨h.triggered, fun _ => rfl, ?_, ?_, ?_, ?_⟩
  · intro d hd hdst
    rcases List.mem_append.mp hd with hd | hd
    · exact h.success d hd hdst
    · obtain rfl := List.mem_singleton.mp hd
      exact absurd hdst hst
  · intro hnone
    exact h.kept fun d hd => hnone d (List.mem_append_left _ hd)
  · intro d hd hdst
    refine ⟨c.1.2.settledAt, rfl, ?_⟩
    rcases List.mem_append.mp hd with hd | hd
    · obtain ⟨t, ht, hle⟩ := h.failed d hd hdst
      exact hle.trans (hlater t ht).le
    · obtain rfl := List.mem_singleton.mp hd
      exact Nat.le_refl _
  · intro t ht
    exact ⟨c, by simp, hst, Option.some.inj ht⟩

theorem Recorded.step (hone : f.OneSuccess) (hσ : f.Calls (σ ++ [c])) (h : Recorded f σ s) :
    Recorded f (σ ++ [c]) (reconcileOnce p s c) := by
  have hc : c.1 ∈ f.builds := hσ c (by simp)
  unfold reconcileOnce
  rw [applyReconciliation_eq h.triggered hc]
  split
  · next hskip => exact h.skip hone hσ hskip.1 hskip.2
  · next happly =>
    by_cases hst : c.1.2.status = .completed
    · exact h.complete hone hσ hst
    · refine h.fail hst fun t ht => ?_
      by_contra hle
      refine happly ⟨h.released fun hnil => ?_, ?_⟩
      · -- before the first call no failure is on record
        obtain ⟨d, hd, -⟩ := h.failure t ht
        rw [hnil] at hd
        cases hd
      · rw [alreadyApplied, if_neg hst, ht]
        simpa using hle

theorem recorded (hone : f.OneSuccess) (hσ : f.Calls σ) : Recorded f σ (f.after p σ) := by
  induction σ using List.reverseRecOn with
  | nil => exact recorded_nil
  | append_singleton σ c ih =>
    rw [after_concat]
    exact (ih fun d hd => hσ d (List.mem_append_left _ hd)).step hone hσ

theorem Recorded.failure_le {s s' : Schedule} (hσ : f.Calls σ) (hσ' : f.Covers σ')
    (h : Recorded f σ s) (h' : Recorded f σ' s') : NoEarlier s.lastFailureAt s'.lastFailureAt := by
  intro t ht
  obtain ⟨d, hd, hst, rfl⟩ := h.failure t ht
  obtain ⟨e, he, hde⟩ := hσ'.2 d.1 (hσ d hd)
  rw [← hde]
  exact h'.failed e he (hde ▸ hst)

/-- Records of the same builds are the same. -/
theorem Recorded.outcome_eq {s s' : Schedule} (hσ : f.Covers σ)
    (hσ' : f.Covers σ') (h : Recorded f σ s) (h' : Recorded f σ' s') : s.outcome = s'.outcome := by
  have hmem {σ σ' : List Report} (hσ : f.Covers σ) (hσ' : f.Covers σ') {d : Report} (hd : d ∈ σ) :
      ∃ e ∈ σ', e.1 = d.1 := hσ'.2 d.1 (hσ.1 d hd)
  have hfailure : s.lastFailureAt = s'.lastFailureAt :=
    (h.failure_le hσ.1 hσ' h').antisymm (h'.failure_le hσ'.1 hσ h)
  by_cases hdone : ∃ d ∈ σ, d.1.2.status = .completed
  · obtain ⟨d, hd, hst⟩ := hdone
    obtain ⟨e, he, hde⟩ := hmem hσ hσ' hd
    obtain ⟨h1, h2, h3⟩ := h.success d hd hst
    obtain ⟨h1', h2', h3'⟩ := h'.success e he (hde ▸ hst)
    rw [Schedule.outcome, Schedule.outcome, h1, h2, h3, h1', h2', h3', hde, hfailure]
  · have hnone (d) (hd : d ∈ σ) : d.1.2.status ≠ .completed := fun hst => hdone ⟨d, hd, hst⟩
    have hnone' (d) (hd : d ∈ σ') : d.1.2.status ≠ .completed := by
      obtain ⟨e, he, hde⟩ := hmem hσ' hσ hd
      rw [← hde]
      exact hnone e he
    obtain ⟨h1, h2, h3⟩ := h.kept hnone
    obtain ⟨h1', h2', h3'⟩ := h'.kept hnone'
    rw [Schedule.outcome, Schedule.outcome, h1, h2, h3, h1', h2', h3', hfailure]

theorem Recorded.idempotent (hσ : f.Covers σ) (h : Recorded f σ s) (hc : c.1 ∈ f.builds) :
    reconcileOnce p s c = s := by
  obtain ⟨d, hd, hdc⟩ := hσ.2 c.1 hc
  have hlease : s.leaseOwner = none := h.released (List.ne_nil_of_mem hd)
  have happlied : alreadyApplied c.1.1 c.1.2 s = true := by
    unfold alreadyApplied
    split
    · next hst =>
      obtain ⟨-, -, hid⟩ := h.success d hd (hdc ▸ hst)
      rw [hid, hdc]
      simp
    · next hst =>
      obtain ⟨t, ht, hle⟩ := h.failed d hd (hdc ▸ hst)
      rw [ht, ← hdc]
      simpa using hle
  rw [reconcileOnce, applyReconciliation_eq h.triggered hc, if_pos ⟨hlease, happlied⟩]
  rfl

/-- A call moves no success backwards. -/
theorem Recorded.forward (hone : f.OneSuccess) (hσ : f.Calls (σ ++ [c])) (h : Recorded f σ s) :
    NoEarlier s.lastRun (reconcileOnce p s c).lastRun ∧
      NoEarlier s.lastSuccessAt (reconcileOnce p s c).lastSuccessAt := by
  have h' := h.step (p := p) hone hσ
  by_cases hdone : ∃ d ∈ σ, d.1.2.status = .completed
  · obtain ⟨d, hd, hst⟩ := hdone
    obtain ⟨h1, h2, -⟩ := h.success d hd hst
    obtain ⟨h1', h2', -⟩ := h'.success d (List.mem_append_left _ hd) hst
    rw [h1, h2, h1', h2']
    exact ⟨.refl _, .refl _⟩
  · obtain ⟨h1, h2, -⟩ := h.kept fun d hd hst => hdone ⟨d, hd, hst⟩
    rw [h1, h2]
    by_cases hst : c.1.2.status = .completed
    · obtain ⟨h1', h2', -⟩ := h'.success c (by simp) hst
      rw [h1', h2']
      exact hone.2 c.1 (hσ c (by simp)) hst
    · have hnone (d) (hd : d ∈ σ ++ [c]) : d.1.2.status ≠ .completed := by
        rcases List.mem_append.mp hd with hd | hd
        · exact fun hdst => hdone ⟨d, hd, hdst⟩
        · obtain rfl := List.mem_singleton.mp hd
          exact hst
      obtain ⟨h1', h2', -⟩ := h'.kept hnone
      rw [h1', h2']
      exact ⟨.refl _, .refl _⟩

theorem wellDefined_of_oneSuccess (hone : f.OneSuccess) : f.WellDefined p := by
  refine ⟨?_, ?_, ?_⟩
  · intro σ σ' hσ hσ'
    exact (recorded hone hσ.1).outcome_eq hσ hσ' (recorded hone hσ'.1)
  · intro σ c hσ
    rw [after_concat]
    exact (recorded hone fun d hd => hσ d (List.mem_append_left _ hd)).forward hone hσ
  · intro σ σ' hσ hσ'
    rw [after_append]
    induction σ' with
    | nil => rfl
    | cons c rest ih =>
      rw [List.foldl_cons, (recorded hone hσ.1).idempotent hσ (hσ' c List.mem_cons_self)]
      exact ih fun d hd => hσ' d (List.mem_cons_of_mem _ hd)

theorem after_lastTriggeredAt : (f.after p σ).lastTriggeredAt = some f.args.stamp := by
  induction σ using List.reverseRecOn with
  | nil => rfl
  | append_singleton σ c ih =>
    rw [after_concat, reconcileOnce]
    unfold applyReconciliation reconciledSchedule
    split
    · exact ih
    · split
      · exact ih
      · by_cases hst : c.1.2.status = .completed
        · simpa [hst] using ih
        · simpa [hst] using ih

theorem after_completed (hc : c.1 ∈ f.builds) (hst : c.1.2.status = .completed) :
    (f.after p (σ ++ [c])).lastSuccessfulBuildId = some c.1.1 := by
  rw [after_concat, reconcileOnce, applyReconciliation_eq after_lastTriggeredAt hc]
  split
  · next happlied =>
    have hrow := happlied.2
    rw [alreadyApplied, if_pos hst, decide_eq_true_eq] at hrow
    exact hrow
  · simp [reconciledSchedule, hst]

/-- The outcome of a trigger is well defined exactly when at most one of its builds completed,
and not before the success on record. -/
theorem wellDefined_iff_oneSuccess (f : FanOut) (p : Platform) :
    f.WellDefined p ↔ f.OneSuccess := by
  refine ⟨fun h => ⟨?_, ?_⟩, wellDefined_of_oneSuccess⟩
  · intro b hb b' hb' hst hst'
    -- the completed build that reports last is on record
    have hcovers {σ : List Report} (hσ : f.Calls σ) : f.Covers (f.builds.map (·, 0) ++ σ) := by
      refine ⟨fun d hd => ?_, fun d hd => ?_⟩
      · rcases List.mem_append.mp hd with hd | hd
        · obtain ⟨e, he, rfl⟩ := List.mem_map.mp hd
          exact he
        · exact hσ d hd
      · exact ⟨(d, 0), List.mem_append_left _ (List.mem_map.mpr ⟨d, hd, rfl⟩), rfl⟩
    have hlast {d : String × BuildRun} (hd : d ∈ f.builds) : f.Calls [(d, 0)] :=
      fun e he => by rw [List.mem_singleton.mp he]; exact hd
    have heq := h.1 _ _ (hcovers (hlast hb)) (hcovers (hlast hb'))
    have hid := congrArg (fun o => o.2.2.1) heq
    simp only [Schedule.outcome, after_completed (c := (b, 0)) hb hst,
      after_completed (c := (b', 0)) hb' hst', Option.some.injEq] at hid
    exact eq_of_id hb hb' hid
  · intro b hb hst
    have hcalls : f.Calls ([] ++ [(b, 0)]) := fun e he => by
      rw [List.mem_singleton.mp he]
      exact hb
    have hforward := h.2.1 [] (b, 0) hcalls
    have hfirst : f.after p ([] ++ [(b, 0)]) = reconciledSchedule p b.1 b.2 0 f.row := by
      rw [after_concat, reconcileOnce, applyReconciliation_eq after_lastTriggeredAt hb, if_neg]
      · rfl
      · rintro ⟨-, happlied⟩
        rw [alreadyApplied, if_pos hst, decide_eq_true_eq] at happlied
        exact f.fresh b hb happlied
    rw [hfirst] at hforward
    simp only [reconciledSchedule, if_pos hst] at hforward
    exact hforward

/-- A build of the trigger at time 1 that ended at `t`. -/
def sampleBuildAt (status : BuildRunStatus) (t : ℕ) : BuildRun :=
  { ns := "n"
    scheduleId := some "s"
    analysisId := "a"
    analysisName := "a"
    status
    requestJson := ""
    starterJson := ""
    createdAt := 1
    startedAt := 1
    completedAt := some t
    updatedAt := t }

/-- A trigger whose two builds both complete. -/
def sample : FanOut where
  args := ⟨"s", "w", "t", 1, 1, fun _ => "", fun _ => "", id⟩
  before := { datasourceId := "d", cronExpression := "", enabled := true, createdAt := 0 }
  builds := [("a", sampleBuildAt .completed 2), ("b", sampleBuildAt .completed 3)]
  nonempty := List.cons_ne_nil _ _
  distinct := by decide
  ended := by simp [sampleBuildAt, BuildRunStatus.isTerminal]
  created := by simp [sampleBuildAt]
  fresh := by simp

/-- The builds of `sample` report in this order. -/
def sampleReports (order : List (String × BuildRun)) : List Report := order.map (·, 4)

/-- Which of two completed builds is on record depends on the order of their reports. -/
theorem two_successes_not_wellDefined :
    ¬sample.WellDefined ⟨fun _ => 0, fun _ t => t + 1, 300⟩ := by
  rintro ⟨horder, -⟩
  have hcovers (order : List (String × BuildRun)) (h : order.Perm sample.builds) :
      sample.Covers (sampleReports order) := by
    refine ⟨fun c hc => ?_, fun b hb => ?_⟩
    · obtain ⟨b, hb, rfl⟩ := List.mem_map.mp hc
      exact h.mem_iff.mp hb
    · exact ⟨(b, 4), List.mem_map.mpr ⟨b, h.mem_iff.mpr hb, rfl⟩, rfl⟩
  have heq := horder _ _ (hcovers _ (.refl _)) (hcovers _ (List.reverse_perm _))
  revert heq
  decide

end FanOut
end DataForge.Builds
