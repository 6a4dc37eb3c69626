import DataForge.Builds.Safety

/-!
# Reconciliation of schedules

`apply_schedule_run_reconciliation` recognises the trigger of a build by its creation time and
takes a lease that is present for its own. A claim is therefore safe from older builds only once
it has been enqueued, and while the clocks of the enqueuing hosts advance.
-/

namespace DataForge.Builds

open ReadCommitted DataForge.Runtime

/-- If the build has ended and its schedule is claimed and has not been triggered after the build
was created, then the current claim of the schedule has been enqueued. -/
def EnqueuedFirst (db : Db Tables) (ns buildId : String) : Prop :=
  ∀ r ∈ runAt db ns buildId, r.status.isTerminal = true → ∀ sid ∈ r.scheduleId,
    ∀ row ∈ scheduleAt db ns sid, row.leaseOwner ≠ none →
      row.lastTriggeredAt.all (· ≤ r.createdAt) = true →
        ∃ x ∈ (db.tenants ns).runs.rows, x.2.scheduleId = some sid ∧
          x.2.origin.map Origin.generation = some row.leaseGeneration

/-- Triggers of a schedule have increasing stamps, and a reconciliation meets only claims that
have been enqueued. -/
def InTime : Op → BuildWorld → Prop
  | .enqueueScheduleRun ns args, w => ∀ row ∈ scheduleAt w.db ns args.scheduleId,
      row.lastTriggeredAt.all (· < args.stamp) = true
  | .reconcileScheduleRun ns buildId _, w => EnqueuedFirst w.db ns buildId
  | .reconcilePendingScheduleRuns ns _ _, w =>
      ∀ x ∈ (w.db.tenants ns).runs.rows, EnqueuedFirst w.db ns x.1
  | _, _ => True

instance (db : Db Tables) (ns buildId : String) : Decidable (EnqueuedFirst db ns buildId) :=
  @Option.decidableForallMem _ _ (fun _ => @instDecidableForall _ _ _
    (@Option.decidableForallMem _ _ (fun _ => @Option.decidableForallMem _ _
      (fun _ => @instDecidableForall _ _ _ (@instDecidableForall _ _ _ inferInstance)) _) _)) _

instance (op : Op) (w : BuildWorld) : Decidable (InTime op w) :=
  match op with
  | .enqueueScheduleRun ns args => inferInstanceAs (Decidable (∀ row ∈ scheduleAt w.db ns
      args.scheduleId, row.lastTriggeredAt.all (· < args.stamp) = true))
  | .reconcileScheduleRun ns buildId _ =>
    inferInstanceAs (Decidable (EnqueuedFirst w.db ns buildId))
  | .reconcilePendingScheduleRuns ns _ _ => inferInstanceAs
    (Decidable (∀ x ∈ (w.db.tenants ns).runs.rows, EnqueuedFirst w.db ns x.1))
  | .startBuild .. | .claimNextJob .. | .renewJobLease .. | .startBuildRun ..
  | .markBuildRunning .. | .appendBuildEvent .. | .persistBuildEvent .. | .failBuildJob ..
  | .finalizeBuildJob .. | .cancelBuild .. | .reconcileExpiredBuildJobs .. | .createSchedule ..
  | .updateSchedule .. | .deleteSchedule .. | .claimDueSchedules ..
  | .markScheduleEnqueueFailed .. | .finishScheduleWorkScan .. | .otherWork .. => isTrue trivial

theorem InTime.enqueuedFirst {op : Op} {w : BuildWorld} {ns x : String} (h : InTime op w)
    (hop : op.reconciles ns x) : EnqueuedFirst w.db ns x := by
  cases op with
  | reconcileScheduleRun ns' buildId now =>
    obtain ⟨rfl, rfl⟩ := hop
    exact h
  | reconcilePendingScheduleRuns ns' limit now =>
    have hns : ns' = ns := hop
    subst hns
    intro r hr
    exact h (x, r) ((Table.mem_rows_iff _ _ _).mpr hr) r hr
  | _ => exact hop.elim

/-- The runs of a schedule belong to its claims so far, were created at its last trigger at the
latest, and in the order of their claims. -/
structure InOrder (w : BuildWorld) : Prop where
  past : ∀ ns sid id r, runAt w.db ns id = some r → r.scheduleId = some sid →
    ∃ row o t, scheduleAt w.db ns sid = some row ∧ r.origin = some o ∧
      o.generation ≤ row.leaseGeneration ∧ row.lastTriggeredAt = some t ∧ r.createdAt ≤ t
  ordered : ∀ ns sid id id' r r' o o', runAt w.db ns id = some r → runAt w.db ns id' = some r' →
    r.scheduleId = some sid → r'.scheduleId = some sid → r.origin = some o →
    r'.origin = some o' → o.generation < o'.generation → r.createdAt < r'.createdAt

/-- Every claim that a reconciliation released was the one its build was enqueued under. -/
def OwnReleases (w : BuildWorld) : Prop :=
  ∀ ns sid row x, scheduleAt w.db ns sid = some row → row.releasedBy = some x →
    ∃ r o, runAt w.db ns x = some r ∧ r.scheduleId = some sid ∧ r.origin = some o ∧
      row.leaseGeneration ≤ o.generation

section Acts

variable {p : Platform} {renews : Prop} {i : ℕ} {op : Op} {h : BuildLocks}
  {w : BuildWorld} {db : Db Tables}

private theorem Act.enqueue_inOrder (ha : Act p renews i op h w db) (hE : InTime op w)
    (hw : InOrder w) {ns id : String} {r : BuildRun} {args : EnqueueArgs}
    (hop : op = .enqueueScheduleRun ns args) (hr : runAt db ns id = some r)
    (hsid : r.scheduleId = some args.scheduleId) :
    (∃ o, r.origin = some o ∧ o.generation ≤ args.leaseGeneration ∧ r.createdAt < args.stamp) ∨
      (r.origin = some ⟨i, args.leaseGeneration⟩ ∧ r.createdAt = args.stamp) := by
  rcases ha.run_from hr with ⟨b, hb, hd⟩ | ⟨hb, -⟩
  · obtain ⟨row, o, t, hrow, ho, hgen, ht, hle⟩ :=
      hw.past ns _ id b hb (hd.scheduleId ▸ hsid)
    obtain ⟨s, henq⟩ := ha.enqueued ns args hop
    obtain rfl : s = row := Option.some.inj (henq.before.symm.trans hrow)
    have hstamp : t < args.stamp := by
      have hall := (hop ▸ hE : InTime (.enqueueScheduleRun ns args) w) s hrow
      simpa [ht] using hall
    obtain ⟨-, -, hcur, -⟩ := staleClaim_eq_false.mp henq.current
    refine Or.inl ⟨o, hd.origin.trans ho, hcur ▸ hgen, ?_⟩
    rw [hd.createdAt]
    omega
  · obtain ⟨args', -, hop', -, hat, horigin, -⟩ := ha.run_new hb hr hsid
    rw [hop] at hop'
    cases hop'
    exact Or.inr ⟨horigin, hat⟩

private theorem Act.run_old (ha : Act p renews i op h w db) {ns id sid : String} {r : BuildRun}
    (hop : ∀ args, op = .enqueueScheduleRun ns args → sid ≠ args.scheduleId)
    (hr : runAt db ns id = some r) (hsid : r.scheduleId = some sid) :
    ∃ b, runAt w.db ns id = some b ∧ Descends b r := by
  rcases ha.run_from hr with hold | ⟨hb, -⟩
  · exact hold
  · obtain ⟨args, -, hop', hid, -⟩ := ha.run_new hb hr hsid
    exact absurd hid.symm (hop args hop')

theorem Act.inOrder (ha : Act p renews i op h w db) (hE : InTime op w) (hw : InOrder w) :
    InOrder ⟨w.now, db⟩ := by
  have cases_on (ns sid : String) :
      (∃ args, op = .enqueueScheduleRun ns args ∧ sid = args.scheduleId) ∨
        ∀ args, op = .enqueueScheduleRun ns args → sid ≠ args.scheduleId := by
    by_cases hq : ∃ args, op = .enqueueScheduleRun ns args ∧ sid = args.scheduleId
    · exact Or.inl hq
    · exact Or.inr fun args hop hid => hq ⟨args, hop, hid⟩
  constructor
  · intro ns sid id r hr hsid
    rcases cases_on ns sid with ⟨args, hop, rfl⟩ | hop
    · obtain ⟨s, henq⟩ := ha.enqueued ns args hop
      obtain ⟨-, -, hcur, -⟩ := staleClaim_eq_false.mp henq.current
      rcases ha.enqueue_inOrder hE hw hop hr hsid with ⟨o, ho, hgen, hlt⟩ | ⟨ho, hat⟩
      · exact ⟨_, o, args.stamp, henq.after, ho, hcur ▸ hgen, rfl, hlt.le⟩
      · exact ⟨_, _, args.stamp, henq.after, ho, hcur.ge, rfl, hat.le⟩
    · obtain ⟨b, hb, hd⟩ := ha.run_old hop hr hsid
      obtain ⟨row, o, t, hrow, ho, hgen, ht, hle⟩ := hw.past ns sid id b hb (hd.scheduleId ▸ hsid)
      have hs := ha.schedule ns sid
      rw [hrow] at hs
      obtain ⟨row', hrow', hmono⟩ := hs.stays
      rw [hrow'] at hs
      exact ⟨row', o, t, hrow', hd.origin.trans ho, hgen.trans hmono,
        (hs.triggered hop).trans ht, hd.createdAt ▸ hle⟩
  · intro ns sid id id' r r' o o' hr hr' hsid hsid' ho ho' hlt
    rcases ha.run_from hr with ⟨b, hb, hd⟩ | ⟨hb, -⟩
    · rcases ha.run_from hr' with ⟨b', hb', hd'⟩ | ⟨hb', -⟩
      · rw [hd.createdAt, hd'.createdAt]
        exact hw.ordered ns sid id id' b b' o o' hb hb' (hd.scheduleId ▸ hsid)
          (hd'.scheduleId ▸ hsid') (hd.origin ▸ ho) (hd'.origin ▸ ho') hlt
      · obtain ⟨args, -, hop, rfl, hat, horigin, -⟩ := ha.run_new hb' hr' hsid'
        cases ho'.symm.trans horigin
        rcases ha.enqueue_inOrder hE hw hop hr hsid with ⟨-, -, -, hlt'⟩ | ⟨hsame, -⟩
        · exact hat ▸ hlt'
        · cases ho.symm.trans hsame
          exact absurd hlt (Nat.lt_irrefl _)
    · -- a new run has the current generation, which no run exceeds
      obtain ⟨args, -, hop, rfl, -, horigin, -⟩ := ha.run_new hb hr hsid
      cases ho.symm.trans horigin
      rcases ha.enqueue_inOrder hE hw hop hr' hsid' with ⟨o1, ho1, hgen, -⟩ | ⟨hsame, -⟩
      · cases ho'.symm.trans ho1
        exact absurd hgen (Nat.not_le_of_lt hlt)
      · cases ho'.symm.trans hsame
        exact absurd hlt (Nat.lt_irrefl _)

theorem Act.ownReleases (ha : Act p renews i op h w db) (hE : InTime op w) (ho : InOrder w)
    (hw : OwnReleases w) : OwnReleases ⟨w.now, db⟩ := by
  intro ns sid row' x hrow' hx
  replace hrow' : scheduleAt db ns sid = some row' := hrow'
  have hs := ha.schedule ns sid
  rcases ha.joint.released ns sid row' x hrow' hx with
    ⟨row, hrow, hx0⟩ | ⟨hop, r, hr, hterm, hsid, htrig⟩
  · -- released before: no claim since, or the row would have forgotten the build
    rw [hrow, hrow'] at hs
    have hgen : row'.leaseGeneration = row.leaseGeneration :=
      hs.generation.resolve_left (by rw [hx]; exact Option.some_ne_none _)
    obtain ⟨r, o, hr, hsid, horigin, hle⟩ := hw ns sid row x hrow hx0
    obtain ⟨r', hr', hd⟩ := ha.run_descends hr
    exact ⟨r', o, hr', hd.scheduleId.trans hsid, hd.origin.trans horigin, hgen ▸ hle⟩
  · have hrun : runAt w.db ns x = some r := by
      rw [← (ha.run ns x).reconciled hop]
      exact hr
    obtain ⟨row, o, t, hrow, horigin, -, ht, hcreated⟩ := ho.past ns sid x r hrun hsid
    rw [hrow, hrow'] at hs
    obtain ⟨hgen, htrig0, hcase⟩ := hs.reconciled hop
    have hall : row.lastTriggeredAt.all (· ≤ r.createdAt) = true := htrig0 ▸ htrig
    have old (hx0 : row.releasedBy = some x) : ∃ r o, runAt db ns x = some r ∧
        r.scheduleId = some sid ∧ r.origin = some o ∧ row'.leaseGeneration ≤ o.generation := by
      obtain ⟨r0, o0, hr0, -, horigin₀, hle⟩ := hw ns sid row x hrow hx0
      cases hrun.symm.trans hr0
      exact ⟨r, o0, hr, hsid, horigin₀, hgen ▸ hle⟩
    rcases hcase with rfl | ⟨-, hcase⟩
    · exact old hx
    · split at hcase
      · exact old (hcase ▸ hx)
      · next hclaimed =>
        -- the current claim has a run, created no later than the last trigger
        obtain ⟨⟨id, r1⟩, hmem, hsid1, hgen1⟩ :=
          hE.enqueuedFirst hop r hrun hterm sid hsid row hrow hclaimed hall
        obtain ⟨o1, horigin₁, hgen1⟩ := Option.map_eq_some_iff.mp hgen1
        have hrun1 : runAt w.db ns id = some r1 := (Table.mem_rows_iff _ _ _).mp hmem
        obtain ⟨row1, -, t1, hrow1, -, -, ht1, hle1⟩ := ho.past ns sid id r1 hrun1 hsid1
        cases hrow.symm.trans hrow1
        cases ht.symm.trans ht1
        refine ⟨r, o, hr, hsid, horigin, ?_⟩
        by_contra hlt
        have hbefore := ho.ordered ns sid x id r r1 o o1 hrun hrun1 hsid hsid1 horigin horigin₁
          (by omega)
        have hlast : t ≤ r.createdAt := by simpa [ht] using hall
        omega

end Acts

section Runs

variable {p : Platform} {s s' : BuildSystem} {a : Action Op}

theorem ReachableWhen.ownReleases (h : ReachableWhen p InTime s) :
    InOrder s.world ∧ OwnReleases s.world := by
  refine h.induct (S := fun w => InOrder w ∧ OwnReleases w) (fun now db hf => ⟨⟨?_, ?_⟩, ?_⟩)
    (fun _ _ _ hw => ⟨⟨hw.1.past, hw.1.ordered⟩, hw.2⟩)
    (fun _ _ _ _ _ hc hE hw => ⟨hc.act.inOrder hE hw.1, hc.act.ownReleases hE hw.1 hw.2⟩)
  · intro ns sid id r hr
    rw [hf.runAt_eq] at hr
    cases hr
  · intro ns sid id id' r r' o o' hr
    rw [hf.runAt_eq] at hr
    cases hr
  · intro ns sid row x hrow
    rw [hf.scheduleAt_eq] at hrow
    cases hrow

/-- In every run in which triggers come in time, a reconciliation that clears the lease of a
schedule does so for a build that was enqueued under that claim or a later one. -/
theorem reconciliation_releases_own_claim (h : ReachableWhen p InTime s) {i : ℕ}
    {c : Call Op (Db Tables) (Write TableWrite) (Resource TableRow) Reply}
    {ns sid buildId : String} {row row' : Schedule} (hs : s.step (code p) (.run i) = some s')
    (hm : Meets InTime s (.run i) s') (hc : s.calls[i]? = some c)
    (hop : c.op.reconciles ns buildId) (hrow : scheduleAt s.db ns sid = some row)
    (hclaimed : row.leaseOwner ≠ none) (hrow' : scheduleAt s'.db ns sid = some row')
    (hcleared : row'.leaseOwner = none) :
    ∃ x r o, row'.releasedBy = some x ∧ runAt s'.db ns x = some r ∧ r.scheduleId = some sid ∧
      r.origin = some o ∧ row.leaseGeneration ≤ o.generation := by
  have hown : OwnReleases s'.world := (h.step hs hm).ownReleases.2
  rcases h.reachable.changes hs with hdb | ⟨j, d, next, ha, hd, -, hact⟩
  · rw [hdb, hrow] at hrow'
    cases hrow'
    exact absurd hcleared hclaimed
  · cases ha
    cases hc.symm.trans hd
    have hstep := hact.schedule ns sid
    rw [show scheduleAt s.world.db ns sid = some row from hrow, hrow'] at hstep
    obtain ⟨hgen, -, rfl | ⟨-, hby⟩⟩ := hstep.reconciled hop
    · exact absurd hcleared hclaimed
    · rw [if_neg hclaimed] at hby
      obtain ⟨x, hx⟩ := Option.ne_none_iff_exists'.mp hby
      obtain ⟨r, o, hr, hsid, horigin, hle⟩ := hown ns sid row' x hrow' hx
      exact ⟨x, r, o, hx, hr, hsid, horigin, hgen ▸ hle⟩

end Runs

instance (op : Op) (ns buildId : String) : Decidable (op.reconciles ns buildId) := by
  unfold Op.reconciles; split <;> infer_instance

/-- A worker claims the build `id` of the schedule, executes it and reports its completion. -/
def sampleBuild (id : String) (now notice : ℕ) : List (ℕ × Op × ℕ) :=
  [(now, .claimNextJob "n" ⟨"w", [], id⟩, 5),
    (now, .startBuildRun "n" ⟨id, id, "w", id, 1⟩ now ⟨id ++ "s", notice⟩, 9),
    (now, .persistBuildEvent "n" ⟨id, id, "w", id, 1⟩
      { buildId := id
        event := ⟨⟨id, "a", now, none, none, none, none, none, none, none⟩,
          .complete ⟨1, 0, 0, 1, "", 0⟩⟩
        expected := some 1
        notice := ⟨id ++ "c", notice + 1⟩
        createdAt := now
        wakeId := notice + 2 }, 11)]

/-- The reconciliation of the build `id` up to its commit. -/
def sampleReconcile (id : String) (now : ℕ) : ℕ × Op × ℕ :=
  (now, .reconcileScheduleRun "n" id now, 3)

/-- The next step of call `i` reconciles the build `id`, which was enqueued under generation `g`,
and so clears the lease of a claim with generation `g'`. -/
structure Clears (i : ℕ) (id : String) (g g' : ℕ) (s s' : BuildSystem) : Prop where
  step : s.step (code samplePlatform) (.run i) = some s'
  call : ∃ c, s.calls[i]? = some c ∧ c.op.reconciles "n" id
  before : ∃ row, scheduleAt s.db "n" "s" = some row ∧ row.leaseOwner ≠ none ∧
    row.leaseGeneration = g'
  after : ∃ row', scheduleAt s'.db "n" "s" = some row' ∧ row'.leaseOwner = none ∧
    row'.releasedBy = some id
  origin : ∃ r o, runAt s'.db "n" id = some r ∧ r.origin = some o ∧ o.generation = g

/-- A test for `Clears`. -/
def clears (i : ℕ) (id : String) (g g' : ℕ) (s : BuildSystem) : Bool :=
  (s.step (code samplePlatform) (.run i)).any fun s' =>
    (s.calls[i]?.any fun c => c.op.reconciles "n" id) &&
    ((scheduleAt s.db "n" "s").any fun row =>
      row.leaseOwner.isSome && row.leaseGeneration = g') &&
    ((scheduleAt s'.db "n" "s").any fun row =>
      row.leaseOwner.isNone && row.releasedBy = some id) &&
    (runAt s'.db "n" id).any fun r => r.origin.any fun o => o.generation = g

theorem exists_clears {i : ℕ} {id : String} {g g' : ℕ} {s : BuildSystem}
    (h : clears i id g g' s = true) : ∃ s', Clears i id g g' s s' := by
  obtain ⟨s', hs, htest⟩ := (Option.any_eq_true _ _).mp h
  simp only [Bool.and_eq_true, Option.any_eq_true, decide_eq_true_eq, Option.isSome_iff_ne_none,
    Option.isNone_iff_eq_none] at htest
  obtain ⟨⟨⟨hc, hb⟩, ha⟩, r, hr, o, ho, hg⟩ := htest
  exact ⟨s', hs, hc, hb, ha, r, o, hr, ho, hg⟩

/-- The build of a claim releases it. -/
theorem reconciliation_releases_own_claim_completed : ∃ s s',
    ReachableWhen samplePlatform InTime s ∧ Clears 6 "a" 1 1 s s' ∧
    ∃ x r o, runAt s'.db "n" x = some r ∧ r.scheduleId = some "s" ∧ r.origin = some o ∧
      1 ≤ o.generation := by
  obtain ⟨s, hreach, htest⟩ := ReachableWhen.of_replay (E := InTime) samplePlatform sampleDb_fresh 0
    (inTurn 0 (sampleTrigger ++ sampleBuild "a" 2 10 ++ [sampleReconcile "a" 3]))
    (fun s => clears 6 "a" 1 1 s && s.meets (fun op w => decide (InTime op w)) (.run 6))
    (by decide +kernel)
  rw [Bool.and_eq_true] at htest
  obtain ⟨s', hclears⟩ := exists_clears htest.1
  have hm : Meets InTime s (.run 6) s' :=
    System.meets_of_test (fun _ _ => of_decide_eq_true) htest.2
  obtain ⟨c, hc, hop⟩ := hclears.call
  obtain ⟨row, hrow, hclaimed, hgen⟩ := hclears.before
  obtain ⟨row', hrow', hcleared, -⟩ := hclears.after
  obtain ⟨x, r, o, -, hr, hsid, horigin, hle⟩ := reconciliation_releases_own_claim hreach
    hclears.step hm hc hop hrow hclaimed hrow' hcleared
  exact ⟨s, s', hreach, hclears, x, r, o, hr, hsid, horigin, hgen ▸ hle⟩

/-- Both builds of a trigger complete, the reconciliation of the first releases the claim, a
scheduler claims the schedule again, and the reconciliation of the second then releases the new
claim. -/
theorem reconciliation_releases_newer_claim : ∃ s s', Reachable samplePlatform s ∧
    Clears 11 "b" 1 2 s s' := by
  obtain ⟨s, hreach, htest⟩ := Reachable.of_replay samplePlatform sampleDb_fresh 0
    (inTurn 0 (sampleTrigger ++ sampleBuild "a" 2 10 ++ sampleBuild "b" 3 20 ++
      [(4, .reconcileScheduleRun "n" "a" 4, 4),
        (8, .claimDueSchedules "n"
          { workerId := "v", now := 8, host := 8, claimToken := fun _ => "u", fuel := 1 }, 14),
        sampleReconcile "b" 9]))
    (clears 11 "b" 1 2) (by decide +kernel)
  obtain ⟨s', hclears⟩ := exists_clears htest
  exact ⟨s, s', hreach, hclears⟩

end DataForge.Builds
