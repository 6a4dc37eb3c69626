import DataForge.Builds.Transaction

/-!
# Builds: staging, claim and renewal

The operations that stage a build and those that take and renew the claim of its job meet the
protocol.
-/

namespace DataForge.Builds

open ReadCommitted DataForge.Runtime

variable {p : Platform} {renews : Prop} {i : ℕ} {op : Op} {t t' : BuildTxn}
  {w : BuildWorld} {ns : String}

/-- Operations that enqueue nothing. -/
def Op.unscheduled (op : Op) : Prop := ∀ ns args, op ≠ .enqueueScheduleRun ns args

theorem Mine.commit (hm : Mine p i op t w) (hop : op.unscheduled) :
    Act p renews i op t.held w (view t.writes w.db) :=
  hm.act fun ns args he => absurd he (hop ns args)

section Staging

variable {Q : Unit → BuildTxn → BuildWorld → Prop}

theorem wp_lockActiveDatasources {ids : List String} (hm : Mine p i op t w)
    (hQ : ∀ t' w', Mine p i op t' w' → t.held ⊆ t'.held → t'.writes = t.writes →
      (protocol p renews).Rely t.held w w' → Q () t' w') :
    (protocol p renews).wp i op Q (lockActiveDatasources p ns ids) t w := by
  induction ids generalizing t w with
  | nil => exact hQ t w hm (List.Subset.refl _) rfl .refl
  | cons id rest ih =>
    apply Protocol.wp_statement
    intro w1 e1 hr1 hi1 hs1
    apply Protocol.wp_query
    intro w2 e2 hr2 hi2 hs2
    have hsub := t.held_subset_after e1
      (lockRows [.advisory (p.advisoryKey (lifecycleName ns id))] .shared)
    split
    · trivial
    · refine ih ((((hm.rely hr1).lock e1 _ _).rely hr2).query _) fun t' w' hm' hh' hw' hr' => ?_
      exact hQ t' w' hm' (fun _ hk => hh' (hsub hk)) (hw'.trans (List.append_nil _))
        (hr1.trans ((hr2.trans hr').mono hsub))

/-- `stage_job`: the job of a run that is there, and its wake. -/
theorem wp_stageJob {jobId buildId : String} {wakeId : ℕ} {r : BuildRun} (hop : op.stages ns)
    (hm : Mine p i op t w) (hrun : ∀ db, runAt (view t.writes db) ns buildId = some r)
    (hQ : ∀ t' w', Mine p i op t' w' → t.held ⊆ t'.held →
      (protocol p renews).Rely t.held w w' →
      (∀ db, runAt (view t'.writes db) ns buildId = some r) →
      (∀ db ns' id, scheduleAt (view t'.writes db) ns' id = scheduleAt (view t.writes db) ns' id) →
      Q () t' w') :
    (protocol p renews).wp i op Q (stageJob ns jobId buildId wakeId) t w := by
  unfold stageJob
  apply Protocol.wp_query
  intro w1 e1 hr1 hi1 hs1
  apply wp_insert
  intro w2 e2 hr2 hi2 hs2 hnone2
  apply wp_appendWake
  intro w3 e3 hr3 hi3 hs3 hnone3
  set t1 : BuildTxn := ⟨t.held, t.writes, some e1.began⟩ with ht1
  set t2 := t1.after e2 ⟨[], [.tenant ns (jobs.put jobId (some (stagedJob buildId e1.began)))]⟩
    with ht2
  replace hr2 : (protocol p renews).Rely t.held w1 w2 := hr2
  have hsub : t.held ⊆ t2.held := t1.held_subset_after _ _
  have hm2 : Mine p i op t1 w2 := ((hm.rely hr1).rely hr2).query _
  have ho2 : Over p i op t1 t2 w2 := by
    refine (Over.refl hm2.within.guarded).job e2 ?_
    have hnone : jobAt (view t1.writes w2.db) ns jobId = none := by
      rw [← hs2.db]
      exact hnone2
    rw [hnone]
    exact .stage buildId e1.began hop
  have ho3 := (ho2.rely hr3).wake e3 ⟨ns, .build, e3.now, false⟩ (by rw [← hs3.db]; exact hnone3)
  have hm3 := hm2.rely (hr3.mono (t1.held_subset_after _ _))
  have hwake : (view t1.writes w3.db).work.wakes.get wakeId = none := by
    rw [hs3.db, ht2, view_write, wakes_tenant] at hnone3
    exact hnone3
  refine hQ _ _ (hm3.unit ho3 ?_) (fun _ hk => t2.held_subset_after _ _ (hsub hk))
    (hr1.trans (hr2.trans (hr3.mono hsub))) (fun db => ?_) fun db ns' id => ?_
  · rw [view_write, ht2, view_write]
    refine Joint.rows ns jobId buildId (fun ns' id hne => ?_)
      (fun ns' id _ => ?_) (fun ns' id => ?_) (fun _ j hj => ⟨?_, ?_⟩) ?_ ?_
      fun ns' id => .of_rows ((runAt_wake _ _).trans (runAt_job _))
        fun n => (eventAt_wake _ _ _).trans (eventAt_job _ _)
    · exact (jobAt_wake _ _).trans (jobAt_job_of_ne _ hne)
    · exact (runAt_wake _ _).trans (runAt_job _)
    · exact (scheduleAt_wake _ _).trans (scheduleAt_job _)
    · have hj' : some (stagedJob buildId e1.began) = some j := (jobAt_job _).symm.trans hj
      cases hj'
      exact ne_of_eq_of_ne ((runAt_wake _ _).trans ((runAt_job _).trans (hrun w3.db)))
        (Option.some_ne_none _)
    · exact NewWake.of_write ns .build e3.now hwake
    · intro x j _ _ hj ht
      have hj' : some (stagedJob buildId e1.began) = some j := (jobAt_job _).symm.trans hj
      cases hj'
      cases ht
    · intro x r hx hn _ hr ht
      have hr' : runAt (view t1.writes w3.db) ns buildId = some r :=
        ((runAt_wake _ _).trans (runAt_job _)).symm.trans hr
      rw [hx] at hr'
      cases hr'
      rw [hn] at ht
      cases ht
  · rw [view_write, runAt_wake, ht2, view_write]
    exact (runAt_job _).trans (hrun db)
  · rw [view_write, scheduleAt_wake, ht2, view_write]
    exact scheduleAt_job _

/-- `stage_build_run` and `stage_job`: a run, its job and their wake. -/
theorem wp_stageBuild {build : NewBuild} (hop : op.stages ns) (hm : Mine p i op t w)
    (hnew : NewRun i op t.held ns build.run)
    (hQ : ∀ t' w', Mine p i op t' w' → t.held ⊆ t'.held →
      (protocol p renews).Rely t.held w w' →
      (∀ db, runAt (view t'.writes db) ns build.buildId = some build.run) →
      (∀ db ns' id, scheduleAt (view t'.writes db) ns' id = scheduleAt (view t.writes db) ns' id) →
      Q () t' w') :
    (protocol p renews).wp i op Q (stageBuild ns build) t w := by
  unfold stageBuild
  apply wp_insert
  intro w1 e1 hr1 hi1 hs1 hnone1
  have hnone : runAt (view t.writes w1.db) ns build.buildId = none := by
    rw [← hs1.db]
    exact hnone1
  have hm1 := hm.rely hr1
  have ho1 : Over p i op t
      (t.after e1 ⟨[], [.tenant ns (.run build.buildId (some build.run))]⟩) w1 := by
    refine (Over.refl hm1.within.guarded).run e1 ?_
    rw [hnone]
    exact .stage build.run hnew
  have hj1 : Joint op (view t.writes w1.db) (view (t.after e1
      ⟨[], [.tenant ns (.run build.buildId (some build.run))]⟩).writes w1.db) := by
    rw [view_write]
    refine Joint.rows ns "" build.buildId (fun _ _ _ => jobAt_run _)
      (fun _ _ hne => runAt_run_of_ne _ hne) (fun _ _ => scheduleAt_run _) (fun hx j hj => ?_)
      (fun x j hx hn hj ht => ?_) (fun x r hx => ?_)
      fun ns' id => .of_same ?_ fun n => eventAt_run _ _
    · rw [jobAt_run, hx] at hj
      cases hj
    · rw [jobAt_run, hx] at hj
      cases hj
      rw [hn] at ht
      cases ht
    · rw [hnone] at hx
      cases hx
    · by_cases hid : (ns', id) = (ns, build.buildId)
      · cases hid
        rw [nextSequence, nextSequence, runAt_run, hnone]
        exact hnew.sequence
      · rw [nextSequence, nextSequence, runAt_run_of_ne _ hid]
  refine wp_stageJob (r := build.run) hop (hm1.unit ho1 hj1) (fun db => ?_)
    fun t' w' hm' hh' hr' hrun' hsched' => ?_
  · rw [view_write]
    exact runAt_run _
  · have hsub := t.held_subset_after e1
      ⟨[], [.tenant ns (.run build.buildId (some build.run))]⟩
    refine hQ t' w' hm' (fun _ hk => hh' (hsub hk)) (hr1.trans (hr'.mono hsub)) hrun' ?_
    intro db ns' id
    rw [hsched', view_write]
    exact scheduleAt_run _

/-- `create_placeholder_output_datasource` touches no build and no schedule. -/
theorem wp_createPlaceholders {rows : List (String × DataSource)} {args : StartBuildArgs}
    (hop : op = .startBuild ns args) (hm : Mine p i op t w)
    (hQ : ∀ t' w', Mine p i op t' w' → (protocol p renews).Rely t.held w w' → Q () t' w') :
    (protocol p renews).wp i op Q (createPlaceholders ns rows) t w := by
  induction rows generalizing t w with
  | nil => exact hQ t w hm .refl
  | cons row rest ih =>
    obtain ⟨id, d⟩ := row
    apply Protocol.wp_statement
    intro w1 e1 hr1 hi1 hs1
    have hm1 := hm.rely hr1
    by_cases hd : ((e1.db.tenants ns).datasources.get id).isSome = true
    · simp only [if_pos hd]
      refine ih (by rw [Txn.after_query]; exact hm1.query _) fun t' w' hm' hr' => ?_
      exact hQ t' w' hm' (hr1.trans (hr'.mono (t.held_subset_after _ _)))
    · simp only [if_neg hd]
      have ho1 : Over p i op t (t.after e1 ⟨[], [.tenant ns (.datasource id (some d))]⟩) w1 :=
        (Over.refl hm1.within.guarded).write e1 _ (Or.inr ⟨args, hop⟩)
      have hj1 : Joint op (view t.writes w1.db)
          (view (t.after e1 ⟨[], [.tenant ns (.datasource id (some d))]⟩).writes w1.db) := by
        rw [view_write]
        have hjob (ns' id' : String) : jobAt ((view t.writes w1.db).write
            (.tenant ns (TableWrite.datasource id (some d)))) ns' id' =
              jobAt (view t.writes w1.db) ns' id' := jobAt_write_of_ne fun he => by cases he
        refine Joint.schedule ns "" hjob
          (fun _ _ => runAt_write_of_ne fun he => by cases he)
          (fun _ _ => eventAt_write_of_ne fun he => by cases he)
          (fun _ _ _ => scheduleAt_write_of_ne fun he => by cases he)
          (fun hedit => by rw [hop] at hedit; exact hedit.elim) fun s x hs hx => Or.inl ⟨s, ?_, hx⟩
        rwa [scheduleAt_write_of_ne fun he => by cases he] at hs
      refine ih (hm1.unit ho1 hj1) fun t' w' hm' hr' => ?_
      exact hQ t' w' hm' (hr1.trans (hr'.mono (t.held_subset_after _ _)))

end Staging

section Rows

theorem job_rely {h : BuildLocks} {w' : BuildWorld} {id : String}
    {j : BuildJob} (hr : (protocol p renews).Rely h w w') (hj : jobAt w.db ns id = some j) :
    ∃ j', jobAt w'.db ns id = some j' ∧ j'.buildId = j.buildId := by
  refine hr.stable (S := fun v : BuildWorld =>
    ∃ j', jobAt v.db ns id = some j' ∧ j'.buildId = j.buildId) (fun _ _ _ hs => hs) ?_ ⟨j, hj, rfl⟩
  rintro v db k op' t' hc ⟨j', hj', hid⟩
  have hs := hc.act.job ns id
  rw [hj'] at hs
  obtain ⟨j'', hj'', hid'⟩ := hs.stays
  exact ⟨j'', hj'', hid'.trans hid⟩

/-- One more change of a job; if it settles the job, its run has settled the same way. -/
theorem Mine.job (hm : Mine p i op t w) (e : BuildEnv) {id : String} {x row : BuildJob}
    (hx : jobAt (view t.writes w.db) ns id = some x)
    (hc : JobChange p op w.now ns (some x) (some row))
    (hset : row.status.isTerminal = true → ∃ r, runAt (view t.writes w.db) ns row.buildId = some r ∧
      r.status.isTerminal = true ∧ (Agrees row.status r ∨
        (op.exhausts ns ∧ (r.status = .completed ∨ r.status = .cancelled)))) :
    Mine p i op (t.after e ⟨[], [.tenant ns (.job id (some row))]⟩) w := by
  refine hm.unit ((Over.refl hm.within.guarded).job e (by rw [hx]; exact hc)) ?_
  rw [view_write]
  refine Joint.rows ns id "" (fun _ _ hne => jobAt_job_of_ne _ hne) (fun _ _ _ => runAt_job _)
    (fun _ _ => scheduleAt_job _) (fun hnone => ?_) (fun x' j _ _ hj ht => ?_)
    (fun x' r hx' hn _ hr ht => ?_) fun _ _ => .of_rows (runAt_job _) fun _ => eventAt_job _ _
  · rw [hx] at hnone
    cases hnone
  · rw [jobAt_job] at hj
    cases hj
    obtain ⟨r, hr, hrt, hagree⟩ := hset ht
    exact ⟨r, (runAt_job _).trans hr, hrt, hagree⟩
  · rw [runAt_job, hx'] at hr
    cases hr
    rw [hn] at ht
    cases ht

/-- One more change of a run that does not end it. -/
theorem Mine.run (hm : Mine p i op t w) (e : BuildEnv) {id : String} {x row : BuildRun}
    (hx : runAt (view t.writes w.db) ns id = some x)
    (hc : RunChange i op t.held ns (some x) (some row))
    (hrow : row.status.isTerminal = false) (hseq : row.nextEventSequence = x.nextEventSequence) :
    Mine p i op (t.after e ⟨[], [.tenant ns (.run id (some row))]⟩) w := by
  refine hm.unit ((Over.refl hm.within.guarded).run e (by rw [hx]; exact hc)) ?_
  rw [view_write]
  refine Joint.rows ns "" id (fun _ _ _ => jobAt_run _) (fun _ _ hne => runAt_run_of_ne _ hne)
    (fun _ _ => scheduleAt_run _) (fun hnone j hj => ?_) (fun x' j hx' hn hj ht => ?_)
    (fun x' r _ _ _ hr ht => ?_) fun ns' id' => .of_same ?_ fun _ => eventAt_run _ _
  · rw [jobAt_run, hnone] at hj
    cases hj
  · rw [jobAt_run, hx'] at hj
    cases hj
    rw [hn] at ht
    cases ht
  · rw [runAt_run] at hr
    cases hr
    rw [hrow] at ht
    cases ht
  · by_cases hid : (ns', id') = (ns, id)
    · cases hid
      rw [nextSequence, nextSequence, runAt_run, hx]
      exact hseq
    · rw [nextSequence, nextSequence, runAt_run_of_ne _ hid]

/-- Since `t`, transaction `t'` has written no job, run, event or schedule. -/
structure Beside (t t' : BuildTxn) : Prop where
  job : ∀ db ns id, jobAt (view t'.writes db) ns id = jobAt (view t.writes db) ns id
  run : ∀ db ns id, runAt (view t'.writes db) ns id = runAt (view t.writes db) ns id
  event : ∀ db ns key, eventAt (view t'.writes db) ns key = eventAt (view t.writes db) ns key
  schedule : ∀ db ns id,
    scheduleAt (view t'.writes db) ns id = scheduleAt (view t.writes db) ns id

theorem Beside.refl (h : t'.writes = t.writes) : Beside t t' := by
  constructor <;> intros <;> rw [h]

theorem Beside.wake (h : Beside t t') (e : BuildEnv) (id : ℕ) (row : Wake) :
    Beside t (t'.after e ⟨[], [.wake id (some row)]⟩) := by
  constructor <;> intros <;> rw [view_write]
  · exact (jobAt_wake _ _).trans (h.job _ _ _)
  · exact (runAt_wake _ _).trans (h.run _ _ _)
  · exact (eventAt_wake _ _ _).trans (h.event _ _ _)
  · exact (scheduleAt_wake _ _).trans (h.schedule _ _ _)

theorem Beside.outbox (h : Beside t t') (e : BuildEnv) (ns id : String)
    (row : Option OutboxEvent) : Beside t (t'.after e ⟨[], [.tenant ns (.outbox id row)]⟩) := by
  constructor <;> intros <;> rw [view_write]
  · exact (jobAt_outbox _).trans (h.job _ _ _)
  · exact (runAt_outbox _).trans (h.run _ _ _)
  · exact (eventAt_outbox _ _).trans (h.event _ _ _)
  · exact (scheduleAt_outbox _).trans (h.schedule _ _ _)

theorem Mine.beside (hm : Mine p i op t w) (ho : Over p i op t t' w) (hb : Beside t t') :
    Mine p i op t' w := by
  refine hm.unit ho (Joint.rows "" "" "" (fun _ _ _ => hb.job _ _ _) (fun _ _ _ => hb.run _ _ _)
    (fun _ _ => hb.schedule _ _ _) (fun hx j hj => ?_) (fun x j hx hn hj ht => ?_)
    (fun x r hx hn _ hr ht => ?_) fun _ _ => .of_rows (hb.run _ _ _) fun _ => hb.event _ _ _)
  · rw [hb.job, hx] at hj
    cases hj
  · rw [hb.job, hx] at hj
    cases hj
    rw [hn] at ht
    cases ht
  · rw [hb.run, hx] at hr
    cases hr
    rw [hn] at ht
    cases ht

theorem Mine.wake (hm : Mine p i op t w) (e : BuildEnv) {wake : ℕ} (row : Wake)
    (hnone : (view t.writes w.db).work.wakes.get wake = none) :
    Mine p i op (t.after e ⟨[], [.wake wake (some row)]⟩) w :=
  hm.beside ((Over.refl hm.within.guarded).wake e row hnone) ((Beside.refl rfl).wake e wake row)

end Rows

section Operations

variable {Q : Reply → BuildTxn → BuildWorld → Prop}

theorem verified_startBuild {args : StartBuildArgs} (hop : op = .startBuild ns args)
    (hQ : ∀ r t w, Q r t w) : (protocol p renews).wp i op Q (startBuild p ns args) {} w := by
  unfold startBuild
  rw [Protocol.wp_bind]
  refine wp_lockActiveDatasources (Mine.of_nil rfl) fun t1 w1 hm1 _ _ _ => ?_
  rw [Protocol.wp_bind]
  refine wp_createPlaceholders hop hm1 fun t2 w2 hm2 _ => ?_
  rw [Protocol.wp_bind]
  refine wp_stageBuild (by rw [hop]; rfl) hm2 (.manual args _ hop rfl rfl rfl)
    fun t3 w3 hm3 _ _ _ _ => ?_
  apply Protocol.wp_commit
  intro w4 hr4 _ _
  exact ⟨(hm3.rely hr4).commit fun _ _ he => (by rw [hop] at he; cases he), hQ _ _ _⟩

private theorem claimCandidate_spec {args : ClaimJobArgs} {e : BuildEnv} {now : ℕ}
    {x : String × BuildJob} (h : claimCandidate ns args e now = some x) :
    jobAt e.db ns x.1 = some x.2 ∧ claimableJob args now x.2 = true := by
  have hmem := (List.mem_insertionSort _).mp (List.mem_of_mem_head? h)
  obtain ⟨hrow, hc⟩ := List.mem_filter.mp hmem
  exact ⟨(Table.mem_rows_iff _ _ _).mp hrow, (Bool.and_eq_true_iff.mp hc).1⟩

theorem verified_claimNextJob {args : ClaimJobArgs} (hop : op = .claimNextJob ns args)
    (hQ : ∀ r t w, Q r t w) : (protocol p renews).wp i op Q (claimNextJob ns args) {} w := by
  unfold claimNextJob
  apply Protocol.wp_query
  intro w1 e1 hr1 hi1 hs1
  apply Protocol.wp_statement
  intro w2 e2 hr2 hi2 hs2
  cases hcand : claimCandidate ns args e2 e1.began with
  | none =>
    apply Protocol.wp_rollback
    exact fun _ _ _ => hQ _ _ _
  | some x =>
    obtain ⟨id, row⟩ := x
    obtain ⟨hrow, hclaim⟩ := claimCandidate_spec hcand
    apply wp_update
    · intro w3 e3 _ _ _ _
      apply Protocol.wp_rollback
      exact fun _ _ _ => hQ _ _ _
    · intro w3 e3 a hr3 hi3 hs3 hget _
      -- the row is held since it was selected
      have hsame : jobAt w3.db ns id = jobAt w2.db ns id :=
        hr3.same (granted_lockRows _ e2 (r := jobs.row ns id) List.mem_cons_self)
      have he2 : e2.db = w2.db := hs2.db
      have he3 : e3.db = w3.db := hs3.db
      have ha : a = row := by
        have hget' : jobAt e3.db ns id = some a := hget
        rw [he3, hsame, ← he2, hrow] at hget'
        exact (Option.some.inj hget').symm
      subst ha
      have hnow : e1.began ≤ e3.now := by
        rw [hs1.began, hs3.now]
        exact hr2.now_le.trans hr3.now_le
      apply Protocol.wp_commit
      intro w4 hr4 _ _
      refine ⟨Mine.commit (Mine.rely (Mine.job (x := a) (Mine.of_nil rfl) e3 ?_ ?_ ?_) hr4) ?_, ?_⟩
      · rw [← hs3.db]
        exact hget
      · exact .claim args a e1.began e3.now hop hclaim hnow
      · exact fun ht => by cases ht
      · exact fun _ _ he => by rw [hop] at he; cases he
      · apply Protocol.wp_query
        exact fun _ _ _ _ _ => hQ _ _ _

theorem verified_renewJobLease {claim : BuildClaim} (hop : op = .renewJobLease ns claim)
    (hQ : ∀ r t w, Q r t w) : (protocol p renews).wp i op Q (renewJobLease p ns claim) {} w := by
  unfold renewJobLease
  apply Protocol.wp_query
  intro w1 e1 hr1 hi1 hs1
  apply wp_update
  · intro w2 e2 _ _ _ _
    apply Protocol.wp_rollback
    intro w3 _ _
    apply Protocol.wp_query
    exact fun _ _ _ _ _ => hQ _ _ _
  · intro w2 e2 a hr2 hi2 hs2 hget hact
    apply Protocol.wp_commit
    intro w3 hr3 _ _
    refine ⟨Mine.commit (Mine.rely (Mine.job (x := a) (Mine.of_nil rfl) e2 ?_ ?_ ?_) hr3) ?_, ?_⟩
    · rw [← hs2.db]
      exact hget
    · exact .renew claim a e2.now hop hact
    · intro ht
      have ht' : a.status.isTerminal = true := ht
      rw [activeJobClaim_status hact] at ht'
      cases ht'
    · exact fun _ _ he => by rw [hop] at he; cases he
    · apply Protocol.wp_query
      intro w4 e4 _ _ _
      dsimp only
      split
      · trivial
      · exact hQ _ _ _

end Operations

end DataForge.Builds
