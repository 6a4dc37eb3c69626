import DataForge.Builds.Settle

/-!
# Builds: cancellation and exhaustion

The two operations that settle a job without its claim: `cancel_build`, which ends the job
before the run, and the exhaustion pass, which fails expired jobs in their last attempt,
orphans their runs and refreshes the work projection.
-/

namespace DataForge.Builds

open ReadCommitted DataForge.Runtime

variable {p : Platform} {renews : Prop} {i : ℕ} {op : Op} {t : BuildTxn} {w : BuildWorld}
  {ns : String}

section Cancel

variable {Q : Reply → BuildTxn → BuildWorld → Prop}

private theorem cancelled_unit {args : EventArgs} {run : BuildRun} {t1 t' : BuildTxn} {e : BuildEnv}
    {id : String} {x row : BuildJob} (hm : Mine p i op t w)
    (ht1 : t1 = t.after e ⟨[], [.tenant ns (.job id (some row))]⟩)
    (hx : jobAt (view t.writes w.db) ns id = some x) (hrow : row.status = .cancelled)
    (hbuild : row.buildId = args.buildId)
    (hterm : args.event.body.terminalStatus = some .cancelled)
    (ho : Over p i op t t' w) (hs : EventStaged ns args run t1 t' w) : Mine p i op t' w := by
  have hview (db : Db Tables) : view t1.writes db =
      (view t.writes db).write (.tenant ns (TableWrite.job id (some row))) := by
    rw [ht1, view_write]
  have hafter := afterEvent_status args.resourceConfigJson hs.accepted
  rw [hterm, Option.getD_some] at hafter
  refine hm.unit ho (Joint.rows ns id args.buildId (fun ns' id' hne => ?_) (fun ns' id' hne => ?_)
    (fun ns' id' => ?_) (fun hnone => ?_) (fun x' j _ _ hj ht => ?_)
    (fun x' r hx' hn hsched hr ht => ?_) fun ns' id' => (hs.logs ns' id').congr ⟨?_, fun n => ?_⟩
      ⟨rfl, fun _ => rfl⟩)
  · rw [hs.job, hview, jobAt_job_of_ne _ hne]
  · rw [hs.other ns' id' hne, hview, runAt_job]
  · rw [hs.schedule, hview, scheduleAt_job]
  · rw [hx] at hnone
    cases hnone
  · rw [hs.job, hview, jobAt_job] at hj
    cases hj
    refine ⟨_, by rw [hbuild]; exact hs.after, by rw [hafter]; rfl, Or.inl ?_⟩
    rw [Agrees, hafter, hrow]
    rfl
  · have hbefore := hs.before
    rw [hview, runAt_job, hx'] at hbefore
    cases hbefore
    obtain ⟨wake, hnone, hlive⟩ := hs.alarm (by rw [hterm]; exact Option.some_ne_none _) hsched
    rw [hview, wakes_tenant] at hnone
    exact ⟨wake, hnone, hlive⟩
  · rw [hview, runAt_job]
  · rw [hview, eventAt_job]

theorem verified_cancelBuild {args : CancelBuildArgs} (hop : op = .cancelBuild ns args)
    (hQ : ∀ r t w, Q r t w) : (protocol p renews).wp i op Q (cancelBuild ns args) {} w := by
  have huns : op.unscheduled := fun _ _ he => by rw [hop] at he; cases he
  have hemit : op.emits ns none := by rw [hop]; exact ⟨rfl, rfl⟩
  unfold cancelBuild
  apply Protocol.wp_query
  intro w1 e1 hr1 hi1 hs1
  cases hfind : (e1.db.tenants ns).jobs.rows.find? fun j => j.2.buildId = args.buildId with
  | none => trivial
  | some found =>
    obtain ⟨id, row⟩ := found
    have hrow : jobAt w1.db ns id = some row := by
      have hmem := (Table.mem_rows_iff _ _ _).mp (List.mem_of_find?_eq_some hfind)
      rwa [show e1.db = w1.db from hs1.db] at hmem
    have hbuild : row.buildId = args.buildId := by
      simpa using List.find?_some hfind
    dsimp only
    split
    · trivial
    · unfold stageJobCancelled
      rw [Script.bind_assoc]
      apply Protocol.wp_query
      intro w2 e2 hr2 hi2 hs2
      rw [Script.bind_assoc]
      apply wp_update
      · intro w3 e3 hr3 hi3 hs3 _
        dsimp only
        rw [Script.bind_assoc]
        apply Protocol.wp_query
        intro w4 e4 hr4 hi4 hs4
        cases hjob : jobs.get ns id e4 with
        | none => trivial
        | some job =>
          simp only [Script.pure_eq_done, Script.done_bind]
          split
          · trivial
          · have hm4 : Mine p i op ⟨[], [], some e4.began⟩ w4 := Mine.of_nil rfl
            rw [Protocol.wp_bind]
            refine wp_stageBuildEvent hemit hm4.within.guarded (fun _ _ _ _ _ => trivial) ?_
            intro t5 w5 n run ho5 hr5 hs5
            have hm5 := hs5.mine (hm4.rely hr5) ho5
            apply Protocol.wp_commit
            intro w6 hr6 _ _
            exact ⟨(hm5.rely hr6).commit huns, hQ _ _ _⟩
      · intro w3 e3 a hr3 hi3 hs3 hget hcan
        simp only [Script.pure_eq_done, Script.done_bind]
        rw [if_neg (show ¬(cancelledJob e2.began a).status ≠ .cancelled from not_not.mpr rfl)]
        have hseen : jobAt w3.db ns id = some a := by
          rw [← show e3.db = w3.db from hs3.db]
          exact hget
        -- the job still belongs to the build it was found for
        have hbuild' : a.buildId = args.buildId := by
          obtain ⟨a', ha', hid⟩ := job_rely (hr2.trans hr3) hrow
          rw [hseen] at ha'
          cases ha'
          exact hid.trans hbuild
        set t2 : BuildTxn := ⟨[], [], some e2.began⟩ with ht2
        set t3 := t2.after e3 ⟨[], [.tenant ns (.job id (some (cancelledJob e2.began a)))]⟩ with ht3
        have hm3 : Mine p i op t2 w3 := Mine.of_nil rfl
        have ho3 : Over p i op t2 t3 w3 := by
          refine (Over.refl hm3.within.guarded).job e3 ?_
          rw [show jobAt (view t2.writes w3.db) ns id = some a from hseen]
          exact .cancel args e2.began a hop hcan
        have hsub : t2.held ⊆ t3.held := t2.held_subset_after _ _
        rw [Protocol.wp_bind]
        refine wp_stageBuildEvent hemit ho3.guarded (fun _ _ _ _ _ => trivial) ?_
        intro t4 w4 n run ho4 hr4 hs4
        have hheld : jobAt (view t2.writes w4.db) ns id = some a :=
          Eq.trans (hr4.same (granted_write t2 e3 _)) hseen
        have hm4 : Mine p i op t4 w4 := by
          refine cancelled_unit (hm3.rely (hr4.mono hsub)) ht3 hheld rfl ?_ ?_
            ((ho3.rely hr4).trans ho4) hs4
          · exact hbuild'
          · rfl
        apply Protocol.wp_commit
        intro w5 hr5 _ _
        exact ⟨(hm4.rely hr5).commit huns, hQ _ _ _⟩

end Cancel

section Exhaust

private theorem Mine.home (hm : Mine p i op t w) (hi : Inv w) {id : String} {r : BuildRun}
    (hr : runAt (view t.writes w.db) ns id = some r) : r.ns = ns := by
  have hs : RunStep i op t.held ns (runAt w.db ns id) (runAt (view t.writes w.db) ns id) :=
    hm.within.cells (.tenant ns (.run id))
  rw [hr] at hs
  exact hs.ns_eq (hi.home ns id)

private theorem orphaned_unit {t' : BuildTxn} {id : String} {x : BuildJob} {r : BuildRun} (now : ℕ)
    (hm : Mine p i op t w) (ho : Over p i op t t' w)
    (hx : jobAt (view t.writes w.db) ns id = some x)
    (hr : runAt (view t.writes w.db) ns x.buildId = some r)
    (hjob : ∀ ns' id', (ns', id') ≠ (ns, id) →
      jobAt (view t'.writes w.db) ns' id' = jobAt (view t.writes w.db) ns' id')
    (hrun : ∀ ns' id', (ns', id') ≠ (ns, x.buildId) →
      runAt (view t'.writes w.db) ns' id' = runAt (view t.writes w.db) ns' id')
    (hschedule : ∀ ns' id',
      scheduleAt (view t'.writes w.db) ns' id' = scheduleAt (view t.writes w.db) ns' id')
    (hevent : ∀ ns' key,
      eventAt (view t'.writes w.db) ns' key = eventAt (view t.writes w.db) ns' key)
    (hfailed : jobAt (view t'.writes w.db) ns id = some (failedJob now x))
    (horphan : runAt (view t'.writes w.db) ns x.buildId = some (orphanedRun now r))
    (halarm : r.scheduleId ≠ none →
      NewWake (view t.writes w.db) (view t'.writes w.db) r.ns .schedule) : Mine p i op t' w := by
  refine hm.unit ho (Joint.rows ns id x.buildId hjob hrun hschedule (fun hnone => ?_)
    (fun x' j _ _ hj _ => ?_) (fun x' r' hx' _ hsched _ _ => ?_)
    fun ns' id' => .of_same ?_ fun _ => hevent ns' _)
  · rw [hx] at hnone
    cases hnone
  · rw [hfailed] at hj
    cases hj
    exact ⟨_, horphan, rfl, Or.inl rfl⟩
  · rw [hr] at hx'
    cases hx'
    exact halarm hsched
  · by_cases hid : (ns', id') = (ns, x.buildId)
    · cases hid
      rw [nextSequence, nextSequence, horphan, hr]
      rfl
    · rw [nextSequence, nextSequence, hrun ns' id' hid]

private theorem aside_tenant {db : Db Tables} (ha : Aside .build t.writes db) (e : BuildEnv)
    (u : TableWrite) : Aside .build (t.after e ⟨[], [.tenant ns u]⟩).writes db where
  forms v hv := by
    rcases List.mem_append.mp hv with hv | hv
    · exact ha.forms v hv
    · exact Or.inl ⟨ns, u, List.mem_singleton.mp hv⟩
  unissued id row hv := by
    rcases List.mem_append.mp hv with hv | hv
    · exact ha.unissued id row hv
    · cases List.mem_singleton.mp hv

private theorem aside_wake {db : Db Tables} (ha : Aside .build t.writes db) (e : BuildEnv)
    {id : ℕ} {row : Wake} (hk : row.kind ≠ .build) (hnone : db.work.wakes.get id = none) :
    Aside .build (t.after e ⟨[], [.wake id (some row)]⟩).writes db where
  forms v hv := by
    rcases List.mem_append.mp hv with hv | hv
    · exact ha.forms v hv
    · exact Or.inr ⟨id, row, List.mem_singleton.mp hv, hk⟩
  unissued id' row' hv := by
    rcases List.mem_append.mp hv with hv | hv
    · exact ha.unissued id' row' hv
    · cases List.mem_singleton.mp hv
      exact hnone

variable {Q : Unit → BuildTxn → BuildWorld → Prop}

/-- What the pass knows of a job it has yet to fail: it is held, seen as it was selected at a
time that has passed, and has a run. -/
structure Condemned (ns : String) (now : ℕ) (t : BuildTxn) (w : BuildWorld)
    (x : String × BuildJob) : Prop where
  held : ∃ k ∈ t.held, k.res = jobs.row ns x.1
  seen : jobAt (view t.writes w.db) ns x.1 = some x.2
  exhausted : exhaustedJob now x.2 = true
  due : now ≤ w.now
  run : runAt (view t.writes w.db) ns x.2.buildId ≠ none

private theorem Condemned.rely {now : ℕ} {x : String × BuildJob} {w' : BuildWorld}
    (h : Condemned ns now t w x) (hg : t.Guarded) (hr : (protocol p renews).Rely t.held w w') :
    Condemned ns now t w' x := by
  obtain ⟨k, hk, hres⟩ := h.held
  have hsame := view_same t.writes (hr.same hk)
  rw [hres] at hsame
  obtain ⟨r, hrun⟩ := Option.ne_none_iff_exists'.mp h.run
  obtain ⟨r', hr', -⟩ := run_view_rely hg hr hrun
  exact ⟨h.held, Eq.trans hsame h.seen, h.exhausted, h.due.trans hr.now_le,
    by rw [hr']; exact Option.some_ne_none _⟩

private theorem Condemned.after {now : ℕ} {x : String × BuildJob} {t' : BuildTxn} {id : String}
    (h : Condemned ns now t w x) (ho : Over p i op t t' w) (hne : x.1 ≠ id)
    (hjob : ∀ ns' id', (ns', id') ≠ (ns, id) →
      jobAt (view t'.writes w.db) ns' id' = jobAt (view t.writes w.db) ns' id') :
    Condemned ns now t' w x := by
  obtain ⟨k, hk, hres⟩ := h.held
  obtain ⟨r, hrun⟩ := Option.ne_none_iff_exists'.mp h.run
  obtain ⟨r', hr', -⟩ := cells_run ho.cells hrun
  refine ⟨⟨k, ho.held hk, hres⟩, ?_, h.exhausted, h.due,
    by rw [hr']; exact Option.some_ne_none _⟩
  rw [hjob ns x.1 (fun he => hne (Prod.ext_iff.mp he).2)]
  exact h.seen

/-- The job has been settled on top of `t` without a change of any other job, so that the pass may
go on with the rest of the batch. -/
private structure Onward (p : Platform) (renews : Prop) (i : ℕ) (op : Op) (ns id : String)
    (t : BuildTxn) (w : BuildWorld) (t' : BuildTxn) (w' : BuildWorld) : Prop where
  rely : (protocol p renews).Rely t.held w w'
  onTop : Over p i op t t' w'
  mine : Mine p i op t' w'
  aside : Aside .build t'.writes w'.db
  jobs (ns' id') : (ns', id') ≠ (ns, id) →
    jobAt (view t'.writes w'.db) ns' id' = jobAt (view t.writes w'.db) ns' id'

section Settled

variable {now wake : ℕ} {id : String} {a : BuildJob} {w2 w3 : BuildWorld} {e2 e3 : BuildEnv}
  {scheduled : Prop} [Decidable scheduled] {k : BuildScript Unit}

/-- The transaction in which the pass has failed a job. -/
private def failing (ns : String) (t : BuildTxn) (now : ℕ) (id : String) (a : BuildJob)
    (e : BuildEnv) : BuildTxn :=
  t.after e ⟨[], [.tenant ns (.job id (some (failedJob now a)))]⟩

/-- The run of a failed job has ended already: only the schedule is woken. -/
private theorem wp_endedRun (hop : op.exhausts ns) (hm : Mine p i op t w)
    (ha : Aside .build t.writes w.db) (hc : Condemned ns now t w (id, a))
    (hr2 : (protocol p renews).Rely t.held w w2) (ho2 : Over p i op t (failing ns t now id a e2) w2)
    (hr3 : (protocol p renews).Rely (failing ns t now id a e2).held w2 w3)
    (hs3 : (protocol p renews).Sees i (failing ns t now id a e2) w3 e3)
    (hmiss : (runs.get ns a.buildId e3).filter (·.status.inflight) = none)
    (next : ∀ t' w', Onward p renews i op ns id t w t' w' → (protocol p renews).wp i op Q k t' w') :
    (protocol p renews).wp i op Q
      (if scheduled then (do let _ ← appendWake ns .schedule wake; k) else k)
      ⟨(failing ns t now id a e2).held, (failing ns t now id a e2).writes, some e3.began⟩ w3 := by
  have hg := hm.within.guarded
  set t2 := failing ns t now id a e2 with ht2
  have hsub2 : t.held ⊆ t2.held := t.held_subset_after _ _
  have hdb3 : e3.db = view t2.writes w3.db := hs3.db
  have hr3' : (protocol p renews).Rely t.held w w3 := hr2.trans (hr3.mono hsub2)
  have hc3 := hc.rely hg hr3'
  obtain ⟨r, hr⟩ := Option.ne_none_iff_exists'.mp hc3.run
  -- the run is there but not in flight
  have hterm : r.status.isTerminal = true := by
    have hview : runAt (view t2.writes w3.db) ns a.buildId = some r := by
      rw [ht2, failing, view_write, runAt_job]
      exact hr
    rw [← hdb3] at hview
    rw [show runs.get ns a.buildId e3 = some r from hview] at hmiss
    have hnot : r.status.inflight = false := by simpa [Option.filter] using hmiss
    rwa [inflight_eq_not_terminal, Bool.not_eq_false'] at hnot
  have hm3 : Mine p i op t2 w3 := by
    refine (hm.rely hr3').job e2 hc3.seen (.exhaust now a hop hc3.due hc3.exhausted)
      fun _ => ⟨r, hr, hterm, ?_⟩
    cases hst : r.status with
    | queued => rw [hst] at hterm; cases hterm
    | running => rw [hst] at hterm; cases hterm
    | completed => exact Or.inr ⟨hop, Or.inl rfl⟩
    | cancelled => exact Or.inr ⟨hop, Or.inr rfl⟩
    | failed => exact Or.inl (by rw [Agrees, hst]; rfl)
    | orphaned => exact Or.inl (by rw [Agrees, hst]; rfl)
  have hjob (db : Db Tables) (ns' id' : String) (hid : (ns', id') ≠ (ns, id)) :
      jobAt (view t2.writes db) ns' id' = jobAt (view t.writes db) ns' id' := by
    rw [ht2, failing, view_write, jobAt_job_of_ne _ hid]
  have ho3 := ho2.rely hr3
  have ha3 : Aside .build t2.writes w3.db := aside_tenant (ha.rely hg hr3') e2 _
  split
  · apply wp_appendWake
    intro w4 e4 hr4 hi4 hs4 hnone4
    have hr4' : (protocol p renews).Rely t2.held w3 w4 := hr4
    have hseen4 : (view t2.writes w4.db).work.wakes.get wake = none := by
      rw [← show e4.db = view t2.writes w4.db from hs4.db]
      exact hnone4
    have hfree : w4.db.work.wakes.get wake = none := by
      rcases (hm3.rely hr4').within.cells (.wake wake) with h | h
      · exact h
      · exact Eq.trans (Eq.symm h) hseen4
    refine next _ w4 ⟨hr3'.trans (hr4'.mono hsub2),
      ((ho3.rely hr4').query _).wake e4 _ hseen4, ((hm3.rely hr4').query _).wake e4 _ hseen4,
      aside_wake (ha3.rely ho2.guarded hr4') e4 (fun he => by cases he) hfree, ?_⟩
    intro ns' id' hid
    rw [view_write, jobAt_wake]
    exact hjob w4.db ns' id' hid
  · exact next _ w3 ⟨hr3', ho3.query _, hm3.query _, ha3, hjob w3.db⟩

/-- The run of a failed job is in flight: it is orphaned, and its schedule is woken. -/
private theorem wp_orphanedRun {r : BuildRun} (hop : op.exhausts ns) (hm : Mine p i op t w)
    (ha : Aside .build t.writes w.db) (hc : Condemned ns now t w (id, a))
    (hr2 : (protocol p renews).Rely t.held w w2) (ho2 : Over p i op t (failing ns t now id a e2) w2)
    (hr3 : (protocol p renews).Rely (failing ns t now id a e2).held w2 w3)
    (hs3 : (protocol p renews).Sees i (failing ns t now id a e2) w3 e3)
    (hget3 : runs.get ns a.buildId e3 = some r) (hinflight : r.status.inflight = true)
    (hscheduled : r.scheduleId ≠ none → scheduled)
    (next : ∀ t' w', Onward p renews i op ns id t w t' w' → (protocol p renews).wp i op Q k t' w') :
    (protocol p renews).wp i op Q
      (if scheduled then (do let _ ← appendWake ns .schedule wake; k) else k)
      ((failing ns t now id a e2).after e3
        ⟨[], [.tenant ns (.run a.buildId (some (orphanedRun now r)))]⟩) w3 := by
  have hg := hm.within.guarded
  set t2 := failing ns t now id a e2 with ht2
  have hsub2 : t.held ⊆ t2.held := t.held_subset_after _ _
  have hdb3 : e3.db = view t2.writes w3.db := hs3.db
  have hr3' : (protocol p renews).Rely t.held w w3 := hr2.trans (hr3.mono hsub2)
  have hseen3 : runAt (view t.writes w3.db) ns a.buildId = some r := by
    have hview : runAt (view t2.writes w3.db) ns a.buildId = some r := by
      rw [← hdb3]
      exact hget3
    rwa [ht2, failing, view_write, runAt_job] at hview
  set t3 := t2.after e3 ⟨[], [.tenant ns (.run a.buildId (some (orphanedRun now r)))]⟩ with ht3
  have ho3 : Over p i op t t3 w3 := by
    refine (ho2.rely hr3).run e3 ?_
    rw [ht2, failing, view_write, runAt_job, hseen3]
    exact .orphan now r hop hinflight
  have hview (db : Db Tables) : view t3.writes db = ((view t.writes db).write
      (.tenant ns (TableWrite.job id (some (failedJob now a))))).write
        (.tenant ns (TableWrite.run a.buildId (some (orphanedRun now r)))) := by
    rw [ht3, view_write, ht2, failing, view_write]
  have hsub3 : t.held ⊆ t3.held := fun _ hk => t2.held_subset_after _ _ (hsub2 hk)
  have ha3 : Aside .build t3.writes w3.db := aside_tenant (aside_tenant (ha.rely hg hr3') e2 _) e3 _
  have hjob (db : Db Tables) (ns' id' : String) (hid : (ns', id') ≠ (ns, id)) :
      jobAt (view t3.writes db) ns' id' = jobAt (view t.writes db) ns' id' := by
    rw [hview, jobAt_run, jobAt_job_of_ne _ hid]
  have hrun (db : Db Tables) (ns' id' : String) (hid : (ns', id') ≠ (ns, a.buildId)) :
      runAt (view t3.writes db) ns' id' = runAt (view t.writes db) ns' id' := by
    rw [hview, runAt_run_of_ne _ hid, runAt_job]
  have hschedule (db : Db Tables) (ns' id' : String) :
      scheduleAt (view t3.writes db) ns' id' = scheduleAt (view t.writes db) ns' id' := by
    rw [hview, scheduleAt_run, scheduleAt_job]
  have hevent (db : Db Tables) (ns' : String) (key : String × ℕ) :
      eventAt (view t3.writes db) ns' key = eventAt (view t.writes db) ns' key := by
    rw [hview, eventAt_run, eventAt_job]
  have hfailed (db : Db Tables) : jobAt (view t3.writes db) ns id = some (failedJob now a) := by
    rw [hview, jobAt_run, jobAt_job]
  have horphan (db : Db Tables) :
      runAt (view t3.writes db) ns a.buildId = some (orphanedRun now r) := by
    rw [hview, runAt_run]
  split
  · apply wp_appendWake
    intro w4 e4 hr4 hi4 hs4 hnone4
    have hr4' : (protocol p renews).Rely t.held w w4 := hr3'.trans (hr4.mono hsub3)
    have hseen4 : (view t3.writes w4.db).work.wakes.get wake = none := by
      rw [← show e4.db = view t3.writes w4.db from hs4.db]
      exact hnone4
    have hbase : (view t.writes w4.db).work.wakes.get wake = none := by
      rwa [hview, wakes_tenant, wakes_tenant] at hseen4
    have hm4 : Mine p i op t w4 := hm.rely hr4'
    have hfree : w4.db.work.wakes.get wake = none := by
      rcases hm4.within.cells (.wake wake) with h | h
      · exact h
      · exact Eq.trans (Eq.symm h) hbase
    -- the run is held since it was written
    have hseen5 : runAt (view t.writes w4.db) ns a.buildId = some r :=
      Eq.trans (view_same t.writes (hr4.same (granted_write t2 e3 _))) hseen3
    have ho4 := (ho3.rely hr4).wake e4 ⟨ns, .schedule, e4.now, false⟩ hseen4
    refine next _ w4 ⟨hr4', ho4, orphaned_unit now hm4 ho4 (hc.rely hg hr4').seen hseen5
      ?_ ?_ ?_ ?_ ?_ ?_ fun _ => ?_,
      aside_wake (ha3.rely ho3.guarded hr4) e4 (fun he => by cases he) hfree, ?_⟩
    · intro ns' id' hid
      rw [view_write]
      exact (jobAt_wake _ _).trans (hjob _ _ _ hid)
    · intro ns' id' hid
      rw [view_write]
      exact (runAt_wake _ _).trans (hrun _ _ _ hid)
    · intro ns' id'
      rw [view_write]
      exact (scheduleAt_wake _ _).trans (hschedule _ _ _)
    · intro ns' key
      rw [view_write]
      exact (eventAt_wake _ _ _).trans (hevent _ _ _)
    · rw [view_write]
      exact (jobAt_wake _ _).trans (hfailed _)
    · rw [view_write]
      exact (runAt_wake _ _).trans (horphan _)
    · rw [view_write, hm4.home hi4 hseen5]
      exact NewWake.of_write ns .schedule e4.now hbase
    · intro ns' id' hid
      rw [view_write]
      exact (jobAt_wake _ _).trans (hjob _ _ _ hid)
  · next hnot =>
    exact next _ w3 ⟨hr3', ho3, orphaned_unit now (hm.rely hr3') ho3 (hc.rely hg hr3').seen hseen3
      (hjob _) (hrun _) (hschedule _) (hevent _) (hfailed _) (horphan _)
      fun hsched => absurd (hscheduled hsched) hnot, ha3, hjob _⟩

end Settled

/-- The pass over a batch of held jobs, by induction on the batch. -/
theorem wp_exhaustAll {now n : ℕ} {wakeId : ℕ → ℕ} {rows : List (String × BuildJob)}
    (hop : op.exhausts ns) (hm : Mine p i op t w) (ha : Aside .build t.writes w.db)
    (hn : (rows.map Prod.fst).Nodup) (hrows : ∀ x ∈ rows, Condemned ns now t w x)
    (hQ : ∀ t' w', Mine p i op t' w' → Aside .build t'.writes w'.db → Q () t' w') :
    (protocol p renews).wp i op Q (exhaustAll ns now wakeId n rows) t w := by
  induction rows generalizing t w n with
  | nil => exact hQ t w hm ha
  | cons x rest ih =>
    obtain ⟨id, row⟩ := x
    rw [List.map_cons, List.nodup_cons] at hn
    have hne (y : String × BuildJob) (hy : y ∈ rest) : y.1 ≠ id :=
      fun he => hn.1 (he ▸ List.mem_map.mpr ⟨y, hy, rfl⟩)
    unfold exhaustAll
    apply Protocol.wp_query
    intro w1 e1 hr1 hi1 hs1
    set t1 : BuildTxn := ⟨t.held, t.writes, some e1.began⟩ with ht1
    have hg := hm.within.guarded
    have hm1 : Mine p i op t1 w1 := (hm.rely hr1).query _
    have ha1 : Aside .build t1.writes w1.db := ha.rely hg hr1
    have hrows1 (y) (hy : y ∈ (id, row) :: rest) : Condemned ns now t1 w1 y := by
      have hc := (hrows y hy).rely hg hr1
      exact ⟨hc.held, hc.seen, hc.exhausted, hc.due, hc.run⟩
    have hc1 := hrows1 _ List.mem_cons_self
    apply wp_update
    · intro w2 e2 hr2 hi2 hs2 hmiss
      have hseen := (hc1.rely hg hr2).seen
      rw [← hs2.db] at hseen
      rw [show jobs.get ns id e2 = some row from hseen] at hmiss
      cases hmiss
    · intro w2 e2 a hr2 hi2 hs2 hget _
      have hc2 := hc1.rely hg hr2
      have hseen : jobAt (view t1.writes w2.db) ns id = some row := hc2.seen
      have hrow : a = row := by
        rw [← hs2.db] at hseen
        exact Option.some.inj (Eq.trans (Eq.symm hget) hseen)
      subst hrow
      have ho2 : Over p i op t1 (failing ns t1 now id a e2) w2 := by
        refine (Over.refl (hm1.rely hr2).within.guarded).job e2 ?_
        rw [hseen]
        exact .exhaust now a hop hc2.due hc2.exhausted
      have next (t' w') (h : Onward p renews i op ns id t1 w1 t' w') :
          (protocol p renews).wp i op Q (exhaustAll ns now wakeId (n + 1) rest) t' w' :=
        ih h.mine h.aside hn.2 fun y hy =>
          ((hrows1 y (List.mem_cons_of_mem _ hy)).rely hg h.rely).after h.onTop (hne y hy) h.jobs
      obtain ⟨r1, hfirst⟩ := Option.ne_none_iff_exists'.mp hc1.run
      have hread : runs.get ns a.buildId e1 = some r1 := by
        rw [← hfirst, ht1, ← hs1.db]
        rfl
      rw [hread]
      apply wp_update
      · intro w3 e3 hr3 hi3 hs3 hmiss
        exact wp_endedRun hop hm1 ha1 hc1 hr2 ho2 hr3 hs3 hmiss next
      · intro w3 e3 r hr3 hi3 hs3 hget3 hinflight
        refine wp_orphanedRun hop hm1 ha1 hc1 hr2 ho2 hr3 hs3 hget3 hinflight (fun hsched => ?_)
          next
        -- the run keeps its schedule since it was read
        obtain ⟨r', hr', hd⟩ := run_view_rely hg (hr2.trans (hr3.mono (t1.held_subset_after _ _)))
          hfirst
        have hview : runAt (view (failing ns t1 now id a e2).writes w3.db) ns a.buildId =
            some r := by
          rw [← show e3.db = view (failing ns t1 now id a e2).writes w3.db from hs3.db]
          exact hget3
        rw [failing, view_write, runAt_job] at hview
        cases Eq.trans (Eq.symm hr') hview
        rw [hd.scheduleId] at hsched
        exact Option.isSome_iff_ne_none.mpr hsched

/-- Committing complete units of work together with a refreshed projection. -/
theorem Mine.act_refreshed {t' : BuildTxn} (hm : Mine p i op t w) (huns : op.unscheduled)
    (hop : op.exhausts ns) (hh : t.held ⊆ t'.held)
    (hp : Projects queue ns .build renews w.db (view t.writes w.db) (view t'.writes w.db)) :
    Act p renews i op t'.held w (view t'.writes w.db) := by
  have hexhausts : ∃ wakeId, op = .reconcileExpiredBuildJobs ns wakeId := by
    cases op with
    | reconcileExpiredBuildJobs ns' wakeId => exact ⟨wakeId, by rw [show ns' = ns from hop]⟩
    | _ => exact hop.elim
  obtain ⟨wakeId, rfl⟩ := hexhausts
  have hjob (ns' id : String) : jobAt (view t'.writes w.db) ns' id =
      jobAt (view t.writes w.db) ns' id := by rw [jobAt, hp.tenants]; rfl
  have hrun (ns' id : String) : runAt (view t'.writes w.db) ns' id =
      runAt (view t.writes w.db) ns' id := by rw [runAt, hp.tenants]; rfl
  have hschedule (ns' id : String) : scheduleAt (view t'.writes w.db) ns' id =
      scheduleAt (view t.writes w.db) ns' id := by rw [scheduleAt, hp.tenants]; rfl
  have hkey {ns' : String} : (ns', RuntimeWorkKind.schedule) ≠ (ns, RuntimeWorkKind.build) :=
    fun he => by cases he
  exact
    { job := fun ns' id => by rw [hjob]; exact hm.within.cells (.tenant ns' (.job id))
      run := fun ns' id => by
        rw [hrun]
        exact RunStep.mono hh (hm.within.cells (.tenant ns' (.run id)))
      schedule := fun ns' id => by
        rw [hschedule]
        exact hm.within.cells (.tenant ns' (.schedule id))
      datasource := fun ns' id => by
        rw [hp.tenants]
        exact hm.within.cells (.tenant ns' (.datasource id))
      joint :=
        { owned := fun ns' id j hx hj => by
            rw [hrun]
            exact hm.joint.owned ns' id j hx (by rwa [hjob] at hj)
          woken := fun ns' id hx hj => by
            have hs : JobStep p _ w.now ns' (jobAt w.db ns' id)
                (jobAt (view t.writes w.db) ns' id) :=
              hm.within.cells (.tenant ns' (.job id))
            rw [hx] at hs
            rw [hjob] at hj
            exact (hs.stages hj).elim
          settled := fun ns' id x j hx hn hj ht => by
            rw [hrun]
            exact hm.joint.settled ns' id x j hx hn (by rwa [hjob] at hj) ht
          alarmed := fun ns' id x r hx hn hs hr ht => by
            obtain ⟨wake, hnone, hlive⟩ :=
              hm.joint.alarmed ns' id x r hx hn hs (by rwa [hrun] at hr) ht
            exact ⟨wake, hnone, hp.staged (x.ns, .schedule) hkey wake hlive⟩
          edited := fun ns' id hedit _ => hedit.elim
          logged := fun ns' id => (hm.joint.logged ns' id).congr ⟨rfl, fun _ => rfl⟩
            ⟨hrun ns' id, fun n => by rw [eventAt, hp.tenants]; rfl⟩
          released := fun ns' id s x hs hx => by
            rw [hrun]
            exact hm.joint.released ns' id s x (by rwa [hschedule] at hs) hx }
      enqueued := fun ns' args he => absurd he (huns ns' args)
      issued := hp.issued
      still := fun ns' kind _ hack => hp.other (ns', kind) fun he => by
        cases he
        exact hack ⟨rfl, rfl⟩
      refreshed := fun hC ns' hns => by
        rw [← show ns = ns' from hns]
        exact hp.own.imp_right fun href => href hC }

variable {R : Reply → BuildTxn → BuildWorld → Prop}

private theorem exhaustBatch_spec (ns : String) (e : BuildEnv) (now : ℕ) :
    ((exhaustBatch ns e now).map Prod.fst).Nodup ∧
      ∀ x ∈ exhaustBatch ns e now, jobAt e.db ns x.1 = some x.2 ∧ exhaustedJob now x.2 = true := by
  unfold exhaustBatch
  constructor
  · refine List.Nodup.sublist ((List.take_sublist _ _).map _) ?_
    refine ((List.perm_insertionSort _ _).map _).nodup_iff.mpr ?_
    exact (e.db.tenants ns).jobs.nodup.sublist (List.filter_sublist.map _)
  · intro x hx
    have hmem := (List.mem_insertionSort _).mp (List.mem_of_mem_take hx)
    obtain ⟨hrow, hex⟩ := List.mem_filter.mp hmem
    exact ⟨(Table.mem_rows_iff _ _ _).mp hrow, (Bool.and_eq_true_iff.mp hex).1⟩

theorem verified_reconcileExpiredBuildJobs {wakeId : ℕ → ℕ}
    (hop : op = .reconcileExpiredBuildJobs ns wakeId) (hQ : ∀ r t w, R r t w) :
    (protocol p renews).wp i op R (reconcileExpiredBuildJobs ns wakeId) {} w := by
  have hex : op.exhausts ns := by rw [hop]; rfl
  have huns : op.unscheduled := fun _ _ he => by rw [hop] at he; cases he
  unfold reconcileExpiredBuildJobs
  apply Protocol.wp_query
  intro w1 e1 hr1 hi1 hs1
  apply Protocol.wp_statement
  intro w2 e2 hr2 hi2 hs2
  obtain ⟨hnodup, hbatch⟩ := exhaustBatch_spec ns e2 e1.began
  have hm2 : Mine p i op ⟨[], [], some e1.began⟩ w2 := Mine.of_nil rfl
  have he2 : e2.db = w2.db := hs2.db
  have hbegan : e1.began ≤ w2.now := (show e1.began = w1.now from hs1.began).le.trans hr2.now_le
  rw [Protocol.wp_bind]
  refine wp_exhaustAll hex (hm2.lock e2 _ _) ⟨(fun _ hv => by cases hv), fun _ _ hv => by cases hv⟩
    hnodup (fun x hx => ?_) fun t3 w3 hm3 ha3 => ?_
  · obtain ⟨hseen, hexhausted⟩ := hbatch x hx
    rw [he2] at hseen
    exact ⟨⟨_, granted_lockRows _ e2 (List.mem_map.mpr ⟨x, hx, rfl⟩), rfl⟩, hseen, hexhausted,
      hbegan, hi2.owned ns x.1 x.2 hseen⟩
  · rw [Protocol.wp_bind]
    apply wp_refresh (keeps p renews) hm3.within.guarded ha3
    intro t4 w4 hg4 hh4 hr4 hp4
    apply Protocol.wp_commit
    intro w5 hr5 hi5 hc5
    have hm5 := hm3.rely (hr4.trans (hr5.mono hh4))
    exact ⟨hm5.act_refreshed huns hex hh4 (hp4 w5 hr5), hQ _ _ _⟩

end Exhaust
end DataForge.Builds
