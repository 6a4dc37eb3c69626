import DataForge.Builds.Stage

/-!
# Builds: the events of a run

`mark_build_running`, `stage_build_event` and the operations around them meet the protocol. An
event is one unit of work: the projected run, the row of the log, the outbox row and, when a
scheduled run ends, the schedule wake.
-/

namespace DataForge.Builds

open ReadCommitted DataForge.Runtime

variable {p : Platform} {renews : Prop} {i : ℕ} {op : Op} {t : BuildTxn} {w : BuildWorld}
  {ns : String}

section Claims

variable {β : Type} {Q : β → BuildTxn → BuildWorld → Prop}

/-- The active claim a command works under, held if it was locked. -/
theorem wp_activeClaimOf {claim : BuildClaim} {lock : Bool} {k : Option BuildJob → BuildScript β}
    (hm : Mine p i op t w)
    (hnone : ∀ t' w', Mine p i op t' w' → t'.writes = t.writes → t.held ⊆ t'.held →
      (protocol p renews).Rely t.held w w' → (protocol p renews).wp i op Q (k none) t' w')
    (hsome : ∀ t' w' j, Mine p i op t' w' → t'.writes = t.writes → t.held ⊆ t'.held →
      (protocol p renews).Rely t.held w w' → (protocol p renews).wp i op Q (k (some j)) t' w') :
    (protocol p renews).wp i op Q (activeClaimOf ns claim lock >>= k) t w := by
  unfold activeClaimOf
  rw [Script.bind_assoc]
  apply Protocol.wp_query
  intro w1 e1 hr1 hi1 hs1
  have hm1 := hm.rely hr1
  cases lock with
  | true =>
    simp only [if_true]
    apply wp_selectForUpdate
    · intro w2 e2 hr2 _ _ _
      exact hnone _ _ (((hm1.query _).rely hr2).lock e2 _ _) (List.append_nil _)
        (Txn.held_subset_after _ _ _) (hr1.trans hr2)
    · intro w2 e2 j hr2 _ _ _ _
      exact hsome _ _ j (((hm1.query _).rely hr2).lock e2 _ _) (List.append_nil _)
        (Txn.held_subset_after _ _ _) (hr1.trans hr2)
  | false =>
    apply Protocol.wp_query
    intro w2 e2 hr2 _ _
    have hm2 : Mine p i op ⟨t.held, t.writes, some e2.began⟩ w2 := (hm1.rely hr2).query _
    cases hf : (jobs.get ns claim.jobId e2).filter
        (fun j => decide (j.buildId = claim.buildId) && activeJobClaim claim e1.began j) with
    | none => exact hnone _ _ hm2 rfl (List.Subset.refl _) (hr1.trans hr2)
    | some j => exact hsome _ _ j hm2 rfl (List.Subset.refl _) (hr1.trans hr2)

variable {k : Unit → BuildScript β} {notice : Notice}

/-- `enqueue_api_build_notification` writes beside builds and schedules. -/
theorem wp_enqueueApiBuildNotification {payloadNs buildId : String} {latest : ℕ} (hg : t.Guarded)
    (hk : ∀ t' w', Over p i op t t' w' → Beside t t' →
      (protocol p renews).Rely t.held w w' → (protocol p renews).wp i op Q (k ()) t' w') :
    (protocol p renews).wp i op Q
      (enqueueApiBuildNotification ns payloadNs buildId latest notice >>= k) t w := by
  unfold enqueueApiBuildNotification
  rw [Script.bind_assoc]
  apply Protocol.wp_query
  intro w1 e1 hr1 hi1 hs1
  have ho1 : Over p i op t ⟨t.held, t.writes, some e1.began⟩ w1 := (Over.refl hg).query _
  rw [Script.bind_assoc]
  apply wp_insert
  intro w2 e2 hr2 hi2 hs2 _
  set t1 : BuildTxn := ⟨t.held, t.writes, some e1.began⟩
  have ho2 := (ho1.rely hr2).outbox e2 ns notice.id
    (some ⟨payloadNs, buildId, latest, e1.began⟩)
  rw [Script.bind_assoc]
  apply wp_appendWake
  intro w3 e3 hr3 hi3 hs3 hnone
  have hsub := t1.held_subset_after e2 ⟨[], [.tenant ns (outbox.put notice.id
    (some ⟨payloadNs, buildId, latest, e1.began⟩))]⟩
  have hfree := (congrArg (fun db : Db Tables => db.work.wakes.get notice.wakeId) hs3.db).symm.trans
    hnone
  refine hk _ _ ((ho2.rely hr3).wake e3 _ hfree) ?_ (hr1.trans (hr2.trans (hr3.mono hsub)))
  exact ((Beside.refl rfl).outbox e2 ns notice.id _).wake e3 _ _

theorem wp_notifyWhen {cond : Bool} {payloadNs buildId : String} {latest : ℕ} (hg : t.Guarded)
    (hk : ∀ t' w', Over p i op t t' w' → Beside t t' →
      (protocol p renews).Rely t.held w w' → (protocol p renews).wp i op Q (k ()) t' w') :
    (protocol p renews).wp i op Q
      (notifyWhen ns cond payloadNs buildId latest notice >>= k) t w := by
  unfold notifyWhen
  split
  · exact wp_enqueueApiBuildNotification hg hk
  · exact hk t w (Over.refl hg) (Beside.refl rfl) .refl

theorem wp_notifyEvent {args : EventArgs} {run : BuildRun} (hg : t.Guarded)
    (hk : ∀ t' w', Over p i op t t' w' → Beside t t' →
      (protocol p renews).Rely t.held w w' → (protocol p renews).wp i op Q (k ()) t' w') :
    (protocol p renews).wp i op Q (notifyEvent ns args run >>= k) t w := by
  unfold notifyEvent
  split
  · rw [Script.bind_assoc]
    apply wp_update
    · intro w1 e1 hr1 _ _ _
      exact hk _ _ ((Over.refl hg).query _) (Beside.refl rfl) hr1
    · intro w1 e1 a hr1 _ _ _ _
      exact hk _ _ ((Over.refl hg).outbox e1 ns args.notice.id _)
        ((Beside.refl rfl).outbox e1 ns args.notice.id _) hr1
  · exact wp_notifyWhen hg hk

/-- `mark_build_running` commits at most the compare-and-set of one run. -/
theorem wp_markBuildRunning {buildId : String} {generation now : ℕ}
    {k : Option BuildRun → BuildScript β} (hop : op.unscheduled) (hmarks : op.marks ns)
    (hm : Mine p i op t w) (hk : ∀ r t' w', (protocol p renews).wp i op Q (k r) t' w') :
    (protocol p renews).wp i op Q
      (markBuildRunning ns buildId generation now notice >>= k) t w := by
  unfold markBuildRunning
  rw [Script.bind_assoc]
  apply Protocol.wp_query
  intro w1 e1 hr1 hi1 hs1
  have hm1 := (hm.rely hr1).query (some e1.began)
  cases hrun : runs.get ns buildId e1 with
  | none => exact hk _ _ _
  | some run =>
    dsimp only
    split
    · exact hk _ _ _
    · next hinflight =>
      split
      · exact hk _ _ _
      · next hgen =>
        split
        · exact hk _ _ _
        · rw [Script.bind_assoc]
          refine wp_notifyWhen hm1.within.guarded fun t2 w2 ho2 hb2 hr2 => ?_
          have hm2 := (hm1.rely hr2).beside ho2 hb2
          rw [casUpdateBuildRun, Script.bind_assoc]
          apply wp_update
          · intro w3 e3 hr3 _ _ _
            simp only [Option.isSome_none, Bool.false_eq_true, if_false, Script.bind_assoc]
            apply Protocol.wp_rollback
            intro w4 _ _
            apply Protocol.wp_query
            exact fun _ _ _ _ _ => hk _ _ _
          · intro w3 e3 a hr3 hi3 hs3 hget hcas
            have hm3 := hm2.rely hr3
            simp only [Bool.and_eq_true, decide_eq_true_eq] at hcas
            -- the same version carries the same generation
            obtain ⟨a', ha', hd⟩ := run_view_rely hm1.within.guarded (hr2.trans (hr3.mono ho2.held))
              (show runAt (view t.writes w1.db) ns buildId = some run by rw [← hs1.db]; exact hrun)
            have ha : runAt (view t2.writes w3.db) ns buildId = some a := by
              rw [← hs3.db]
              exact hget
            have hseen := ha
            rw [hb2.run, ha'] at ha
            cases ha
            have hgeneration := hd.generation hcas.2
            simp only [Option.isSome_some, if_true, Script.bind_assoc]
            apply Protocol.wp_commit
            intro w4 hr4 _ _
            refine ⟨Mine.commit (Mine.rely (Mine.run (x := a) hm3 e3 hseen ?_ ?_ ?_) hr4) hop, ?_⟩
            · rw [← hcas.2]
              exact .mark generation now a hmarks (by rw [hcas.1]; simpa using hinflight) (by omega)
            · rfl
            · rfl
            · apply Protocol.wp_query
              exact fun _ _ _ _ _ => hk _ _ _

end Claims

/-- What `stage_build_event` has staged over `t` when it has taken an event. -/
structure EventStaged (ns : String) (args : EventArgs) (run : BuildRun) (t t' : BuildTxn)
    (w : BuildWorld) : Prop where
  job : ∀ ns' id, jobAt (view t'.writes w.db) ns' id = jobAt (view t.writes w.db) ns' id
  schedule : ∀ ns' id,
    scheduleAt (view t'.writes w.db) ns' id = scheduleAt (view t.writes w.db) ns' id
  other : ∀ ns' id, (ns', id) ≠ (ns, args.buildId) →
    runAt (view t'.writes w.db) ns' id = runAt (view t.writes w.db) ns' id
  silent : ∀ ns' key, (ns', key) ≠ (ns, (args.buildId, run.nextEventSequence)) →
    eventAt (view t'.writes w.db) ns' key = eventAt (view t.writes w.db) ns' key
  accepted : run.acceptsEvent args.event args.expected args.authoritative = true
  before : runAt (view t.writes w.db) ns args.buildId = some run
  free : eventAt (view t.writes w.db) ns (args.buildId, run.nextEventSequence) = none
  after : runAt (view t'.writes w.db) ns args.buildId =
    some (run.afterEvent args.event args.authoritative args.resourceConfigJson)
  event : eventAt (view t'.writes w.db) ns (args.buildId, run.nextEventSequence) =
    some ⟨run.ns, args.event, args.createdAt⟩
  alarm : args.event.body.terminalStatus ≠ none → run.scheduleId ≠ none →
    NewWake (view t.writes w.db) (view t'.writes w.db) run.ns .schedule

section Events

variable {run : BuildRun}

theorem afterEvent_status {event : BuildEvent} {expected authoritative : Option ℕ}
    (config : Option String) (h : run.acceptsEvent event expected authoritative = true) :
    (run.afterEvent event authoritative config).status =
      event.body.terminalStatus.getD run.status := by
  simp only [BuildRun.acceptsEvent, Bool.and_eq_true, Bool.or_eq_true, Bool.not_eq_true',
    decide_eq_true_eq] at h
  unfold BuildRun.afterEvent
  cases ht : run.status.isTerminal with
  | true =>
    rcases h.2 with hn | hs
    · rw [ht] at hn
      cases hn
    · rw [if_pos rfl, hs]
      rfl
  | false =>
    rw [if_neg Bool.false_ne_true]
    obtain ⟨context, body⟩ := event
    cases body <;> rfl

/-- What an event writes, whatever is committed meanwhile. -/
structure EventWritten (ns : String) (args : EventArgs) (run : BuildRun) (t t' : BuildTxn) :
    Prop where
  job : ∀ db ns' id, jobAt (view t'.writes db) ns' id = jobAt (view t.writes db) ns' id
  schedule : ∀ db ns' id,
    scheduleAt (view t'.writes db) ns' id = scheduleAt (view t.writes db) ns' id
  other : ∀ db ns' id, (ns', id) ≠ (ns, args.buildId) →
    runAt (view t'.writes db) ns' id = runAt (view t.writes db) ns' id
  silent : ∀ db ns' key, (ns', key) ≠ (ns, (args.buildId, run.nextEventSequence)) →
    eventAt (view t'.writes db) ns' key = eventAt (view t.writes db) ns' key
  after : ∀ db, runAt (view t'.writes db) ns args.buildId =
    some (run.afterEvent args.event args.authoritative args.resourceConfigJson)
  event : ∀ db, eventAt (view t'.writes db) ns (args.buildId, run.nextEventSequence) =
    some ⟨run.ns, args.event, args.createdAt⟩

theorem afterEvent_sequence (run : BuildRun) (event : BuildEvent) (authoritative : Option ℕ)
    (config : Option String) : (run.afterEvent event authoritative config).nextEventSequence =
      run.nextEventSequence + 1 := by
  unfold BuildRun.afterEvent
  split
  · rfl
  · obtain ⟨x, hx, -, -, -, -, -, hsequence⟩ := kept_project run event authoritative config
    rw [hx]
    exact congrArg (· + 1) hsequence

variable {args : EventArgs} {t' : BuildTxn}

theorem EventWritten.of_view
    (hview : ∀ db, view t'.writes db = ((view t.writes db).write (.tenant ns
      (TableWrite.run args.buildId (some (run.afterEvent args.event args.authoritative
        args.resourceConfigJson))))).write (.tenant ns (TableWrite.event
          (args.buildId, run.nextEventSequence) (some ⟨run.ns, args.event, args.createdAt⟩)))) :
    EventWritten ns args run t t' where
  job db ns' id := by rw [hview, jobAt_event, jobAt_run]
  schedule db ns' id := by rw [hview, scheduleAt_event, scheduleAt_run]
  other db ns' id hne := by rw [hview, runAt_event, runAt_run_of_ne _ hne]
  silent db ns' key hne := by rw [hview, eventAt_event_of_ne _ hne, eventAt_run]
  after db := by rw [hview, runAt_event, runAt_run]
  event db := by rw [hview, eventAt_event]

theorem EventWritten.beside {t1 t2 : BuildTxn} (hw : EventWritten ns args run t t1)
    (hb : Beside t1 t2) : EventWritten ns args run t t2 where
  job db ns' id := (hb.job _ _ _).trans (hw.job db ns' id)
  schedule db ns' id := (hb.schedule _ _ _).trans (hw.schedule db ns' id)
  other db ns' id hne := (hb.run _ _ _).trans (hw.other db ns' id hne)
  silent db ns' key hne := (hb.event _ _ _).trans (hw.silent db ns' key hne)
  after db := (hb.run _ _ _).trans (hw.after db)
  event db := (hb.event _ _ _).trans (hw.event db)

theorem EventWritten.staged (hw : EventWritten ns args run t t')
    (haccept : run.acceptsEvent args.event args.expected args.authoritative = true)
    (hbefore : runAt (view t.writes w.db) ns args.buildId = some run)
    (hfree : eventAt (view t.writes w.db) ns (args.buildId, run.nextEventSequence) = none)
    (halarm : args.event.body.terminalStatus ≠ none → run.scheduleId ≠ none →
      NewWake (view t.writes w.db) (view t'.writes w.db) run.ns .schedule) :
    EventStaged ns args run t t' w :=
  ⟨hw.job _, hw.schedule _, hw.other _, hw.silent _, haccept, hbefore, hfree, hw.after _,
    hw.event _, halarm⟩

variable {Q : Option ℕ → BuildTxn → BuildWorld → Prop}

private theorem wp_scheduleWake {t1 : BuildTxn} (ho : Over p i op t t1 w)
    (hw : EventWritten ns args run t t1)
    (haccept : run.acceptsEvent args.event args.expected args.authoritative = true)
    (hrow : ∀ w', (protocol p renews).Rely t1.held w w' →
      runAt (view t.writes w'.db) ns args.buildId = some run)
    (hfree : ∀ w', (protocol p renews).Rely t1.held w w' →
      eventAt (view t.writes w'.db) ns (args.buildId, run.nextEventSequence) = none)
    (hsome : ∀ t' w', Over p i op t t' w' → (protocol p renews).Rely t1.held w w' →
      EventStaged ns args run t t' w' → Q (some run.nextEventSequence) t' w') :
    (protocol p renews).wp i op Q
      (if args.event.body.terminalStatus.isSome ∧ run.scheduleId.isSome then do
        let _ ← appendWake run.ns .schedule args.wakeId
        pure (some run.nextEventSequence)
      else pure (some run.nextEventSequence)) t1 w := by
  split
  · apply wp_appendWake
    intro w2 e2 hr2 hi2 hs2 hnone2
    rw [hs2.db] at hnone2
    have hissue : (view t.writes w2.db).work.wakes.get args.wakeId = none :=
      by_contra fun hne => cells_issued (ho.rely hr2).cells hne hnone2
    refine hsome _ _ ((ho.rely hr2).wake e2 _ hnone2) hr2 ?_
    refine (hw.beside ((Beside.refl rfl).wake e2 _ _)).staged haccept (hrow w2 hr2) (hfree w2 hr2)
      fun _ _ => ?_
    rw [view_write]
    exact NewWake.of_write run.ns .schedule e2.now hissue
  · next hquiet =>
    refine hsome _ _ ho .refl (hw.staged haccept (hrow w .refl) (hfree w .refl) ?_)
    intro hterm hsched
    exact absurd ⟨Option.isSome_iff_ne_none.mpr hterm, Option.isSome_iff_ne_none.mpr hsched⟩ hquiet

theorem wp_stageBuildEvent (hop : op.emits ns args.expected) (hg : t.Guarded)
    (hnone : ∀ t' w', Over p i op t t' w' → t'.writes = t.writes →
      (protocol p renews).Rely t.held w w' → Q none t' w')
    (hsome : ∀ t' w' n run, Over p i op t t' w' →
      (protocol p renews).Rely t.held w w' → EventStaged ns args run t t' w' → Q (some n) t' w') :
    (protocol p renews).wp i op Q (stageBuildEvent ns args) t w := by
  unfold stageBuildEvent
  split
  · trivial
  · apply wp_selectForUpdate
    · exact fun _ _ _ _ _ _ => trivial
    · intro w1 e1 run hr1 hi1 hs1 hget _
      set t1 := t.after e1 (lockRows [runs.row ns args.buildId] .exclusive) with ht1
      have hw1 : t1.writes = t.writes := List.append_nil _
      have hsub1 : t.held ⊆ t1.held := t.held_subset_after _ _
      have hgrant : Granted t1.held (runs.row ns args.buildId) :=
        ⟨e1.now, granted_lockRows t e1 List.mem_cons_self⟩
      have ho1 : Over p i op t t1 w1 := (Over.refl hg).lock e1 _ _
      -- the run is held since it was selected
      have hrow {w' : BuildWorld} (hr : (protocol p renews).Rely t1.held w1 w') :
          runAt (view t.writes w'.db) ns args.buildId = some run := by
        have hsame := view_same t.writes
          (hr.same (granted_lockRows t e1 (r := runs.row ns args.buildId) List.mem_cons_self))
        refine Eq.trans hsame ?_
        rw [← hs1.db]
        exact hget
      dsimp only
      split
      · exact hnone _ _ ho1 hw1 hr1
      · next haccept =>
        rw [Bool.not_eq_false] at haccept
        split
        · trivial
        · apply wp_update
          · intro w2 e2 hr2 _ hs2 hmiss
            have hget2 : runs.get ns args.buildId e2 = some run := by
              have hseen := hrow hr2
              rw [← hw1, ← hs2.db] at hseen
              exact hseen
            rw [hget2] at hmiss
            cases hmiss
          · intro w2 e2 a hr2 hi2 hs2 hget2 _
            have hseen : runAt (view t1.writes w2.db) ns args.buildId = some run := by
              rw [hw1]
              exact hrow hr2
            have ha : a = run := by
              rw [← hs2.db] at hseen
              exact Option.some.inj (Eq.trans (Eq.symm hget2) hseen)
            subst ha
            set run' := a.afterEvent args.event args.authoritative args.resourceConfigJson
            set t2 := t1.after e2 ⟨[], [.tenant ns (.run args.buildId (some run'))]⟩ with ht2
            have ho2 : Over p i op t t2 w2 := by
              refine (ho1.rely hr2).run e2 ?_
              rw [hseen]
              exact .event args a hop haccept
            have hsub2 : t1.held ⊆ t2.held := t1.held_subset_after _ _
            unfold insertEvent
            apply Protocol.wp_exec
            intro w3 e3 hr3 hi3 hs3
            by_cases hdup : ((e3.db.tenants ns).events.get
                (args.buildId, a.nextEventSequence)).isSome = true
            · simp only [if_pos hdup]
              trivial
            · simp only [if_neg hdup]
              set t3 := t2.after e3 ⟨[], [.tenant ns (.event (args.buildId, a.nextEventSequence)
                (some ⟨a.ns, args.event, args.createdAt⟩))]⟩ with ht3
              have hheld : Granted t2.held (runs.row ns args.buildId) :=
                hgrant.imp fun _ hm => hsub2 hm
              have ho3 : Over p i op t t3 w3 := (ho2.rely hr3).event e3 _ hheld
              have hsub3 : t1.held ⊆ t3.held := fun _ hk => t2.held_subset_after _ _ (hsub2 hk)
              have hwritten : EventWritten ns args a t t3 := .of_view fun db => by
                rw [ht3, view_write, ht2, view_write, hw1]
              have hr3' : (protocol p renews).Rely t1.held w1 w3 := hr2.trans (hr3.mono hsub2)
              -- while the run is held its log does not grow
              have hfree {w' : BuildWorld} (hr : (protocol p renews).Rely t1.held w3 w') :
                  eventAt (view t.writes w'.db) ns (args.buildId, a.nextEventSequence) = none := by
                have hlog := sameLog_rely hr
                  (granted_lockRows t e1 (r := runs.row ns args.buildId) List.mem_cons_self) rfl
                have hsame := view_same (r := Resource.tenant ns
                  (TableRow.event (args.buildId, a.nextEventSequence))) t.writes
                    (hlog.2 a.nextEventSequence)
                have hdb : e3.db = view t2.writes w3.db := hs3.db
                have hseen3 : eventAt e3.db ns (args.buildId, a.nextEventSequence) = none :=
                  Option.not_isSome_iff_eq_none.mp hdup
                rw [hdb, ht2, view_write, eventAt_run, hw1] at hseen3
                exact Eq.trans hsame hseen3
              refine wp_notifyEvent ho3.guarded fun t4 w4 ho4 hb4 hr4 => ?_
              have hr4' := hr3'.trans (hr4.mono hsub3)
              have hsub4 : t1.held ⊆ t4.held := fun _ hk => ho4.held (hsub3 hk)
              refine wp_scheduleWake ((ho3.rely hr4).trans ho4) (hwritten.beside hb4) haccept
                (fun w' hr => hrow (hr4'.trans (hr.mono hsub4)))
                (fun w' hr => hfree ((hr4.mono hsub3).trans (hr.mono hsub4)))
                fun t5 w5 ho5 hr5 hs5 => ?_
              exact hsome t5 w5 _ a ho5
                (hr1.trans ((hr4'.trans (hr5.mono hsub4)).mono hsub1)) hs5

/-- The log of an event that has been staged. -/
theorem EventStaged.logged (hs : EventStaged ns args run t t' w) :
    Logged ns args.buildId (view t.writes w.db) (view t'.writes w.db) := by
  have hnext : nextSequence (view t.writes w.db) ns args.buildId = run.nextEventSequence := by
    rw [nextSequence, hs.before, Option.elim_some]
  have hnext' : nextSequence (view t'.writes w.db) ns args.buildId =
      run.nextEventSequence + 1 := by
    rw [nextSequence, hs.after, Option.elim_some]
    exact afterEvent_sequence _ _ _ _
  have hsilent (n : ℕ) (hn : n ≠ run.nextEventSequence) :
      eventAt (view t'.writes w.db) ns (args.buildId, n) =
        eventAt (view t.writes w.db) ns (args.buildId, n) :=
    hs.silent ns _ fun he => hn (by cases he; rfl)
  refine ⟨fun n e he => ?_, fun n he => ?_, fun n e status he he' hterm => ?_⟩
  · by_cases hn : n = run.nextEventSequence
    · rw [hn, hs.free] at he
      cases he
    · rw [hsilent n hn, he]
  · rw [hnext, hnext']
    by_cases hn : n = run.nextEventSequence
    · rw [hn, hs.event]
      exact ⟨fun _ => ⟨Nat.le_refl _, Nat.lt_succ_self _⟩, fun _ => Option.some_ne_none _⟩
    · rw [hsilent n hn, he]
      exact ⟨fun hne => absurd rfl hne, fun hlt => absurd (by omega) hn⟩
  · by_cases hn : n = run.nextEventSequence
    · rw [hn, hs.event] at he'
      cases he'
      refine ⟨_, hs.after, ?_⟩
      rw [afterEvent_status _ hs.accepted, show args.event.body.terminalStatus = _ from hterm]
      rfl
    · rw [hsilent n hn, he] at he'
      cases he'

theorem EventStaged.logs (hs : EventStaged ns args run t t' w) (ns' id : String) :
    Logged ns' id (view t.writes w.db) (view t'.writes w.db) := by
  by_cases hid : (ns', id) = (ns, args.buildId)
  · cases hid
    exact hs.logged
  · refine .of_rows (hs.other ns' id hid) fun n => hs.silent ns' _ fun he => hid ?_
    cases he
    rfl

theorem EventStaged.mine (hm : Mine p i op t w) (ho : Over p i op t t' w)
    (hs : EventStaged ns args run t t' w) :
    Mine p i op t' w := by
  refine hm.unit ho (Joint.rows ns "" args.buildId (fun ns' id _ => hs.job ns' id) hs.other
    hs.schedule (fun hnone j hj => ?_) (fun x j hx hn hj ht => ?_)
    (fun x r hx hn hsched hr ht => ?_) hs.logs)
  · rw [hs.job, hnone] at hj
    cases hj
  · rw [hs.job, hx] at hj
    cases hj
    rw [hn] at ht
    cases ht
  · rw [hs.before] at hx
    cases hx
    rw [hs.after] at hr
    cases hr
    rw [afterEvent_status _ hs.accepted] at ht
    refine hs.alarm (fun hnone => ?_) hsched
    rw [hnone, Option.getD_none, hn] at ht
    cases ht

end Events

section Commands

variable {Q : Reply → BuildTxn → BuildWorld → Prop}

variable {args : EventArgs}

theorem wp_appendBuildEvent (hop : op.unscheduled) (hemit : op.emits ns args.expected)
    (hm : Mine p i op t w) (hQ : ∀ r t w, Q r t w) :
    (protocol p renews).wp i op Q (appendBuildEvent ns args) t w := by
  unfold appendBuildEvent
  refine wp_notifyWhen hm.within.guarded fun t1 w1 ho1 hb1 hr1 => ?_
  have hm1 := (hm.rely hr1).beside ho1 hb1
  rw [Protocol.wp_bind]
  refine wp_stageBuildEvent hemit hm1.within.guarded ?_ ?_
  · intro t2 w2 _ _ _
    apply Protocol.wp_rollback
    exact fun _ _ _ => hQ _ _ _
  · intro t2 w2 n run ho2 hr2 hs2
    have hm2 := hs2.mine (hm1.rely hr2) ho2
    apply Protocol.wp_commit
    intro w3 hr3 _ _
    exact ⟨(hm2.rely hr3).commit hop, hQ _ _ _⟩

theorem verified_appendBuildEvent (hop : op = .appendBuildEvent ns args) (hQ : ∀ r t w, Q r t w) :
    (protocol p renews).wp i op Q (appendBuildEvent ns args) {} w :=
  wp_appendBuildEvent (fun _ _ he => by rw [hop] at he; cases he)
    (by rw [hop]; exact ⟨rfl, rfl⟩) (Mine.of_nil rfl) hQ

theorem verified_persistBuildEvent {claim : BuildClaim}
    (hop : op = .persistBuildEvent ns claim args) (hQ : ∀ r t w, Q r t w) :
    (protocol p renews).wp i op Q (persistBuildEvent ns claim args) {} w := by
  unfold persistBuildEvent
  refine wp_activeClaimOf (Mine.of_nil rfl) (fun _ _ _ _ _ _ => hQ _ _ _) ?_
  intro t1 w1 j hm1 _ _ _
  exact wp_appendBuildEvent (fun _ _ he => by rw [hop] at he; cases he)
    (by rw [hop]; exact ⟨rfl, rfl⟩) hm1 hQ

theorem verified_markBuildRunning {buildId : String} {generation now : ℕ} {notice : Notice}
    (hop : op = .markBuildRunning ns buildId generation now notice) (hQ : ∀ r t w, Q r t w) :
    (protocol p renews).wp i op Q
      (do let run ← markBuildRunning ns buildId generation now notice; pure (.run run)) {} w :=
  wp_markBuildRunning (fun _ _ he => by rw [hop] at he; cases he) (by rw [hop]; rfl)
    (Mine.of_nil rfl) fun _ _ _ => hQ _ _ _

theorem verified_startBuildRun {claim : BuildClaim} {now : ℕ} {notice : Notice}
    (hop : op = .startBuildRun ns claim now notice) (hQ : ∀ r t w, Q r t w) :
    (protocol p renews).wp i op Q (startBuildRun ns claim now notice) {} w := by
  unfold startBuildRun
  refine wp_activeClaimOf (Mine.of_nil rfl) (fun _ _ _ _ _ _ => hQ _ _ _) ?_
  intro t1 w1 j hm1 _ _ _
  exact wp_markBuildRunning (fun _ _ he => by rw [hop] at he; cases he) (by rw [hop]; rfl)
    hm1 fun _ _ _ => hQ _ _ _

end Commands
end DataForge.Builds
