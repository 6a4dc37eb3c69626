import DataForge.Builds.Expire
import DataForge.Builds.Scan
import DataForge.Builds.Settle
import DataForge.Builds.Trigger

/-!
# Builds and schedules: every interleaving

All operations on builds and schedules meet the protocol, so its invariants hold in every state
that any number of interleaved calls can reach. At most one trigger of a schedule is in flight,
and only the holder of its current claim starts one. Jobs agree with their runs until an
exhaustion pass meets a build that had already ended.
-/

namespace DataForge.Builds

open ReadCommitted DataForge.Runtime

abbrev BuildSystem := System Op (Db Tables) (Write TableWrite) (Resource TableRow) Reply

/-- Before the first build and the first schedule; analyses, datasources, notifications and work
tables may be anything. -/
def Fresh (db : Db Tables) : Prop :=
  ∀ ns, (db.tenants ns).jobs = .empty ∧ (db.tenants ns).runs = .empty ∧
    (db.tenants ns).events = .empty ∧ (db.tenants ns).schedules = .empty

/-- Any interleaving of any number of calls, without conditions on them. -/
abbrev Reaches (p : Platform) : BuildSystem → BuildSystem → Prop :=
  Run (code p) fun _ _ _ => True

/-- A state that some interleaving reaches. -/
def Reachable (p : Platform) (s : BuildSystem) : Prop :=
  ∃ now db, Fresh db ∧ Reaches p ⟨now, db, []⟩ s

/-- A state that some interleaving reaches whose commits all satisfy `E`. -/
def ReachableWhen (p : Platform) (E : Op → BuildWorld → Prop) (s : BuildSystem) : Prop :=
  ∃ now db, Fresh db ∧ Run (code p) (Meets E) ⟨now, db, []⟩ s

/-- Nothing is asked of the replies. -/
def anyReply (_ : ℕ) (_ : Op) (_ : Reply) (_ : BuildTxn)
    (_ : BuildWorld) : Prop := True

/-- Every operation meets the protocol. -/
theorem verified (p : Platform) (renews : Prop) :
    Verified (protocol p renews) (code p) anyReply := by
  intro i op w _ _
  have hQ : ∀ r t w, anyReply i op r t w := fun _ _ _ => trivial
  cases op with
  | startBuild ns args => exact verified_startBuild rfl hQ
  | claimNextJob ns args => exact verified_claimNextJob rfl hQ
  | renewJobLease ns claim => exact verified_renewJobLease rfl hQ
  | startBuildRun ns claim now notice => exact verified_startBuildRun rfl hQ
  | markBuildRunning ns buildId generation now notice => exact verified_markBuildRunning rfl hQ
  | appendBuildEvent ns args => exact verified_appendBuildEvent rfl hQ
  | persistBuildEvent ns claim args => exact verified_persistBuildEvent rfl hQ
  | failBuildJob ns claim error emittedAt createdAt wakeId notice =>
    exact verified_failBuildJob rfl hQ
  | finalizeBuildJob ns claim => exact verified_finalizeBuildJob rfl hQ
  | cancelBuild ns args => exact verified_cancelBuild rfl hQ
  | reconcileExpiredBuildJobs ns wakeId => exact verified_reconcileExpiredBuildJobs rfl hQ
  | createSchedule ns args => exact verified_createSchedule rfl hQ
  | updateSchedule ns args => exact verified_updateSchedule rfl hQ
  | deleteSchedule ns id wakeId => exact verified_deleteSchedule rfl hQ
  | claimDueSchedules ns args => exact verified_claimDueSchedules rfl hQ
  | enqueueScheduleRun ns args => exact verified_enqueueScheduleRun rfl hQ
  | markScheduleEnqueueFailed ns args => exact verified_markScheduleEnqueueFailed rfl hQ
  | reconcileScheduleRun ns buildId now => exact verified_reconcileScheduleRun rfl hQ
  | reconcilePendingScheduleRuns ns limit now =>
    exact verified_reconcilePendingScheduleRuns rfl hQ
  | finishScheduleWorkScan ns args => exact verified_finishScheduleWorkScan rfl hQ
  | otherWork wakes markers => exact verified_otherWork rfl hQ

section Fresh

variable {db : Db Tables} (h : Fresh db) (ns id : String)
include h

theorem Fresh.jobAt_eq : jobAt db ns id = none := by rw [jobAt, (h ns).1]; rfl

theorem Fresh.runAt_eq : runAt db ns id = none := by rw [runAt, (h ns).2.1]; rfl

theorem Fresh.eventAt_eq (key : String × ℕ) : eventAt db ns key = none := by
  rw [eventAt, (h ns).2.2.1]; rfl

theorem Fresh.scheduleAt_eq : scheduleAt db ns id = none := by
  rw [scheduleAt, (h ns).2.2.2]; rfl

omit ns id in
theorem Fresh.inv (now : ℕ) : Inv ⟨now, db⟩ where
  lease ns id j hj := by rw [h.jobAt_eq ns id] at hj; cases hj
  owned ns id j hj := by rw [h.jobAt_eq ns id] at hj; cases hj
  home ns id r hr := by rw [h.runAt_eq ns id] at hr; cases hr

end Fresh

section Runs

variable {p : Platform} {E : Op → BuildWorld → Prop} {s s' : BuildSystem} {a : Action Op}

theorem Reachable.of_replay (p : Platform) {db : Db Tables} (hfresh : Fresh db) (now : ℕ)
    (actions : List (Action Op)) (test : BuildSystem → Bool)
    (h : (System.replay (code p) ⟨now, db, []⟩ actions).any test = true) :
    ∃ s, Reachable p s ∧ test s = true := by
  obtain ⟨s, hs, htest⟩ := (Option.any_eq_true _ _).mp h
  exact ⟨s, ⟨now, db, hfresh, .of_replay hs⟩, htest⟩

theorem ReachableWhen.of_replay (p : Platform) [∀ op w, Decidable (E op w)] {db : Db Tables}
    (hfresh : Fresh db) (now : ℕ) (actions : List (Action Op)) (test : BuildSystem → Bool)
    (h : (System.replayWhen (code p) (System.meets fun op w => decide (E op w)) ⟨now, db, []⟩
      actions).any test = true) : ∃ s, ReachableWhen p E s ∧ test s = true := by
  obtain ⟨s, hs, htest⟩ := (Option.any_eq_true _ _).mp h
  exact ⟨s, ⟨now, db, hfresh, .of_replay_meets (fun _ _ => of_decide_eq_true) hs⟩, htest⟩

theorem admits_any : (protocol p False).Admits s a s' :=
  ⟨fun _ _ hC => hC.elim, fun _ _ _ _ _ _ hC => hC.elim, fun _ _ _ _ _ _ _ => trivial⟩

theorem Reachable.good (h : Reachable p s) : Good (protocol p False) anyReply s := by
  obtain ⟨now, db, hfresh, hr⟩ := h
  exact (Good.start (hfresh.inv now)).run (verified p False) (hr.mono fun _ _ _ _ => admits_any)

theorem Reachable.trans (h : Reachable p s) (hr : Reaches p s s') : Reachable p s' := by
  obtain ⟨now, db, hfresh, hr0⟩ := h
  exact ⟨now, db, hfresh, hr0.trans hr⟩

theorem Reachable.step (h : Reachable p s) (hs : s.step (code p) a = some s') : Reachable p s' :=
  h.trans ((Run.refl s).step hs trivial)

/-- The induction rule for states reached under a condition on commits. -/
theorem ReachableWhen.induct {S : BuildWorld → Prop} (h : ReachableWhen p E s)
    (fresh : ∀ now db, Fresh db → S ⟨now, db⟩)
    (tick : ∀ w n, w.now ≤ n → S w → S ⟨n, w.db⟩)
    (commit : ∀ w db i op t, (protocol p False).Commits [] w db i op t → E op w → S w →
      S ⟨w.now, db⟩) : S s.world := by
  obtain ⟨now, db, hfresh, hr⟩ := h
  exact (Good.start (hfresh.inv now)).preserves (verified p False) tick commit
    (hr.mono fun _ _ _ hm => ⟨admits_any, hm⟩) (fresh now db hfresh)

theorem ReachableWhen.reachable (h : ReachableWhen p E s) : Reachable p s := by
  obtain ⟨now, db, hfresh, hr⟩ := h
  exact ⟨now, db, hfresh, hr.mono fun _ _ _ _ => trivial⟩

theorem ReachableWhen.step (h : ReachableWhen p E s) (hs : s.step (code p) a = some s')
    (hm : Meets E s a s') : ReachableWhen p E s' := by
  obtain ⟨now, db, hfresh, hr⟩ := h
  exact ⟨now, db, hfresh, hr.step hs hm⟩

theorem Reachable.when (h : Reachable p s) : ReachableWhen p (fun _ _ => True) s := by
  obtain ⟨now, db, hfresh, hr⟩ := h
  exact ⟨now, db, hfresh, hr.mono fun _ _ _ _ _ _ _ _ _ _ => trivial⟩

theorem Reachable.changes (h : Reachable p s) (hs : s.step (code p) a = some s') :
    s'.db = s.db ∨ ∃ i c next, a = .run i ∧ s.calls[i]? = some c ∧ c.script = .commit next ∧
      Act p False i c.op c.txn.held s.world s'.db := by
  rcases h.good.changes hs admits_any with hdb | ⟨i, c, next, ha, hc, hscript, -, -, -, hact⟩
  · exact Or.inl hdb
  · exact Or.inr ⟨i, c, next, ha, hc, hscript, hact⟩

end Runs

section Acts

variable {p : Platform} {renews : Prop} {i : ℕ} {op : Op} {h : BuildLocks}
  {w : BuildWorld} {db : Db Tables} {ns id sid : String} {r : BuildRun}

theorem Act.run_from (ha : Act p renews i op h w db) (hr : runAt db ns id = some r) :
    (∃ b, runAt w.db ns id = some b ∧ Descends b r) ∨
      (runAt w.db ns id = none ∧ ∃ b, NewRun i op h ns b ∧ Descends b r) := by
  have hs := ha.run ns id
  rw [hr] at hs
  cases hb : runAt w.db ns id with
  | none =>
    rw [hb] at hs
    exact Or.inr ⟨rfl, hs.staged⟩
  | some b =>
    rw [hb] at hs
    obtain ⟨a, ha', hd⟩ := hs.descends
    cases ha'
    exact Or.inl ⟨b, rfl, hd⟩

theorem Act.run_new (ha : Act p renews i op h w db) (hb : runAt w.db ns id = none)
    (hr : runAt db ns id = some r) (hsid : r.scheduleId = some sid) :
    ∃ args s, op = .enqueueScheduleRun ns args ∧ args.scheduleId = sid ∧
      r.createdAt = args.stamp ∧ r.origin = some ⟨i, args.leaseGeneration⟩ ∧
      Enqueued ns args s w.db db := by
  rcases ha.run_from hr with ⟨b, hb', -⟩ | ⟨-, b, hnew, hd⟩
  · rw [hb] at hb'
    cases hb'
  · obtain ⟨args, hop, hid, -, -, hat, horigin⟩ := hnew.ofSchedule (hd.scheduleId ▸ hsid)
    obtain ⟨s, hs⟩ := ha.enqueued ns args hop
    exact ⟨args, s, hop, hid.symm, hd.createdAt.trans hat, hd.origin.trans horigin, hs⟩

end Acts

/-- Runs of one schedule that are in flight together have one origin. -/
def OneTrigger (w : BuildWorld) : Prop :=
  ∀ ns sid id id' r r', runAt w.db ns id = some r → runAt w.db ns id' = some r' →
    r.scheduleId = some sid → r'.scheduleId = some sid → r.status.inflight = true →
    r'.status.inflight = true → r.origin = r'.origin

section Triggers

variable {p : Platform} {renews : Prop} {i : ℕ} {op : Op} {h : BuildLocks}
  {w : BuildWorld} {db : Db Tables} {s s' : BuildSystem} {a : Action Op}

theorem Descends.inflight {b r : BuildRun} (hd : Descends b r) (hr : r.status.inflight = true) :
    b.status.inflight = true := by
  rw [inflight_eq_not_terminal, Bool.not_eq_true'] at hr ⊢
  by_contra hterm
  rw [Bool.not_eq_false] at hterm
  rw [hd.status hterm, hterm] at hr
  cases hr

/-- An enqueue starts from a schedule with nothing in flight, so its runs are the only ones. -/
theorem Act.oneTrigger (ha : Act p renews i op h w db) (hw : OneTrigger w) :
    OneTrigger ⟨w.now, db⟩ := by
  -- a new run next to an older one that is in flight
  have hnew {ns sid id id' : String} {r r' b : BuildRun} (hr : runAt db ns id = some r)
      (hfresh : runAt w.db ns id = none) (hsid : r.scheduleId = some sid)
      (hb : runAt w.db ns id' = some b) (hd : Descends b r') (hsid' : r'.scheduleId = some sid)
      (hf : r'.status.inflight = true) : r.origin = r'.origin := by
    obtain ⟨args, s, -, rfl, -, -, henq⟩ := ha.run_new hfresh hr hsid
    have hidle := henq.idle id' b hb (hd.scheduleId ▸ hsid')
    have hlive := hd.inflight hf
    rw [inflight_eq_not_terminal, hidle] at hlive
    cases hlive
  intro ns sid id id' r r' hr hr' hsid hsid' hf hf'
  rcases ha.run_from hr with ⟨b, hb, hd⟩ | ⟨hb, -⟩
  · rcases ha.run_from hr' with ⟨b', hb', hd'⟩ | ⟨hb', -⟩
    · rw [hd.origin, hd'.origin]
      exact hw ns sid id id' b b' hb hb' (hd.scheduleId ▸ hsid) (hd'.scheduleId ▸ hsid')
        (hd.inflight hf) (hd'.inflight hf')
    · exact (hnew hr' hb' hsid' hb hd hsid hf).symm
  · rcases ha.run_from hr' with ⟨b', hb', hd'⟩ | ⟨hb', -⟩
    · exact hnew hr hb hsid hb' hd' hsid' hf'
    · obtain ⟨args, -, hop, -, -, horigin, -⟩ := ha.run_new hb hr hsid
      obtain ⟨args', -, hop', -, -, horigin', -⟩ := ha.run_new hb' hr' hsid'
      rw [hop] at hop'
      cases hop'
      rw [horigin, horigin']

theorem Reachable.oneTrigger (h : Reachable p s) : OneTrigger s.world :=
  h.when.induct (fun now db hf ns sid id id' r r' hr => by rw [hf.runAt_eq] at hr; cases hr)
    (fun _ _ _ hw => hw) (fun _ _ _ _ _ hc _ hw => hc.act.oneTrigger hw)

/-- Some call enqueues this schedule under this origin. -/
def EnqueuedBy (s : BuildSystem) (ns sid : String) (origin : Option Origin) : Prop :=
  ∃ i args c, s.calls[i]? = some c ∧ c.op = .enqueueScheduleRun ns args ∧
    args.scheduleId = sid ∧ origin = some ⟨i, args.leaseGeneration⟩

theorem EnqueuedBy.step {ns sid : String} {origin : Option Origin}
    (hs : s.step (code p) a = some s') (h : EnqueuedBy s ns sid origin) :
    EnqueuedBy s' ns sid origin := by
  obtain ⟨i, args, c, hc, hop, hid, horigin⟩ := h
  obtain ⟨c', hc', hop'⟩ := (stepped hs).op_eq hc
  exact ⟨i, args, c', hc', hop'.trans hop, hid, horigin⟩

theorem Reachable.enqueuer (h : Reachable p s) {ns sid id : String} {r : BuildRun}
    (hr : runAt s.db ns id = some r) (hsid : r.scheduleId = some sid) :
    EnqueuedBy s ns sid r.origin := by
  obtain ⟨now, db, hfresh, hrun⟩ := h
  induction hrun generalizing r with
  | refl =>
    rw [hfresh.runAt_eq] at hr
    cases hr
  | step hrun hs _ ih =>
    rcases Reachable.changes ⟨now, db, hfresh, hrun⟩ hs with hdb | ⟨i, c, next, -, hc, -, hact⟩
    · exact (ih (hdb ▸ hr) hsid).step hs
    · rcases hact.run_from hr with ⟨b, hb, hd⟩ | ⟨hb, -⟩
      · rw [hd.origin]
        exact (ih hb (hd.scheduleId ▸ hsid)).step hs
      · obtain ⟨args, -, hop, hid, -, horigin, -⟩ := hact.run_new hb hr hsid
        exact EnqueuedBy.step hs ⟨i, args, c, hc, hop, hid, horigin⟩

theorem staleClaim_eq_false {args : EnqueueArgs} {row : Schedule} :
    staleClaim args row = false ↔ row.leaseOwner = some args.workerId ∧
      row.claimToken = some args.claimToken ∧ row.leaseGeneration = args.leaseGeneration ∧
      ∃ e, row.leaseExpiresAt = some e ∧ args.stamp < e := by
  cases he : row.leaseExpiresAt with
  | none => simp [staleClaim, he]
  | some e => simp [staleClaim, he, and_assoc]

/-- At most one trigger of a schedule is in flight: its runs that are queued or running have been
enqueued by a single call, which a run remembers for good, and a run is added to a schedule only
by a call that presents the current claim of the schedule before it expires. -/
theorem single_trigger_in_flight (h : Reachable p s) (ns sid : String) :
    (∀ id id' r r', runAt s.db ns id = some r → runAt s.db ns id' = some r' →
      r.scheduleId = some sid → r'.scheduleId = some sid → r.status.inflight = true →
      r'.status.inflight = true → ∃ i args c, s.calls[i]? = some c ∧
        c.op = .enqueueScheduleRun ns args ∧ args.scheduleId = sid ∧
        r.origin = some ⟨i, args.leaseGeneration⟩ ∧ r'.origin = some ⟨i, args.leaseGeneration⟩) ∧
    (∀ a s' id r, s.step (code p) a = some s' → runAt s'.db ns id = some r →
      r.scheduleId = some sid → (∃ b, runAt s.db ns id = some b ∧ b.origin = r.origin) ∨
        ∃ i args c row e, a = .run i ∧ s.calls[i]? = some c ∧
          c.op = .enqueueScheduleRun ns args ∧ args.scheduleId = sid ∧
          r.origin = some ⟨i, args.leaseGeneration⟩ ∧ scheduleAt s.db ns sid = some row ∧
          row.leaseOwner = some args.workerId ∧ row.claimToken = some args.claimToken ∧
          row.leaseGeneration = args.leaseGeneration ∧ row.leaseExpiresAt = some e ∧
          args.stamp < e) := by
  constructor
  · intro id id' r r' hr hr' hsid hsid' hf hf'
    obtain ⟨i, args, c, hc, hop, hid, horigin⟩ := h.enqueuer hr hsid
    have heq := h.oneTrigger ns sid id id' r r' hr hr' hsid hsid' hf hf'
    exact ⟨i, args, c, hc, hop, hid, horigin, heq ▸ horigin⟩
  · intro a s' id r hs hr hsid
    rcases h.changes hs with hdb | ⟨i, c, next, ha, hc, -, hact⟩
    · exact Or.inl ⟨r, hdb ▸ hr, rfl⟩
    · rcases hact.run_from hr with ⟨b, hb, hd⟩ | ⟨hb, -⟩
      · exact Or.inl ⟨b, hb, hd.origin.symm⟩
      · obtain ⟨args, row, hop, rfl, -, horigin, henq⟩ := hact.run_new hb hr hsid
        obtain ⟨howner, htoken, hgen, e, he, hlt⟩ := staleClaim_eq_false.mp henq.current
        exact Or.inr ⟨i, args, c, row, e, ha, hc, hop, rfl, horigin, henq.before, howner, htoken,
          hgen, he, hlt⟩

end Triggers

/-- A deployment to evaluate runs on; every schedule is due a moment after its last run. -/
def samplePlatform : Platform := ⟨fun _ => 0, fun _ t => t + 1, 300⟩

/-- One datasource that two analyses read. -/
def sampleDb : Db Tables :=
  ⟨fun _ => ⟨.empty, .empty, .empty, .empty, .empty, Table.empty.put "d" (some { name := "d" }),
    (Table.empty.put "a" (some ⟨"a", [⟨"x", "x", "d", none, "x", []⟩], none⟩)).put "b"
      (some ⟨"b", [⟨"y", "y", "d", none, "y", []⟩], none⟩)⟩, ⟨.empty, .empty⟩⟩

theorem sampleDb_fresh : Fresh sampleDb := fun _ => ⟨rfl, rfl, rfl, rfl⟩

/-- Calls one after the other from number `i` on: when each starts, and how many steps it takes. -/
def inTurn : ℕ → List (ℕ × Op × ℕ) → List (Action Op)
  | _, [] => []
  | i, (now, op, n) :: rest =>
    .tick now :: .spawn op :: List.replicate n (.run i) ++ inTurn (i + 1) rest

/-- A schedule on `d` is created, claimed by `w` and enqueued. -/
def sampleTrigger : List (ℕ × Op × ℕ) :=
  [(0, .createSchedule "n" { id := "s", datasourceId := "d", now := 0, wakeId := 0 }, 4),
    (1, .claimDueSchedules "n"
      { workerId := "w", now := 1, host := 1, claimToken := fun _ => "t", fuel := 1 }, 14),
    (1, .enqueueScheduleRun "n" ⟨"s", "w", "t", 1, 1, fun n => if n = 0 then "a" else "b",
      fun n => if n = 0 then "a" else "b", fun n => n + 1⟩, 18)]

/-- Both builds of a trigger are in flight, enqueued by the one call under the one claim. -/
theorem single_trigger_in_flight_fan_out : ∃ s r r', Reachable samplePlatform s ∧
    runAt s.db "n" "a" = some r ∧ runAt s.db "n" "b" = some r' ∧
    r.scheduleId = some "s" ∧ r'.scheduleId = some "s" ∧
    r.status.inflight = true ∧ r'.status.inflight = true ∧ ∃ i args c, s.calls[i]? = some c ∧
      c.op = .enqueueScheduleRun "n" args ∧ args.scheduleId = "s" ∧
      r.origin = some ⟨i, args.leaseGeneration⟩ ∧
      r'.origin = some ⟨i, args.leaseGeneration⟩ := by
  obtain ⟨s, hreach, htest⟩ := Reachable.of_replay samplePlatform sampleDb_fresh 0
    (inTurn 0 sampleTrigger)
    (fun s => (runAt s.db "n" "a").any (fun r => r.scheduleId = some "s" && r.status.inflight) &&
      (runAt s.db "n" "b").any fun r => r.scheduleId = some "s" && r.status.inflight)
    (by decide +kernel)
  rw [Bool.and_eq_true, Option.any_eq_true, Option.any_eq_true] at htest
  obtain ⟨⟨r, hr, hrow⟩, r', hr', hrow'⟩ := htest
  simp only [Bool.and_eq_true, decide_eq_true_eq] at hrow hrow'
  exact ⟨s, r, r', hreach, hr, hr', hrow.1, hrow'.1, hrow.2, hrow'.2,
    (single_trigger_in_flight hreach "n" "s").1 "a" "b" r r' hr hr' hrow.1 hrow'.1 hrow.2 hrow'.2⟩

/-- A terminal job has a terminal run, and the status `_terminal_outcome` assigns to it. -/
def Agreement (w : BuildWorld) : Prop :=
  ∀ ns id j, jobAt w.db ns id = some j → j.status.isTerminal = true →
    ∃ r, runAt w.db ns j.buildId = some r ∧ r.status.isTerminal = true ∧ Agrees j.status r

/-- An exhaustion pass finds no exhausted job of a build that has completed or been cancelled. -/
def NoneOvertaken : Op → BuildWorld → Prop
  | .reconcileExpiredBuildJobs ns _, w => ∀ x ∈ (w.db.tenants ns).jobs.rows,
      exhaustedJob w.now x.2 = true → ∀ r ∈ runAt w.db ns x.2.buildId,
        r.status ≠ .completed ∧ r.status ≠ .cancelled
  | _, _ => True

instance (op : Op) (w : BuildWorld) : Decidable (NoneOvertaken op w) := by
  unfold NoneOvertaken; split <;> infer_instance

section Agreement

variable {p : Platform} {renews : Prop} {i : ℕ} {op : Op} {h : BuildLocks}
  {w : BuildWorld} {db : Db Tables} {s : BuildSystem}

theorem Act.run_final (ha : Act p renews i op h w db) {ns id : String} {r : BuildRun}
    (hr : runAt w.db ns id = some r) (hterm : r.status.isTerminal = true) :
    ∃ n, runAt db ns id = some { r with nextEventSequence := n } := by
  obtain ⟨r', hr', hd⟩ := ha.run_descends hr
  exact ⟨r'.nextEventSequence, by rw [hr', ← hd.final hterm]⟩

theorem Act.agreement (ha : Act p renews i op h w db) (hE : NoneOvertaken op w)
    (hw : Agreement w) : Agreement ⟨w.now, db⟩ := by
  intro ns id j hj hterm
  have hs := ha.job ns id
  cases hx : jobAt w.db ns id with
  | none =>
    rw [hx] at hs
    rw [hs.queued j hj] at hterm
    cases hterm
  | some x =>
    rw [hx] at hs
    cases hxt : x.status.isTerminal with
    | true =>
      have hsame : jobAt db ns id = some x := hs.terminal hxt
      obtain rfl : j = x := Option.some.inj (Eq.trans (Eq.symm hj) hsame)
      obtain ⟨r, hr, hrt, hag⟩ := hw ns id j hx hxt
      obtain ⟨n, hr'⟩ := ha.run_final hr hrt
      exact ⟨_, hr', hrt, hag⟩
    | false =>
      obtain ⟨r, hr, hrt, hag⟩ := ha.joint.settled ns id x j hx hxt hj hterm
      refine ⟨r, hr, hrt, hag.resolve_right fun ⟨hop, hst⟩ => ?_⟩
      -- the pass left the run alone, so it had already ended
      have hbefore := (hr ▸ ha.run ns j.buildId).spares hop hst
      have hne : jobAt db ns id ≠ some x := by
        intro hsame
        obtain rfl : j = x := Option.some.inj (Eq.trans (Eq.symm hj) hsame)
        rw [hterm] at hxt
        cases hxt
      obtain ⟨j', hj', hid⟩ := hs.stays
      obtain rfl : j = j' := Option.some.inj (Eq.trans (Eq.symm hj) hj')
      rw [hid] at hbefore
      have hclear : r.status ≠ .completed ∧ r.status ≠ .cancelled := by
        cases op with
        | reconcileExpiredBuildJobs ns' wakeId =>
          have hns : ns' = ns := hop
          subst hns
          exact hE (id, x) ((Table.mem_rows_iff _ _ _).mpr hx) (hs.exhausted hop hne) r hbefore
        | _ => exact hop.elim
      rcases hst with hst | hst
      · exact hclear.1 hst
      · exact hclear.2 hst

/-- Jobs agree with their runs in every state of every run in which no exhaustion pass commits
while the job of a completed or cancelled build is exhausted. -/
theorem job_agrees_with_run (h : ReachableWhen p NoneOvertaken s) : Agreement s.world :=
  h.induct (fun now db hf ns id j hj => by rw [hf.jobAt_eq] at hj; cases hj)
    (fun _ _ _ hw => hw) (fun _ _ _ _ _ hc hE hw => hc.act.agreement hE hw)

end Agreement

/-- A build of no schedule. -/
def sampleRun : BuildRun :=
  { ns := "n"
    scheduleId := none
    analysisId := "a"
    analysisName := "a"
    status := .queued
    requestJson := ""
    starterJson := ""
    createdAt := 0
    startedAt := 0
    updatedAt := 0 }

/-- The claim of the worker `w` on its job. -/
def sampleBuildClaim : BuildClaim := ⟨"j", "b", "w", "t", 1⟩

/-- A build is started and claimed, and its execution starts. -/
def sampleExecution : List (ℕ × Op × ℕ) :=
  [(0, .startBuild "n" ⟨⟨"b", "j", 0, sampleRun⟩, ["d"], []⟩, 7),
    (1, .claimNextJob "n" ⟨"w", [], "t"⟩, 5),
    (1, .startBuildRun "n" sampleBuildClaim 1 ⟨"o", 1⟩, 9)]

/-- The worker reports the completion of the build. -/
def sampleComplete (notice : Notice) : Op :=
  .persistBuildEvent "n" sampleBuildClaim
    { buildId := "b"
      event := ⟨⟨"b", "a", 2, none, none, none, none, none, none, none⟩,
        .complete ⟨1, 0, 0, 1, "", 0⟩⟩
      expected := some 1
      notice
      createdAt := 2
      wakeId := 9 }

/-- The exhaustion pass at the time the lease of the claim has expired. -/
def sampleExhaustion : ℕ × Op × ℕ :=
  (seconds 31, .reconcileExpiredBuildJobs "n" fun n => n + 20, 10)

/-- A worker crashes while it executes a build: the pass fails the job and orphans the run. -/
theorem job_agrees_with_run_crash : ∃ s j, ReachableWhen samplePlatform NoneOvertaken s ∧
    jobAt s.db "n" "j" = some j ∧ j.status = .failed ∧
    ∃ r, runAt s.db "n" j.buildId = some r ∧ r.status.isTerminal = true ∧ Agrees .failed r := by
  obtain ⟨s, hreach, htest⟩ := ReachableWhen.of_replay (E := NoneOvertaken) samplePlatform
    sampleDb_fresh 0 (inTurn 0 (sampleExecution ++ [sampleExhaustion]))
    (fun s => (jobAt s.db "n" "j").any fun j => j.status = .failed) (by decide +kernel)
  obtain ⟨j, hj, hrow⟩ := (Option.any_eq_true _ _).mp htest
  have hfailed := of_decide_eq_true hrow
  obtain ⟨r, hr, hterm, hag⟩ := job_agrees_with_run hreach "n" "j" j hj (by rw [hfailed]; rfl)
  exact ⟨s, j, hreach, hj, hfailed, r, hr, hterm, hfailed ▸ hag⟩

/-- A worker crashes between the completion of a build and the settlement of its job: the pass
fails the job of a completed build. -/
theorem job_failed_of_completed_run : ∃ s, Reachable samplePlatform s ∧ ¬Agreement s.world := by
  obtain ⟨s, hreach, htest⟩ := Reachable.of_replay samplePlatform sampleDb_fresh 0
    (inTurn 0 (sampleExecution ++ [(1, sampleComplete ⟨"c", 2⟩, 10), sampleExhaustion]))
    (fun s => (jobAt s.db "n" "j").any fun j => j.status = .failed &&
      (runAt s.db "n" j.buildId).any (·.status = .completed)) (by decide +kernel)
  obtain ⟨j, hj, hrow⟩ := (Option.any_eq_true _ _).mp htest
  rw [Bool.and_eq_true, Option.any_eq_true] at hrow
  obtain ⟨hfailed, r, hr, hcompleted⟩ := hrow
  rw [decide_eq_true_eq] at hfailed hcompleted
  refine ⟨s, hreach, fun hag => ?_⟩
  obtain ⟨r', hr', -, hagrees⟩ := hag "n" "j" j hj (by rw [hfailed]; rfl)
  obtain rfl : r = r' := Option.some.inj (hr.symm.trans hr')
  rw [Agrees, hcompleted, hfailed] at hagrees
  cases hagrees

end DataForge.Builds
