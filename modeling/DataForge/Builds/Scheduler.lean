import DataForge.Builds.Service

/-!
# Schedules: service

The operations of `modules/scheduler/service.py` as transaction scripts, and the schedule part
of `backend_core/runtime_work_service.py`. Host clocks (`_utcnow`), fresh ids and tokens are
arguments.
-/

namespace DataForge.Builds

open ReadCommitted DataForge.Runtime

/-- `_SCHEDULE_LEASE_DURATION`. -/
def scheduleLeaseDuration : ℕ := seconds 300

/-- `_SCHEDULE_CANDIDATE_BATCH_SIZE`. -/
def scheduleCandidateBatchSize : ℕ := 100

/-- `ScheduleCreate` with the drawn id, wake and host clock
(`domain/scheduler/schemas.py:20-51`). -/
structure CreateScheduleArgs where
  id : String
  datasourceId : String
  cronExpression : String := "0 9 * * *"
  enabled : Bool := true
  dependsOn : Option String := none
  triggerOnDatasourceId : Option String := none
  now : ℕ
  wakeId : ℕ

/-- `ScheduleUpdate`: the fields that are set (`domain/scheduler/schemas.py:54-79`). The columns
that are not nullable take no explicit null. -/
structure ScheduleUpdate where
  cronExpression : Option String := none
  enabled : Option Bool := none
  datasourceId : Option String := none
  dependsOn : Option (Option String) := none
  triggerOnDatasourceId : Option (Option String) := none

structure UpdateScheduleArgs where
  id : String
  payload : ScheduleUpdate
  now : ℕ
  wakeId : ℕ

/-- The arguments of `claim_due_schedules`; `host` is the clock `should_run` reads, `claimToken`
names the tokens drawn one after the other, and `fuel` bounds the number of batches. -/
structure ClaimDueArgs where
  workerId : String
  reclaimable : List String := []
  limit : ℕ := 100
  now : ℕ
  host : ℕ
  claimToken : ℕ → String
  fuel : ℕ

/-- The arguments of `enqueue_schedule_run`: the claim it presents, the host clock it reads
under the row lock, and the ids of its builds, jobs and wakes. -/
structure EnqueueArgs where
  scheduleId : String
  workerId : String
  claimToken : String
  leaseGeneration : ℕ
  stamp : ℕ
  buildId : ℕ → String
  jobId : ℕ → String
  wakeId : ℕ → ℕ

structure EnqueueFailedArgs where
  scheduleId : String
  claimToken : String
  leaseGeneration : ℕ
  now : ℕ
  wakeId : ℕ

/-- The arguments of `finish_schedule_work_scan`. -/
structure FinishScanArgs where
  generation : ℕ
  wakeIds : List ℕ
  now : ℕ

/-- A truthy optional string. -/
def truthy (s : Option String) : Option String := s.filter (· ≠ "")

section Editing

variable (p : Platform) (ns : String)

/-- A schedule that has not been deleted. -/
def liveSchedule (_ : BuildEnv) (s : Schedule) : Bool := !s.deleted

/-- `_validate_schedule_references` (`modules/scheduler/service.py:387-391`). -/
def validateScheduleReferences (dependsOn triggerOn : Option String) : BuildScript Unit := do
  let missing ← match truthy dependsOn with
    | none => pure false
    | some id => do
      let found ← schedules.select ns id liveSchedule
      pure found.isNone
  if missing then .raise "Dependency schedule not found"
  else match truthy triggerOn with
    | none => pure ()
    | some id => do
      let found ← Script.query fun e => (e.db.tenants ns).datasources.get id
      if found.isNone then .raise ("Datasource " ++ id ++ " not found") else pure ()

/-- The row `stage_create_schedule` inserts (`modules/scheduler/service.py:414-426`). -/
def newSchedule (args : CreateScheduleArgs) : Schedule :=
  { datasourceId := args.datasourceId
    cronExpression := args.cronExpression
    enabled := args.enabled
    dependsOn := args.dependsOn
    triggerOnDatasourceId := args.triggerOnDatasourceId
    nextRun := computeNextRun p args.cronExpression args.now
    createdAt := args.now }

/-- `create_schedule` (`modules/scheduler/service.py:398-430`). -/
def createSchedule (args : CreateScheduleArgs) : BuildScript Reply :=
  if (truthy args.dependsOn).isSome ∧ (truthy args.triggerOnDatasourceId).isSome then
    .raise "Schedule trigger must use either depends_on or trigger_on_datasource_id, not both"
  else do
    let datasource ← Script.query fun e => (e.db.tenants ns).datasources.get args.datasourceId
    match datasource with
    | none => .raise ("Datasource " ++ args.datasourceId ++ " not found")
    | some d =>
      if d.isAnalysisOutput ∧ truthy d.createdByAnalysisId = none then
        .raise "Datasource has no analysis provenance"
      else do
        validateScheduleReferences ns args.dependsOn args.triggerOnDatasourceId
        schedules.insert ns args.id (fun _ => false) (fun _ => newSchedule p args)
        let _ ← appendWake ns .schedule args.wakeId
        Script.commitNow
        pure (.schedule (some (newSchedule p args)))

/-- The payload without the fields that already have the loaded value: an `UPDATE` names the
changed columns only. -/
def ScheduleUpdate.changed (u : ScheduleUpdate) (loaded : Schedule) : ScheduleUpdate :=
  { cronExpression := u.cronExpression.filter (· ≠ loaded.cronExpression)
    enabled := u.enabled.filter (· ≠ loaded.enabled)
    datasourceId := u.datasourceId.filter (· ≠ loaded.datasourceId)
    dependsOn := u.dependsOn.filter (· ≠ loaded.dependsOn)
    triggerOnDatasourceId := u.triggerOnDatasourceId.filter (· ≠ loaded.triggerOnDatasourceId) }

/-- The columns of `stage_update_schedule` (`modules/scheduler/service.py:433-447`). -/
def updatedSchedule (args : UpdateScheduleArgs) (loaded s : Schedule) : Schedule :=
  let u := args.payload.changed loaded
  let nextRun := match truthy args.payload.cronExpression with
    | none => none
    | some cron => (some (computeNextRun p cron args.now)).filter (· ≠ loaded.nextRun)
  { s with
    cronExpression := u.cronExpression.getD s.cronExpression
    enabled := u.enabled.getD s.enabled
    datasourceId := u.datasourceId.getD s.datasourceId
    dependsOn := u.dependsOn.getD s.dependsOn
    triggerOnDatasourceId := u.triggerOnDatasourceId.getD s.triggerOnDatasourceId
    nextRun := nextRun.getD s.nextRun }

/-- `update_schedule` (`modules/scheduler/service.py:433-447`). The row is read without a lock
and its changed columns are flushed; a row deleted meanwhile is an error. -/
def updateSchedule (args : UpdateScheduleArgs) : BuildScript Reply :=
  let dependsOn := args.payload.dependsOn.getD none
  let triggerOn := args.payload.triggerOnDatasourceId.getD none
  if (truthy dependsOn).isSome ∧ (truthy triggerOn).isSome then
    .raise "Schedule trigger must use either depends_on or trigger_on_datasource_id, not both"
  else do
    match ← schedules.select ns args.id liveSchedule with
    | none => .raise ("Schedule " ++ args.id ++ " not found")
    | some loaded => do
      let missing ← match truthy args.payload.datasourceId with
        | none => pure false
        | some id => do
          let found ← Script.query fun e => (e.db.tenants ns).datasources.get id
          pure found.isNone
      if missing then .raise "Datasource not found"
      else do
        validateScheduleReferences ns dependsOn triggerOn
        let updated ← if updatedSchedule p args loaded loaded = loaded then pure (some loaded)
          else schedules.update ns args.id liveSchedule (fun _ => updatedSchedule p args loaded)
        if updated.isNone then
          .raise "UPDATE statement on table 'schedules' expected to update 1 row"
        else do
          let _ ← appendWake ns .schedule args.wakeId
          Script.commitNow
          pure (.schedule updated)

/-- `delete_schedule` (`modules/scheduler/service.py:450-456`). -/
def deleteSchedule (id : String) (wakeId : ℕ) : BuildScript Reply := do
  match ← schedules.select ns id liveSchedule with
  | none => .raise ("Schedule " ++ id ++ " not found")
  | some _ => do
    let _ ← schedules.update ns id liveSchedule (fun _ s => { s with deleted := true })
    let _ ← appendWake ns .schedule wakeId
    Script.commitNow
    pure .nothing

end Editing

section Due

variable (p : Platform) (ns : String)

/-- `has_inflight_build_for_schedule` and `_has_active_schedule_build`
(`build_runs_service.py:321-329`, `modules/scheduler/service.py:566-572`). -/
def hasInflightBuild (db : Tables) (scheduleId : String) : Bool :=
  db.runs.rows.any fun r => r.2.scheduleId = some scheduleId && r.2.status.inflight

/-- `_schedule_candidate_query` (`modules/scheduler/service.py:468-475`). -/
def scheduleCandidate (now : ℕ) (s : Schedule) : Bool :=
  !s.deleted && s.enabled && (s.dependsOn.isSome || s.triggerOnDatasourceId.isSome ||
    s.nextRun.all (· ≤ now))

/-- The facts `_due_schedule_candidates` reads before it decides. -/
structure DueFacts where
  validDatasource : String → Bool
  dependencySuccess : String → Option ℕ
  latestCompletedAt : String → Option ℕ

/-- The later of two optional times. -/
def laterOf : Option ℕ → Option ℕ → Option ℕ
  | some a, some b => some (max a b)
  | some a, none => some a
  | none, b => b

/-- `max(completed_at)` of the completed builds whose `column` is this datasource. -/
def latestCompletion (column : BuildRun → Option String) (db : Tables) (datasourceId : String) :
    Option ℕ :=
  (db.runs.rows.filterMap fun r =>
    if column r.2 = some datasourceId ∧ r.2.status = .completed then r.2.completedAt
    else none).max?

/-- `last_success_at` of a schedule that exists. -/
def successOf (db : Tables) (scheduleId : String) : Option ℕ :=
  ((db.schedules.get scheduleId).filter (!·.deleted)).bind Schedule.lastSuccessAt

/-- The facts as one state of the schema gives them. -/
def dueFacts (db : Tables) : DueFacts :=
  { validDatasource := fun id => (db.datasources.get id).isSome
    dependencySuccess := successOf db
    latestCompletedAt := fun id => laterOf (latestCompletion BuildRun.currentDatasourceId db id)
      (latestCompletion BuildRun.currentOutputId db id) }

/-- Whether a schedule is due by its dependency (`modules/scheduler/service.py:545-549`). -/
def dependencyDue (facts : DueFacts) (s : Schedule) : Bool :=
  ((truthy s.dependsOn).bind facts.dependencySuccess).any fun completed =>
    s.lastTriggeredAt.all (· < completed)

/-- Whether a schedule is due by a build on its trigger datasource
(`modules/scheduler/service.py:550-555`). -/
def triggerDue (facts : DueFacts) (s : Schedule) : Bool :=
  (((truthy s.triggerOnDatasourceId).filter facts.validDatasource).bind
    facts.latestCompletedAt).any fun completed =>
      (s.lastTriggeredAt <|> s.lastRun).all (· < completed)

/-- Whether the clock makes a schedule due (`modules/scheduler/service.py:556-563`). -/
def cronDue (now host : ℕ) (s : Schedule) : Bool :=
  (truthy s.dependsOn).isNone && (truthy s.triggerOnDatasourceId).isNone &&
    match s.nextRun with
    | some next => next ≤ now
    | none => shouldRun p s.cronExpression (s.lastTriggeredAt <|> s.lastRun) host

/-- One round of the loop of `_due_schedule_candidates` (`modules/scheduler/service.py:537-560`). -/
def isDue (facts : DueFacts) (now host : ℕ) (s : Schedule) : Bool :=
  facts.validDatasource s.datasourceId &&
    (dependencyDue facts s || triggerDue facts s || cronDue p now host s)

/-- `_due_schedule_candidates` (`modules/scheduler/service.py:498-560`): one statement per kind
of fact. -/
def dueScheduleCandidates (rows : List (String × Schedule)) (now host : ℕ) :
    BuildScript (List (String × Schedule)) := do
  let valid ← Script.query fun e => (dueFacts (e.db.tenants ns)).validDatasource
  let success ← Script.query fun e => (dueFacts (e.db.tenants ns)).dependencySuccess
  let byDatasource ← Script.query fun e =>
    latestCompletion BuildRun.currentDatasourceId (e.db.tenants ns)
  let byOutput ← Script.query fun e => latestCompletion BuildRun.currentOutputId (e.db.tenants ns)
  let facts : DueFacts := ⟨valid, success, fun id => laterOf (byDatasource id) (byOutput id)⟩
  pure (rows.filter fun s => isDue p facts now host s.2)

/-- The rows of the base query of `claim_due_schedules`
(`modules/scheduler/service.py:648-658`). -/
def claimableSchedule (args : ClaimDueArgs) (db : Tables) (id : String) (s : Schedule) : Bool :=
  scheduleCandidate args.now s && !hasInflightBuild db id &&
    (s.leaseOwner = none || s.leaseOwner.any (· ∈ args.reclaimable) ||
      s.leaseExpiresAt.any (· ≤ args.now))

/-- The sort key of a candidate: no `next_run` first, then the oldest. -/
def candidateKey (s : String × Schedule) : ℕ × ℕ × String :=
  (s.2.nextRun.elim 0 (· + 1), s.2.createdAt, s.1)

/-- The order of the keys. -/
def keyLe (a b : ℕ × ℕ × String) : Prop :=
  a.1 < b.1 ∨ (a.1 = b.1 ∧ (a.2.1 < b.2.1 ∨ (a.2.1 = b.2.1 ∧ a.2.2 ≤ b.2.2)))

instance (a b : ℕ × ℕ × String) : Decidable (keyLe a b) := by unfold keyLe; infer_instance

/-- One batch of `_schedule_candidate_batches` (`modules/scheduler/service.py:478-495`). -/
def candidateBatch (args : ClaimDueArgs) (db : Tables) (cursor : Option (ℕ × ℕ × String)) :
    List (String × Schedule) :=
  ((db.schedules.rows.filter fun s => claimableSchedule args db s.1 s.2 &&
    cursor.all fun c => !decide (keyLe (candidateKey s) c)).insertionSort fun a b =>
      keyLe (candidateKey a) (candidateKey b)).take scheduleCandidateBatchSize

/-- The locked re-query of `claim_due_schedules` (`modules/scheduler/service.py:664-670`), with
`SKIP LOCKED`. -/
def lockedBatch (args : ClaimDueArgs) (e : BuildEnv) (dueIds : List String) :
    List (String × Schedule) :=
  (((e.db.tenants ns).schedules.rows.filter fun s =>
    claimableSchedule args (e.db.tenants ns) s.1 s.2 && decide (s.1 ∈ dueIds) &&
      e.free (schedules.row ns s.1) .exclusive).insertionSort fun a b =>
        keyLe (candidateKey a) (candidateKey b)).take scheduleCandidateBatchSize

/-- The row a claim leaves (`modules/scheduler/service.py:682-689`). -/
def claimedSchedule (args : ClaimDueArgs) (token : String) (s : Schedule) : Schedule :=
  { s with
    leaseOwner := some args.workerId
    claimToken := some token
    leaseGeneration := s.leaseGeneration + 1
    leaseExpiresAt := some (args.now + scheduleLeaseDuration)
    lastClaimedAt := some args.now
    attempts := s.attempts + 1
    releasedBy := none }

/-- The loop over the locked rows (`modules/scheduler/service.py:672-704`). -/
def claimLocked (args : ClaimDueArgs) (claimed : List String) :
    List (String × Schedule) → BuildScript (List String)
  | [] => pure claimed
  | (id, s) :: rest => do
    let inflight ← Script.query fun e => hasInflightBuild (e.db.tenants ns) id
    if inflight then claimLocked args claimed rest
    else do
      let updated ← schedules.update ns id
        (fun e r => liveSchedule e r && decide (r.leaseOwner = s.leaseOwner))
        (fun _ => claimedSchedule args (args.claimToken claimed.length))
      if updated.isNone then claimLocked args claimed rest
      else if args.limit ≤ claimed.length + 1 then pure (claimed ++ [id])
      else claimLocked args (claimed ++ [id]) rest

/-- The loop over the batches of candidates (`modules/scheduler/service.py:660-706`). -/
def claimBatches (args : ClaimDueArgs) :
    ℕ → Option (ℕ × ℕ × String) → List String → BuildScript (List String)
  | 0, _, claimed => pure claimed
  | fuel + 1, cursor, claimed => do
    let batch ← Script.query fun e => candidateBatch args (e.db.tenants ns) cursor
    match batch.getLast? with
    | none => pure claimed
    | some last => do
      let due ← dueScheduleCandidates p ns batch args.now args.host
      let claimed ← if due = [] then pure claimed
        else do
          let locked ← Script.statement
            (fun e => lockRows ((lockedBatch ns args e (due.map Prod.fst)).map
              fun s => schedules.row ns s.1) .exclusive)
            (fun e => lockedBatch ns args e (due.map Prod.fst))
          let rows ← dueScheduleCandidates p ns locked args.now args.host
          claimLocked ns args claimed rows
      if args.limit ≤ claimed.length then pure claimed
      else if batch.length < scheduleCandidateBatchSize then pure claimed
      else claimBatches args fuel (some (candidateKey last)) claimed

/-- `claim_due_schedules` (`modules/scheduler/service.py:634-714`). -/
def claimDueSchedules (args : ClaimDueArgs) : BuildScript Reply :=
  if args.limit < 1 then pure (.claimed [])
  else do
    let claimed ← claimBatches p ns args args.fuel none []
    if claimed = [] then do
      Script.rollbackNow
      pure (.claimed [])
    else do
      Script.commitNow
      let rows ← Script.query fun e => claimed.filterMap fun id =>
        ((e.db.tenants ns).schedules.get id).map fun s => (id, s)
      pure (.claimed rows)

end Due

section Triggering

variable (p : Platform) (call : ℕ) (ns : String)

/-- The claim check of `enqueue_schedule_run` (`modules/scheduler/service.py:769-776`). -/
def staleClaim (args : EnqueueArgs) (s : Schedule) : Bool :=
  s.leaseOwner ≠ some args.workerId || s.claimToken ≠ some args.claimToken ||
    s.leaseGeneration ≠ args.leaseGeneration || s.leaseExpiresAt.all (· ≤ args.stamp)

/-- The run `_enqueue_schedule_build` stages (`modules/scheduler/service.py:231-276`). -/
def scheduledRun (args : EnqueueArgs) (s : Schedule) (target : BuildTarget) : BuildRun :=
  queuedRun
    { ns
      scheduleId := some args.scheduleId
      analysisId := target.analysisId
      analysisName := target.analysisName
      status := .queued
      requestJson := target.tabId
      starterJson := args.scheduleId
      currentKind := some "build"
      currentDatasourceId := some s.datasourceId
      currentTabId := some target.tabId
      currentTabName := some target.tabName
      currentOutputId := some ((truthy target.outputId).getD s.datasourceId)
      currentOutputName := some ((truthy target.outputName).getD target.tabName)
      totalTabs := target.totalTabs
      createdAt := args.stamp
      startedAt := args.stamp
      updatedAt := args.stamp
      origin := some ⟨call, args.leaseGeneration⟩ }

/-- `_enqueue_schedule_build` for one target after the other. -/
def enqueueTargets (args : EnqueueArgs) (s : Schedule) :
    ℕ → List (Except String BuildTarget) → BuildScript Unit
  | _, [] => pure ()
  | _, .error e :: _ => .raise e
  | n, .ok target :: rest => do
    lockActiveDatasources p ns target.externalIds
    stageBuild ns ⟨args.buildId n, args.jobId n, args.wakeId n, scheduledRun call ns args s target⟩
    enqueueTargets args s (n + 1) rest

/-- What `enqueue_schedule_run` sets on its schedule (`modules/scheduler/service.py:780-781`). -/
def triggeredSchedule (args : EnqueueArgs) (s : Schedule) : Schedule :=
  { s with lastTriggeredAt := some args.stamp, lastFailureAt := none }

/-- `enqueue_schedule_run` (`modules/scheduler/service.py:753-829`). -/
def enqueueScheduleRun (args : EnqueueArgs) : BuildScript Reply := do
  match ← schedules.selectForUpdate ns args.scheduleId liveSchedule with
  | none => .raise ("Schedule " ++ args.scheduleId ++ " not found")
  | some s => do
    let inflight ← Script.query fun e => hasInflightBuild (e.db.tenants ns) args.scheduleId
    if inflight then .raise ("Schedule " ++ args.scheduleId ++ " already has an in-flight build")
    else if staleClaim args s then .raise ("Schedule " ++ args.scheduleId ++ " claim is stale")
    else do
      let datasource ← Script.query fun e => (e.db.tenants ns).datasources.get s.datasourceId
      match datasource with
      | none => .raise ("Datasource " ++ s.datasourceId ++ " not found")
      | some d => do
        let targets ← Script.query fun e =>
          scheduleTargets (e.db.tenants ns) args.scheduleId s.datasourceId d.targetKind
        let _ ← schedules.update ns args.scheduleId (fun _ _ => true)
          (fun _ => triggeredSchedule args)
        enqueueTargets p call ns args s 0 targets
        Script.commitNow
        pure (.build (args.buildId 0))

/-- `mark_schedule_enqueue_failed` (`modules/scheduler/service.py:75-95`). -/
def markScheduleEnqueueFailed (args : EnqueueFailedArgs) : BuildScript Reply := do
  match ← schedules.selectForUpdate ns args.scheduleId liveSchedule with
  | none => pure (.schedule none)
  | some s =>
    if s.claimToken ≠ some args.claimToken ∨ s.leaseGeneration ≠ args.leaseGeneration then
      .raise ("Schedule " ++ args.scheduleId ++ " claim was replaced")
    else do
      let updated ← schedules.update ns args.scheduleId (fun _ _ => true) fun _ s =>
        { s with
          lastFailureAt := some args.now
          leaseOwner := none
          claimToken := none
          leaseExpiresAt := none }
      let _ ← appendWake ns .schedule args.wakeId
      Script.commitNow
      pure (.schedule updated)

end Triggering

section Reconciling

variable (p : Platform) (ns : String)

/-- `apply_schedule_run_reconciliation` (`modules/scheduler/service.py:832-868`). -/
def applyScheduleRunReconciliation (buildId : String) (now : ℕ) :
    BuildScript (Option Schedule) := do
  match ← runs.select ns buildId (fun _ r => r.status.isTerminal) with
  | none => pure none
  | some run =>
    match run.scheduleId with
    | none => pure none
    | some id => do
      match ← schedules.selectForUpdate ns id liveSchedule with
      | none => pure none
      | some s =>
        match applyReconciliation p buildId run now s with
        | none => pure none
        | some after => do
          let _ ← schedules.update ns id (fun _ _ => true) (fun _ _ => after)
          pure (some after)

/-- `reconcile_schedule_run` (`modules/scheduler/service.py:898-904`). -/
def reconcileScheduleRun (buildId : String) (now : ℕ) : BuildScript Reply := do
  match ← applyScheduleRunReconciliation p ns buildId now with
  | none => pure (.schedule none)
  | some s => do
    Script.commitNow
    pure (.schedule (some s))

/-- The builds `reconcile_pending_schedule_runs` selects
(`modules/scheduler/service.py:873-889`). -/
def pendingReconciliation (db : Tables) (id : String) (r : BuildRun) : Bool :=
  r.ns = ns && r.status.isTerminal &&
    (db.jobs.rows.any fun j => j.2.buildId = id && j.2.status.isTerminal) &&
    ((r.scheduleId.bind db.schedules.get).any fun s => !s.deleted && s.leaseOwner.isSome &&
      s.lastTriggeredAt.all (· ≤ r.createdAt))

/-- `ORDER BY completed_at, id`, nulls last. -/
def reconcileOrder (a b : String × BuildRun) : Prop :=
  match a.2.completedAt, b.2.completedAt with
  | some x, some y => x < y ∨ (x = y ∧ a.1 ≤ b.1)
  | some _, none => True
  | none, some _ => False
  | none, none => a.1 ≤ b.1

instance (a b : String × BuildRun) : Decidable (reconcileOrder a b) := by
  unfold reconcileOrder; split <;> infer_instance

/-- The candidates of one pass. -/
def reconcileBatch (db : Tables) (limit : ℕ) : List String :=
  (((db.runs.rows.filter fun r => pendingReconciliation ns db r.1 r.2).insertionSort
    reconcileOrder).take limit).map Prod.fst

/-- The loop of `reconcile_pending_schedule_runs`; the number of schedules it changed. -/
def reconcileAll (now : ℕ) : ℕ → List String → BuildScript ℕ
  | count, [] => pure count
  | count, id :: rest => do
    let applied ← applyScheduleRunReconciliation p ns id now
    reconcileAll now (if applied.isSome then count + 1 else count) rest

/-- `reconcile_pending_schedule_runs` (`modules/scheduler/service.py:871-895`). -/
def reconcilePendingScheduleRuns (limit now : ℕ) : BuildScript Reply := do
  let candidates ← Script.query fun e => reconcileBatch ns (e.db.tenants ns) limit
  let reconciled ← reconcileAll p ns now 0 candidates
  if candidates ≠ [] then do
    Script.commitNow
    pure (.count reconciled)
  else pure (.count reconciled)

end Reconciling

section Scanning

variable (p : Platform) (ns : String)

/-- The schedules only the clock can make due, as `_next_schedule_namespace_due_at` selects them:
not under an unexpired lease (`modules/scheduler/service.py:578-583`). -/
def eligibleCron (db : Tables) (now : ℕ) (id : String) (s : Schedule) : Bool :=
  !s.deleted && s.enabled && s.dependsOn.isNone && s.triggerOnDatasourceId.isNone &&
    !hasInflightBuild db id && (s.leaseOwner.isNone || s.leaseExpiresAt.any (· ≤ now))

/-- `next_cron` (`modules/scheduler/service.py:576-581`). -/
def nextCron (db : Tables) (now : ℕ) : Option ℕ :=
  (db.schedules.rows.filterMap fun s =>
    if eligibleCron db now s.1 s.2 then s.2.nextRun else none).min?

/-- `lease_due` (`modules/scheduler/service.py:583-596`). -/
def leaseDue (db : Tables) (now : ℕ) : Option ℕ :=
  (db.schedules.rows.filterMap fun s =>
    if !s.2.deleted && s.2.enabled && s.2.leaseOwner.isSome && !hasInflightBuild db s.1 then
      s.2.leaseExpiresAt.map (max now) else none).min?

/-- `missing_next_runs` (`modules/scheduler/service.py:599-604`). -/
def missingNextRuns (db : Tables) (now : ℕ) : List (String × Schedule) :=
  db.schedules.rows.filter fun s => eligibleCron db now s.1 s.2 && s.2.nextRun.isNone

/-- The loop over the rows without `next_run` (`modules/scheduler/service.py:605-613`). -/
def fillNextRuns (now : ℕ) : List (String × Schedule) → BuildScript (List ℕ)
  | [] => pure []
  | (id, s) :: rest =>
    match s.lastRun with
    | none => do
      let candidates ← fillNextRuns now rest
      pure (now :: candidates)
    | some lastRun =>
      match computeNextRun p s.cronExpression lastRun with
      | none => fillNextRuns now rest
      | some next => do
        let _ ← schedules.update ns id liveSchedule (fun _ s => { s with nextRun := some next })
        let candidates ← fillNextRuns now rest
        pure (max now next :: candidates)

/-- `_next_schedule_namespace_due_at` (`modules/scheduler/service.py:572-619`). -/
def nextScheduleNamespaceDueAt (now : ℕ) : BuildScript (Option ℕ) := do
  let cron ← Script.query fun e => nextCron (e.db.tenants ns) now
  let lease ← Script.query fun e => leaseDue (e.db.tenants ns) now
  let missing ← Script.query fun e => missingNextRuns (e.db.tenants ns) now
  let filled ← fillNextRuns p ns now missing
  pure (cron.toList ++ lease.toList ++ filled).min?

/-- The marker a finished scan leaves (`runtime_work_service.py:160-168`). -/
def scannedMarker (m : Marker) (pending : Bool) (dueAt : Option ℕ) (now : ℕ) : Marker :=
  { pending
    generation := m.generation + 1
    processedGeneration := m.generation + 1
    dueAt
    updatedAt := now }

/-- `INSERT … ON CONFLICT DO NOTHING` of the marker (`runtime_work_service.py:136-148`). -/
def ensureMarker : BuildScript Unit :=
  Script.statement
    (fun e => match e.db.work.markers.get (ns, .schedule) with
      | none => { writes := [.marker (ns, .schedule) (some ⟨false, 0, 0, none, e.now⟩)] }
      | some _ => {})
    (fun _ => ())

/-- The `DELETE` of the captured wakes (`runtime_work_service.py:149-157`). -/
def deleteWakes (wakeIds : List ℕ) : BuildScript Unit :=
  if wakeIds ≠ [] then
    Script.statement (fun e => { writes := acknowledge e.db.work ns .schedule wakeIds })
      (fun _ => ())
  else pure ()

/-- The compare-and-set of the marker (`runtime_work_service.py:158-180`); whether it matched. -/
def scanMarker (generation : ℕ) (dueAt : Option ℕ) : BuildScript Bool :=
  Script.statement
    (fun e => match (e.db.work.markers.get (ns, .schedule)).filter (·.generation = generation) with
      | some m => { writes := [.marker (ns, .schedule) (some (scannedMarker m
          (e.db.work.liveIds ns .schedule ≠ []) dueAt e.now))] }
      | none => {})
    (fun e => ((e.db.work.markers.get (ns, .schedule)).filter (·.generation = generation)).isSome)

/-- `finish_schedule_scan` (`runtime_work_service.py:127-185`). -/
def finishScheduleScan (generation : ℕ) (dueAt : Option ℕ) (wakeIds : List ℕ) :
    BuildScript Unit := do
  ensureMarker ns
  deleteWakes ns wakeIds
  let scanned ← scanMarker ns generation dueAt
  if scanned then pure ()
  else .raise ("Schedule work changed while scanning namespace " ++ ns)

/-- `finish_schedule_work_scan` (`modules/scheduler/service.py:622-631`). -/
def finishScheduleWorkScan (args : FinishScanArgs) : BuildScript Reply := do
  let dueAt ← nextScheduleNamespaceDueAt p ns args.now
  finishScheduleScan ns args.generation dueAt args.wakeIds
  Script.commitNow
  pure .nothing

end Scanning

/-- The operations on builds and schedules, each in the schema of one namespace. `otherWork`
stands for the queues of the other kinds. -/
inductive Op where
  | startBuild (ns : String) (args : StartBuildArgs)
  | claimNextJob (ns : String) (args : ClaimJobArgs)
  | renewJobLease (ns : String) (claim : BuildClaim)
  | startBuildRun (ns : String) (claim : BuildClaim) (now : ℕ) (notice : Notice)
  | markBuildRunning (ns : String) (buildId : String) (generation now : ℕ) (notice : Notice)
  | appendBuildEvent (ns : String) (args : EventArgs)
  | persistBuildEvent (ns : String) (claim : BuildClaim) (args : EventArgs)
  | failBuildJob (ns : String) (claim : BuildClaim) (error : String)
      (emittedAt createdAt wakeId : ℕ) (notice : Notice)
  | finalizeBuildJob (ns : String) (claim : BuildClaim)
  | cancelBuild (ns : String) (args : CancelBuildArgs)
  | reconcileExpiredBuildJobs (ns : String) (wakeId : ℕ → ℕ)
  | createSchedule (ns : String) (args : CreateScheduleArgs)
  | updateSchedule (ns : String) (args : UpdateScheduleArgs)
  | deleteSchedule (ns : String) (id : String) (wakeId : ℕ)
  | claimDueSchedules (ns : String) (args : ClaimDueArgs)
  | enqueueScheduleRun (ns : String) (args : EnqueueArgs)
  | markScheduleEnqueueFailed (ns : String) (args : EnqueueFailedArgs)
  | reconcileScheduleRun (ns : String) (buildId : String) (now : ℕ)
  | reconcilePendingScheduleRuns (ns : String) (limit now : ℕ)
  | finishScheduleWorkScan (ns : String) (args : FinishScanArgs)
  | otherWork (wakes : List (ℕ × Wake)) (markers : List ((String × RuntimeWorkKind) × Marker))

/-- The kinds of work that builds and schedules have. -/
def RuntimeWorkKind.ofBuilds (kind : RuntimeWorkKind) : Bool :=
  kind = .build || kind = .schedule

/-- Any transaction of another queue kind on the work tables. -/
def otherWork (wakes : List (ℕ × Wake)) (markers : List ((String × RuntimeWorkKind) × Marker)) :
    BuildScript Reply := do
  Script.statement
    (fun e => ⟨[], (wakes.filter fun w => !RuntimeWorkKind.ofBuilds w.2.kind &&
        (e.db.work.wakes.get w.1).all (!RuntimeWorkKind.ofBuilds ·.kind)).map
          (fun w => .wake w.1 (some w.2)) ++
      (markers.filter fun m => !RuntimeWorkKind.ofBuilds m.1.2).map
        fun m => .marker m.1 (some m.2)⟩)
    (fun _ => ())
  Script.commitNow
  pure .nothing

/-- The script of each operation, as call number `call` runs it. -/
def code (p : Platform) (call : ℕ) : Op → BuildScript Reply
  | .startBuild ns args => startBuild p ns args
  | .claimNextJob ns args => claimNextJob ns args
  | .renewJobLease ns claim => renewJobLease p ns claim
  | .startBuildRun ns claim now notice => startBuildRun ns claim now notice
  | .markBuildRunning ns buildId generation now notice => do
    let run ← markBuildRunning ns buildId generation now notice
    pure (.run run)
  | .appendBuildEvent ns args => appendBuildEvent ns args
  | .persistBuildEvent ns claim args => persistBuildEvent ns claim args
  | .failBuildJob ns claim error emittedAt createdAt wakeId notice =>
    failBuildJob ns claim error emittedAt createdAt wakeId notice
  | .finalizeBuildJob ns claim => finalizeBuildJob ns claim
  | .cancelBuild ns args => cancelBuild ns args
  | .reconcileExpiredBuildJobs ns wakeId => reconcileExpiredBuildJobs ns wakeId
  | .createSchedule ns args => createSchedule p ns args
  | .updateSchedule ns args => updateSchedule p ns args
  | .deleteSchedule ns id wakeId => deleteSchedule ns id wakeId
  | .claimDueSchedules ns args => claimDueSchedules p ns args
  | .enqueueScheduleRun ns args => enqueueScheduleRun p call ns args
  | .markScheduleEnqueueFailed ns args => markScheduleEnqueueFailed ns args
  | .reconcileScheduleRun ns buildId now => reconcileScheduleRun p ns buildId now
  | .reconcilePendingScheduleRuns ns limit now => reconcilePendingScheduleRuns p ns limit now
  | .finishScheduleWorkScan ns args => finishScheduleWorkScan p ns args
  | .otherWork wakes markers => otherWork wakes markers

end DataForge.Builds
