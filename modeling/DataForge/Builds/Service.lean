import DataForge.Builds.Model

/-!
# Builds: service

The operations of `backend_core/build_jobs_service.py`, `backend_core/build_runs_service.py`,
`backend_core/build_commands.py` and `modules/compute/commands.py` as transaction scripts,
statement by statement. Host clocks, fresh ids and tokens are arguments. The outbox rows of new
builds and the compute worker runs are written by these transactions too, but nothing here reads
them.
-/

namespace DataForge.Builds

open ReadCommitted DataForge.Runtime

abbrev BuildScript := Script (Db Tables) (Write TableWrite) (Resource TableRow)

abbrev BuildEnv := Env (Db Tables) (Resource TableRow)

abbrev BuildTxn := Txn (Write TableWrite) (Resource TableRow)

abbrev BuildWorld := World (Db Tables)

abbrev BuildLocks := List (Lock (Resource TableRow))

/-- `BuildClaimCommand` (`build_commands.py:15-21`). -/
structure BuildClaim where
  jobId : String
  buildId : String
  workerId : String
  claimToken : String
  leaseGeneration : ℕ
  deriving DecidableEq, Repr

/-- The arguments of `claim_next_job`. -/
structure ClaimJobArgs where
  workerId : String
  reclaimable : List String := []
  claimToken : String

/-- A run to stage, with the ids its transaction draws. -/
structure NewBuild where
  buildId : String
  jobId : String
  wakeId : ℕ
  run : BuildRun

/-- The arguments of `start_build` (`modules/compute/commands.py:27-43`); `externalIds` are the
external datasources of its pipeline. -/
structure StartBuildArgs where
  build : NewBuild
  externalIds : List String
  placeholders : List (String × DataSource) := []

/-- The ids of an outbox row and of its wake. -/
structure Notice where
  id : String
  wakeId : ℕ
  deriving DecidableEq, Repr

/-- The arguments of `stage_build_event`; `notified` tells whether the caller has staged the
notification of a terminal event before. -/
structure EventArgs where
  buildId : String
  event : BuildEvent
  resourceConfigJson : Option String := none
  expected : Option ℕ := none
  authoritative : Option ℕ := none
  notified : Bool := false
  notice : Notice
  createdAt : ℕ
  wakeId : ℕ

/-- The arguments of `cancel_build` (`modules/compute/commands.py:94-100`): the build and its
`BuildCancelledEvent`. -/
structure CancelBuildArgs where
  buildId : String
  context : EventContext
  terminal : TerminalFields
  cancelledAt : ℕ
  cancelledBy : Option String := none
  resourceConfigJson : Option String := none
  notice : Notice
  createdAt : ℕ
  wakeId : ℕ

/-- What the operations return. -/
inductive Reply where
  | nothing
  | job (row : Option BuildJob)
  | run (row : Option BuildRun)
  | sequence (number : Option ℕ)
  | build (id : String)
  | schedule (row : Option Schedule)
  | claimed (rows : List (String × Schedule))
  | count (n : ℕ)

section Statements

variable {α : Type}

/-- One of the tables with a string key, as statements address it. -/
structure Rows (α : Type) where
  table : Tables → Table String α
  put : String → Option α → TableWrite

def jobs : Rows BuildJob := ⟨Tables.jobs, .job⟩

def runs : Rows BuildRun := ⟨Tables.runs, .run⟩

def schedules : Rows Schedule := ⟨Tables.schedules, .schedule⟩

def outbox : Rows OutboxEvent := ⟨Tables.outbox, .outbox⟩

variable (R : Rows α) (ns id : String)

/-- The row a statement sees. -/
def Rows.get (e : BuildEnv) : Option α := (R.table (e.db.tenants ns)).get id

/-- The lock of a row. -/
def Rows.row : Resource TableRow := .tenant ns (R.put id none).target

/-- A statement that locks rows and writes nothing. -/
def lockRows (rows : List (Resource TableRow)) (mode : Mode) :
    Effect (Write TableWrite) (Resource TableRow) := { locks := rows.map (·, mode) }

/-- `SELECT … WHERE id = :id AND …`. -/
def Rows.select (cond : BuildEnv → α → Bool) : BuildScript (Option α) :=
  Script.query fun e => (R.get ns id e).filter (cond e)

/-- `session.get`. -/
def Rows.find : BuildScript (Option α) := Script.query fun e => R.get ns id e

/-- `SELECT … WHERE id = :id AND … FOR UPDATE`. -/
def Rows.selectForUpdate (cond : BuildEnv → α → Bool) : BuildScript (Option α) :=
  Script.statement
    (fun e => lockRows (((R.get ns id e).filter (cond e)).toList.map fun _ => R.row ns id)
      .exclusive)
    (fun e => (R.get ns id e).filter (cond e))

/-- `UPDATE … SET … WHERE id = :id AND …`; the row it leaves, if it matched. -/
def Rows.update (cond : BuildEnv → α → Bool) (f : BuildEnv → α → α) : BuildScript (Option α) :=
  Script.statement
    (fun e => match (R.get ns id e).filter (cond e) with
      | some a => { writes := [.tenant ns (R.put id (some (f e a)))] }
      | none => {})
    (fun e => ((R.get ns id e).filter (cond e)).map (f e))

/-- `INSERT`; a row under the same key, or in conflict with a unique column, is an error. -/
def Rows.insert (conflict : Table String α → Bool) (a : BuildEnv → α) : BuildScript Unit :=
  .exec
    (fun e => if (R.get ns id e).isSome || conflict (R.table (e.db.tenants ns)) then {}
      else { writes := [.tenant ns (R.put id (some (a e)))] })
    (fun e => if (R.get ns id e).isSome || conflict (R.table (e.db.tenants ns)) then
        .raise "duplicate key value violates unique constraint"
      else .done ())

end Statements

section Jobs

variable (p : Platform) (ns : String)

/-- The row `stage_job` inserts (`build_jobs_service.py:55-66`). -/
def stagedJob (buildId : String) (now : ℕ) : BuildJob :=
  { buildId, status := .queued, availableAt := now, createdAt := now, updatedAt := now }

/-- `stage_job` (`build_jobs_service.py:43-69`); its callers keep the default attempts. -/
def stageJob (jobId buildId : String) (wakeId : ℕ) : BuildScript Unit := do
  let now ← Script.query fun e => e.began
  jobs.insert ns jobId (fun t => t.rows.any (·.2.buildId = buildId))
    (fun _ => stagedJob buildId now)
  let _ ← appendWake ns .build wakeId
  pure ()

/-- The rows `claim_next_job` selects (`build_jobs_service.py:83-96`). -/
def claimableJob (args : ClaimJobArgs) (now : ℕ) (j : BuildJob) : Bool :=
  j.availableAt ≤ now && (j.status = .queued || (j.status.isActive &&
    (j.leaseOwner = none || j.leaseOwner.any (· ∈ args.reclaimable) ||
      j.leaseExpiresAt.any (· ≤ now)) && j.attempts < j.maxAttempts))

/-- `ORDER BY priority DESC, available_at, created_at, id`. -/
def claimOrder (a b : String × BuildJob) : Prop :=
  b.2.priority < a.2.priority ∨ (a.2.priority = b.2.priority ∧
    (a.2.availableAt < b.2.availableAt ∨ (a.2.availableAt = b.2.availableAt ∧
      (a.2.createdAt < b.2.createdAt ∨ (a.2.createdAt = b.2.createdAt ∧ a.1 ≤ b.1)))))

instance (a b : String × BuildJob) : Decidable (claimOrder a b) := by
  unfold claimOrder; infer_instance

/-- `SELECT … LIMIT 1 FOR UPDATE SKIP LOCKED`. -/
def claimCandidate (args : ClaimJobArgs) (e : BuildEnv) (now : ℕ) : Option (String × BuildJob) :=
  (((e.db.tenants ns).jobs.rows.filter fun j => claimableJob args now j.2 &&
    e.free (jobs.row ns j.1) .exclusive).insertionSort claimOrder).head?

/-- The compare-and-set of `claim_by_lease_owner` (`build_jobs_service.py:108-118`). -/
def claimGuard (seen j : BuildJob) : Bool :=
  j.attempts = seen.attempts && j.leaseGeneration = seen.leaseGeneration &&
    j.status = seen.status && j.leaseOwner = seen.leaseOwner

/-- The row a claim leaves (`build_jobs_service.py:119-129`). -/
def claimedJob (args : ClaimJobArgs) (seen : BuildJob) (leaseNow : ℕ) (j : BuildJob) : BuildJob :=
  { j with
    status := .running
    leaseOwner := some args.workerId
    claimToken := some args.claimToken
    leaseGeneration := seen.leaseGeneration + 1
    leaseExpiresAt := some (leaseNow + claimDeliveryLease)
    claimedAt := some leaseNow
    lastRenewedAt := some leaseNow
    attempts := seen.attempts + 1
    updatedAt := leaseNow }

/-- `claim_next_job` (`build_jobs_service.py:80-150`). -/
def claimNextJob (args : ClaimJobArgs) : BuildScript Reply := do
  let now ← Script.query fun e => e.began
  let candidate ← Script.statement
    (fun e => lockRows ((claimCandidate ns args e now).toList.map fun j => jobs.row ns j.1)
      .exclusive)
    (fun e => claimCandidate ns args e now)
  match candidate with
  | none => do
    Script.rollbackNow
    pure (.job none)
  | some (id, row) => do
    match ← jobs.update ns id (fun _ => claimGuard row) (fun e => claimedJob args row e.now) with
    | none => do
      Script.rollbackNow
      pure (.job none)
    | some _ => do
      Script.commitNow
      let job ← jobs.find ns id
      pure (.job job)

/-- The `WHERE` clause of the fenced statements on a running job
(`build_jobs_service.py:219-225,283-291,361-369`). -/
def activeJobClaim (claim : BuildClaim) (now : ℕ) (j : BuildJob) : Bool :=
  j.status = .running && j.leaseOwner = some claim.workerId &&
    j.claimToken = some claim.claimToken && j.leaseGeneration = claim.leaseGeneration &&
    j.leaseExpiresAt.any (now < ·)

/-- The row a renewal leaves (`build_jobs_service.py:226-230`). -/
def renewedJob (leaseNow : ℕ) (j : BuildJob) : BuildJob :=
  { j with
    leaseExpiresAt := some (leaseNow + seconds p.runtimeWorkLeaseTtlSeconds)
    lastRenewedAt := some leaseNow
    updatedAt := leaseNow }

/-- `renew_job_lease` (`build_jobs_service.py:215-261`); it does not look at the build id. -/
def renewJobLease (claim : BuildClaim) : BuildScript Reply := do
  let _ ← Script.query fun e => e.began
  match ← jobs.update ns claim.jobId (fun e => activeJobClaim claim e.now)
      (fun e => renewedJob p e.now) with
  | none => do
    Script.rollbackNow
    let _ ← jobs.find ns claim.jobId
    pure (.job none)
  | some _ => do
    Script.commitNow
    match ← jobs.find ns claim.jobId with
    | none => .raise ("Renewed build job " ++ claim.jobId ++ " disappeared after commit")
    | some job => pure (.job (some job))

/-- `lock_active_job_claim` and `get_active_job_claim` (`build_jobs_service.py:291-333`). -/
def activeClaimOf (claim : BuildClaim) (lock : Bool) : BuildScript (Option BuildJob) := do
  let now ← Script.query fun e => e.began
  let cond := fun (_ : BuildEnv) (j : BuildJob) => j.buildId = claim.buildId &&
    activeJobClaim claim now j
  if lock then jobs.selectForUpdate ns claim.jobId cond else jobs.select ns claim.jobId cond

/-- The row `finish_claimed_job` leaves (`build_jobs_service.py:370-379`). -/
def finishedJob (status : BuildJobStatus) (error : Option String) (now : ℕ) (j : BuildJob) :
    BuildJob :=
  { j.clearLease with status, lastError := error, updatedAt := now }

/-- `finish_claimed_job` (`build_jobs_service.py:336-375`). -/
def finishClaimedJob (claim : BuildClaim) (status : BuildJobStatus) (error : Option String) :
    BuildScript (Option BuildJob) :=
  if status.isTerminal then do
    let now ← Script.query fun e => e.began
    jobs.update ns claim.jobId
      (fun _ j => j.buildId = claim.buildId && activeJobClaim claim now j)
      (fun _ => finishedJob status error now)
  else .raise "Unsupported claimed build job terminal status"

/-- `_CANCELLABLE_JOB_STATUSES`. -/
def BuildJobStatus.cancellable (s : BuildJobStatus) : Bool := s = .queued || s.isActive

/-- The row `stage_job_cancelled` leaves (`build_jobs_service.py:395-404`). -/
def cancelledJob (now : ℕ) (j : BuildJob) : BuildJob :=
  { j.clearLease with
    status := .cancelled
    leaseGeneration := j.leaseGeneration + 1
    updatedAt := now }

/-- `stage_job_cancelled` (`build_jobs_service.py:378-407`). -/
def stageJobCancelled (jobId : String) : BuildScript BuildJob := do
  let now ← Script.query fun e => e.began
  match ← jobs.update ns jobId (fun _ j => j.status.cancellable) (fun _ => cancelledJob now) with
  | some job => pure job
  | none => do
    match ← jobs.find ns jobId with
    | none => .raise ("Build job " ++ jobId ++ " not found")
    | some job => pure job

/-- `_BUILD_WORK_PENDING_QUERY` (`build_jobs_service.py:24-32`). -/
def buildWorkPending (now : ℕ) (db : Tables) : Bool :=
  db.jobs.rows.any fun j => j.2.status = .queued ||
    (j.2.status.isActive && (j.2.leaseOwner = none || j.2.leaseExpiresAt.any (· ≤ now)))

/-- `_BUILD_WORK_DUE_QUERY` (`build_jobs_service.py:33-38`). -/
def buildWorkDue (now : ℕ) (db : Tables) : Option ℕ :=
  (db.jobs.rows.filterMap fun j =>
    if j.2.status.isActive then j.2.leaseExpiresAt.filter (now < ·) else none).min?

/-- The rows `stage_exhausted_jobs` fails (`build_jobs_service.py:156-161`). -/
def exhaustedJob (now : ℕ) (j : BuildJob) : Bool :=
  j.status.isActive && j.leaseExpiresAt.any (· ≤ now) && decide (j.maxAttempts ≤ j.attempts)

/-- `ORDER BY lease_expires_at, id`. -/
def exhaustOrder (a b : String × BuildJob) : Prop :=
  a.2.leaseExpiresAt.getD 0 < b.2.leaseExpiresAt.getD 0 ∨
    (a.2.leaseExpiresAt.getD 0 = b.2.leaseExpiresAt.getD 0 ∧ a.1 ≤ b.1)

instance (a b : String × BuildJob) : Decidable (exhaustOrder a b) := by
  unfold exhaustOrder; infer_instance

/-- `_RECONCILIATION_BATCH_SIZE`. -/
def reconciliationBatchSize : ℕ := 100

/-- The batch of `SELECT … LIMIT 100 FOR UPDATE SKIP LOCKED`. -/
def exhaustBatch (e : BuildEnv) (now : ℕ) : List (String × BuildJob) :=
  (((e.db.tenants ns).jobs.rows.filter fun j => exhaustedJob now j.2 &&
    e.free (jobs.row ns j.1) .exclusive).insertionSort exhaustOrder).take reconciliationBatchSize

/-- The message of an exhausted job and of its run. -/
def exhaustedMessage : String := "Build job lease expired after maximum attempts"

/-- The job row the exhaustion pass leaves (`build_jobs_service.py:174-178`). -/
def failedJob (now : ℕ) (j : BuildJob) : BuildJob :=
  { j.clearLease with status := .failed, lastError := some exhaustedMessage, updatedAt := now }

/-- The run row the exhaustion pass leaves (`build_jobs_service.py:183-188`). -/
def orphanedRun (now : ℕ) (r : BuildRun) : BuildRun :=
  { r with
    status := .orphaned
    errorMessage := some exhaustedMessage
    completedAt := some now
    updatedAt := now }

/-- The loop of `stage_exhausted_jobs` (`build_jobs_service.py:169-201`): the job fails, and its
run only if it is still in flight. -/
def exhaustAll (now : ℕ) (wakeId : ℕ → ℕ) : ℕ → List (String × BuildJob) → BuildScript Unit
  | _, [] => pure ()
  | n, (id, row) :: rest => do
    let run ← runs.find ns row.buildId
    let _ ← jobs.update ns id (fun _ _ => true) (fun _ => failedJob now)
    let _ ← runs.update ns row.buildId (fun _ r => r.status.inflight) (fun _ => orphanedRun now)
    if (run.bind BuildRun.scheduleId).isSome then do
      let _ ← appendWake ns .schedule (wakeId n)
      exhaustAll now wakeId (n + 1) rest
    else exhaustAll now wakeId (n + 1) rest

/-- `reconcile_expired_build_jobs`, that is `stage_exhausted_jobs` and its commit
(`build_jobs_service.py:153-212`, `modules/scheduler/commands.py:33-35`). -/
def reconcileExpiredBuildJobs (wakeId : ℕ → ℕ) : BuildScript Reply := do
  let now ← Script.query fun e => e.began
  let rows ← Script.statement
    (fun e => lockRows ((exhaustBatch ns e now).map fun j => jobs.row ns j.1) .exclusive)
    (fun e => exhaustBatch ns e now)
  exhaustAll ns now wakeId 0 rows
  refreshPendingWork ns .build buildWorkPending buildWorkDue
  Script.commitNow
  pure (.count rows.length)

end Jobs

section Runs

variable (p : Platform) (ns : String)

/-- The name `lock_datasource_lifecycle` hashes (`datasource_lifecycle.py:22`). -/
def lifecycleName (datasourceId : String) : String :=
  "dataforge:datasource-lifecycle:" ++ ns ++ ":" ++ datasourceId

/-- `lock_active_datasources` (`build_datasource_dependencies.py:52-60`), on sorted ids. -/
def lockActiveDatasources : List String → BuildScript Unit
  | [] => pure ()
  | id :: rest => do
    Script.statement
      (fun _ => lockRows [.advisory (p.advisoryKey (lifecycleName ns id))] .shared) (fun _ => ())
    let datasource ← Script.query fun e => (e.db.tenants ns).datasources.get id
    if (datasource.all DataSource.isPendingDelete) then
      .raise ("Datasource " ++ id ++ " not found")
    else lockActiveDatasources rest

/-- `stage_build_run` followed by `stage_job` (`build_runs_service.py:198-255`). -/
def stageBuild (build : NewBuild) : BuildScript Unit := do
  runs.insert ns build.buildId (fun _ => false) (fun _ => build.run)
  stageJob ns build.jobId build.buildId build.wakeId

/-- `create_placeholder_output_datasource`, one after the other: an output that exists stays. -/
def createPlaceholders : List (String × DataSource) → BuildScript Unit
  | [] => pure ()
  | (id, row) :: rest => do
    Script.statement
      (fun e => if ((e.db.tenants ns).datasources.get id).isSome then {}
        else { writes := [.tenant ns (.datasource id (some row))] }) (fun _ => ())
    createPlaceholders rest

/-- A run as a caller of `stage_build_run` asks for it: queued, at the defaults of a new row. -/
def queuedRun (run : BuildRun) : BuildRun :=
  { ns := run.ns
    scheduleId := run.scheduleId
    analysisId := run.analysisId
    analysisName := run.analysisName
    status := .queued
    requestJson := run.requestJson
    starterJson := run.starterJson
    currentKind := run.currentKind
    currentDatasourceId := run.currentDatasourceId
    currentTabId := run.currentTabId
    currentTabName := run.currentTabName
    currentOutputId := run.currentOutputId
    currentOutputName := run.currentOutputName
    totalTabs := run.totalTabs
    createdAt := run.createdAt
    startedAt := run.startedAt
    updatedAt := run.createdAt
    origin := run.origin }

/-- `start_build` (`modules/compute/commands.py:46-91`): a manual build belongs to no schedule. -/
def startBuild (args : StartBuildArgs) : BuildScript Reply := do
  lockActiveDatasources p ns args.externalIds
  createPlaceholders ns args.placeholders
  stageBuild ns { args.build with
    run := queuedRun { args.build.run with ns, scheduleId := none, origin := none } }
  Script.commitNow
  pure .nothing

/-- `enqueue_api_build_notification` (`runtime_outbox_service.py:82-99, 136-145`): a pending
outbox row and its wake. -/
def enqueueApiBuildNotification (payloadNs buildId : String) (latestSequence : ℕ)
    (notice : Notice) : BuildScript Unit := do
  let now ← Script.query fun e => e.began
  outbox.insert ns notice.id (fun _ => false) (fun _ => ⟨payloadNs, buildId, latestSequence, now⟩)
  let _ ← appendWake payloadNs .outbox notice.wakeId
  pure ()

/-- A notification that is staged under a condition. -/
def notifyWhen (cond : Bool) (payloadNs buildId : String) (latestSequence : ℕ)
    (notice : Notice) : BuildScript Unit :=
  if cond then enqueueApiBuildNotification ns payloadNs buildId latestSequence notice else pure ()

/-- `_cas_update_build_run` (`build_runs_service.py:334-366`), as `mark_build_running` calls it. -/
def casUpdateBuildRun (buildId : String) (generation now : ℕ) (run : BuildRun) :
    BuildScript (Option BuildRun) := do
  let updated ← runs.update ns buildId
    (fun _ r => r.status = run.status && r.version = run.version)
    (fun _ r => { r with
      status := .running
      executionGeneration := generation
      updatedAt := now
      version := run.version + 1 })
  if updated.isSome then Script.commitNow else Script.rollbackNow
  runs.find ns buildId

/-- `mark_build_running` (`build_runs_service.py:369-391`). -/
def markBuildRunning (buildId : String) (generation now : ℕ) (notice : Notice) :
    BuildScript (Option BuildRun) := do
  match ← runs.find ns buildId with
  | none => pure none
  | some run =>
    if run.status.inflight = false then pure (some run)
    else if generation < run.executionGeneration then pure none
    else if run.status = .running ∧ generation = run.executionGeneration then pure (some run)
    else do
      notifyWhen ns (run.status = .queued) run.ns buildId (run.nextEventSequence - 1) notice
      casUpdateBuildRun ns buildId generation now run

/-- `mark_running` of `StartBuildRun` (`backend_grpc/server.py:1737-1751`): mark the run under
the locked claim of its job. -/
def startBuildRun (claim : BuildClaim) (now : ℕ) (notice : Notice) : BuildScript Reply := do
  match ← activeClaimOf ns claim true with
  | none => pure (.run none)
  | some _ => do
    let run ← markBuildRunning ns claim.buildId claim.leaseGeneration now notice
    pure (.run (run.filter (·.status = .running)))

/-- `INSERT INTO build_events`. -/
def insertEvent (key : String × ℕ) (row : BuildEventRow) : BuildScript Unit :=
  .exec
    (fun e => if ((e.db.tenants ns).events.get key).isSome then {}
      else { writes := [.tenant ns (.event key (some row))] })
    (fun e => if ((e.db.tenants ns).events.get key).isSome then
        .raise "duplicate key value violates unique constraint"
      else .done ())

/-- The outbox row of an event (`build_runs_service.py:483-489`): the row its caller has staged
takes the sequence, and a terminal event has a row anyway. -/
def notifyEvent (args : EventArgs) (run : BuildRun) : BuildScript Unit :=
  if args.notified then do
    let _ ← outbox.update ns args.notice.id (fun _ _ => true)
      (fun _ n => { n with latestSequence := run.nextEventSequence })
    pure ()
  else notifyWhen ns args.event.body.terminalStatus.isSome run.ns args.buildId
    run.nextEventSequence args.notice

/-- `stage_build_event` (`build_runs_service.py:410-507`); the sequence it assigned, or `none`
when the event is rejected. -/
def stageBuildEvent (args : EventArgs) : BuildScript (Option ℕ) :=
  if args.expected.isSome ∧ args.authoritative.isSome then
    .raise "Expected and authoritative execution generations are mutually exclusive"
  else do
    match ← runs.selectForUpdate ns args.buildId (fun _ _ => true) with
    | none => .raise ("Build run " ++ args.buildId ++ " not found")
    | some run =>
      if run.acceptsEvent args.event args.expected args.authoritative = false then pure none
      else if args.notified ∧ run.ns ≠ ns then
        .raise "Build notification namespace does not match its run"
      else do
        let _ ← runs.update ns args.buildId (fun _ _ => true)
          (fun _ r => r.afterEvent args.event args.authoritative args.resourceConfigJson)
        insertEvent ns (args.buildId, run.nextEventSequence) ⟨run.ns, args.event, args.createdAt⟩
        notifyEvent ns args run
        if args.event.body.terminalStatus.isSome ∧ run.scheduleId.isSome then do
          let _ ← appendWake run.ns .schedule args.wakeId
          pure (some run.nextEventSequence)
        else pure (some run.nextEventSequence)

/-- `append_build_event` (`build_runs_service.py:510-567`): the notification of a terminal event
is staged first, and a rejected event is rolled back. -/
def appendBuildEvent (args : EventArgs) : BuildScript Reply := do
  let args := { args with notified := args.event.body.terminalStatus.isSome }
  notifyWhen ns args.notified ns args.buildId 0 args.notice
  match ← stageBuildEvent ns args with
  | none => do
    Script.rollbackNow
    pure (.sequence none)
  | some sequence => do
    Script.commitNow
    pure (.sequence (some sequence))

/-- `persist_build_event` under an unlocked claim check (`backend_grpc/server.py:1672-1693`). -/
def persistBuildEvent (claim : BuildClaim) (args : EventArgs) : BuildScript Reply := do
  match ← activeClaimOf ns claim false with
  | none => pure (.sequence none)
  | some _ => appendBuildEvent ns { args with
      buildId := claim.buildId
      expected := some claim.leaseGeneration
      authoritative := none }

end Runs

section Commands

variable (ns : String)

/-- `_already_finished` (`build_commands.py:42-52`). -/
def alreadyFinished (claim : BuildClaim) : BuildScript (Option BuildJob) :=
  jobs.select ns claim.jobId fun _ j => j.buildId = claim.buildId &&
    j.leaseGeneration = claim.leaseGeneration && j.status.isTerminal

/-- The event `fail_build_job` stages (`build_commands.py:96-114`). -/
def failedEvent (claim : BuildClaim) (run : BuildRun) (error : String) (emittedAt : ℕ) :
    BuildEvent :=
  { context :=
      { buildId := claim.buildId
        analysisId := run.analysisId
        emittedAt
        currentKind := run.currentKind
        currentDatasourceId := run.currentDatasourceId
        tabId := run.currentTabId
        tabName := run.currentTabName
        currentOutputId := run.currentOutputId
        currentOutputName := run.currentOutputName
        computeWorkerRunId := run.currentComputeWorkerRunId }
    body := .failed ⟨run.progress, run.elapsedMs, run.totalSteps, 0, "", run.elapsedMs⟩
      (some error) }

/-- `_finish_claim` and the commit of its caller. -/
def finishClaim (claim : BuildClaim) (status : BuildJobStatus) (error : Option String) :
    BuildScript Reply := do
  let job ← finishClaimedJob ns claim status error
  Script.commitNow
  pure (.job job)

/-- A `return None` of a committed command. -/
def commitNothing : BuildScript Reply := do
  Script.commitNow
  pure (.job none)

/-- `fail_build_job` (`build_commands.py:82-130`). -/
def failBuildJob (claim : BuildClaim) (error : String) (emittedAt createdAt wakeId : ℕ)
    (notice : Notice) : BuildScript Reply := do
  match ← alreadyFinished ns claim with
  | some existing => do
    let run ← runs.find ns claim.buildId
    Script.commitNow
    pure (.job (run.map fun _ => existing))
  | none => do
    match ← activeClaimOf ns claim true with
    | none => commitNothing
    | some _ => do
      match ← runs.find ns claim.buildId with
      | none => commitNothing
      | some run =>
        match terminalOutcome run.status run.errorMessage with
        | some (status, message) => finishClaim ns claim status message
        | none => do
          match ← stageBuildEvent ns
              { buildId := claim.buildId
                event := failedEvent claim run error emittedAt
                expected := some claim.leaseGeneration
                notice
                createdAt
                wakeId := wakeId } with
          | none => commitNothing
          | some _ => finishClaim ns claim .failed (some error)

/-- `finalize_build_job` (`build_commands.py:133-146`). -/
def finalizeBuildJob (claim : BuildClaim) : BuildScript Reply := do
  match ← alreadyFinished ns claim with
  | some existing => do
    Script.commitNow
    pure (.job (some existing))
  | none => do
    match ← activeClaimOf ns claim true with
    | none => commitNothing
    | some _ => do
      match ← runs.find ns claim.buildId with
      | none => commitNothing
      | some run =>
        match terminalOutcome run.status run.errorMessage with
        | none => commitNothing
        | some (status, message) => finishClaim ns claim status message

/-- `cancel_build` (`modules/compute/commands.py:94-128`). -/
def cancelBuild (args : CancelBuildArgs) : BuildScript Reply := do
  let job ← Script.query fun e =>
    (e.db.tenants ns).jobs.rows.find? fun j => j.2.buildId = args.buildId
  match job with
  | none => .raise "Active build has no cancellable job"
  | some (id, row) =>
    if row.status.cancellable = false then
      .raise "Build job became terminal before cancellation"
    else do
      let cancelled ← stageJobCancelled ns id
      if cancelled.status ≠ .cancelled then
        .raise "Build job became terminal before cancellation"
      else do
        match ← stageBuildEvent ns
            { buildId := args.buildId
              event := ⟨args.context, .cancelled args.terminal args.cancelledAt args.cancelledBy⟩
              resourceConfigJson := args.resourceConfigJson
              authoritative := some cancelled.leaseGeneration
              notice := args.notice
              createdAt := args.createdAt
              wakeId := args.wakeId } with
        | none => .raise "Build became terminal before cancellation"
        | some sequence => do
          Script.commitNow
          pure (.sequence (some sequence))

end Commands
end DataForge.Builds
