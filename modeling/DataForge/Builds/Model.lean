import DataForge.Runtime.Work
import Mathlib.Data.Rat.Defs

/-!
# Builds and schedules: data model

Rows of the build queue and of the scheduler: `persistence/build_jobs/models.py`,
`persistence/build_runs/models.py`, `persistence/scheduler/models.py`, the build events of
`domain/compute/schemas.py`, and the row methods and pure functions over them. Timestamps are
microseconds. Two columns are ghosts: `BuildRun.origin` and `Schedule.releasedBy` record who
wrote a row, and no operation reads them.
-/

namespace DataForge.Builds

open ReadCommitted DataForge.Runtime

/-- `BuildJobStatus` (`domain/build_jobs/models.py:9-23`). -/
inductive BuildJobStatus where
  | queued
  | leased
  | running
  | completed
  | failed
  | cancelled
  deriving DecidableEq, Repr

def BuildJobStatus.isActive : BuildJobStatus → Bool
  | .leased | .running => true
  | _ => false

def BuildJobStatus.isTerminal : BuildJobStatus → Bool
  | .completed | .failed | .cancelled => true
  | _ => false

/-- `BuildRunStatus` (`domain/build_runs/models.py:10-33`). -/
inductive BuildRunStatus where
  | queued
  | running
  | completed
  | failed
  | cancelled
  | orphaned
  deriving DecidableEq, Repr

def BuildRunStatus.isTerminal : BuildRunStatus → Bool
  | .completed | .failed | .cancelled | .orphaned => true
  | _ => false

/-- A row of `build_jobs` (`persistence/build_jobs/models.py:38-54`). -/
structure BuildJob where
  buildId : String
  status : BuildJobStatus
  priority : ℤ := 0
  leaseOwner : Option String := none
  claimToken : Option String := none
  leaseGeneration : ℕ := 0
  leaseExpiresAt : Option ℕ := none
  claimedAt : Option ℕ := none
  lastRenewedAt : Option ℕ := none
  attempts : ℕ := 0
  maxAttempts : ℕ := 1
  lastError : Option String := none
  availableAt : ℕ
  createdAt : ℕ
  updatedAt : ℕ
  deriving DecidableEq, Repr

/-- `BuildJob.clear_lease` (`persistence/build_jobs/models.py:13-18`). -/
def BuildJob.clearLease (j : BuildJob) : BuildJob :=
  { j with
    leaseOwner := none
    claimToken := none
    leaseExpiresAt := none
    claimedAt := none
    lastRenewedAt := none }

/-- Ghost: the call that enqueued a scheduled build, and the claim generation it presented. -/
structure Origin where
  call : ℕ
  generation : ℕ
  deriving DecidableEq, Repr

/-- A row of `build_runs` (`persistence/build_runs/models.py:79-117`). JSON columns are opaque. -/
structure BuildRun where
  ns : String
  scheduleId : Option String
  analysisId : String
  analysisName : String
  status : BuildRunStatus
  requestJson : String
  starterJson : String
  resourceConfigJson : Option String := none
  currentComputeWorkerRunId : Option String := none
  currentKind : Option String := none
  currentDatasourceId : Option String := none
  currentTabId : Option String := none
  currentTabName : Option String := none
  currentOutputId : Option String := none
  currentOutputName : Option String := none
  progress : ℚ := 0
  elapsedMs : ℕ := 0
  estimatedRemainingMs : Option ℕ := none
  currentStep : Option String := none
  currentStepIndex : Option ℕ := none
  totalSteps : ℕ := 0
  totalTabs : ℕ := 0
  durationMs : Option ℕ := none
  errorMessage : Option String := none
  cancelledAt : Option ℕ := none
  cancelledBy : Option String := none
  createdAt : ℕ
  startedAt : ℕ
  completedAt : Option ℕ := none
  updatedAt : ℕ
  version : ℕ := 1
  executionGeneration : ℕ := 0
  nextEventSequence : ℕ := 1
  origin : Option Origin := none

/-- `BuildStreamEvent` (`domain/compute/schemas.py:821-835`). -/
structure EventContext where
  buildId : String
  analysisId : String
  emittedAt : ℕ
  currentKind : Option String := none
  currentDatasourceId : Option String := none
  tabId : Option String := none
  tabName : Option String := none
  currentOutputId : Option String := none
  currentOutputName : Option String := none
  computeWorkerRunId : Option String := none
  deriving DecidableEq, Repr

/-- The fields the three step events share (`domain/compute/schemas.py:844-874`). -/
structure StepFields where
  buildStepIndex : ℕ
  stepIndex : ℕ
  stepId : String
  stepName : String
  stepType : String
  totalSteps : ℕ
  deriving DecidableEq, Repr

/-- `BuildTerminalEvent` (`domain/compute/schemas.py:904-910`); the tab results are opaque. -/
structure TerminalFields where
  progress : ℚ
  elapsedMs : ℕ
  totalSteps : ℕ
  tabsBuilt : ℕ
  results : String
  durationMs : ℕ
  deriving DecidableEq, Repr

/-- The event types (`domain/compute/schemas.py:838-926`). -/
inductive EventBody where
  | plan (optimizedPlan unoptimizedPlan : String)
  | stepStart (step : StepFields)
  | stepComplete (step : StepFields) (durationMs : ℕ) (rowCount : Option ℕ)
  | stepFailed (step : StepFields) (error : String)
  | progress (progress : ℚ) (elapsedMs : ℕ) (estimatedRemainingMs : Option ℕ)
      (currentStep : Option String) (currentStepIndex : Option ℕ) (totalSteps : ℕ)
  | resources (sample : String)
  | log (entry : String)
  | complete (terminal : TerminalFields)
  | failed (terminal : TerminalFields) (error : Option String)
  | cancelled (terminal : TerminalFields) (cancelledAt : ℕ) (cancelledBy : Option String)
  deriving DecidableEq, Repr

structure BuildEvent where
  context : EventContext
  body : EventBody
  deriving DecidableEq, Repr

/-- A row of `build_events` (`persistence/build_runs/models.py:120-132`); build and sequence are
the table key. -/
structure BuildEventRow where
  ns : String
  event : BuildEvent
  createdAt : ℕ
  deriving DecidableEq, Repr

/-- A row of `runtime_outbox_events` that tells the API about a build
(`runtime_outbox_service.py:82-99,136-145`): the payload of a pending event. -/
structure OutboxEvent where
  ns : String
  buildId : String
  latestSequence : ℕ
  createdAt : ℕ
  deriving DecidableEq, Repr

/-- A row of `schedules` (`persistence/scheduler/models.py:8-46`). A deleted row stays as
`deleted`, since a uuid is not drawn twice. `releasedBy` is a ghost: the build whose
reconciliation released the last claim, if one did. -/
structure Schedule where
  datasourceId : String
  cronExpression : String
  enabled : Bool
  dependsOn : Option String := none
  triggerOnDatasourceId : Option String := none
  lastRun : Option ℕ := none
  nextRun : Option ℕ := none
  leaseOwner : Option String := none
  claimToken : Option String := none
  leaseGeneration : ℕ := 0
  leaseExpiresAt : Option ℕ := none
  attempts : ℕ := 0
  lastClaimedAt : Option ℕ := none
  lastTriggeredAt : Option ℕ := none
  lastSuccessAt : Option ℕ := none
  lastFailureAt : Option ℕ := none
  lastSuccessfulBuildId : Option String := none
  createdAt : ℕ
  deleted : Bool := false
  releasedBy : Option String := none
  deriving DecidableEq, Repr

/-- The columns of `datasources` the scheduler reads. -/
structure DataSource where
  name : String
  isAnalysisOutput : Bool := false
  createdByAnalysisId : Option String := none
  isIngestableExternal : Bool := false
  isPendingDelete : Bool := false
  deriving DecidableEq, Repr

/-- A tab of a stored analysis; `sources` are the `right_source` and `sources` of its steps. -/
structure AnalysisTab where
  id : String
  name : String
  datasourceId : String
  analysisTabId : Option String := none
  resultId : String
  sources : List String := []
  deriving DecidableEq, Repr

/-- A stored analysis. `invalid` is what `build_analysis_pipeline_payload` or the request model
raises on its pipeline, if it does. -/
structure Analysis where
  name : String
  tabs : List AnalysisTab
  invalid : Option String := none
  deriving DecidableEq, Repr

/-- The tables of one tenant schema that builds and schedules touch. -/
structure Tables where
  jobs : Table String BuildJob
  runs : Table String BuildRun
  events : Table (String × ℕ) BuildEventRow
  outbox : Table String OutboxEvent
  schedules : Table String Schedule
  datasources : Table String DataSource
  analyses : Table String Analysis

/-- Row writes of one tenant schema. -/
inductive TableWrite where
  | job (id : String) (row : Option BuildJob)
  | run (id : String) (row : Option BuildRun)
  | event (key : String × ℕ) (row : Option BuildEventRow)
  | outbox (id : String) (row : Option OutboxEvent)
  | schedule (id : String) (row : Option Schedule)
  | datasource (id : String) (row : Option DataSource)

/-- Rows of one tenant schema. -/
inductive TableRow where
  | job (id : String)
  | run (id : String)
  | event (key : String × ℕ)
  | outbox (id : String)
  | schedule (id : String)
  | datasource (id : String)
  deriving DecidableEq

def Tables.write (db : Tables) : TableWrite → Tables
  | .job id row => { db with jobs := db.jobs.put id row }
  | .run id row => { db with runs := db.runs.put id row }
  | .event key row => { db with events := db.events.put key row }
  | .outbox id row => { db with outbox := db.outbox.put id row }
  | .schedule id row => { db with schedules := db.schedules.put id row }
  | .datasource id row => { db with datasources := db.datasources.put id row }

def TableWrite.target : TableWrite → TableRow
  | .job id _ => .job id
  | .run id _ => .run id
  | .event key _ => .event key
  | .outbox id _ => .outbox id
  | .schedule id _ => .schedule id
  | .datasource id _ => .datasource id

/-- Two schemas agree on a row. -/
def Tables.Same (a b : Tables) : TableRow → Prop
  | .job id => a.jobs.get id = b.jobs.get id
  | .run id => a.runs.get id = b.runs.get id
  | .event key => a.events.get key = b.events.get key
  | .outbox id => a.outbox.get id = b.outbox.get id
  | .schedule id => a.schedules.get id = b.schedules.get id
  | .datasource id => a.datasources.get id = b.datasources.get id

instance : Storage Tables TableWrite TableRow where
  apply w db := db.write w
  target := TableWrite.target
  same r a b := a.Same b r
  same_equiv r := by
    cases r <;> exact ⟨fun _ => rfl, Eq.symm, Eq.trans⟩
  same_apply {w r} db hne := by
    cases r <;> cases w <;> first
      | rfl
      | (refine (Table.get_put _ _ _ _).trans (if_neg fun he => hne ?_)
         rw [he]; rfl)
  apply_same {r a b} w h := by
    cases r <;> cases w <;> first
      | exact h
      | (refine (Table.get_put _ _ _ _).trans (Eq.trans ?_ (Table.get_put _ _ _ _).symm)
         rw [show _ = _ from h])

/-- What builds and schedules take from outside their own code: hashing, `croniter`, and the
settings they read. -/
structure Platform where
  advisoryKey : String → ℤ
  getNext : String → ℕ → ℕ
  runtimeWorkLeaseTtlSeconds : ℕ := 300

/-- The statuses `mark_build_running` and the exhaustion pass may leave, and those that count
as in flight. -/
def BuildRunStatus.inflight : BuildRunStatus → Bool
  | .queued | .running => true
  | _ => false

/-- `_terminal_outcome` (`build_commands.py:31-39`). -/
def terminalOutcome (status : BuildRunStatus) (errorMessage : Option String) :
    Option (BuildJobStatus × Option String) :=
  match status with
  | .cancelled => some (.cancelled, none)
  | .completed => some (.completed, none)
  | .failed | .orphaned => some (.failed, errorMessage)
  | .queued | .running => none

/-- `terminal_status_for_event` (`persistence/build_runs/models.py:69-76`). -/
def EventBody.terminalStatus : EventBody → Option BuildRunStatus
  | .complete _ => some .completed
  | .failed .. => some .failed
  | .cancelled .. => some .cancelled
  | _ => none

namespace BuildRun

/-- `apply_event_context` (`persistence/build_runs/models.py:17-29`). -/
def applyEventContext (r : BuildRun) (c : EventContext) : BuildRun :=
  { r with
    currentDatasourceId := c.currentDatasourceId <|> r.currentDatasourceId
    currentTabId := c.tabId <|> r.currentTabId
    currentTabName := c.tabName <|> r.currentTabName
    currentOutputId := c.currentOutputId <|> r.currentOutputId
    currentOutputName := c.currentOutputName <|> r.currentOutputName
    currentComputeWorkerRunId := c.computeWorkerRunId <|> r.currentComputeWorkerRunId }

/-- `apply_runtime_event` (`persistence/build_runs/models.py:31-42`). -/
def applyRuntimeEvent (r : BuildRun) : EventBody → BuildRun
  | .progress progress elapsedMs remaining step index total =>
    { r with
      progress
      elapsedMs
      estimatedRemainingMs := remaining
      currentStep := step
      currentStepIndex := index
      totalSteps := total }
  | .stepStart step | .stepComplete step _ _ | .stepFailed step _ =>
    { r with
      currentStep := some step.stepName
      currentStepIndex := some step.buildStepIndex
      totalSteps := step.totalSteps }
  | _ => r

/-- What the three terminal events set alike (`persistence/build_runs/models.py:50-56`). -/
def settle (r : BuildRun) (status : BuildRunStatus) (t : TerminalFields) (emittedAt : ℕ)
    (errorMessage : Option String) : BuildRun :=
  { r with
    status
    progress := t.progress
    elapsedMs := t.elapsedMs
    totalSteps := t.totalSteps
    durationMs := some t.durationMs
    completedAt := some emittedAt
    errorMessage }

/-- `apply_terminal_event` on a row that is not terminal
(`persistence/build_runs/models.py:44-63`). -/
def applyTerminalEvent (r : BuildRun) (event : BuildEvent) : BuildRun :=
  match event.body with
  | .complete t => r.settle .completed t event.context.emittedAt none
  | .failed t error => r.settle .failed t event.context.emittedAt error
  | .cancelled t cancelledAt cancelledBy =>
    { r.settle .cancelled t event.context.emittedAt (some "Build cancelled") with
      cancelledAt := some cancelledAt
      cancelledBy }
  | _ => r

/-- What `stage_build_event` projects on a row that is not terminal
(`build_runs_service.py:446-459`). -/
def project (r : BuildRun) (event : BuildEvent) (authoritative : Option ℕ)
    (resourceConfigJson : Option String) : BuildRun :=
  let r := { r with executionGeneration := authoritative.getD r.executionGeneration }
  let r := r.applyEventContext event.context
  let r := { r with resourceConfigJson := resourceConfigJson <|> r.resourceConfigJson }
  let r := (r.applyRuntimeEvent event.body).applyTerminalEvent event
  { r with updatedAt := event.context.emittedAt, version := r.version + 1 }

/-- Whether `stage_build_event` takes the event (`build_runs_service.py:431-437`). -/
def acceptsEvent (r : BuildRun) (event : BuildEvent) (expected authoritative : Option ℕ) : Bool :=
  expected.all (r.executionGeneration = ·) && authoritative.all (r.executionGeneration < ·) &&
    (!r.status.isTerminal || event.body.terminalStatus = some r.status)

/-- The row `stage_build_event` leaves (`build_runs_service.py:445-461`). -/
def afterEvent (r : BuildRun) (event : BuildEvent) (authoritative : Option ℕ)
    (resourceConfigJson : Option String) : BuildRun :=
  let r := if r.status.isTerminal then r else r.project event authoritative resourceConfigJson
  { r with nextEventSequence := r.nextEventSequence + 1 }

end BuildRun

/-- `compute_next_run` (`persistence/scheduler/models.py:15-20`). -/
def computeNextRun (p : Platform) (cronExpression : String) (now : ℕ) : Option ℕ :=
  if cronExpression = "" then none else some (p.getNext cronExpression now)

/-- `should_run` (`modules/scheduler/service.py:459-465`) at host time `now`. -/
def shouldRun (p : Platform) (cronExpression : String) (lastRun : Option ℕ) (now : ℕ) : Bool :=
  cronExpression ≠ "" && lastRun.all fun l => p.getNext cronExpression l ≤ now

/-- `DataSourceTargetKind`. -/
inductive TargetKind where
  | analysis (id : String)
  | raw
  | datasource
  deriving DecidableEq, Repr

/-- `target_kind` and `_resolve_schedule_target` (`persistence/datasource/models.py:78-90`,
`modules/scheduler/service.py:284-298`). An empty provenance id counts as missing. -/
def DataSource.targetKind (d : DataSource) : TargetKind :=
  match d.isAnalysisOutput, d.createdByAnalysisId.filter (· ≠ "") with
  | true, some id => .analysis id
  | true, none => .datasource
  | false, _ => if d.isIngestableExternal then .raw else .datasource

/-- `_tab_reading_datasource` (`modules/scheduler/service.py:717-722`). -/
def Analysis.tabReading (a : Analysis) (datasourceId : String) : Option AnalysisTab :=
  a.tabs.find? fun tab =>
    (tab.analysisTabId.all (· = "")) && tab.datasourceId = datasourceId

/-- `external_datasource_ids` (`build_datasource_dependencies.py:26-49`), in sorted order. -/
def Analysis.externalDatasourceIds (a : Analysis) : List String :=
  let localIds := a.tabs.map AnalysisTab.id ++ a.tabs.map AnalysisTab.resultId
  let reads := a.tabs.flatMap fun tab =>
    (if tab.analysisTabId = none then [tab.datasourceId] else []) ++ tab.sources
  ((reads.filter (· ∉ localIds)).dedup).insertionSort (· ≤ ·)

/-- What `_enqueue_schedule_build` is asked to build. -/
structure BuildTarget where
  analysisId : String
  analysisName : String
  tabId : String
  tabName : String
  outputId : Option String := none
  outputName : Option String := none
  externalIds : List String
  totalTabs : ℕ
  deriving DecidableEq, Repr

/-- `_build_reader_analysis_request` (`modules/scheduler/service.py:740-750`). -/
def readerTarget (datasourceId analysisId : String) (a : Analysis) (tab : AnalysisTab) :
    Except String BuildTarget :=
  if tab.id = "" then
    .error ("Analysis " ++ analysisId ++ " tab reading " ++ datasourceId ++ " has no id")
  else match a.invalid with
    | some e => .error e
    | none => .ok ⟨analysisId, a.name, tab.id, tab.name, some tab.resultId, none,
        a.externalDatasourceIds, a.tabs.length⟩

/-- `_build_analysis_request` (`modules/scheduler/service.py:166-186`). -/
def analysisTarget (db : Tables) (datasourceId analysisId : String) : Except String BuildTarget :=
  match db.analyses.get analysisId with
  | none => .error ("Analysis " ++ analysisId ++ " not found for datasource " ++ datasourceId)
  | some a => match a.tabs.find? (·.resultId = datasourceId) with
    | none => .error ("No tab found in analysis " ++ analysisId ++ " that produces datasource " ++
        datasourceId)
    | some tab => match a.invalid with
      | some e => .error e
      | none => .ok ⟨analysisId, a.name, tab.id, tab.name, none, none, a.externalDatasourceIds,
          a.tabs.length⟩

/-- `_build_ingest_request` and `_enqueue_schedule_ingest_build`
(`modules/scheduler/service.py:189-230`): one tab that reads and republishes the source. -/
def ingestTarget (scheduleId datasourceId : String) (d : Option DataSource) : BuildTarget :=
  let shown := ((d.map DataSource.name).filter (· ≠ "")).getD datasourceId
  ⟨scheduleId, "Schedule ingest " ++ shown, scheduleId, "Scheduled ingest", none,
    some ("Schedule ingest " ++ shown), [datasourceId], 1⟩

/-- `_analyses_reading_datasource` (`modules/scheduler/service.py:725-737`), by id. -/
def readersOf (db : Tables) (datasourceId : String) : List (String × Analysis × AnalysisTab) :=
  (db.analyses.rows.insertionSort fun a b => a.1 ≤ b.1).filterMap fun e =>
    (e.2.tabReading datasourceId).map fun tab => (e.1, e.2, tab)

/-- The fan-out of `enqueue_schedule_run` (`modules/scheduler/service.py:783-820`): one target
per reading analysis, one ingest of a raw source without reader, or the producing analysis. -/
def scheduleTargets (db : Tables) (scheduleId datasourceId : String) :
    TargetKind → List (Except String BuildTarget)
  | .analysis id => [analysisTarget db datasourceId id]
  | kind =>
    let readers := readersOf db datasourceId
    if readers ≠ [] then readers.map fun r => readerTarget datasourceId r.1 r.2.1 r.2.2
    else if kind = .datasource then
      [.error ("Datasource " ++ datasourceId ++ " has no analysis reading it and cannot be " ++
        "re-ingested. Schedule an analysis output instead.")]
    else [.ok (ingestTarget scheduleId datasourceId (db.datasources.get datasourceId))]

/-- `completed_at or updated_at` of a terminal build. -/
def BuildRun.settledAt (run : BuildRun) : ℕ := run.completedAt.getD run.updatedAt

/-- Whether the schedule remembers this outcome (`modules/scheduler/service.py:848-852`). -/
def alreadyApplied (buildId : String) (run : BuildRun) (s : Schedule) : Bool :=
  if run.status = .completed then s.lastSuccessfulBuildId = some buildId
  else s.lastFailureAt.any (run.settledAt ≤ ·)

/-- The row a reconciliation leaves (`modules/scheduler/service.py:855-866`). -/
def reconciledSchedule (p : Platform) (buildId : String) (run : BuildRun) (now : ℕ)
    (s : Schedule) : Schedule :=
  let released :=
    { s with
      leaseOwner := none
      claimToken := none
      leaseExpiresAt := none
      releasedBy := if s.leaseOwner = none then s.releasedBy else some buildId }
  if run.status = .completed then
    { released with
      lastRun := some run.settledAt
      lastSuccessAt := some run.settledAt
      lastSuccessfulBuildId := some buildId
      nextRun := computeNextRun p s.cronExpression now }
  else { released with lastFailureAt := some run.settledAt }

/-- A terminal build as the reconciliation reads it, on a schedule row
(`apply_schedule_run_reconciliation`, `modules/scheduler/service.py:832-868`); `none` when it
leaves the row alone. -/
def applyReconciliation (p : Platform) (buildId : String) (run : BuildRun) (now : ℕ)
    (s : Schedule) : Option Schedule :=
  if s.lastTriggeredAt.any (run.createdAt < ·) then none
  else if s.leaseOwner = none ∧ alreadyApplied buildId run s then none
  else some (reconciledSchedule p buildId run now s)

end DataForge.Builds
