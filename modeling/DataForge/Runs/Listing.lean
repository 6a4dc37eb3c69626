import DataForge.Builds.Model
import DataForge.Compute.Identity
import DataForge.Effects.Except
import DataForge.Paging.Merge
import DataForge.Patterns.Like
import DataForge.Runs.Model

/-!
# The merged list of runs

`GET /builds` (`src/packages/backend/modules/compute/routes.py:486-531`) over the listings of
`backend_core/build_runs_service.py` and `backend_core/compute_worker_runs_service.py`: both
tables are cut to their latest rows by `created_at`, merged, sorted by `started_at` and cut
again to the page.
-/

namespace DataForge.Runs

open Documents ReadCommitted Builds

/-- `BuildLifecycleStatus` (`domain/compute/schemas.py:597-606`). -/
inductive BuildLifecycleStatus where
  | queued
  | running
  | completed
  | failed
  | cancelled
  deriving DecidableEq, Repr

/-- The member of `BuildRunStatus` with the token of the status. -/
def BuildLifecycleStatus.toBuildRunStatus : BuildLifecycleStatus → BuildRunStatus
  | .queued => .queued
  | .running => .running
  | .completed => .completed
  | .failed => .failed
  | .cancelled => .cancelled

/-- `to_build_lifecycle_status` (`domain/build_runs/models.py:22-33`). -/
def toBuildLifecycleStatus : BuildRunStatus → BuildLifecycleStatus
  | .queued => .queued
  | .running => .running
  | .completed => .completed
  | .cancelled => .cancelled
  | .failed => .failed
  | .orphaned => .failed

/-- `compute_worker_run_to_build_lifecycle_status` (`representations.py:7-13`). -/
def computeWorkerRunToBuildLifecycleStatus : ComputeWorkerRunStatus → BuildLifecycleStatus
  | .running => .running
  | .success => .completed
  | .failed => .failed
  | .cancelled => .cancelled

/-- `compute_worker_run_status_filter` (`representations.py:16-25`). -/
def computeWorkerRunStatusFilter :
    Option BuildLifecycleStatus → Option ComputeWorkerRunStatus
  | none => none
  | some .running => some .running
  | some .completed => some .success
  | some .failed => some .failed
  | some .cancelled => some .cancelled
  | some .queued => some .running

/-- `compute_worker_run_kind_filter` (`representations.py:28-29`). -/
def computeWorkerRunKindFilter (kind : Option String) : Option String :=
  if kind = some "build" then some ComputeWorkerRunKind.ingest.value else kind

/-- What the list reads: the two tables of runs, and the names that the joins add. -/
structure RunTables where
  builds : Table String BuildRun
  runs : Table String ComputeWorkerRun
  datasourceNames : Table String String
  analysisNames : Table String String

/-- The parameters of `list_builds` but for the page. -/
structure ListFilters where
  analysisId : Option String := none
  datasourceId : Option String := none
  kind : Option String := none
  status : Option BuildLifecycleStatus := none
  search : Option String := none

/-- The letters with a meaning in `ILIKE`. -/
def ilikeWildcards : Patterns.Wildcards Char where
  escape := '\\'
  one := '_'
  any := '%'

section Listing

variable (lower : Char → Char) (T : RunTables)

/-- `column ILIKE pattern`; a missing value does not match. -/
def ilike (column : Option String) (pattern : List Char) : Bool :=
  column.any fun text => ilikeWildcards.like (pattern.map lower) (text.toList.map lower)

/-- `f'%{search}%'`. -/
def searchPattern (search : String) : List Char := '%' :: search.toList ++ ['%']

/-- The `WHERE` clause of `list_build_runs` (lines 290-318). -/
def selectsBuild (analysisId datasourceId kind : Option String) (status : Option BuildRunStatus)
    (search : Option String) (id : String) (run : BuildRun) : Bool :=
  analysisId.all (fun a => run.analysisId = a) &&
  datasourceId.all (fun d => run.currentDatasourceId = some d || run.currentOutputId = some d) &&
  kind.all (fun k => run.currentKind = some k) &&
  status.all (fun s => run.status = s) &&
  search.all fun text => text = "" ||
    [some id, some run.analysisId, run.currentDatasourceId, run.currentOutputId,
      run.currentTabName, run.currentOutputName, run.currentStep, some run.analysisName,
      run.currentDatasourceId.bind T.datasourceNames.get].any
        fun column => ilike lower column (searchPattern text)

/-- `ORDER BY created_at DESC, id`. -/
def createdOrder {ρ : Type} (createdAt : ρ → ℕ) (a b : String × ρ) : Bool :=
  createdAt b.2 < createdAt a.2 || createdAt a.2 = createdAt b.2 && a.1 ≤ b.1

/-- The rows of `list_build_runs` before its `LIMIT`. -/
def buildQuery (analysisId datasourceId kind : Option String) (status : Option BuildRunStatus)
    (search : Option String) : List (String × BuildRun) :=
  (T.builds.rows.filter fun e =>
    selectsBuild lower T analysisId datasourceId kind status search e.1 e.2).insertionSort
      fun a b => createdOrder BuildRun.createdAt a b

/-- `list_build_runs` (`build_runs_service.py:273-321`). -/
def listBuildRuns (analysisId datasourceId kind : Option String) (status : Option BuildRunStatus)
    (search : Option String) (limit offset : ℕ) : List (String × BuildRun) :=
  ((buildQuery lower T analysisId datasourceId kind status search).drop offset).take limit

/-- The `WHERE` clause of `list_compute_worker_runs` (lines 370-404). -/
def selectsRun (ns : String) (analysisId datasourceId : Option String)
    (kind : Option ComputeWorkerRunKind) (status : Option ComputeWorkerRunStatus)
    (search : Option String) (id : String) (run : ComputeWorkerRun) : Bool :=
  run.ns = ns &&
  analysisId.all (fun a => run.analysisId = some a) &&
  datasourceId.all (fun d => run.datasourceId = d) &&
  (match kind with
    | some k => decide (run.kind = k)
    | none => decide (run.kind ≠ .build)) &&
  status.all (fun s => run.status = s) &&
  search.all fun text => text = "" ||
    [some id, run.analysisId, some run.datasourceId, T.datasourceNames.get run.datasourceId,
      run.analysisId.bind T.analysisNames.get].any
        fun column => ilike lower column (searchPattern text)

/-- The rows of `list_compute_worker_runs` before its `LIMIT`. -/
def runQuery (ns : String) (analysisId datasourceId : Option String)
    (kind : Option ComputeWorkerRunKind) (status : Option ComputeWorkerRunStatus)
    (search : Option String) : List (String × ComputeWorkerRun) :=
  (T.runs.rows.filter fun e =>
    selectsRun lower T ns analysisId datasourceId kind status search e.1 e.2).insertionSort
      fun a b => createdOrder ComputeWorkerRun.createdAt a b

variable (validate : Json ℚ → Except String (Json ℚ))

/-- `list_compute_worker_runs` (`compute_worker_runs_service.py:360-408`). -/
def listComputeWorkerRuns (ns : String) (analysisId datasourceId kind : Option String)
    (status : Option ComputeWorkerRunStatus) (search : Option String) (limit offset : ℕ) :
    Except String (List ComputeWorkerRunResponse) := do
  let kind ← ComputeWorkerRunKind.parse kind
  if kind = some .build then .ok [] else
    let rows := ((runQuery lower T ns analysisId datasourceId kind status search).drop offset).take
      limit
    rows.mapM fun e => serializeRun validate e.1 e.2

/-- `BuildRunSummary` (`domain/compute/schemas.py:720-747`), without its display fields. -/
structure BuildRunSummary where
  buildId : String
  analysisId : String
  analysisName : String
  ns : String
  status : BuildLifecycleStatus
  startedAt : ℕ
  currentStep : Option String
  currentKind : Option ComputeWorkerRunKind
  currentDatasourceId : Option String
  currentComputeWorkerRunId : Option String
  totalSteps : ℕ
  totalTabs : ℕ
  cancelledAt : Option ℕ
  cancelledBy : Option String

/-- `build_summary` (`build_runs_service.py:700-732`). -/
def buildSummary (id : String) (run : BuildRun) : Except String BuildRunSummary := do
  let currentKind ← ComputeWorkerRunKind.parse run.currentKind
  .ok {
    buildId := id
    analysisId := run.analysisId
    analysisName := run.analysisName
    ns := run.ns
    status := toBuildLifecycleStatus run.status
    startedAt := run.startedAt
    currentStep := run.currentStep
    currentKind
    currentDatasourceId := run.currentDatasourceId
    currentComputeWorkerRunId := run.currentComputeWorkerRunId
    totalSteps := run.totalSteps
    totalTabs := run.totalTabs
    cancelledAt := run.cancelledAt
    cancelledBy := run.cancelledBy }

/-- `compute_worker_run_summary` (`representations.py:50-78`). -/
def computeWorkerRunSummary (response : ComputeWorkerRunResponse) (ns : String) :
    BuildRunSummary :=
  let run := response.run
  { buildId := response.id
    analysisId := run.analysisId.getD ""
    analysisName := run.analysisId.getD ""
    ns
    status := computeWorkerRunToBuildLifecycleStatus run.status
    startedAt := run.createdAt
    currentStep := run.currentStep
    currentKind := some run.kind
    currentDatasourceId := some run.datasourceId
    currentComputeWorkerRunId := some response.id
    totalSteps := 0
    totalTabs := 0
    cancelledAt := if run.status = .cancelled then run.completedAt else none
    cancelledBy := none }

/-- A row of one of the two tables. -/
inductive ListedRun where
  | build (id : String) (run : BuildRun)
  | compute (id : String) (run : ComputeWorkerRun)

/-- A summary in the list. It keeps the row it was made from: two summaries with the same content
are still two entries. -/
structure Entry where
  row : ListedRun
  summary : BuildRunSummary

/-- `build_summary(run)` of a row. -/
def buildEntry (e : String × BuildRun) : Except String Entry := do
  let summary ← buildSummary e.1 e.2
  .ok ⟨.build e.1 e.2, summary⟩

/-- `compute_worker_run_summary(run, namespace=namespace)` of a serialized row. -/
def engineEntry (ns : String) (response : ComputeWorkerRunResponse) : Entry :=
  ⟨.compute response.id response.run, computeWorkerRunSummary response ns⟩

/-- `BuildRunListResponse`. -/
structure BuildRunListResponse where
  builds : List Entry
  total : ℕ

/-- `sorted(…, key=lambda run: run.started_at, reverse=True)` keeps the order of what started at
the same time. -/
def startedOrder (a b : Entry) : Prop := b.summary.startedAt ≤ a.summary.startedAt

instance startedOrder.decidable : DecidableRel startedOrder :=
  fun a b => inferInstanceAs (Decidable (b.summary.startedAt ≤ a.summary.startedAt))

/-- `analysis_id.strip() if analysis_id else None`; `parse_datasource_id` (`validation.py:77-79`)
likewise. -/
def stripped (id : Option String) : Option String :=
  if id = some "" then none else id.map Compute.strip

/-- `engine_rows` of `list_builds` (lines 512-524). -/
def engineRows (ns : String) (f : ListFilters) (fetchLimit : ℕ) : Except String (List Entry) :=
  if f.status = some .queued then .ok [] else
    (listComputeWorkerRuns lower T validate ns (stripped f.analysisId) (stripped f.datasourceId)
      (computeWorkerRunKindFilter f.kind) (computeWorkerRunStatusFilter f.status) f.search
      fetchLimit 0).map fun responses => responses.map (engineEntry ns)

/-- `list_builds` (`routes.py:486-531`) in the namespace `ns`. -/
def listBuilds (ns : String) (f : ListFilters) (limit offset : ℕ) :
    Except String BuildRunListResponse := do
  let fetchLimit := limit + offset
  let runs := listBuildRuns lower T (stripped f.analysisId) (stripped f.datasourceId) f.kind
    (f.status.map BuildLifecycleStatus.toBuildRunStatus) f.search fetchLimit 0
  let buildRows ← (runs.filter fun e => e.2.ns = ns).mapM buildEntry
  let engineRows ← engineRows lower T validate ns f fetchLimit
  let visible := (buildRows ++ engineRows).insertionSort startedOrder
  .ok ⟨(visible.drop offset).take limit, visible.length⟩

end Listing

end DataForge.Runs
