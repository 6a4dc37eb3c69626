import DataForge.Documents.Json
import DataForge.ReadCommitted.Table
import Mathlib.Data.Rat.Defs

/-!
# Compute worker runs: data model

Rows of `compute_worker_runs` (`persistence/compute_worker_runs/models.py`) and their response
(`domain/compute_worker_runs/schemas.py`). Timestamps are microseconds; JSON columns hold
documents whose floats are rationals.
-/

namespace DataForge.Runs

open Documents

/-- `ComputeWorkerRunKind` (`domain/compute_worker_runs/schemas.py:12-24`). -/
inductive ComputeWorkerRunKind where
  | build
  | preview
  | rowCount
  | download
  | ingest
  deriving DecidableEq, Repr

/-- The members of the enumeration. -/
def ComputeWorkerRunKind.members : List ComputeWorkerRunKind :=
  [.build, .preview, .rowCount, .download, .ingest]

/-- The `dataforge_token` of a kind (`enums.proto:291-295`). -/
def ComputeWorkerRunKind.value : ComputeWorkerRunKind → String
  | .build => "build"
  | .preview => "preview"
  | .rowCount => "row_count"
  | .download => "download"
  | .ingest => "ingest"

/-- `ApiEnumValue.require` of a text (`domain/api_enums.py:71-85`). -/
def ComputeWorkerRunKind.require (value : String) : Except String ComputeWorkerRunKind :=
  match members.find? (·.value = value) with
  | some kind => .ok kind
  | none => .error ("Unsupported ComputeWorkerRunKind: " ++ value)

/-- `ApiEnumValue.parse` (`domain/api_enums.py:65-69`). -/
def ComputeWorkerRunKind.parse : Option String → Except String (Option ComputeWorkerRunKind)
  | none => .ok none
  | some value => (require value).map some

/-- `ComputeWorkerRunStatus` (`domain/compute_worker_runs/schemas.py:27-36`). -/
inductive ComputeWorkerRunStatus where
  | running
  | success
  | failed
  | cancelled
  deriving DecidableEq, Repr

def ComputeWorkerRunStatus.isTerminal : ComputeWorkerRunStatus → Bool
  | .success | .failed | .cancelled => true
  | .running => false

/-- The members of the enumeration. -/
def ComputeWorkerRunStatus.members : List ComputeWorkerRunStatus :=
  [.running, .success, .failed, .cancelled]

/-- The `dataforge_token` of a status (`enums.proto:300-303`). -/
def ComputeWorkerRunStatus.value : ComputeWorkerRunStatus → String
  | .running => "running"
  | .success => "success"
  | .failed => "failed"
  | .cancelled => "cancelled"

/-- `ApiEnumValue.require` of a text (`domain/api_enums.py:71-85`). -/
def ComputeWorkerRunStatus.require (value : String) : Except String ComputeWorkerRunStatus :=
  match members.find? (·.value = value) with
  | some status => .ok status
  | none => .error ("Unsupported ComputeWorkerRunStatus: " ++ value)

theorem ComputeWorkerRunStatus.require_ok {value : String} {status : ComputeWorkerRunStatus} :
    require value = .ok status ↔ value = status.value := by
  constructor
  · intro h
    rw [require] at h
    split at h
    · next s hs =>
      cases h
      have := List.find?_some hs
      exact (of_decide_eq_true this).symm
    · cases h
  · rintro rfl
    cases status <;> rfl

/-- A row of `compute_worker_runs` (`persistence/compute_worker_runs/models.py:15-31`), but for
its key. -/
structure ComputeWorkerRun where
  ns : String
  analysisId : Option String
  datasourceId : String
  kind : ComputeWorkerRunKind
  status : ComputeWorkerRunStatus
  requestJson : Fields ℚ
  resultJson : Option (Fields ℚ)
  errorMessage : Option String
  createdAt : ℕ
  completedAt : Option ℕ
  durationMs : Option ℕ
  stepTimings : List (String × ℚ)
  queryPlan : Option String
  progress : ℚ
  currentStep : Option String
  triggeredBy : Option String

/-- `ComputeWorkerRunResponseSchema` (`domain/compute_worker_runs/schemas.py:91-112`). -/
structure ComputeWorkerRunResponse where
  id : String
  run : ComputeWorkerRun
  executionEntries : List (Json ℚ)
  applied : Bool := true

/-- `result_json.get('execution_entries')`, where it is a list. -/
def executionEntriesRaw (resultJson : Option (Fields ℚ)) : Option (List (Json ℚ)) :=
  match (resultJson.getD []).get? "execution_entries" with
  | some (.arr entries) => some entries
  | _ => none

/-- `_serialize_run` (`compute_worker_runs_service.py:149-159`). `validate` is the round trip of an
entry through `ComputeWorkerRunExecutionEntry`. -/
def serializeRun (validate : Json ℚ → Except String (Json ℚ)) (id : String)
    (run : ComputeWorkerRun) : Except String ComputeWorkerRunResponse := do
  let entries ← match executionEntriesRaw run.resultJson with
    | some raw => raw.mapM validate
    | none => .ok []
  .ok ⟨id, run, entries, true⟩

theorem serializeRun_ok {validate : Json ℚ → Except String (Json ℚ)} {id : String}
    {run : ComputeWorkerRun} {r : ComputeWorkerRunResponse}
    (h : serializeRun validate id run = .ok r) : r.id = id ∧ r.run = run ∧ r.applied = true := by
  rw [serializeRun] at h
  split at h
  · next raw _ =>
    cases hv : raw.mapM validate with
    | error e => rw [hv] at h; cases h
    | ok entries => rw [hv] at h; cases h; exact ⟨rfl, rfl, rfl⟩
  · cases h
    exact ⟨rfl, rfl, rfl⟩

end DataForge.Runs
