import DataForge.Effects.Except
import DataForge.Runs.Model
import Mathlib.Data.List.Sort

/-!
# Changes of a compute worker run

What an update and a cancellation make of the row of a run, and what a creation compares
(`src/packages/backend/backend_core/compute_worker_runs_service.py`).
-/

namespace DataForge.Runs

open Documents

/-! ## Equality of JSON values -/

/-- The number that a value is in a comparison; `True` is 1. -/
def number? : Json ℚ → Option ℚ
  | .bool b => some (if b then 1 else 0)
  | .int n => some n
  | .float x => some x
  | _ => none

mutual

/-- `==` of two JSON values. -/
def pyEq : Json ℚ → Json ℚ → Bool
  | .null, .null => true
  | .str a, .str b => a = b
  | .arr a, .arr b => pyEqItems a b
  | .obj a, .obj b => a.length = b.length && pyEqEntries a b
  | .bool a, b => number? b = number? (.bool a)
  | .int a, b => number? b = number? (.int a)
  | .float a, b => number? b = number? (.float a)
  | _, _ => false

/-- `==` of two lists. -/
def pyEqItems : List (Json ℚ) → List (Json ℚ) → Bool
  | [], [] => true
  | a :: as, b :: bs => pyEq a b && pyEqItems as bs
  | _, _ => false

/-- Each entry of a dictionary is in the other one. -/
def pyEqEntries : List (String × Json ℚ) → List (String × Json ℚ) → Bool
  | [], _ => true
  | e :: as, bs => pyEqEntry e bs && pyEqEntries as bs

/-- The entry is in the dictionary. -/
def pyEqEntry : String × Json ℚ → List (String × Json ℚ) → Bool
  | (key, value), bs =>
    match Fields.get? bs key with
    | some other => pyEq value other
    | none => false

end

mutual

theorem pyEq_refl {a : Json ℚ} (h : a.Distinct) : pyEq a a = true := by
  cases a with
  | null => simp [pyEq]
  | bool b => simp [pyEq]
  | int n => simp [pyEq]
  | float x => simp [pyEq]
  | str s => simp [pyEq]
  | arr items =>
    rw [pyEq]
    exact pyEqItems_refl h
  | obj entries =>
    have hentries := pyEqEntries_of_get? h.2 fun e he => Fields.get?_of_mem h.1 he
    simp [pyEq, hentries]

theorem pyEqItems_refl {l : List (Json ℚ)} (h : DistinctItems l) : pyEqItems l l = true := by
  cases l with
  | nil => simp [pyEqItems]
  | cons a l =>
    rw [pyEqItems, pyEq_refl h.1, pyEqItems_refl h.2]
    rfl

theorem pyEqEntries_of_get? {l bs : Fields ℚ} (h : DistinctEntries l)
    (hbs : ∀ e ∈ l, bs.get? e.1 = some e.2) : pyEqEntries l bs = true := by
  cases l with
  | nil => simp [pyEqEntries]
  | cons e l =>
    obtain ⟨key, value⟩ := e
    have hvalue : pyEqEntry (key, value) bs = true := by
      rw [pyEqEntry, hbs _ List.mem_cons_self]
      exact pyEq_refl h.1
    rw [pyEqEntries, hvalue, pyEqEntries_of_get? h.2 fun e he => hbs e (List.mem_cons_of_mem _ he)]
    rfl

end

/-! ## Updates -/

/-- `ComputeWorkerRunChanges` (lines 219-234): the fields that are given, and their values. -/
structure ComputeWorkerRunChanges where
  analysisId : Option (Option String) := none
  datasourceId : Option String := none
  kind : Option String := none
  status : Option String := none
  requestJson : Option (Fields ℚ) := none
  resultJson : Option (Option (Fields ℚ)) := none
  errorMessage : Option (Option String) := none
  completedAt : Option (Option ℕ) := none
  durationMs : Option (Option ℕ) := none
  stepTimings : Option (Option (List (String × ℚ))) := none
  queryPlan : Option (Option String) := none
  executionEntries : Option (Option (List (Json ℚ))) := none
  progress : Option ℚ := none
  currentStep : Option (Option String) := none
  triggeredBy : Option (Option String) := none

/-- `ComputeWorkerRunStatus.require`, where a status is given. -/
def ComputeWorkerRunChanges.requestedStatus (changes : ComputeWorkerRunChanges) :
    Except String (Option ComputeWorkerRunStatus) :=
  match changes.status with
  | none => .ok none
  | some status => (ComputeWorkerRunStatus.require status).map some

/-- `result_json` after the change of it (lines 278-281). -/
def mergedResult (merge : Bool) (change : Option (Option (Fields ℚ)))
    (resultJson : Option (Fields ℚ)) : Option (Fields ℚ) :=
  match change with
  | none => resultJson
  | some none => none
  | some (some new) => some (Fields.update (if merge then resultJson.getD [] else []) new)

/-- `result_json` after the change of the execution entries (lines 298-305); `validated` are the
entries after validation. -/
def resultWithEntries (validated : Option (Option (List (Json ℚ))))
    (resultJson : Option (Fields ℚ)) : Option (Fields ℚ) :=
  match validated with
  | none => resultJson
  | some none => some ((resultJson.getD []).filter (·.1 ≠ "execution_entries"))
  | some (some entries) =>
    some (Fields.put (resultJson.getD []) ("execution_entries", .arr entries))

/-- The execution entries after validation. -/
def validatedEntries (validate : Json ℚ → Except String (Json ℚ)) :
    Option (Option (List (Json ℚ))) → Except String (Option (Option (List (Json ℚ))))
  | none => .ok none
  | some none => .ok (some none)
  | some (some entries) => (entries.mapM validate).map (some ∘ some)

/-- The changes of a row that is not terminal (lines 266-305). -/
def applyChanges (validate : Json ℚ → Except String (Json ℚ)) (merge : Bool)
    (changes : ComputeWorkerRunChanges) (run : ComputeWorkerRun) :
    Except String ComputeWorkerRun := do
  let kind ← ComputeWorkerRunKind.parse changes.kind
  let status ← changes.requestedStatus
  let entries ← validatedEntries validate changes.executionEntries
  .ok {
    ns := run.ns
    analysisId := changes.analysisId.getD run.analysisId
    datasourceId := changes.datasourceId.getD run.datasourceId
    kind := kind.getD run.kind
    status := status.getD run.status
    requestJson := changes.requestJson.getD run.requestJson
    resultJson := resultWithEntries entries (mergedResult merge changes.resultJson run.resultJson)
    errorMessage := changes.errorMessage.getD run.errorMessage
    createdAt := run.createdAt
    completedAt := changes.completedAt.getD run.completedAt
    durationMs := changes.durationMs.getD run.durationMs
    stepTimings := (changes.stepTimings.map (·.getD [])).getD run.stepTimings
    queryPlan := changes.queryPlan.getD run.queryPlan
    progress := changes.progress.getD run.progress
    currentStep := changes.currentStep.getD run.currentStep
    triggeredBy := changes.triggeredBy.getD run.triggeredBy }

/-! ## Cancellation -/

/-- The tokens of `BuildStepState` in the order of their numbers (`enums.proto:163-167`). -/
def buildStepStates : List String := ["pending", "running", "completed", "failed", "skipped"]

/-- The token of a number. -/
def buildStepStateOf (number : Int) : Except String (Option String) :=
  match if 1 ≤ number then buildStepStates[(number - 1).toNat]? else none with
  | some token => .ok (some token)
  | none => .error "Unsupported BuildStepState"

/-- `BuildStepState.read(value, default=None)` (`domain/api_enums.py:87-94`). -/
def readBuildStepState : Option (Json ℚ) → Except String (Option String)
  | none => .ok none
  | some .null => .ok none
  | some (.str token) =>
    if token ∈ buildStepStates then .ok (some token) else .error "Unsupported BuildStepState"
  | some (.int n) => buildStepStateOf n
  | some (.bool b) => buildStepStateOf (if b then 1 else 0)
  | some _ => .error "Unsupported BuildStepState"

/-- `step_sort_key` (lines 84-86). -/
def stepSortKey (step : Fields ℚ) : Int :=
  match step.get? "build_step_index" with
  | some (.int n) => n
  | some (.bool b) => if b then 1 else 0
  | _ => -1

/-- `_latest_completed_step_name` (lines 73-92). -/
def latestCompletedStepName (resultJson : Fields ℚ) : Except String (Option String) :=
  match resultJson.get? "steps" with
  | some (.arr rawSteps) => do
    let steps := rawSteps.filterMap Json.entries?
    let states ← steps.mapM fun step => readBuildStepState (step.get? "state")
    let completed := ((steps.zip states).filter (·.2 = some "completed")).map Prod.fst
    let sorted := completed.insertionSort fun a b => stepSortKey a ≤ stepSortKey b
    .ok (sorted.getLast?.bind fun latest =>
      match latest.get? "step_name" with
      | some (.str name) => some name
      | _ => none)
  | _ => .ok none

/-- What the service takes from outside: the validation of an execution entry and
`datetime.isoformat`. -/
structure Platform where
  validate : Json ℚ → Except String (Json ℚ)
  isoformat : ℕ → String

/-- `reason` (line 104). -/
def cancelReason : Option String → String
  | none => "Cancelled"
  | some name => if name = "" then "Cancelled" else "Cancelled by " ++ name

/-- The log entry of a cancellation (lines 116-126). -/
def cancelLog (p : Platform) (now : ℕ) (cancelledBy : Option String) : Json ℚ :=
  .obj [("timestamp", .str (p.isoformat now)), ("level", .str "warning"),
    ("message", .str (cancelReason cancelledBy)), ("step_name", .null), ("step_id", .null),
    ("tab_id", .null), ("tab_name", .null)]

/-- `logs` (lines 114-115): the entries that are objects. -/
def existingLogs (existing : Fields ℚ) : List (Json ℚ) :=
  match existing.get? "logs" with
  | some (.arr entries) => entries.filter fun entry => entry.entries?.isSome
  | _ => []

/-- The result object of a cancelled run (lines 105-127). -/
def cancelledResult (p : Platform) (now : ℕ) (cancelledBy : Option String)
    (resultJson : Option (Fields ℚ)) : Except String (Fields ℚ) := do
  let kept := (resultJson.getD []).filter fun e => e.1 ≠ "data" && e.1 ≠ "schema"
  let existing := Fields.update kept [("results", .arr []),
    ("cancelled_at", .str (p.isoformat now)),
    ("cancelled_by", (cancelledBy.map Json.str).getD .null)]
  let lastCompletedStep ← latestCompletedStepName existing
  let existing := Fields.update existing
    (lastCompletedStep.map fun name => ("last_completed_step", Json.str name)).toList
  let logs := existingLogs existing ++ [cancelLog p now cancelledBy]
  .ok (Fields.put existing ("logs", .arr logs))

/-- `duration_ms` (lines 129-130). -/
def cancelDuration (now : ℕ) (run : ComputeWorkerRun) : ℕ := (now - run.createdAt) / 1000

/-- The changes of a cancellation (lines 131-142). -/
def cancelChanges (p : Platform) (now : ℕ) (cancelledBy : Option String) (run : ComputeWorkerRun) :
    Except String ComputeWorkerRunChanges := do
  let existing ← cancelledResult p now cancelledBy run.resultJson
  .ok {
    status := some ComputeWorkerRunStatus.cancelled.value
    resultJson := some (some existing)
    errorMessage := some (some (cancelReason cancelledBy))
    completedAt := some (some now)
    durationMs := some (some (cancelDuration now run))
    progress := some run.progress
    currentStep := some run.currentStep }

/-! ## Creation -/

/-- `ComputeWorkerRunPayload` (lines 41-60) as `create_compute_worker_run_payload` makes it
(lines 317-357): an idempotency key is the id of the run. -/
structure ComputeWorkerRunPayload where
  analysisId : Option String
  datasourceId : String
  kind : ComputeWorkerRunKind
  status : ComputeWorkerRunStatus
  requestJson : Fields ℚ
  resultJson : Option (Fields ℚ) := none
  errorMessage : Option String := none
  createdAt : ℕ
  completedAt : Option ℕ := none
  durationMs : Option ℕ := none
  stepTimings : List (String × ℚ) := []
  queryPlan : Option String := none
  executionEntries : List (Json ℚ) := []
  progress : ℚ := 0
  currentStep : Option String := none
  triggeredBy : Option String := none
  id : String
  idempotencyKey : Option String := none
  id_eq : ∀ key, idempotencyKey = some key → id = key := by simp
  request_distinct : (Json.obj requestJson).Distinct

/-- `same_request` (lines 176-182). -/
def ComputeWorkerRunPayload.sameRequest (ns : String) (payload : ComputeWorkerRunPayload)
    (existing : ComputeWorkerRun) : Bool :=
  existing.ns = ns && existing.analysisId = payload.analysisId &&
    existing.datasourceId = payload.datasourceId && existing.kind = payload.kind &&
      pyEq (.obj existing.requestJson) (.obj payload.requestJson)

/-- The row of a new run (lines 187-210). -/
def newRun (validate : Json ℚ → Except String (Json ℚ)) (ns : String)
    (payload : ComputeWorkerRunPayload) : Except String ComputeWorkerRun := do
  let entries ← payload.executionEntries.mapM validate
  .ok {
    ns
    analysisId := payload.analysisId
    datasourceId := payload.datasourceId
    kind := payload.kind
    status := payload.status
    requestJson := payload.requestJson
    resultJson := if payload.executionEntries.isEmpty then payload.resultJson
      else some (Fields.put (payload.resultJson.getD []) ("execution_entries", .arr entries))
    errorMessage := payload.errorMessage
    createdAt := payload.createdAt
    completedAt := payload.completedAt
    durationMs := payload.durationMs
    stepTimings := payload.stepTimings
    queryPlan := payload.queryPlan
    progress := payload.progress
    currentStep := payload.currentStep
    triggeredBy := payload.triggeredBy }

/-! ## What a change keeps -/

section Keeps

variable {validate : Json ℚ → Except String (Json ℚ)} {merge : Bool}
  {changes : ComputeWorkerRunChanges} {run run' : ComputeWorkerRun} {ns : String}
  {payload : ComputeWorkerRunPayload}

theorem get?_put_of_ne {l : Fields ℚ} {e : String × Json ℚ} {k : String} (h : k ≠ e.1) :
    (Fields.put l e).get? k = l.get? k := by
  induction l with
  | nil => simp [Fields.put, Fields.get?, Ne.symm h]
  | cons x l ih =>
    rw [Fields.put]
    split
    · next hx =>
      rw [Fields.get?_cons, Fields.get?_cons, if_neg (Ne.symm h), if_neg (hx ▸ Ne.symm h)]
    · rw [Fields.get?_cons, Fields.get?_cons, ih]

theorem get?_update_of_notMem {l new : Fields ℚ} {k : String} (h : k ∉ new.keys) :
    (Fields.update l new).get? k = l.get? k := by
  induction new generalizing l with
  | nil => rfl
  | cons e new ih =>
    rw [Fields.keys, List.map_cons, List.mem_cons, not_or] at h
    change (Fields.update (Fields.put l e) new).get? k = _
    rw [ih h.2, get?_put_of_ne h.1]

theorem get?_filter_of_ne {l : Fields ℚ} {key k : String} (h : k ≠ key) :
    Fields.get? (l.filter (·.1 ≠ key)) k = l.get? k := by
  rw [Fields.get?, Fields.get?, List.find?_filter]
  congr 2
  funext e
  by_cases he : e.1 = k
  · simp [he, h]
  · simp [he]

theorem get?_merged {entries : Option (Option (List (Json ℚ)))} {new : Fields ℚ}
    {resultJson : Option (Fields ℚ)} {k : String} (hk : k ∉ new.keys)
    (hentries : entries.isSome = true → k ≠ "execution_entries") :
    ((resultWithEntries entries (mergedResult true (some (some new)) resultJson)).getD []).get? k =
      (resultJson.getD []).get? k := by
  have hmerged : (mergedResult true (some (some new)) resultJson).getD [] =
      Fields.update (resultJson.getD []) new := rfl
  cases entries with
  | none =>
    rw [resultWithEntries, hmerged]
    exact get?_update_of_notMem hk
  | some entries =>
    have hne := hentries rfl
    cases entries with
    | none =>
      rw [resultWithEntries, Option.getD_some, get?_filter_of_ne hne, hmerged]
      exact get?_update_of_notMem hk
    | some entries =>
      rw [resultWithEntries, Option.getD_some, get?_put_of_ne hne, hmerged]
      exact get?_update_of_notMem hk

theorem applyChanges_ok (h : applyChanges validate merge changes run = .ok run') :
    run'.ns = run.ns ∧
      (∃ status, changes.requestedStatus = .ok status ∧ run'.status = status.getD run.status) ∧
      ∃ entries, validatedEntries validate changes.executionEntries = .ok entries ∧
        run'.resultJson =
          resultWithEntries entries (mergedResult merge changes.resultJson run.resultJson) := by
  obtain ⟨kind, -, h⟩ := Effects.bind_ok.mp h
  obtain ⟨status, hstatus, h⟩ := Effects.bind_ok.mp h
  obtain ⟨entries, hentries, h⟩ := Effects.bind_ok.mp h
  cases h
  exact ⟨rfl, ⟨status, hstatus, rfl⟩, entries, hentries, rfl⟩

theorem validatedEntries_isSome {given validated : Option (Option (List (Json ℚ)))}
    (h : validatedEntries validate given = .ok validated) : validated.isSome = given.isSome := by
  cases given with
  | none =>
    cases h
    rfl
  | some given =>
    cases given with
    | none =>
      cases h
      rfl
    | some entries =>
      rw [validatedEntries] at h
      cases hm : entries.mapM validate with
      | error e => rw [hm] at h; cases h
      | ok l => rw [hm] at h; cases h; rfl

theorem requestedStatus_ok {status : Option ComputeWorkerRunStatus}
    (h : changes.requestedStatus = .ok status) :
    changes.status = status.map ComputeWorkerRunStatus.value := by
  rw [ComputeWorkerRunChanges.requestedStatus] at h
  split at h
  · next hs =>
    cases h
    exact hs
  · next value hs =>
    cases hr : ComputeWorkerRunStatus.require value with
    | error e => rw [hr] at h; cases h
    | ok s =>
      rw [hr] at h
      cases h
      rw [hs, ComputeWorkerRunStatus.require_ok.mp hr]
      rfl

theorem newRun_ok (h : newRun validate ns payload = .ok run) : run.ns = ns := by
  obtain ⟨entries, -, h⟩ := Effects.bind_ok.mp h
  cases h
  rfl

theorem sameRequest_newRun (h : newRun validate ns payload = .ok run) :
    payload.sameRequest ns run = true := by
  obtain ⟨entries, -, h⟩ := Effects.bind_ok.mp h
  cases h
  simp [ComputeWorkerRunPayload.sameRequest, pyEq_refl payload.request_distinct]

end Keeps

end DataForge.Runs
