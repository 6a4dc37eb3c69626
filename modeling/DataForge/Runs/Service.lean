import DataForge.ReadCommitted.Logic
import DataForge.Runs.Changes

/-!
# Compute worker runs: service

The staging functions of `src/packages/backend/backend_core/compute_worker_runs_service.py` as
transaction scripts, each in a transaction that commits or rolls back (`transactions.py:9-16`).
-/

namespace DataForge.Runs

open Documents ReadCommitted

/-- The table of runs. -/
structure RunTable where
  runs : Table String ComputeWorkerRun

/-- A row write. -/
structure RunWrite where
  id : String
  row : Option ComputeWorkerRun

/-- What a transaction locks: a row, or an advisory lock by its name. -/
inductive RunResource where
  | row (id : String)
  | advisory (name : String)
  deriving DecidableEq

/-- The row of a run. -/
def RunTable.get (db : RunTable) (id : String) : Option ComputeWorkerRun := db.runs.get id

/-- Perform one row write. -/
def RunTable.write (db : RunTable) (w : RunWrite) : RunTable := ⟨db.runs.put w.id w.row⟩

@[simp] theorem RunTable.get_write (db : RunTable) (w : RunWrite) (id : String) :
    (db.write w).get id = if id = w.id then w.row else db.get id :=
  Table.get_put db.runs w.id id w.row

/-- Two states agree on a resource. -/
def RunResource.same : RunResource → RunTable → RunTable → Prop
  | .row id, a, b => a.get id = b.get id
  | .advisory _, _, _ => True

instance runStorage : Storage RunTable RunWrite RunResource where
  apply w db := db.write w
  target w := .row w.id
  same := RunResource.same
  same_equiv r := by
    cases r with
    | row id => exact ⟨fun _ => rfl, Eq.symm, Eq.trans⟩
    | advisory name => exact ⟨fun _ => trivial, fun _ => trivial, fun _ _ => trivial⟩
  same_apply {w r} db hne := by
    cases r with
    | row id =>
      change (db.write w).get id = db.get id
      rw [RunTable.get_write, if_neg]
      rintro rfl
      exact hne rfl
    | advisory name => trivial
  apply_same {r a b} w h := by
    cases r with
    | row id =>
      change (a.write w).get id = (b.write w).get id
      rw [RunTable.get_write, RunTable.get_write, show a.get id = b.get id from h]
    | advisory name => trivial

/-- `CancelBuildResponse`. -/
structure CancelBuildResponse where
  id : String
  durationMs : ℕ
  cancelledAt : ℕ
  cancelledBy : Option String

/-- What the operations return. -/
inductive Reply where
  | response (response : ComputeWorkerRunResponse)
  | flag (applied : Bool)
  | cancelled (response : CancelBuildResponse)

/-- Whether an update reports that it applied. -/
def Reply.applied : Reply → Bool
  | .response r => r.applied
  | .flag applied => applied
  | .cancelled _ => true

/-- The operations, each in the namespace `ns`. -/
inductive Op where
  | create (ns : String) (payload : ComputeWorkerRunPayload)
  | update (ns id : String) (merge serializeResponse : Bool) (changes : ComputeWorkerRunChanges)
  | cancel (ns id : String) (cancelledBy : Option String)

abbrev RunScript := Script RunTable RunWrite RunResource

abbrev RunSystem := System Op RunTable RunWrite RunResource (Except String Reply)

/-- `select(…).with_for_update()` of a row of the namespace. -/
def lockRun (ns id : String) : RunScript (Option ComputeWorkerRun) :=
  Script.statement
    (fun e => { locks := ((e.db.get id).filter (·.ns = ns)).toList.map fun _ =>
      (.row id, .exclusive) })
    fun e => (e.db.get id).filter (·.ns = ns)

/-- `session.flush()` of a changed row. -/
def writeRun (id : String) (run : ComputeWorkerRun) : RunScript Unit :=
  Script.statement (fun _ => { writes := [⟨id, some run⟩] }) fun _ => ()

/-- `session.get(ComputeWorkerRun, id)`. -/
def getRun (id : String) : RunScript (Option ComputeWorkerRun) := Script.query fun e => e.db.get id

/-- `advisory_xact_lock` (`claiming.py:27-31`). -/
def advisoryXactLock (name : String) : RunScript Unit :=
  Script.statement (fun _ => { locks := [(.advisory name, .exclusive)] }) fun _ => ()

/-- `session.flush()` of a new row; whether it raises no `IntegrityError`. -/
def insertRow (id : String) (run : ComputeWorkerRun) : RunScript Bool :=
  Script.statement (fun e =>
      { locks := [(.row id, .exclusive)]
        writes := if (e.db.get id).isNone then [⟨id, some run⟩] else [] })
    fun e => (e.db.get id).isNone

/-- `datetime.now(UTC)`. -/
def utcNow : RunScript ℕ := Script.query Env.now

/-- `_serialize_run(run) if serialize_response else True`. -/
def updatedReply (p : Platform) (serializeResponse : Bool) (id : String) (run : ComputeWorkerRun) :
    Except String Reply :=
  if serializeResponse then (serializeRun p.validate id run).map .response else .ok (.flag true)

/-- The reply to an update of a terminal run (lines 254-263). -/
def terminalReply (p : Platform) (serializeResponse : Bool) (changes : ComputeWorkerRunChanges)
    (id : String) (run : ComputeWorkerRun) : Except String Reply := do
  let requestedStatus ← changes.requestedStatus
  let rejected := requestedStatus.any (· ≠ run.status)
  if serializeResponse then
    (serializeRun p.validate id run).map fun serialized =>
      .response { serialized with applied := !rejected }
  else .ok (.flag (!rejected))

/-- `stage_update_compute_worker_run` (lines 237-307). -/
def stageUpdateComputeWorkerRun (p : Platform) (ns id : String) (merge serializeResponse : Bool)
    (changes : ComputeWorkerRunChanges) : RunScript (Except String Reply) := do
  match ← lockRun ns id with
  | none => pure (.error ("Compute worker run " ++ id ++ " not found"))
  | some run =>
    if run.status.isTerminal then pure (terminalReply p serializeResponse changes id run)
    else
      match applyChanges p.validate merge changes run with
      | .error e => pure (.error e)
      | .ok changed => do
        writeRun id changed
        pure (updatedReply p serializeResponse id changed)

/-- `stage_cancel_compute_worker_run` (lines 95-146). -/
def stageCancelComputeWorkerRun (p : Platform) (ns id : String) (cancelledBy : Option String) :
    RunScript (Except String Reply) := do
  match ← lockRun ns id with
  | none => pure (.error "Compute worker run not found")
  | some run =>
    if run.status ≠ .running then pure (.error "Only running builds can be cancelled")
    else do
      let now ← utcNow
      match cancelChanges p now cancelledBy run with
      | .error e => pure (.error e)
      | .ok changes => do
        let updated ← stageUpdateComputeWorkerRun p ns id false true changes
        pure (updated.map fun _ => .cancelled ⟨id, cancelDuration now run, now, cancelledBy⟩)

/-- `session.add(run)`, `session.flush()` and the response (lines 187-213). -/
def addRun (p : Platform) (ns : String) (payload : ComputeWorkerRunPayload) :
    RunScript (Except String Reply) :=
  match newRun p.validate ns payload with
  | .error e => pure (.error e)
  | .ok run => do
    if ← insertRow payload.id run then
      pure ((serializeRun p.validate payload.id run).map .response)
    else pure (.error "IntegrityError")

/-- The name of the advisory lock of a key (line 173). -/
def lockName (ns key : String) : String := "dataforge:compute-worker-run:" ++ ns ++ ":" ++ key

/-- `stage_create_compute_worker_run` (lines 171-213). -/
def stageCreateComputeWorkerRun (p : Platform) (ns : String) (payload : ComputeWorkerRunPayload) :
    RunScript (Except String Reply) :=
  match payload.idempotencyKey with
  | none => addRun p ns payload
  | some key => do
    advisoryXactLock (lockName ns key)
    match ← getRun payload.id with
    | none => addRun p ns payload
    | some existing =>
      if payload.sameRequest ns existing then
        pure ((serializeRun p.validate payload.id existing).map .response)
      else
        pure (.error "Compute worker run idempotency key was reused for a different request")

/-- The end of `with transaction(session)` (`transactions.py:9-16`). -/
def finish : Except String Reply → RunScript (Except String Reply)
  | .ok reply => do
    Script.commitNow
    pure (.ok reply)
  | .error e => do
    Script.rollbackNow
    pure (.error e)

/-- `committed` (`transactions.py:19-33`). -/
def committed (stage : RunScript (Except String Reply)) : RunScript (Except String Reply) :=
  stage >>= finish

/-- The script of an operation. -/
def code (p : Platform) (_ : ℕ) : Op → RunScript (Except String Reply)
  | .create ns payload => committed (stageCreateComputeWorkerRun p ns payload)
  | .update ns id merge serializeResponse changes =>
    committed (stageUpdateComputeWorkerRun p ns id merge serializeResponse changes)
  | .cancel ns id cancelledBy => committed (stageCancelComputeWorkerRun p ns id cancelledBy)

end DataForge.Runs
