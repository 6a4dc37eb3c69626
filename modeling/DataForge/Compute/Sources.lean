import DataForge.Compute.Service

/-!
# Compute requests: sources of preflights

The writers of request rows outside the queue: a create request takes over the uploaded source
of an Excel preflight, and preflights are removed, expire, or lose their source to storage
cleanup. The intents of storage cleanup are rows of another table; what they name is an argument
of an operation. All operations together with those of the queue are one system.
-/

namespace DataForge.Compute

open ReadCommitted DataForge.Runtime

/-- The operations that write request rows. A create request names the preflight whose cleanup
intent owns its source (`owner`) and the preflight of its caller (`source`); `order` is the order
in which PostgreSQL finds expired rows; `referenced` stands for the checks on the intent. -/
inductive RowOp where
  | queue (op : Op)
  | createFromPreflight (ns : String) (args : StageArgs) (owner source : Option String)
  | removePreflight (ns id : String) (deleteSource : Bool)
  | expirePreflights (ns : String) (before : ℕ) (order : List String)
  | authorizeCleanup (ns owner url : String) (referenced : Bool)

/-- `artifact_path`, `artifact_name` and `artifact_content_type`. -/
def ComputeRequest.artifacts (r : ComputeRequest) :
    Option String × Option String × Option String :=
  (r.artifactPath, r.artifactName, r.artifactContentType)

/-- The preflight gives its source away (`storage_cleanup_service.py:548-550`,
`executor_client.py:235-237`). -/
def ComputeRequest.clearArtifacts (r : ComputeRequest) : ComputeRequest :=
  { r with artifactPath := none, artifactName := none, artifactContentType := none }

section Scripts

variable (p : Platform) (ns : String)

/-- `session.get(ComputeRequest, id, with_for_update=True)`. -/
def getRequestForUpdate (id : String) : ComputeScript (Option ComputeRequest) :=
  Script.statement
    (fun e => lockRows (((requests ns e).get id).toList.map fun _ => requestRow ns id) .exclusive)
    (fun e => (requests ns e).get id)

/-- `session.delete(row)`, with the rows that refer to it (`ondelete='CASCADE'`,
`persistence/compute_requests/models.py:49-68`). -/
def deleteRequest (id : String) : ComputeScript Unit :=
  Script.statement
    (fun e => ⟨[], .tenant ns (.request id none) ::
      (((e.db.tenants ns).requestDatasources.rows.filter fun r => r.1.1 = id).map
        fun r => .tenant ns (.requestDatasource r.1 none)) ++
      ((e.db.tenants ns).flights.rows.filter fun f => f.2.requestId = id).map
        fun f => .tenant ns (.flight f.1 none)⟩)
    (fun _ => ())

/-- The end of `transfer_preflight_source`, for a source whose intent a preflight owns
(`storage_cleanup_service.py:490-556`). -/
def transferPreflightSource : Option String → ComputeScript Unit
  | none => pure ()
  | some owner => do
    match ← getRequestForUpdate ns owner with
    | none => .raise "Source ownership has been retired"
    | some r =>
      if r.status ≠ .completed then .raise "Preflight source has not completed"
      else updateRequest ns owner ComputeRequest.clearArtifacts

/-- The `source_preflight_id` part of `_submit` (`executor_client.py:221-238`). -/
def takePreflightSource (command : ComputeCommand) : Option String → ComputeScript Unit
  | none => pure ()
  | some id => do
    match ← getRequestForUpdate ns id with
    | none => .raise "Excel preflight is no longer available"
    | some r =>
      if r.kind ≠ .datasourcePreflight then .raise "Excel preflight is no longer available"
      else if r.status ≠ .completed then .raise "Excel preflight has not completed"
      else do
        let original ← check (commandEnvelopeForRequest id r)
        match original.command.command, command.command with
        | some (.datasource (some (.preflight c))),
          some (.datasource (some (.createFile path _))) =>
          if c.action ≠ .initial then
            .raise "Excel source ownership belongs to the initial preflight request"
          else if c.sourcePath ≠ path then
            .raise "Datasource source does not match its preflight"
          else updateRequest ns id ComputeRequest.clearArtifacts
        | some (.datasource (some (.preflight c))), _ =>
          if c.action ≠ .initial then
            .raise "Excel source ownership belongs to the initial preflight request"
          else .raise "Only a datasource create request can take ownership of a preflight source"
        | _, _ => .raise "Excel source ownership belongs to the initial preflight request"

/-- `_submit` of a create request whose source comes from a preflight
(`executor_client.py:192-252`, `compute_requests_service.py:326-434`). -/
def createFromPreflight (args : StageArgs) (owner source : Option String) :
    ComputeScript Reply := do
  validateStage args
  let command ← snapshotInputRevisions ns args.command
  check (match args.cleanup with
    | some m => .error m
    | none => .ok ())
  transferPreflightSource ns owner
  let request := stagedRequest p ns args command
  insertRow (fun e => ((requests ns e).get args.requestId).isSome)
    (.tenant ns (.request args.requestId (some request)))
  Script.statement
    (fun _ => ⟨[], (datasourceIdsForCommand command).map fun id =>
      .tenant ns (.requestDatasource (args.requestId, id) (some ()))⟩)
    (fun _ => ())
  let _ ← appendWake ns .compute args.wakeId
  takePreflightSource ns command source
  Script.commitNow
  pure (.staged args.requestId request true)

/-- The row still owns an uploaded source. -/
def ComputeRequest.ownsSource (r : ComputeRequest) : Bool :=
  r.artifactPath.isSome && r.artifactName = some "preflight-source"

/-- The error of registering a source without an engine. -/
def sourceWithoutEngine : String := "Preflight source ownership requires its exact engine RID"

/-- `_remove_preflight` (`modules/datasource/preflight.py:79-90`). -/
def removePreflight (id : String) (deleteSource : Bool) : ComputeScript Reply := do
  match ← getRequestForUpdate ns id with
  | none => pure .nothing
  | some r =>
    if r.kind ≠ .datasourcePreflight then pure .nothing
    else if deleteSource ∧ r.ownsSource ∧ r.computeWorkerResourceId = none then
      .raise sourceWithoutEngine
    else do
      deleteRequest ns id
      Script.commitNow
      pure .nothing

/-- The rows of the query of `_expire_preflights` (`modules/datasource/preflight.py:99-108`). -/
def expired (before : ℕ) (id : String) (r : ComputeRequest) : Bool :=
  r.kind = .datasourcePreflight && r.computeWorkerResourceId = some id &&
    decide (r.createdAt < before) && (r.status = .completed || r.status = .failed)

/-- `.with_for_update(skip_locked=True).limit(32)`. -/
def expiredBatch (e : ComputeEnv) (before : ℕ) (order : List String) :
    List (String × ComputeRequest) :=
  (order.filterMap fun id => (((requests ns e).get id).filter fun r => expired before id r &&
    e.free (requestRow ns id) .exclusive).map (id, ·)).take 32

/-- The loop of `_expire_preflights` (`modules/datasource/preflight.py:109-122`). -/
def expireEach : List (String × ComputeRequest) → ComputeScript Unit
  | [] => pure ()
  | (id, r) :: rest => do
    let active ← Script.query fun e => (requests ns e).rows.any fun x =>
      x.2.computeWorkerResourceId = some id && x.2.status.active
    if active then expireEach rest
    else if r.ownsSource ∧ r.computeWorkerResourceId = none then .raise sourceWithoutEngine
    else do
      deleteRequest ns id
      expireEach rest

/-- `_expire_preflights` (`modules/datasource/preflight.py:97-123`). -/
def expirePreflights (before : ℕ) (order : List String) : ComputeScript Reply := do
  let rows ← Script.statement
    (fun e => lockRows ((expiredBatch ns e before order).map fun r => requestRow ns r.1) .exclusive)
    (fun e => expiredBatch ns e before order)
  expireEach ns rows
  Script.commitNow
  pure .nothing

/-- `authorize_cleanup` for an intent that a preflight owns
(`storage_cleanup_service.py:632-696`). -/
def authorizeCleanup (owner url : String) (referenced : Bool) : ComputeScript Reply := do
  match ← getRequestForUpdate ns owner with
  | none => do
    Script.commitNow
    pure .nothing
  | some r =>
    if r.artifactPath ≠ some url ∨ referenced then do
      Script.commitNow
      pure .nothing
    else if r.status.active then pure .nothing
    else do
      deleteRequest ns owner
      Script.commitNow
      pure .nothing

end Scripts

/-- The script of each operation. -/
def rowCode (p : Platform) (i : ℕ) : RowOp → ComputeScript Reply
  | .queue op => code p i op
  | .createFromPreflight ns args owner source => createFromPreflight p ns args owner source
  | .removePreflight ns id deleteSource => removePreflight ns id deleteSource
  | .expirePreflights ns before order => expirePreflights ns before order
  | .authorizeCleanup ns owner url referenced => authorizeCleanup ns owner url referenced

end DataForge.Compute
