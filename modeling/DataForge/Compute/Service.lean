import DataForge.Compute.Model

/-!
# Compute requests: service

The operations of `backend_core/compute_requests_service.py` as transaction scripts, statement
by statement. Host clocks (`_utcnow`), fresh ids and tokens, and the answers of the services
the queue calls (datasource validation, storage cleanup, compute worker runs) are arguments of
an operation, so that every value they can take is covered.
-/

namespace DataForge.Compute

open ReadCommitted DataForge.Runtime

abbrev ComputeScript := Script (Db Tables) (Write TableWrite) (Resource TableRow)

abbrev ComputeEnv := Env (Db Tables) (Resource TableRow)

abbrev ComputeTxn := Txn (Write TableWrite) (Resource TableRow)

abbrev ComputeWorld := World (Db Tables)

abbrev ComputeLocks := List (Lock (Resource TableRow))

/-- `ComputeRequestLeaseClaim` (`compute_requests_service.py:114-118`). -/
structure LeaseClaim where
  requestId : String
  claimToken : String
  leaseGeneration : ℕ
  deriving DecidableEq, Repr

/-- The arguments of `_stage_request`. `validate` answers from the rows it reads and locks
them shared; `cleanup` is the error the storage cleanup service raises, if it does. -/
structure StageArgs where
  kind : ComputeRequestKind
  command : ComputeCommand
  requestId : String
  now : ℕ
  wakeId : ℕ
  validate : Option (Db Tables → Except String (List (Resource TableRow))) := none
  cleanup : Option String := none

/-- The arguments of `claim_next_request`; `fuel` bounds the rounds of its retry loop. -/
structure ClaimArgs where
  workerId : String
  reclaimable : List String := []
  allowedKinds : Option (List ComputeRequestKind) := none
  claimToken : String
  fuel : ℕ

/-- `ComputeWorkerRunFinalization`, with the answer of `stage_update_compute_worker_run`. -/
structure Finalization where
  runId : String
  success : Option Bool
  hasCompletedAt : Bool
  accepted : Bool
  deriving DecidableEq, Repr

/-- The arguments of `_finish_claimed_request`; its callers pass `COMPLETED` or `FAILED`. -/
structure FinishArgs where
  requestId : String
  completed : Bool
  responseEnvelope : ResponseEnvelope
  workerId : String
  claimToken : String
  leaseGeneration : ℕ
  errorMessage : Option String
  artifacts : Option (Option String × Option String × Option String)
  finalization : Option Finalization := none
  now : ℕ
  deriving DecidableEq, Repr

def FinishArgs.status (args : FinishArgs) : ComputeRequestStatus :=
  if args.completed then .completed else .failed

/-- The operations on the queue, each in the schema of one namespace. `writeDatasource`
stands for the datasource services and `otherWork` for the queues of other kinds. -/
inductive Op where
  | stageRequest (ns : String) (args : StageArgs)
  | stageSharedFlightRequest (ns : String) (args : StageArgs)
  | claimNextRequest (ns : String) (args : ClaimArgs)
  | renewRequestLeases (ns : String) (claims : List LeaseClaim) (workerId : String)
  | finishClaimedRequest (ns : String) (args : FinishArgs)
  | cancelDisconnectedRequest (ns : String) (requestId reason : String) (now : ℕ)
  | cancelActiveRequestsForEngine (ns : String) (identity : ComputeWorkerIdentity)
      (reason : String) (now : ℕ)
  | reconcileExpiredRequests (ns : String)
  | writeDatasource (ns : String) (id : String) (row : Option DataSource)
  | otherWork (wakes : List (ℕ × Wake)) (markers : List ((String × RuntimeWorkKind) × Marker))

/-- What the operations return. -/
inductive Reply where
  | nothing
  | staged (id : String) (request : ComputeRequest) (created : Bool)
  | claimed (id : String) (request : ComputeRequest)
  | finished (request : Option ComputeRequest)
  | renewed (ids : List String)
  | count (n : ℕ)
  | outOfFuel

/-- `mark_request_completed` (`compute_requests_service.py:1189-1213`). -/
def markRequestCompleted (requestId : String) (responseEnvelope : ResponseEnvelope)
    (workerId claimToken : String) (leaseGeneration : ℕ)
    (artifacts : Option String × Option String × Option String)
    (finalization : Option Finalization) (now : ℕ) : FinishArgs :=
  { requestId, completed := true, responseEnvelope,
    workerId := workerId, claimToken, leaseGeneration,
    errorMessage := none, artifacts := some artifacts, finalization, now }

/-- `mark_request_failed` (`compute_requests_service.py:1216-1238`). -/
def markRequestFailed (requestId errorMessage : String) (responseEnvelope : ResponseEnvelope)
    (workerId claimToken : String) (leaseGeneration : ℕ)
    (finalization : Option Finalization) (now : ℕ) : FinishArgs :=
  { requestId, completed := false, responseEnvelope,
    workerId := workerId, claimToken, leaseGeneration,
    errorMessage := some errorMessage, artifacts := none, finalization,
    now }

section Helpers

variable (p : Platform) (ns : String)

/-- The requests of the session's schema. -/
def requests (e : ComputeEnv) : Table String ComputeRequest := (e.db.tenants ns).requests

/-- The lock of one request row. -/
def requestRow (id : String) : Resource TableRow := .tenant ns (.request id)

/-- A statement that locks rows and writes nothing. -/
def lockRows (rows : List (Resource TableRow)) (mode : Mode) :
    Effect (Write TableWrite) (Resource TableRow) := { locks := rows.map (·, mode) }

/-- Raise what a pure check found. -/
def check {α : Type} : Except String α → ComputeScript α
  | .ok a => .done a
  | .error e => .raise e

/-- `session.get(ComputeRequest, id)`. -/
def getRequest (id : String) : ComputeScript (Option ComputeRequest) :=
  Script.query fun e => (requests ns e).get id

/-- The `UPDATE` that flushes a changed row; the session holds the row. -/
def updateRequest (id : String) (f : ComputeRequest → ComputeRequest) : ComputeScript Unit :=
  Script.statement
    (fun e => match (requests ns e).get id with
      | some r => { writes := [.tenant ns (.request id (some (f r)))] }
      | none => {})
    (fun _ => ())

/-- The flight of a request, if it leads one. -/
def flightOf (e : ComputeEnv) (id : String) : Option ((String × String) × ComputeRequestFlight) :=
  (e.db.tenants ns).flights.rows.find? (fun f => f.2.requestId = id)

/-- `_finish_flight` (`compute_requests_service.py:315-323`). -/
def finishFlight (id : String) (cacheResult : Bool) (completedAt : ℕ) : ComputeScript Unit := do
  let flight ← Script.statement
    (fun e => lockRows ((flightOf ns e id).toList.map fun f => .tenant ns (.flight f.1)) .exclusive)
    (fun e => flightOf ns e id)
  match flight with
  | none => pure ()
  | some (key, f) =>
    Script.statement
      (fun _ => { writes := [.tenant ns (.flight key
        (if cacheResult then some { f with expiresAt := some (completedAt + flightCache) }
          else none))] })
      (fun _ => ())

/-- `_publish_terminal` (`compute_requests_service.py:622-645`): flush the row, settle the
flight. -/
def publishTerminal (id : String) (f : ComputeRequest → ComputeRequest) (cacheResult : Bool)
    (completedAt : ℕ) : ComputeScript Unit := do
  updateRequest ns id f
  finishFlight ns id cacheResult completedAt

/-- The row `_retire_request` leaves. -/
def retiredRow (id : String) (reason : String) (now : ℕ) (r : ComputeRequest) : ComputeRequest :=
  r.publishTerminal .failed (retiredEnvelope id r reason) (some reason) now

/-- `_retire_request` (`compute_requests_service.py:648-663`). -/
def retireRequest (id : String) (reason : String) (now : ℕ) : ComputeScript Unit :=
  publishTerminal ns id (retiredRow id reason now) false now

/-- `_snapshot_input_revisions` (`compute_requests_service.py:192-208`): read the revisions
under shared row locks. -/
def snapshotInputRevisions (command : ComputeCommand) : ComputeScript ComputeCommand :=
  let ids := datasourceIdsForCommand command
  if ids = [] then pure { command with inputRevisions := [] }
  else
    Script.statement
      (fun e => lockRows ((ids.filter fun id => ((e.db.tenants ns).datasources.get id).isSome).map
        fun id => .tenant ns (.datasource id)) .shared)
      (fun e => snapshotted (e.db.tenants ns) command)

/-- `pg_try_advisory_xact_lock`. -/
def tryAdvisoryXactLock (key : ℤ) : ComputeScript Bool :=
  Script.statement
    (fun e => lockRows (if e.free (.advisory key) .exclusive then [.advisory key] else [])
      .exclusive)
    (fun e => e.free (.advisory key) .exclusive)

/-- `_read_flight` (`compute_requests_service.py:278-294`): the flight, and in a second
statement its request. -/
def readFlight (key : String) :
    ComputeScript (Option (ComputeRequestFlight × Option ComputeRequest)) := do
  let flight ← Script.query fun e => (e.db.tenants ns).flights.get (ns, key)
  match flight with
  | none => pure none
  | some f => do
    let request ← getRequest ns f.requestId
    pure (some (f, request))

/-- `_find_reusable_flight` (`compute_requests_service.py:270-275`). -/
def findReusableFlight (key : String) (now : ℕ) :
    ComputeScript (Option (String × ComputeRequest)) := do
  match ← readFlight ns key with
  | none => pure none
  | some (f, request) => do
    let reusable ← check (reusableFlightRequest f.requestId request f now)
    pure (reusable.map (f.requestId, ·))

/-- `_reusable_flight` (`compute_requests_service.py:235-267`): a stale flight is deleted after
a second look under its row lock. -/
def reusableFlight (key : String) (now : ℕ) :
    ComputeScript (Option (String × ComputeRequest)) := do
  match ← readFlight ns key with
  | none => pure none
  | some (f, request) => do
    match ← check (reusableFlightRequest f.requestId request f now) with
    | some r => pure (some (f.requestId, r))
    | none => do
      let stale ← Script.statement
        (fun e => lockRows (((e.db.tenants ns).flights.get (ns, key)).toList.map
          fun _ => .tenant ns (.flight (ns, key))) .exclusive)
        (fun e => (e.db.tenants ns).flights.get (ns, key))
      match stale with
      | none => pure none
      | some f => do
        let request ← getRequest ns f.requestId
        match ← check (reusableFlightRequest f.requestId request f now) with
        | some r => pure (some (f.requestId, r))
        | none => do
          Script.statement (fun _ => { writes := [.tenant ns (.flight (ns, key) none)] })
            (fun _ => ())
          pure none

end Helpers

section Staging

variable (p : Platform) (ns : String) (args : StageArgs)

/-- The caller's datasource lifecycle checks, under shared locks. -/
def validateStage : ComputeScript Unit :=
  match args.validate with
  | none => pure ()
  | some validate => .exec
      (fun e => match validate e.db with
        | .ok rows => lockRows rows .shared
        | .error _ => {})
      (fun e => match validate e.db with
        | .ok _ => .done ()
        | .error m => .raise m)

/-- The preflight command of an envelope; other commands read as the empty message. -/
def CommandEnvelope.preflightSourcePath (envelope : CommandEnvelope) : String :=
  match envelope.command.command with
  | some (.datasource (some (.preflight c))) => c.sourcePath
  | _ => ""

/-- The parent of a follow-up preflight must be a completed preflight of the same source
(`compute_requests_service.py:348-356`). -/
def validatePreflightParent : ComputeScript Unit :=
  match args.command.command with
  | some (.datasource (some (.preflight c))) =>
    if c.action ≠ .initial ∧ c.datasourceId = none then do
      let parent ← Script.statement
        (fun e => lockRows (((requests ns e).get c.preflightId).toList.map
          fun _ => requestRow ns c.preflightId) .exclusive)
        (fun e => (requests ns e).get c.preflightId)
      match parent with
      | none => .raise "Excel preflight source has been retired"
      | some r =>
        if r.kind ≠ .datasourcePreflight then .raise "Excel preflight source has been retired"
        else do
          let original ← check (commandEnvelopeForRequest c.preflightId r)
          if r.status ≠ .completed ∨ original.preflightSourcePath ≠ c.sourcePath then
            .raise "Excel preflight source is not available for this command"
          else pure ()
    else pure ()
  | _ => pure ()

/-- `request.artifact_path`, `artifact_name` and `artifact_content_type` at staging
(`compute_requests_service.py:398-413`). -/
def stagedArtifacts (command : ComputeCommand) : Option String × Option String × Option String :=
  match command.command with
  | some (.datasource (some (.preflight c))) =>
    if c.action = .initial ∧ c.deleteSource then
      (some c.sourcePath, some "preflight-source",
        some "application/vnd.dataforge.preflight-source")
    else (some c.sourcePath, none, none)
  | some (.datasource (some (.createFile filePath _))) => (some filePath, none, none)
  | _ => (none, none, none)

/-- The row `_stage_request` inserts (`compute_requests_service.py:379-397`). -/
def stagedRequest (command : ComputeCommand) : ComputeRequest :=
  let identity := computeWorkerIdentityForCommand command args.requestId
  let artifacts := stagedArtifacts command
  { ns
    kind := args.kind
    status := .queued
    computeWorkerScope := identity.map ComputeWorkerIdentity.scope
    computeWorkerReusePolicy := identity.map ComputeWorkerIdentity.reusePolicy
    computeWorkerResourceId := identity.map ComputeWorkerIdentity.resourceId
    commandEnvelope := commandEnvelope args.kind command args.requestId
    artifactPath := artifacts.1
    artifactName := artifacts.2.1
    artifactContentType := artifacts.2.2
    maxAttempts := p.runtimeComputeMaxAttempts
    createdAt := args.now
    updatedAt := args.now }

/-- Insert a row under a primary key, or fail as PostgreSQL does when it is taken. -/
def insertRow (taken : ComputeEnv → Bool) (write : Write TableWrite) : ComputeScript Unit :=
  .exec (fun e => if taken e then {} else { writes := [write] })
    (fun e => if taken e then .raise "duplicate key value violates unique constraint"
      else .done ())

/-- The commands whose staging involves the storage cleanup service. -/
def ComputeCommand.usesCleanup (command : ComputeCommand) : Bool :=
  match command.command with
  | some (.datasource (some (.createFile ..))) => true
  | some (.datasource (some (.preflight ..))) => true
  | _ => false

/-- The creating half of `_stage_request` (`compute_requests_service.py:374-431`) and the
commit of its caller. -/
def insertRequest (command : ComputeCommand) (key : Option String) : ComputeScript Reply := do
  check (match args.cleanup with
    | some m => if command.usesCleanup then .error m else .ok ()
    | none => .ok ())
  let request := stagedRequest p ns args command
  insertRow (fun e => ((requests ns e).get args.requestId).isSome)
    (.tenant ns (.request args.requestId (some request)))
  Script.statement
    (fun _ => ⟨[], (datasourceIdsForCommand command).map fun id =>
      .tenant ns (.requestDatasource (args.requestId, id) (some ()))⟩)
    (fun _ => ())
  match key with
  | none => pure ()
  | some key =>
    insertRow (fun e => ((e.db.tenants ns).flights.get (ns, key)).isSome)
      (.tenant ns (.flight (ns, key) (some ⟨args.requestId, args.now, none⟩)))
  let _ ← appendWake ns .compute args.wakeId
  Script.commitNow
  pure (.staged args.requestId request true)

/-- `_stage_request` (`compute_requests_service.py:326-431`). A caller that is handed an
existing request has nothing to commit. -/
def stageRequest (deduplicateFlight : Bool) : ComputeScript Reply := do
  validateStage args
  validatePreflightParent ns args
  let command ← snapshotInputRevisions ns args.command
  match if deduplicateFlight then flightKey p args.kind command else none with
  | none => insertRequest p ns args command none
  | some key =>
    match ← findReusableFlight ns key args.now with
    | some (id, r) => pure (.staged id r false)
    | none => do
      let locked ← tryAdvisoryXactLock
        (p.advisoryKey ("dataforge:compute-flight:" ++ ns ++ ":" ++ key))
      if locked then
        match ← reusableFlight ns key args.now with
        | some (id, r) => pure (.staged id r false)
        | none => insertRequest p ns args command (some key)
      else .raise ("Compute flight " ++ key ++ " is being staged")

/-- `stage_shared_flight_request` (`compute_requests_service.py:453-475`). -/
def stageSharedFlightRequest : ComputeScript Reply :=
  if args.kind.sharedFlight = false then
    .raise (args.kind.name ++ " does not support shared request flights")
  else if (args.command.command.map CommandBody.which) ≠ some args.kind.sharedFlightCommand then
    .raise (args.kind.name ++ " requires a " ++ args.kind.sharedFlightCommand ++ " command")
  else stageRequest p ns args true

end Staging

section Claiming

variable (p : Platform) (ns : String) (args : ClaimArgs)

/-- `running.c.… == row.…` of the re-check: a Python `None` compares as `IS NULL`. -/
def sameIdentityColumns (r r' : ComputeRequest) : Bool :=
  r.ns = r'.ns && r.computeWorkerScope = r'.computeWorkerScope &&
    r.computeWorkerReusePolicy = r'.computeWorkerReusePolicy &&
    r.computeWorkerResourceId = r'.computeWorkerResourceId

/-- Some other row with the same identity columns is `RUNNING`. -/
def activeSibling (t : Table String ComputeRequest) (id : String) (r : ComputeRequest) : Bool :=
  t.rows.any fun e => sameIdentityColumns e.2 r && e.2.status = .running && e.1 ≠ id

/-- The candidate filter's `EXISTS`: SQL `=` is never true of a null. -/
def hasRunningSibling (t : Table String ComputeRequest) (id : String) (r : ComputeRequest) : Bool :=
  r.engineClaimIdentity.isSome && activeSibling t id r

/-- `queued_clause OR reclaimable_clause` (`compute_requests_service.py:847-852`). -/
def claimableAt (now : ℕ) (r : ComputeRequest) : Bool :=
  r.status = .queued ||
    (r.status = .running &&
      (r.leaseOwner.all (· ∈ args.reclaimable) || r.leaseExpiresAt.any (· ≤ now)) &&
      decide (r.attempts < r.maxAttempts))

/-- The `WHERE` clause of the candidate query (`compute_requests_service.py:864-883`). -/
def candidate (t : Table String ComputeRequest) (now : ℕ)
    (blocked : List (String × ComputeWorkerScope × ComputeWorkerReusePolicy × String))
    (id : String) (r : ComputeRequest) : Bool :=
  claimableAt args now r && !hasRunningSibling t id r &&
    args.allowedKinds.all (r.kind ∈ ·) &&
    r.engineClaimIdentity.all (· ∉ blocked)

/-- `ORDER BY priority, created_at, id`. -/
def claimOrder (a b : String × ComputeRequest) : Prop :=
  requestPriority a.2.kind < requestPriority b.2.kind ∨
    (requestPriority a.2.kind = requestPriority b.2.kind ∧
      (a.2.createdAt < b.2.createdAt ∨ (a.2.createdAt = b.2.createdAt ∧ a.1 ≤ b.1)))

instance (a b : String × ComputeRequest) : Decidable (claimOrder a b) := by
  unfold claimOrder; infer_instance

/-- The row of `SELECT … ORDER BY … LIMIT 1 FOR UPDATE SKIP LOCKED`. -/
def claimCandidate (e : ComputeEnv) (now : ℕ)
    (blocked : List (String × ComputeWorkerScope × ComputeWorkerReusePolicy × String)) :
    Option (String × ComputeRequest) :=
  (((requests ns e).rows.filter fun r => candidate args (requests ns e) now blocked r.1 r.2 &&
    e.free (requestRow ns r.1) .exclusive).insertionSort claimOrder).head?

/-- The row a claim leaves (`compute_requests_service.py:917-928`). -/
def claimedRow (workerId claimToken : String) (row : ComputeRequest) (leaseNow : ℕ)
    (r : ComputeRequest) : ComputeRequest :=
  { r with
    status := .running
    leaseOwner := some workerId
    claimToken := some claimToken
    leaseGeneration := row.leaseGeneration + 1
    leaseExpiresAt := some (leaseNow + claimDeliveryLease)
    claimedAt := some leaseNow
    lastRenewedAt := some leaseNow
    attempts := row.attempts + 1
    updatedAt := leaseNow }

/-- The guard of the claiming `UPDATE` (`claiming.py:62-77` with its extra conditions). -/
def claimGuard (row r : ComputeRequest) : Bool :=
  r.status = row.status && r.leaseGeneration = row.leaseGeneration && r.leaseOwner = row.leaseOwner

/-- `claim_by_lease_owner` on a candidate row: write the lease, and tell whether a row matched. -/
def claimByLeaseOwner (id : String) (row : ComputeRequest) : ComputeScript Bool :=
  Script.statement
    (fun e => match (requests ns e).get id with
      | some r =>
        if claimGuard row r then
          { writes := [.tenant ns (.request id
            (some (claimedRow args.workerId args.claimToken row e.now r)))] }
        else {}
      | none => {})
    (fun e => ((requests ns e).get id).any (claimGuard row))

/-- The end of `claim_next_request` (`compute_requests_service.py:906-952`). -/
def finishClaim (id : String) (row : ComputeRequest) : ComputeScript Reply := do
  let leaseClaimed ← claimByLeaseOwner ns args id row
  if leaseClaimed then do
    Script.commitNow
    let claimed ← getRequest ns id
    match claimed with
    | none => do
      Script.commitNow
      pure .nothing
    | some r =>
      if r.status ≠ .running ∨ r.claimToken = none ∨ r.leaseExpiresAt = none then do
        Script.commitNow
        pure .nothing
      else pure (.claimed id r)
  else do
    Script.rollbackNow
    Script.commitNow
    pure .nothing

/-- `_lock_engine_claim` (`compute_requests_service.py:230-232`). -/
def lockEngineClaim (row : ComputeRequest) : ComputeScript Bool :=
  match row.engineClaimIdentity with
  | none => pure true
  | some identity => tryAdvisoryXactLock (p.advisoryKey (engineClaimName identity))

def engineLockUnavailable (id : String) : String :=
  "Engine claim lock was unavailable without an engine identity for request " ++ id

/-- What a round does with the row it has selected (`compute_requests_service.py:885-904`);
`retry` is the next round, with the engine identities to leave out. -/
def claimSelected (id : String) (row : ComputeRequest)
    (blocked : List (String × ComputeWorkerScope × ComputeWorkerReusePolicy × String))
    (retry : List (String × ComputeWorkerScope × ComputeWorkerReusePolicy × String) →
      ComputeScript Reply) : ComputeScript Reply := do
  let locked ← lockEngineClaim p row
  if locked then do
    let sibling ← Script.query fun e => activeSibling (requests ns e) id row
    if sibling then do
      Script.rollbackNow
      retry blocked
    else finishClaim ns args id row
  else
    match row.engineClaimIdentity with
    | none => .raise (engineLockUnavailable id)
    | some identity => do
      Script.rollbackNow
      retry (identity :: blocked)

/-- The retry loop of `claim_next_request` (`compute_requests_service.py:844-904`). -/
def claimLoop : ℕ → List (String × ComputeWorkerScope × ComputeWorkerReusePolicy × String) →
    ComputeScript Reply
  | 0, _ => pure .outOfFuel
  | fuel + 1, blocked => do
    let now ← Script.query fun e => e.began
    let row ← Script.statement
      (fun e => lockRows ((claimCandidate ns args e now blocked).toList.map
        fun r => requestRow ns r.1) .exclusive)
      (fun e => claimCandidate ns args e now blocked)
    match row with
    | none => do
      Script.commitNow
      pure .nothing
    | some (id, row) => claimSelected p ns args id row blocked (claimLoop fuel)

/-- `claim_next_request` (`compute_requests_service.py:820-952`). -/
def claimNextRequest : ComputeScript Reply := claimLoop p ns args args.fuel []

end Claiming

section Settling

variable (p : Platform) (ns : String)

/-- The row a renewal leaves (`compute_requests_service.py:1031-1035`). -/
def renewedRow (leaseNow : ℕ) (r : ComputeRequest) : ComputeRequest :=
  { r with
    leaseExpiresAt := some (leaseNow + seconds p.runtimeWorkLeaseTtlSeconds)
    lastRenewedAt := some leaseNow
    updatedAt := leaseNow }

/-- The `WHERE` clause of the renewal (`compute_requests_service.py:1016-1030`). -/
def renewable (claims : List LeaseClaim) (workerId : String) (leaseNow : ℕ) (id : String)
    (r : ComputeRequest) : Bool :=
  r.status = .running && r.leaseOwner = some workerId && r.leaseExpiresAt.any (leaseNow < ·) &&
    claims.any fun c => c.requestId = id && r.claimToken = some c.claimToken &&
      r.leaseGeneration = c.leaseGeneration

/-- `renew_request_leases` (`compute_requests_service.py:996-1048`). -/
def renewRequestLeases (claims : List LeaseClaim) (workerId : String) : ComputeScript Reply :=
  if claims = [] ∨ ¬(claims.map LeaseClaim.requestId).Nodup then
    .raise "Compute lease renewal batch must contain unique request IDs"
  else do
    let renewedIds ← Script.statement
      (fun e => ⟨[], ((requests ns e).rows.filter
          fun r => renewable claims workerId e.now r.1 r.2).map
        fun r => .tenant ns (.request r.1 (some (renewedRow p e.now r.2)))⟩)
      (fun e => ((requests ns e).rows.filter
        fun r => renewable claims workerId e.now r.1 r.2).map Prod.fst)
    if renewedIds ≠ [] then Script.commitNow else Script.rollbackNow
    pure (.renewed renewedIds)

/-- The `WHERE` clause of `_active_request_claim` (`compute_requests_service.py:1115-1127`). -/
def activeClaim (args : FinishArgs) (leaseNow : ℕ) (r : ComputeRequest) : Bool :=
  r.status = .running && r.leaseOwner = some args.workerId &&
    r.claimToken = some args.claimToken && r.leaseGeneration = args.leaseGeneration &&
    r.leaseExpiresAt.any (leaseNow < ·)

/-- `_active_request_claim` (`compute_requests_service.py:1096-1130`). -/
def activeRequestClaim (args : FinishArgs) (forUpdate : Bool) :
    ComputeScript (Option ComputeRequest) := do
  let _ ← Script.query fun e => e.began
  Script.statement
    (fun e => lockRows (if forUpdate then
        (((requests ns e).get args.requestId).filter (activeClaim args e.now)).toList.map
          fun _ => requestRow ns args.requestId
      else []) .exclusive)
    (fun e => ((requests ns e).get args.requestId).filter (activeClaim args e.now))

/-- `_matching_terminal_request` (`compute_requests_service.py:1160-1186`). -/
def matchesTerminal (args : FinishArgs) (r : ComputeRequest) : Bool :=
  let artifacts := args.artifacts.getD (none, none, none)
  r.status = args.status && r.responseEnvelope = some args.responseEnvelope &&
    r.errorMessage = args.errorMessage && r.artifactPath = artifacts.1 &&
    r.artifactName = artifacts.2.1 && r.artifactContentType = artifacts.2.2

/-- `acknowledge_retry` (`compute_requests_service.py:1262-1273`). -/
def acknowledgeRetry (args : FinishArgs) : ComputeScript Reply := do
  Script.rollbackNow
  let request ← getRequest ns args.requestId
  pure (.finished (request.filter (matchesTerminal args)))

/-- `_stage_compute_worker_run_finalization` (`compute_requests_service.py:1133-1157`). -/
def stageFinalization (args : FinishArgs) (r : ComputeRequest) : Except String Unit :=
  match args.finalization with
  | none => .ok ()
  | some f =>
    if r.kind ≠ .preview then
      .error "Only preview requests can finalize a preview compute worker run"
    else if f.success ≠ some args.completed then
      .error ("Preview compute worker run must finish with status " ++
        (if args.completed then "success" else "failed"))
    else if f.hasCompletedAt = false then
      .error "Preview compute worker run finalization requires completed_at"
    else if f.accepted = false then
      .error ("Preview compute worker run " ++ f.runId ++
        " rejected its terminal status transition")
    else .ok ()

/-- The row `_finish_claimed_request` leaves (`compute_requests_service.py:1304-1318`). -/
def finishedRow (args : FinishArgs) (r : ComputeRequest) : ComputeRequest :=
  let r := match args.artifacts with
    | some (path, name, contentType) =>
      { r with artifactPath := path, artifactName := name, artifactContentType := contentType }
    | none => r
  r.publishTerminal args.status args.responseEnvelope args.errorMessage args.now

/-- `_finish_claimed_request` (`compute_requests_service.py:1241-1320`): check the claim without
a lock, prepare, and check it again under the row lock before publishing. -/
def finishClaimedRequest (args : FinishArgs) : ComputeScript Reply := do
  match ← activeRequestClaim ns args false with
  | none => acknowledgeRetry ns args
  | some r => do
    check (validateResponseEnvelope args.requestId r args.responseEnvelope args.status)
    check (stageFinalization args r)
    match ← activeRequestClaim ns args true with
    | none => acknowledgeRetry ns args
    | some r => do
      let cached ← check (if args.completed then cacheCompletedFlight args.requestId r
        else .ok false)
      publishTerminal ns args.requestId (finishedRow args) cached args.now
      Script.commitNow
      pure (.finished (some (finishedRow args r)))

/-- `cancel_disconnected_request` (`compute_requests_service.py:666-711`). -/
def cancelDisconnectedRequest (requestId reason : String) (now : ℕ) : ComputeScript Reply := do
  let request ← Script.statement
    (fun e => lockRows ((((requests ns e).get requestId).filter (·.status.active)).toList.map
      fun _ => requestRow ns requestId) .exclusive)
    (fun e => ((requests ns e).get requestId).filter (·.status.active))
  match request with
  | none => do
    Script.rollbackNow
    pure (.finished none)
  | some r => do
    let envelope ← check (commandEnvelopeForRequest requestId r)
    if (flightKey p r.kind envelope.command).isSome then do
      Script.rollbackNow
      pure (.finished none)
    else if r.status = .running ∧
        computeWorkerIdentityForCommand envelope.command requestId = none then do
      Script.rollbackNow
      pure (.finished none)
    else do
      retireRequest ns requestId reason now
      Script.commitNow
      let request ← getRequest ns requestId
      pure (.finished request)

/-- Retire a batch of locked rows one after the other. -/
def retireAll (reason : ComputeRequest → String) (now : ℕ) :
    List (String × ComputeRequest) → ComputeScript Unit
  | [] => pure ()
  | (id, r) :: rest => do
    retireRequest ns id (reason r) now
    retireAll reason now rest

/-- The rows an explicit engine shutdown targets (`compute_requests_service.py:735-750`). -/
def targetsEngine (identity : ComputeWorkerIdentity) (r : ComputeRequest) : Bool :=
  r.ns = ns && r.status.active && r.computeWorkerScope = some identity.scope &&
    r.computeWorkerReusePolicy = some identity.reusePolicy &&
    r.computeWorkerResourceId = some identity.resourceId

/-- `cancel_active_requests_for_engine` (`compute_requests_service.py:714-766`). -/
def cancelActiveRequestsForEngine (identity : ComputeWorkerIdentity) (reason : String) (now : ℕ) :
    ComputeScript Reply := do
  let rows ← Script.statement
    (fun e => lockRows (((requests ns e).rows.filter (targetsEngine ns identity ·.2)).map
      fun r => requestRow ns r.1) .exclusive)
    (fun e => (requests ns e).rows.filter (targetsEngine ns identity ·.2))
  retireAll ns (fun _ => reason) now rows
  if rows ≠ [] then Script.commitNow else Script.rollbackNow
  pure (.count rows.length)

/-- The rows `stage_exhausted_requests` fails (`compute_requests_service.py:964-972`). -/
def exhausted (now : ℕ) (r : ComputeRequest) : Bool :=
  r.ns = ns && r.status = .running && decide (r.maxAttempts ≤ r.attempts) &&
    r.leaseExpiresAt.any (· ≤ now)

/-- `ORDER BY lease_expires_at, id`. -/
def exhaustOrder (a b : String × ComputeRequest) : Prop :=
  a.2.leaseExpiresAt.getD 0 < b.2.leaseExpiresAt.getD 0 ∨
    (a.2.leaseExpiresAt.getD 0 = b.2.leaseExpiresAt.getD 0 ∧ a.1 ≤ b.1)

instance (a b : String × ComputeRequest) : Decidable (exhaustOrder a b) := by
  unfold exhaustOrder; infer_instance

/-- The batch of `SELECT … LIMIT 100 FOR UPDATE SKIP LOCKED`. -/
def exhaustBatch (e : ComputeEnv) (now : ℕ) : List (String × ComputeRequest) :=
  (((requests ns e).rows.filter fun r => exhausted ns now r.2 &&
    e.free (requestRow ns r.1) .exclusive).insertionSort exhaustOrder).take reconciliationBatchSize

/-- The message of an exhausted request. -/
def exhaustedReason (r : ComputeRequest) : String :=
  "Compute request exhausted " ++ toString r.maxAttempts ++ " execution attempts"

/-- `_COMPUTE_WORK_PENDING_QUERY` (`compute_requests_service.py:59-67`). -/
def computeWorkPending (now : ℕ) (db : Tables) : Bool :=
  db.requests.rows.any fun r => r.2.status = .queued ||
    (r.2.status = .running && (r.2.leaseOwner = none || r.2.leaseExpiresAt.any (· ≤ now)))

/-- `_COMPUTE_WORK_DUE_QUERY` (`compute_requests_service.py:68-72`). -/
def computeWorkDue (now : ℕ) (db : Tables) : Option ℕ :=
  (db.requests.rows.filterMap fun r =>
    if r.2.status = .running then r.2.leaseExpiresAt.filter (now < ·) else none).min?

/-- `reconcile_expired_requests`, that is `stage_exhausted_requests` and its commit
(`compute_requests_service.py:955-993`). -/
def reconcileExpiredRequests : ComputeScript Reply := do
  let now ← Script.query fun e => e.began
  let rows ← Script.statement
    (fun e => lockRows ((exhaustBatch ns e now).map fun r => requestRow ns r.1) .exclusive)
    (fun e => exhaustBatch ns e now)
  retireAll ns exhaustedReason now rows
  refreshPendingWork ns .compute computeWorkPending computeWorkDue
  Script.commitNow
  pure (.count rows.length)

/-- Any transaction of the datasource services that writes one datasource row. -/
def writeDatasource (id : String) (row : Option DataSource) : ComputeScript Reply := do
  Script.statement (fun _ => { writes := [.tenant ns (.datasource id row)] }) (fun _ => ())
  Script.commitNow
  pure .nothing

/-- Any transaction of another queue kind on the work tables: it writes wakes and markers that
are not of the compute queue. -/
def otherWork (wakes : List (ℕ × Wake)) (markers : List ((String × RuntimeWorkKind) × Marker)) :
    ComputeScript Reply := do
  Script.statement
    (fun e => ⟨[], (wakes.filter fun w => w.2.kind ≠ .compute &&
        (e.db.work.wakes.get w.1).all (·.kind ≠ .compute)).map (fun w => .wake w.1 (some w.2)) ++
      (markers.filter fun m => m.1.2 ≠ .compute).map fun m => .marker m.1 (some m.2)⟩)
    (fun _ => ())
  Script.commitNow
  pure .nothing

end Settling

/-- The script of each operation. -/
def code (p : Platform) (_ : ℕ) : Op → ComputeScript Reply
  | .stageRequest ns args => stageRequest p ns args false
  | .stageSharedFlightRequest ns args => stageSharedFlightRequest p ns args
  | .claimNextRequest ns args => claimNextRequest p ns args
  | .renewRequestLeases ns claims workerId => renewRequestLeases p ns claims workerId
  | .finishClaimedRequest ns args => finishClaimedRequest ns args
  | .cancelDisconnectedRequest ns requestId reason now =>
    cancelDisconnectedRequest p ns requestId reason now
  | .cancelActiveRequestsForEngine ns identity reason now =>
    cancelActiveRequestsForEngine ns identity reason now
  | .reconcileExpiredRequests ns => reconcileExpiredRequests ns
  | .writeDatasource ns id row => writeDatasource ns id row
  | .otherWork wakes markers => otherWork wakes markers

end DataForge.Compute
