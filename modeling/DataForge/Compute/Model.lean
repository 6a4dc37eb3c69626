import DataForge.Runtime.Work

/-!
# Compute requests: data model

Rows and commands of the compute-request queue: `persistence/compute_requests/models.py`, the
protocol messages of `compute.proto` and `datasource.proto` as far as the queue reads them
(the other fields of a message are kept as one opaque `rest`), and the pure functions of
`backend_core/compute_requests_service.py`. Timestamps are microseconds.
-/

namespace DataForge.Compute

open ReadCommitted DataForge.Runtime

/-- `_FLIGHT_CACHE_SECONDS`. -/
def flightCache : ℕ := seconds 300

/-- `_RECONCILIATION_BATCH_SIZE`. -/
def reconciliationBatchSize : ℕ := 100

/-- `ComputeRequestStatus` (`enums.proto:219-225`). -/
inductive ComputeRequestStatus where
  | queued
  | running
  | completed
  | failed
  deriving DecidableEq, Repr

/-- `ComputeRequestKind` (`enums.proto:191-210`). -/
inductive ComputeRequestKind where
  | preview
  | schema
  | rowCount
  | download
  | export
  | createFileDatasource
  | createDatabaseDatasource
  | createIcebergDatasource
  | ingestDatasource
  | datasourceSchema
  | datasourceColumnStats
  | compareIcebergSnapshots
  | spawnEngine
  | configureEngine
  | shutdownEngine
  | datasourcePreflight
  deriving DecidableEq, Repr

/-- The protobuf number of a kind, as it appears in a flight key. -/
def ComputeRequestKind.number : ComputeRequestKind → ℕ
  | .preview => 1
  | .schema => 2
  | .rowCount => 3
  | .download => 4
  | .export => 5
  | .createFileDatasource => 6
  | .createDatabaseDatasource => 7
  | .createIcebergDatasource => 8
  | .ingestDatasource => 9
  | .datasourceSchema => 10
  | .datasourceColumnStats => 11
  | .compareIcebergSnapshots => 12
  | .spawnEngine => 13
  | .configureEngine => 14
  | .shutdownEngine => 15
  | .datasourcePreflight => 16

/-- `compute_request_kind_name` (`domain/compute_requests/models.py:68-69`). -/
def ComputeRequestKind.name : ComputeRequestKind → String
  | .preview => "preview"
  | .schema => "schema"
  | .rowCount => "row_count"
  | .download => "download"
  | .export => "export"
  | .createFileDatasource => "create_file_datasource"
  | .createDatabaseDatasource => "create_database_datasource"
  | .createIcebergDatasource => "create_iceberg_datasource"
  | .ingestDatasource => "ingest_datasource"
  | .datasourceSchema => "datasource_schema"
  | .datasourceColumnStats => "datasource_column_stats"
  | .compareIcebergSnapshots => "compare_iceberg_snapshots"
  | .spawnEngine => "spawn_engine"
  | .configureEngine => "configure_engine"
  | .shutdownEngine => "shutdown_engine"
  | .datasourcePreflight => "datasource_preflight"

/-- `ComputeWorkerScope` (`enums.proto:98-103`). -/
inductive ComputeWorkerScope where
  | unspecified
  | datasourcePreview
  | analysisInteractive
  | build
  deriving DecidableEq, Repr

def ComputeWorkerScope.number : ComputeWorkerScope → ℕ
  | .unspecified => 0
  | .datasourcePreview => 1
  | .analysisInteractive => 2
  | .build => 3

/-- `ComputeWorkerReusePolicy` (`enums.proto:105-109`). -/
inductive ComputeWorkerReusePolicy where
  | unspecified
  | shared
  | exclusive
  deriving DecidableEq, Repr

def ComputeWorkerReusePolicy.number : ComputeWorkerReusePolicy → ℕ
  | .unspecified => 0
  | .shared => 1
  | .exclusive => 2

/-- The columns of `ComputeWorkerIdentity` the queue stores (`compute.proto:13-33`). -/
structure ComputeWorkerIdentity where
  scope : ComputeWorkerScope
  reusePolicy : ComputeWorkerReusePolicy
  resourceId : String
  deriving DecidableEq, Repr

/-- The step configurations the queue looks at. -/
inductive StepConfig where
  | view (rest : String)
  | join (rightSource : String) (rest : String)
  | unionByName (sources : List String) (rest : String)
  | other (rest : String)
  deriving DecidableEq, Repr

structure PipelineTab where
  datasourceId : String
  steps : List StepConfig
  rest : String
  deriving DecidableEq, Repr

/-- `AnalysisPipelinePayload` (`analysis.proto:81-84`). -/
structure AnalysisPipeline where
  analysisId : String
  tabs : List PipelineTab
  deriving DecidableEq, Repr

/-- What `preview`, `schema`, `row_count`, `download` and `export` share. An unset
`analysis_id` reads as the empty string. -/
structure InteractiveCommand where
  analysisId : String
  analysisPipeline : AnalysisPipeline
  rest : String
  deriving DecidableEq, Repr

/-- `DatasourcePreflightAction` (`enums.proto:212-217`). -/
inductive PreflightAction where
  | unspecified
  | initial
  | preview
  | resolveSelection
  deriving DecidableEq, Repr

/-- `DatasourcePreflightCommand` (`datasource.proto:121-140`). -/
structure PreflightCommand where
  preflightId : String
  sourcePath : String
  action : PreflightAction
  datasourceId : Option String
  deleteSource : Bool
  rest : String
  deriving DecidableEq, Repr

/-- `DatasourceCommand` (`datasource.proto:160-171`). -/
inductive DatasourceCommand where
  | createFile (filePath : String) (rest : String)
  | createDatabase (rest : String)
  | createIceberg (rest : String)
  | ingest (datasourceId : String)
  | schema (datasourceId : String) (refresh : Bool) (rest : String)
  | columnStats (datasourceId : String) (rest : String)
  | compareIcebergSnapshots (datasourceId : String) (rest : String)
  | preflight (command : PreflightCommand)
  deriving DecidableEq, Repr

/-- The `command` oneof of `ComputeCommand` (`compute.proto:127-145`). -/
inductive CommandBody where
  | preview (engineIdentity : Option ComputeWorkerIdentity) (c : InteractiveCommand)
  | schema (c : InteractiveCommand)
  | rowCount (c : InteractiveCommand)
  | download (c : InteractiveCommand)
  | export (c : InteractiveCommand)
  | spawnEngine (engineIdentity : ComputeWorkerIdentity) (rest : String)
  | configureEngine (engineIdentity : ComputeWorkerIdentity) (rest : String)
  | shutdownEngine (engineIdentity : ComputeWorkerIdentity) (rest : String)
  | datasource (command : Option DatasourceCommand)
  deriving DecidableEq, Repr

/-- `DatasourceInputRevision` (`datasource.proto:116-119`). -/
structure InputRevision where
  datasourceId : String
  revision : ℕ
  deriving DecidableEq, Repr

structure ComputeCommand where
  inputRevisions : List InputRevision
  command : Option CommandBody
  deriving DecidableEq, Repr

structure CommandEnvelope where
  kind : ComputeRequestKind
  version : ℕ
  idempotencyKey : String
  correlationId : String
  command : ComputeCommand
  deriving DecidableEq, Repr

/-- `ComputeResponse`: the typed error, or any other response as opaque bytes. -/
inductive ComputeResponse where
  | error (message : String)
  | result (bytes : String)
  deriving DecidableEq, Repr

structure ResponseEnvelope where
  kind : ComputeRequestKind
  version : ℕ
  correlationId : String
  status : ComputeRequestStatus
  errorMessage : Option String
  response : ComputeResponse
  deriving DecidableEq, Repr

/-- A row of `compute_requests` (`persistence/compute_requests/models.py:8-46`). Envelopes are
stored decoded: the column holds their bytes. -/
structure ComputeRequest where
  ns : String
  kind : ComputeRequestKind
  status : ComputeRequestStatus
  computeWorkerScope : Option ComputeWorkerScope
  computeWorkerReusePolicy : Option ComputeWorkerReusePolicy
  computeWorkerResourceId : Option String
  commandEnvelope : CommandEnvelope
  responseEnvelope : Option ResponseEnvelope := none
  errorMessage : Option String := none
  artifactPath : Option String := none
  artifactName : Option String := none
  artifactContentType : Option String := none
  leaseOwner : Option String := none
  claimToken : Option String := none
  leaseGeneration : ℕ := 0
  leaseExpiresAt : Option ℕ := none
  claimedAt : Option ℕ := none
  lastRenewedAt : Option ℕ := none
  attempts : ℕ := 0
  maxAttempts : ℕ := 3
  createdAt : ℕ
  updatedAt : ℕ
  completedAt : Option ℕ := none
  deriving DecidableEq, Repr

/-- A row of `compute_request_flights`; the key columns are the table key. -/
structure ComputeRequestFlight where
  requestId : String
  createdAt : ℕ
  expiresAt : Option ℕ
  deriving DecidableEq, Repr

/-- The columns of `datasources` the queue reads. -/
structure DataSource where
  revision : ℕ
  deriving DecidableEq, Repr

/-- The tables of one tenant schema that the queue touches. -/
structure Tables where
  requests : Table String ComputeRequest
  requestDatasources : Table (String × String) Unit
  flights : Table (String × String) ComputeRequestFlight
  datasources : Table String DataSource

/-- Row writes of one tenant schema. -/
inductive TableWrite where
  | request (id : String) (row : Option ComputeRequest)
  | requestDatasource (key : String × String) (row : Option Unit)
  | flight (key : String × String) (row : Option ComputeRequestFlight)
  | datasource (id : String) (row : Option DataSource)

/-- Rows of one tenant schema. -/
inductive TableRow where
  | request (id : String)
  | requestDatasource (key : String × String)
  | flight (key : String × String)
  | datasource (id : String)
  deriving DecidableEq

def Tables.write (db : Tables) : TableWrite → Tables
  | .request id row => { db with requests := db.requests.put id row }
  | .requestDatasource key row =>
    { db with requestDatasources := db.requestDatasources.put key row }
  | .flight key row => { db with flights := db.flights.put key row }
  | .datasource id row => { db with datasources := db.datasources.put id row }

def TableWrite.target : TableWrite → TableRow
  | .request id _ => .request id
  | .requestDatasource key _ => .requestDatasource key
  | .flight key _ => .flight key
  | .datasource id _ => .datasource id

/-- Two schemas agree on a row. -/
def Tables.Same (a b : Tables) : TableRow → Prop
  | .request id => a.requests.get id = b.requests.get id
  | .requestDatasource key => a.requestDatasources.get key = b.requestDatasources.get key
  | .flight key => a.flights.get key = b.flights.get key
  | .datasource id => a.datasources.get id = b.datasources.get id

instance : Storage Tables TableWrite TableRow where
  apply w db := db.write w
  target := TableWrite.target
  same r a b := a.Same b r
  same_equiv r := by
    cases r <;> exact ⟨fun _ => rfl, Eq.symm, Eq.trans⟩
  same_apply {w r} db hne := by
    cases r <;> cases w <;> first
      | rfl
      | (refine (Table.get_put _ _ _ _).trans (if_neg fun he => hne ?_)
         rw [he]; rfl)
  apply_same {r a b} w h := by
    cases r <;> cases w <;> first
      | exact h
      | (refine (Table.get_put _ _ _ _).trans (Eq.trans ?_ (Table.get_put _ _ _ _).symm)
         rw [show _ = _ from h])

/-- What the queue takes from outside its own code: hashing and protobuf serialisation, and
the settings it reads. -/
structure Platform where
  serialize : ComputeCommand → List UInt8
  sha256 : List UInt8 → String
  advisoryKey : String → ℤ
  runtimeComputeMaxAttempts : ℕ := 3
  runtimeWorkLeaseTtlSeconds : ℕ := 300

/-- `_HIGH_PRIORITY_REQUEST_KINDS`, `_USER_CREATE_REQUEST_KINDS` and
`_request_priority_clause` (`compute_requests_service.py:43-76, 160-165`). -/
def requestPriority : ComputeRequestKind → ℕ
  | .spawnEngine | .configureEngine | .shutdownEngine | .preview | .schema | .rowCount
  | .datasourceSchema | .datasourceColumnStats | .compareIcebergSnapshots
  | .datasourcePreflight | .download | .export => 0
  | .createFileDatasource | .createDatabaseDatasource | .createIcebergDatasource => 1
  | .ingestDatasource => 2

/-- `SHARED_FLIGHT_REQUEST_KINDS` (`compute_requests_service.py:87-101`). -/
def ComputeRequestKind.sharedFlight : ComputeRequestKind → Bool
  | .preview | .schema | .rowCount => true
  | .datasourceSchema | .datasourceColumnStats | .compareIcebergSnapshots => true
  | _ => false

/-- `_SHARED_FLIGHT_COMMANDS` (`compute_requests_service.py:102-107`). -/
def ComputeRequestKind.sharedFlightCommand : ComputeRequestKind → String
  | .preview => "preview"
  | .schema => "schema"
  | .rowCount => "row_count"
  | _ => "datasource"

/-- `command.WhichOneof('command')`. -/
def CommandBody.which : CommandBody → String
  | .preview .. => "preview"
  | .schema .. => "schema"
  | .rowCount .. => "row_count"
  | .download .. => "download"
  | .export .. => "export"
  | .spawnEngine .. => "spawn_engine"
  | .configureEngine .. => "configure_engine"
  | .shutdownEngine .. => "shutdown_engine"
  | .datasource .. => "datasource"

/-- The pipeline of the commands that have one. -/
def CommandBody.interactive : CommandBody → Option InteractiveCommand
  | .preview _ c | .schema c | .rowCount c | .download c | .export c => some c
  | _ => none

/-- `getattr(command, 'datasource_id', '')` of a datasource command. -/
def DatasourceCommand.datasourceId : DatasourceCommand → String
  | .ingest id | .schema id _ _ | .columnStats id _ | .compareIcebergSnapshots id _ => id
  | .preflight c => c.datasourceId.getD ""
  | _ => ""

/-- `_flight_key` (`compute_requests_service.py:178-189`). -/
def flightKey (p : Platform) (kind : ComputeRequestKind) (command : ComputeCommand) :
    Option String :=
  if kind.sharedFlight then
    some (toString kind.number ++ ":" ++ p.sha256 (p.serialize command))
  else none

/-- Datasources a step reads besides the tab's own. -/
def StepConfig.sources : StepConfig → List String
  | .join rightSource _ => [rightSource]
  | .unionByName sources _ => sources
  | _ => []

def PipelineTab.stepSources (tab : PipelineTab) : List String :=
  tab.steps.flatMap StepConfig.sources

/-- `_datasource_ids_for_command` (`compute_requests_service.py:769-794`), in sorted order. -/
def datasourceIdsForCommand (command : ComputeCommand) : List String :=
  let ids := match command.command with
    | none => []
    | some (.datasource c) => (c.map DatasourceCommand.datasourceId).toList
    | some body => match body.interactive with
      | none => []
      | some c => c.analysisPipeline.tabs.map PipelineTab.datasourceId ++
          c.analysisPipeline.tabs.flatMap PipelineTab.stepSources
  ((ids.filter (· ≠ "")).dedup).insertionSort (· ≤ ·)

/-- The revisions of a command's datasources that exist (`compute_requests_service.py:203-208`). -/
def revisionsOf (db : Tables) (command : ComputeCommand) : List InputRevision :=
  (datasourceIdsForCommand command).filterMap fun id =>
    (db.datasources.get id).map (fun d => ⟨id, d.revision⟩)

/-- A command with its `input_revisions` taken from a state of the schema. -/
def snapshotted (db : Tables) (command : ComputeCommand) : ComputeCommand :=
  { command with inputRevisions := revisionsOf db command }

/-- `_datasource_compute_worker_identity` (`compute_requests_service.py:566-572`). -/
def datasourceComputeWorkerIdentity (resourceId : String) : ComputeWorkerIdentity :=
  ⟨.datasourcePreview, .shared, resourceId⟩

/-- `_compute_worker_identity_for_command` (`compute_requests_service.py:575-603`). -/
def computeWorkerIdentityForCommand (command : ComputeCommand) (requestId : String) :
    Option ComputeWorkerIdentity :=
  match command.command with
  | some (.spawnEngine identity _) => some identity
  | some (.configureEngine identity _) => some identity
  | some (.shutdownEngine identity _) => some identity
  | some (.preview (some identity) _) => some identity
  | some (.datasource (some (.createFile ..))) => some (datasourceComputeWorkerIdentity requestId)
  | some (.datasource (some (.createDatabase ..))) =>
    some (datasourceComputeWorkerIdentity requestId)
  | some (.datasource (some (.createIceberg ..))) =>
    some (datasourceComputeWorkerIdentity requestId)
  | some (.datasource (some (.preflight c))) =>
    some (datasourceComputeWorkerIdentity c.preflightId)
  | some (.datasource (some c)) =>
    if c.datasourceId = "" then none else some (datasourceComputeWorkerIdentity c.datasourceId)
  | some body =>
    match body.interactive with
    | none => none
    | some c =>
      let analysisId := if c.analysisPipeline.analysisId = "" then c.analysisId
        else c.analysisPipeline.analysisId
      if analysisId = "" then none else some ⟨.analysisInteractive, .shared, analysisId⟩
  | none => none

/-- `_engine_claim_identity` (`compute_requests_service.py:224-227`). -/
def ComputeRequest.engineClaimIdentity (r : ComputeRequest) :
    Option (String × ComputeWorkerScope × ComputeWorkerReusePolicy × String) :=
  match r.computeWorkerScope, r.computeWorkerReusePolicy, r.computeWorkerResourceId with
  | some scope, some reusePolicy, some resourceId => some (r.ns, scope, reusePolicy, resourceId)
  | _, _, _ => none

/-- The name `_engine_claim_lock_key` hashes (`compute_requests_service.py:217-221`). -/
def engineClaimName
    (identity : String × ComputeWorkerScope × ComputeWorkerReusePolicy × String) : String :=
  "dataforge:compute-engine-claim:" ++ identity.1 ++ ":" ++ toString identity.2.1.number ++ ":" ++
    toString identity.2.2.1.number ++ ":" ++ identity.2.2.2

/-- The queued or running statuses. -/
def ComputeRequestStatus.active : ComputeRequestStatus → Bool
  | .queued | .running => true
  | .completed | .failed => false

/-- `command_envelope` (`domain/compute_requests/models.py:479-492`). -/
def commandEnvelope (kind : ComputeRequestKind) (command : ComputeCommand) (requestId : String) :
    CommandEnvelope := ⟨kind, 1, requestId, requestId, command⟩

/-- `command_envelope_for_request` (`compute_requests_service.py:490-495`). -/
def commandEnvelopeForRequest (id : String) (r : ComputeRequest) :
    Except String CommandEnvelope :=
  let envelope := r.commandEnvelope
  if envelope.kind ≠ r.kind then
    .error ("Compute request " ++ id ++ " envelope kind '" ++ envelope.kind.name ++
      "' does not match row kind '" ++ r.kind.name ++ "'")
  else if envelope.correlationId ≠ id then
    .error ("Compute request " ++ id ++ " envelope correlation id '" ++ envelope.correlationId ++
      "' does not match request id")
  else .ok envelope

def StepConfig.isView : StepConfig → Bool
  | .view _ => true
  | _ => false

/-- View cache controls must reach the worker, so such a tab is never answered from a cache. -/
def PipelineTab.hasView (tab : PipelineTab) : Bool := tab.steps.any StepConfig.isView

/-- `_cache_completed_flight` (`compute_requests_service.py:611-619`). -/
def cacheCompletedFlight (id : String) (r : ComputeRequest) : Except String Bool :=
  match r.kind with
  | .preview => do
    let envelope ← commandEnvelopeForRequest id r
    match envelope.command.command with
    | some (.preview _ c) =>
      pure (!c.analysisPipeline.tabs.any PipelineTab.hasView)
    | _ => pure true
  | .datasourceSchema => do
    let envelope ← commandEnvelopeForRequest id r
    match envelope.command.command with
    | some (.datasource (some (.schema _ refresh _))) => pure (!refresh)
    | _ => pure true
  | _ => pure true

/-- `_reusable_flight_request` (`compute_requests_service.py:297-312`). -/
def reusableFlightRequest (id : String) (request : Option ComputeRequest)
    (flight : ComputeRequestFlight) (now : ℕ) : Except String (Option ComputeRequest) :=
  match request with
  | none => pure none
  | some r =>
    if r.status.active then pure (some r)
    else if r.status = .completed ∧ r.responseEnvelope ≠ none ∧
        (flight.expiresAt.any fun e => now < e) = true then do
      let cached ← cacheCompletedFlight id r
      pure (if cached then some r else none)
    else pure none

/-- The row `_publish_terminal` leaves (`compute_requests_service.py:622-645`). -/
def ComputeRequest.publishTerminal (r : ComputeRequest) (status : ComputeRequestStatus)
    (response : ResponseEnvelope) (errorMessage : Option String) (completedAt : ℕ) :
    ComputeRequest :=
  { r with
    status
    responseEnvelope := some response
    errorMessage
    completedAt := some completedAt
    updatedAt := completedAt
    leaseOwner := none
    claimToken := none
    leaseExpiresAt := none
    claimedAt := none
    lastRenewedAt := none }

/-- The failure envelope of `_retire_request` (`compute_requests_service.py:648-663`); with or
without a payload it carries the reason as a typed error. -/
def retiredEnvelope (id : String) (r : ComputeRequest) (reason : String) : ResponseEnvelope :=
  ⟨r.kind, 1, id, .failed, some reason, .error reason⟩

/-- `_validate_response_envelope` (`compute_requests_service.py:1323-1333`). -/
def validateResponseEnvelope (id : String) (r : ComputeRequest) (envelope : ResponseEnvelope)
    (expectedStatus : ComputeRequestStatus) : Except String Unit :=
  if envelope.kind ≠ r.kind then
    .error ("Compute request " ++ id ++ " response kind does not match request kind")
  else if envelope.status ≠ expectedStatus then
    .error ("Compute request " ++ id ++ " response status does not match completion status")
  else if envelope.correlationId ≠ id then
    .error ("Compute request " ++ id ++ " response correlation id does not match request id")
  else .ok ()

end DataForge.Compute
