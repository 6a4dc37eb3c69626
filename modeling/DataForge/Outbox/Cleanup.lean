import DataForge.Outbox.Service
import DataForge.Datasources.Publication

/-!
# The runtime outbox: storage cleanups

`src/packages/backend/backend_core/storage_cleanup_service.py` as transaction scripts, statement by
statement. An intent is an outbox event that tracks one object or prefix of the storage; its phase
and its owner are in the payload. Functions that leave the commit to their caller are parts of the
scripts of `Op`, which has the operations of both services with the transactions of their callers.
-/

namespace DataForge.Outbox

open ReadCommitted Documents
open Storage (CatalogIdentity)

/-- `PREFLIGHT_TTL` (line 28). -/
def preflightTtl : ℕ := 1800000000

/-! ## URLs -/

/-- The scheme, the network location and the path of a URL, as `urlparse` has them for a scheme
without parameters. -/
structure ParsedUrl where
  scheme : String
  netloc : String
  path : String
  deriving DecidableEq, Repr

/-- `urlparse` of the standard library, for a host that it does not refuse. -/
def urlparse (url : String) : ParsedUrl :=
  let isScheme (c : Char) : Bool := c.isAlphanum || c = '+' || c = '-' || c = '.'
  let stripped := url.toList.dropWhile (· ≤ ' ')
  let chars := stripped.filter fun c => c ≠ '\t' && c ≠ '\n' && c ≠ '\r'
  let head := chars.takeWhile (· ≠ ':')
  let (scheme, rest) :=
    if head.length < chars.length ∧ head.head?.any Char.isAlpha = true ∧
        head.all isScheme = true then
      (String.ofList (head.map Char.toLower), chars.drop (head.length + 1))
    else ("", chars)
  let cut (c : Char) : Bool := c ≠ '?' && c ≠ '#'
  match rest with
  | '/' :: '/' :: rest =>
    let netloc := rest.takeWhile fun c => c ≠ '/' && cut c
    ⟨scheme, String.ofList netloc, String.ofList ((rest.drop netloc.length).takeWhile cut)⟩
  | rest => ⟨scheme, "", String.ofList (rest.takeWhile cut)⟩

/-- `path.strip('/').split('/')`. -/
def pathSegments (path : String) : List String :=
  let trimmed := (path.toList.dropWhile (· = '/')).rdropWhile (· = '/')
  (trimmed.splitOn '/').map String.ofList

/-- The roots that are managed (line 60). -/
def managedRoots : List String := ["uploads", "clean", "exports", "runtime-staging"]

/-- `_is_managed_url` (lines 56-60). -/
def isManagedUrl (ns url : String) (roots : List String) : Bool :=
  let parsed := urlparse url
  let segments := pathSegments parsed.path
  parsed.scheme = "s3" && parsed.netloc = ns && segments.head?.any (· ∈ roots) &&
    segments.all fun segment => segment ≠ "." && segment ≠ ".."

/-! ## Intents -/

/-- `_rearm` (lines 63-73): the row under a new lease generation. -/
def RuntimeOutboxEvent.rearmed (row : RuntimeOutboxEvent) (intent : Intent)
    (availableAt : Option ℕ) (now : ℕ) : RuntimeOutboxEvent :=
  { row with
    content := .cleanup intent
    status := .pending
    claimToken := none
    leaseExpiresAt := none
    leaseGeneration := row.leaseGeneration + 1
    availableAt := availableAt.getD now
    updatedAt := now }

/-- `_settle_referenced` (lines 384-394); `none` when it raises. -/
def RuntimeOutboxEvent.settleReferenced (row : RuntimeOutboxEvent) (intent : Intent) (now : ℕ) :
    Option RuntimeOutboxEvent :=
  if intent.phase = .tracked ∨ intent.phase = .published then
    some { row with
      content := .cleanup { intent with phase := .published }
      status := .dispatched
      claimToken := none
      leaseExpiresAt := none
      dispatchedAt := some now
      updatedAt := now }
  else none

/-- The row of an intent in another phase. -/
def RuntimeOutboxEvent.inPhase (row : RuntimeOutboxEvent) (intent : Intent)
    (phase : StorageCleanupPhase) : RuntimeOutboxEvent :=
  { row with content := .cleanup { intent with phase } }

/-- The row of a new intent (lines 116-129). -/
def newIntent (intent : Intent) (availableAt : Option ℕ) (now : ℕ) : RuntimeOutboxEvent where
  content := .cleanup { intent with phase := .tracked }
  status := .pending
  availableAt := availableAt.getD now
  createdAt := now
  updatedAt := now
  catalogNamespace := intent.catalog.map CatalogIdentity.catalogNamespace
  catalogTable := intent.catalog.map CatalogIdentity.catalogTable
  catalogFamilyPrefix := intent.catalog.bind CatalogIdentity.catalogFamilyPrefix

/-- The identity of the event is that of the URL (lines 108, 233). -/
def RuntimeOutboxEvent.targets (row : RuntimeOutboxEvent) (url : String) : Option Intent :=
  row.content.intent?.filter (·.url = url)

/-- What `_enqueue` does to an event that exists (lines 110-112). -/
def bumped (intent : Intent) (availableAt : Option ℕ) (now : ℕ) (row : RuntimeOutboxEvent) :
    Option RuntimeOutboxEvent :=
  if (row.targets intent.url).isSome ∧ availableAt = none ∧
      (row.status = .pending ∨ row.status = .failed) then
    some { row with availableAt := now }
  else none

/-- `_enqueue` (lines 103-133): the intent that is registered for the URL. -/
def enqueue (p : Platform) (intent : Intent) (availableAt : Option ℕ) : OutboxScript Intent :=
  if !isManagedUrl p.ns intent.url managedRoots then
    .raise "Storage cleanup must target an exact managed namespace object or prefix"
  else do
    match ← modifyEvent (p.eventId intent.url) (bumped intent availableAt) with
    | some row =>
      match row.targets intent.url with
      | none => .raise "Storage cleanup identity is already in use"
      | some found => pure found
    | none =>
      if ← insertEvent (p.eventId intent.url) (newIntent intent availableAt) then
        pure { intent with phase := .tracked }
      else .raise "duplicate key value violates unique constraint"

/-! ## Uploads and preflights -/

/-- What `register_preflight_source` does to an uploaded source (lines 248-256). -/
def handedToPreflight (preflightId resourceId : String) (availableAt : Option ℕ) (now : ℕ)
    (row : RuntimeOutboxEvent) : Option RuntimeOutboxEvent :=
  (row.content.intent?.filter fun intent =>
      intent.ownerKind = .upload && intent.phase = .tracked).map fun intent =>
    row.rearmed { intent with resourceId, ownerKind := .preflight, ownerId := preflightId }
      availableAt now

/-- `register_preflight_source` (lines 246-264). -/
def registerPreflightSource (p : Platform) (preflightId resourceId sourcePath : String)
    (availableAt : Option ℕ) : OutboxScript Unit := do
  let found ← modifyEvent (p.eventId sourcePath)
    (handedToPreflight preflightId resourceId availableAt)
  match (found.bind fun row => row.content.intent?).filter fun i => i.ownerKind = .upload with
  | some intent =>
    if intent.phase = .tracked then pure ()
    else .raise "Uploaded preflight source is no longer available"
  | none =>
    let _ ← enqueue p
      { url := sourcePath, phase := .tracked, resourceId, ownerKind := .preflight,
        ownerId := preflightId, isPrefix := false } availableAt
    pure ()

/-- `register_upload_source` (lines 267-277). -/
def registerUploadSource (p : Platform) (uploadId sourcePath : String) : OutboxScript Reply := do
  let now ← databaseNow
  let intent ← enqueue p
    { url := sourcePath, phase := .tracked, resourceId := uploadId, ownerKind := .upload,
      ownerId := uploadId, isPrefix := false } (some (now + preflightTtl))
  if intent.ownerKind ≠ .upload ∨ intent.ownerId ≠ uploadId then
    .raise "Upload target already has a different durable owner"
  else do
    Script.commitNow
    pure .done

/-- The intent is that of an upload in progress (lines 284-290). -/
def Intent.uploadedBy (intent : Intent) (uploadId : String) : Bool :=
  intent.ownerKind = .upload && intent.ownerId = uploadId && intent.phase = .tracked

/-- A tracked upload is armed again, `delay` later (lines 282-298, 304-313). -/
def rearmUpload (p : Platform) (uploadId sourcePath conflict : String) (delay : Option ℕ) :
    OutboxScript Reply := do
  let found ← modifyEvent (p.eventId sourcePath) fun now row =>
    (row.content.intent?.filter (·.uploadedBy uploadId)).map fun intent =>
      row.rearmed intent (delay.map (now + ·)) now
  if (found.bind fun row => row.content.intent?).any (·.uploadedBy uploadId) then do
    Script.commitNow
    pure .done
  else .raise conflict

/-- `renew_upload_source` (lines 293-296). -/
def renewUploadSource (p : Platform) (uploadId sourcePath : String) : OutboxScript Reply :=
  rearmUpload p uploadId sourcePath "Upload source ownership was lost" (some preflightTtl)

/-- `complete_upload_source` (lines 299-301). -/
def completeUploadSource (p : Platform) (uploadId sourcePath : String) : OutboxScript Reply :=
  renewUploadSource p uploadId sourcePath

/-- `release_upload_source_for_cleanup` (lines 304-313). -/
def releaseUploadSourceForCleanup (p : Platform) (uploadId sourcePath : String) :
    OutboxScript Reply :=
  rearmUpload p uploadId sourcePath "Upload source ownership was lost before cleanup handoff" none

/-! ## Stages -/

/-- The claim of a stage: of a compute request, or of the job of a build. -/
inductive StageOwner where
  | compute
  | build (buildId : String)
  deriving DecidableEq, Repr

/-- The arguments of `register_stage` (lines 317-329). -/
structure StageArgs where
  datasourceId : String
  owner : StageOwner
  ownerId : String
  claim : OwnerClaim
  prefixUrl : String
  manifestUrl : String
  catalogIdentifier : String
  deriving DecidableEq, Repr

/-- `_active_request_claim` with `for_update` (`compute_requests_service.py:1096-1130`): the RID of
the request. -/
def lockActiveRequestClaim (id : String) (claim : OwnerClaim) : OutboxScript (Option String) :=
  let held (e : Env Tables TableRow) : Option ComputeRequest :=
    (e.db.requests.get id).filter fun r => r.status = .running &&
      r.leaseOwner = some claim.workerId && r.claimToken = some claim.ownerToken &&
      r.leaseGeneration = claim.ownerGeneration && r.leaseExpiresAt.any (e.now < ·)
  Script.statement (fun e => { locks := (held e).toList.map fun _ => (.request id, .exclusive) })
    (fun e => (held e).map ComputeRequest.computeWorkerResourceId)

/-- `_active_job_claim` with `lock` (`build_jobs_service.py:264-288`): whether there is one. -/
def lockActiveJobClaim (id buildId : String) (claim : OwnerClaim) : OutboxScript Bool :=
  let held (e : Env Tables TableRow) : Option BuildJob :=
    (e.db.jobs.get id).filter fun r => r.buildId = buildId && r.running &&
      r.leaseOwner = some claim.workerId && r.claimToken = some claim.ownerToken &&
      r.leaseGeneration = claim.ownerGeneration && r.leaseExpiresAt.any (e.began < ·)
  Script.statement (fun e => { locks := (held e).toList.map fun _ => (.job id, .exclusive) })
    (fun e => (held e).isSome)

/-- The checks of the claim (lines 332-348). -/
def checkStageClaim (args : StageArgs) : OutboxScript Unit :=
  match args.owner with
  | .compute => do
    match ← lockActiveRequestClaim args.ownerId args.claim with
    | none => .raise "Datasource staging claim is no longer active"
    | some resourceId =>
      if resourceId = args.datasourceId then pure ()
      else .raise "Datasource staging claim targets a different exact RID"
  | .build buildId => do
    if ← lockActiveJobClaim args.ownerId buildId args.claim then pure ()
    else .raise "Datasource staging claim is no longer active"

/-- `prefix_url.rstrip('/').split('/')[-2]`. -/
def catalogTableOf (prefixUrl : String) : Option String :=
  let segments := (prefixUrl.toList.rdropWhile (· = '/')).splitOn '/'
  (segments.reverse[1]?).map String.ofList

/-- The targets are those of the attempt (lines 349-357). -/
def StageArgs.matchesAttempt (args : StageArgs) (ns : String) : Bool :=
  let token := args.claim.ownerToken.map fun c => if c = '-' then '_' else c
  let expectedPrefix :=
    "s3://" ++ ns ++ "/clean/" ++ args.datasourceId ++ "__claim_" ++ token ++ "/"
  let stage := if args.owner = .compute then "datasource-stage/" else "schedule-ingest/"
  let expectedManifest := "s3://" ++ ns ++ "/runtime-staging/" ++ stage ++ args.ownerId ++ "/" ++
    toString args.claim.ownerGeneration ++ "/manifest.json"
  expectedPrefix.toList.isPrefixOf args.prefixUrl.toList &&
    args.manifestUrl = expectedManifest &&
    (catalogTableOf args.prefixUrl).any fun table => args.catalogIdentifier = "clean." ++ table

/-- What both intents of a stage have in common (lines 358-365). -/
def StageArgs.intent (args : StageArgs) (url : String) : Intent where
  url
  phase := .tracked
  resourceId := args.datasourceId
  ownerKind := if args.owner = .compute then .compute else .build
  ownerId := args.ownerId
  isPrefix := false
  claim := some args.claim

/-- The catalog table of a stage (lines 372-377). -/
def StageArgs.catalog (args : StageArgs) (p : Platform) : CatalogIdentity where
  catalogIdentifier := args.catalogIdentifier
  catalogType := "sql"
  catalogUri := p.databaseUrl
  warehouse := "s3://" ++ p.ns ++ "/clean"
  catalogNamespace := "clean"
  catalogTable := (catalogTableOf args.prefixUrl).getD ""

/-- The intents of a stage whose claim is active (lines 349-381). -/
def registerTargets (p : Platform) (args : StageArgs) : OutboxScript Reply :=
  if !args.matchesAttempt p.ns then
    .raise "Datasource staging targets do not match the claimed attempt"
  else do
    let _ ← enqueue p
      { args.intent args.prefixUrl with isPrefix := true, catalog := some (args.catalog p) } none
    let _ ← enqueue p (args.intent args.manifestUrl) none
    Script.commitNow
    pure .done

/-- `register_stage` (lines 316-381). -/
def registerStage (p : Platform) (args : StageArgs) : OutboxScript Reply := do
  checkStageClaim args
  registerTargets p args

/-! ## Publications -/

/-- Lock an intent and settle it (lines 475-477, 485-487). -/
def settleIntent (id : String) : OutboxScript Unit := do
  let found ← modifyEvent id fun now row =>
    row.content.intent?.bind fun intent => row.settleReferenced intent now
  match found.bind fun row => row.content.intent? with
  | none => pure ()
  | some intent =>
    if intent.phase = .tracked ∨ intent.phase = .published then pure ()
    else .raise "Storage cleanup was already authorized for this path"

/-- Settle intents one after the other. -/
def settleIntents : List String → OutboxScript Unit
  | [] => pure ()
  | id :: rest => do
    settleIntent id
    settleIntents rest

/-- The columns of an event that its lookup reads. -/
def RuntimeOutboxEvent.columns (row : RuntimeOutboxEvent) (id : String) : Storage.Event ℕ where
  id
  kind := if row.content.intent?.isSome then Storage.storageCleanupKind else ""
  catalogNamespace := row.catalogNamespace
  catalogTable := row.catalogTable
  catalogFamilyPrefix := row.catalogFamilyPrefix
  payload := []

/-- `_catalog_intents` (lines 401-425): ids and rows. -/
def Tables.catalogIntents (db : Tables) (ns table : String) (familyPrefix : Option String) :
    List (String × RuntimeOutboxEvent) :=
  (db.events.rows.filter fun r =>
    Storage.selects ns table familyPrefix (r.2.columns r.1)).insertionSort fun a b => a.1 ≤ b.1

/-- `_intent_matches_catalog_table` (lines 428-432). -/
def Intent.matchesCatalogTable (intent : Intent) (table : String) : Bool :=
  intent.catalog.any fun catalog =>
    Storage.matchesTable (some catalog.catalogTable) catalog.catalogFamilyPrefix table

/-- `settle_publication` (lines 462-487). -/
def settlePublication (p : Platform) (config : Datasources.Config) : OutboxScript Unit := do
  settleIntents (config.paths.map p.eventId)
  match config.catalog with
  | none => pure ()
  | some (ns, table) => do
    let intents ← Script.query fun e => (e.db.catalogIntents ns table none).filter fun r =>
      r.2.content.intent?.any (·.matchesCatalogTable table)
    settleIntents (intents.map Prod.fst)

/-! ## Deletions -/

/-- What `_enqueue_datasource_target` does to an event that exists (lines 236-243). -/
def retargeted (intent : Intent) (now : ℕ) (row : RuntimeOutboxEvent) :
    Option RuntimeOutboxEvent :=
  ((row.targets intent.url).filter fun found =>
      found.phase = .tracked || found.phase = .published).map fun _ =>
    { row.rearmed { intent with phase := .tracked } none now with dispatchedAt := none }

/-- `_enqueue_datasource_target` (lines 228-243). -/
def enqueueDatasourceTarget (p : Platform) (intent : Intent) : OutboxScript Unit := do
  match ← modifyEvent (p.eventId intent.url) (retargeted intent) with
  | none =>
    let _ ← enqueue p intent none
    pure ()
  | some row =>
    match row.targets intent.url with
    | none => .raise "Storage cleanup identity is already in use"
    | some _ => pure ()

/-- `_catalog_cleanup_identity` (lines 136-172); `none` when there is no catalog table. -/
def catalogCleanupIdentity (p : Platform) (config : Datasources.Config) (datasourceId : String) :
    Except String (Option CatalogIdentity) :=
  Storage.identityOf p.databaseUrl config.str?
    (Datasources.truthy (config.get "catalog_uri")) datasourceId

/-- The targets of an Iceberg table (lines 184-198): its metadata, and the root of the datasource
in its path. -/
def metadataTargets (metadataPath datasourceId : String) (catalog : Option CatalogIdentity) :
    List (String × Bool × Option CatalogIdentity) :=
  let isFile := ".metadata.json".toList.isSuffixOf metadataPath.toList
  let parsed := urlparse metadataPath
  let segments := pathSegments parsed.path
  (metadataPath, !isFile, catalog) ::
    if datasourceId ∈ segments then
      let root := "s3://" ++ parsed.netloc ++ "/" ++
        "/".intercalate (segments.take (segments.idxOf datasourceId + 1))
      if root.toList = metadataPath.toList.rdropWhile (· = '/') then []
      else [(root, true, catalog)]
    else []

/-- The file paths of a configuration (lines 200-203). -/
def filePaths (row : Datasources.DataSource) : List String :=
  (if row.sourceType = "file" then (row.config.str? "file_path").toList else []) ++
    if row.config.entry? "source" "source_type" = some "file" then
      (row.config.entry? "source" "file_path").toList
    else []

/-- The intent of a target (lines 210-216). -/
def targetIntent (datasourceId : String) (target : String × Bool × Option CatalogIdentity) :
    Intent where
  url := target.1
  phase := .tracked
  resourceId := datasourceId
  ownerKind := .datasource
  ownerId := datasourceId
  isPrefix := target.2.1
  catalog := target.2.2

/-- The intents of `enqueue_datasource_cleanup` (lines 184-222), by URL. -/
def cleanupIntents (row : Datasources.DataSource) (datasourceId : String)
    (catalog : Option CatalogIdentity) : List Intent :=
  let metadata : List (String × Bool × Option CatalogIdentity) := if row.sourceType = "iceberg" then
    (row.config.str? "metadata_path").elim [] (metadataTargets · datasourceId catalog) else []
  let files := ((filePaths row).dedup.filter fun path => path ∉ metadata.map Prod.fst).map
    fun path => (path, false, none)
  ((metadata ++ files).map (targetIntent datasourceId)).insertionSort fun a b => a.url ≤ b.url

/-- The deletion of a table concerns an intent (lines 449-453). -/
def Intent.affectedBy (intent : Intent) (table : String) (familyPrefix : Option String) : Bool :=
  intent.matchesCatalogTable table || familyPrefix.any fun family =>
    intent.catalog.any fun catalog => family.toList.isPrefixOf catalog.catalogTable.toList

/-- What `_rearm_published_catalog_intents` does to an event that it has read as `snapshot`
(lines 455-459). -/
def republished (snapshot : Intent) (now : ℕ) (row : RuntimeOutboxEvent) :
    Option RuntimeOutboxEvent :=
  (row.content.intent?.filter fun intent =>
      intent = snapshot && intent.phase = .published && row.status = .dispatched).map fun intent =>
    { row.rearmed { intent with phase := .tracked } none now with dispatchedAt := none }

/-- Arm the published intents again, one after the other. -/
def rearmEach : List (String × Intent) → OutboxScript Unit
  | [] => pure ()
  | (id, snapshot) :: rest => do
    let _ ← modifyEvent id (republished snapshot)
    rearmEach rest

/-- `_rearm_published_catalog_intents` (lines 435-459). -/
def rearmPublishedCatalogIntents (catalog : CatalogIdentity) : OutboxScript Unit := do
  let snapshots ← Script.query fun e =>
    (e.db.catalogIntents catalog.catalogNamespace catalog.catalogTable
      catalog.catalogFamilyPrefix).filterMap fun r =>
        (r.2.content.intent?.filter fun intent =>
          intent.phase = .published && r.2.status = .dispatched &&
            intent.affectedBy catalog.catalogTable catalog.catalogFamilyPrefix).map (r.1, ·)
  rearmEach snapshots

/-- Register the targets of a deletion one after the other (lines 208-216). -/
def enqueueTargets (p : Platform) : List Intent → OutboxScript Unit
  | [] => pure ()
  | intent :: rest => do
    if isManagedUrl p.ns intent.url managedRoots then enqueueDatasourceTarget p intent
    else pure ()
    enqueueTargets p rest

/-- `enqueue_datasource_cleanup` (lines 175-225). -/
def enqueueDatasourceCleanup (p : Platform) (datasourceId : String)
    (row : Datasources.DataSource) : OutboxScript Unit :=
  match if row.sourceType = "iceberg" then catalogCleanupIdentity p row.config datasourceId
    else .ok none with
  | .error detail => .raise detail
  | .ok catalog => do
    enqueueTargets p (cleanupIntents row datasourceId catalog)
    match catalog with
    | none => pure ()
    | some identity => rearmPublishedCatalogIntents identity

/-! ## Hand-offs and authorized cleanups -/

/-- A row that owns the storage of an intent. -/
inductive Owner where
  | request (row : ComputeRequest)
  | job (row : BuildJob)
  | datasource

/-- `_lock_owner` (lines 76-90). -/
def lockOwner (intent : Intent) : OutboxScript (Option Owner) :=
  match intent.ownerKind with
  | .upload => pure none
  | .build => Script.statement
      (fun e =>
        { locks := (e.db.jobs.get intent.ownerId).toList.map fun _ =>
            (.job intent.ownerId, .exclusive) })
      (fun e => (e.db.jobs.get intent.ownerId).map Owner.job)
  | .datasource => Script.statement
      (fun e =>
        { locks := (e.db.datasources.get intent.ownerId).toList.map fun _ =>
            (.datasource intent.ownerId, .exclusive) })
      (fun e => (e.db.datasources.get intent.ownerId).map fun _ => Owner.datasource)
  | .preflight | .source | .compute => Script.statement
      (fun e =>
        { locks := (e.db.requests.get intent.ownerId).toList.map fun _ =>
            (.request intent.ownerId, .exclusive) })
      (fun e => (e.db.requests.get intent.ownerId).map Owner.request)

/-- `session.get(RuntimeOutboxEvent, id, populate_existing=True)`: its intent. -/
def readIntent (id : String) : OutboxScript (Option Intent) :=
  Script.query fun e => (e.db.events.get id).bind fun row => row.content.intent?

/-- `_lock_source_intent` (lines 490-505). -/
def lockSourceIntent (p : Platform) (sourcePath : String) :
    OutboxScript (Option (Intent × RuntimeOutboxEvent × Option Owner)) := do
  match ← readIntent (p.eventId sourcePath) with
  | none => pure none
  | some intent =>
    let owner ← lockOwner intent
    match ← lockEvent (p.eventId sourcePath) with
    | none => .raise "AssertionError"
    | some row =>
      if row.content.intent? ≠ some intent then
        .raise "Source ownership changed while enqueueing"
      else if intent.phase ≠ .tracked ∧ intent.phase ≠ .published then
        .raise "Source cleanup was already authorized"
      else if intent.phase = .tracked ∧ owner.isNone ∧ intent.ownerKind ≠ .datasource ∧
          intent.ownerKind ≠ .upload then
        .raise "Source ownership has been retired"
      else pure (some (intent, row, owner))

/-- The intent as it belongs to a create request (lines 531-536, 550-555). -/
def Intent.handedTo (intent : Intent) (requestId : String) : Intent :=
  { intent with ownerKind := .source, ownerId := requestId, resourceId := requestId }

/-- An intent passes to a create request (lines 530-538, 549-557). -/
def handOver (p : Platform) (sourcePath requestId : String) (intent : Intent)
    (row : RuntimeOutboxEvent) : OutboxScript Unit :=
  flush (p.eventId sourcePath) fun now _ =>
    [.event (p.eventId sourcePath) (row.rearmed (intent.handedTo requestId) none now)]

/-- `transfer_preflight_source` (lines 512-558). -/
def transferPreflightSource (p : Platform) (sourcePath requestId : String) : OutboxScript Unit := do
  match ← lockSourceIntent p sourcePath with
  | none =>
    if isManagedUrl p.ns sourcePath ["uploads"] then do
      let _ ← enqueue p
        { url := sourcePath, phase := .tracked, resourceId := requestId, ownerKind := .source,
          ownerId := requestId, isPrefix := false } none
      pure ()
    else pure ()
  | some (intent, row, owner) =>
    if intent.phase = .published then pure ()
    else if intent.ownerKind = .source ∧ intent.ownerId = requestId then pure ()
    else if intent.ownerKind = .upload then handOver p sourcePath requestId intent row
    else if intent.ownerKind ≠ .preflight then
      .raise "Source ownership has already transferred to another consumer"
    else match owner with
      | some (.request request) =>
        if request.status = .completed then do
          Script.statement (fun _ =>
              { writes := [.request intent.ownerId (some { request with
                  artifactPath := none, artifactName := none, artifactContentType := none })] })
            (fun _ => ())
          handOver p sourcePath requestId intent row
        else .raise "Preflight source has not completed"
      | _ => .raise "Preflight source has not completed"

/-- `_has_reference` (lines 585-608) of a datasource. -/
def references (row : Datasources.DataSource) (intent : Intent) : Bool :=
  let paths := [row.config.str? "metadata_path", row.config.str? "file_path",
    row.config.entry? "source" "metadata_path", row.config.entry? "source" "file_path"].filterMap id
  let directory := intent.url.toList.rdropWhile (· = '/') ++ ['/']
  paths.any (· = intent.url) ||
    (intent.isPrefix && paths.any fun path => directory.isPrefixOf path.toList) ||
    intent.catalog.any fun catalog =>
      row.config.str? "namespace" = some catalog.catalogNamespace &&
        (row.config.str? "table").any
          (Storage.matchesTable (some catalog.catalogTable) catalog.catalogFamilyPrefix)

/-- `_has_reference` (lines 585-608). -/
def hasReference (intent : Intent) : OutboxScript Bool :=
  Script.query fun e => e.db.datasources.rows.any fun r => references r.2 intent

/-- What the owner of an intent says to its cleanup (lines 652-667). -/
inductive Verdict where
  | proceed
  | refuse
  | settle
  deriving DecidableEq, Repr

/-- The claim of an owner is the one that staged the storage, and its lease has not expired. -/
def claimHeld (intent : Intent) (token : Option String) (generation : ℕ) (lease : Option ℕ)
    (now : ℕ) : Bool :=
  (intent.claim.any fun claim =>
    token = some claim.ownerToken && generation = claim.ownerGeneration) && lease.any (now < ·)

/-- The checks of the owner in `authorize_cleanup` (lines 652-667). -/
def Owner.verdict (owner : Owner) (intent : Intent) (now : ℕ) : Verdict :=
  match owner with
  | .datasource => if intent.ownerKind = .datasource then .refuse else .proceed
  | .request row =>
    if intent.ownerKind = .preflight ∨ intent.ownerKind = .source then
      if intent.ownerKind = .preflight ∧ row.artifactPath ≠ some intent.url then .settle
      else if row.status = .queued ∨ row.status = .running then .refuse
      else .proceed
    else if claimHeld intent row.claimToken row.leaseGeneration row.leaseExpiresAt now then .refuse
    else .proceed
  | .job row =>
    if claimHeld intent row.claimToken row.leaseGeneration row.leaseExpiresAt now then .refuse
    else .proceed

/-- The claim may act on an intent that it has read as `snapshot` (lines 639-648). -/
def RuntimeOutboxEvent.authorizes (row : RuntimeOutboxEvent) (snapshot : Intent) (token : String)
    (generation now : ℕ) : Bool :=
  row.heldBy token generation && row.content.intent? = some snapshot &&
    (snapshot.phase = .tracked || snapshot.phase = .authorized) && row.leaseExpiresAt.any (now < ·)

/-- Settle an intent that is referenced, and commit (lines 656-658, 682-685). -/
def settleAndCommit (id : String) (row : RuntimeOutboxEvent) (intent : Intent) :
    OutboxScript Reply := do
  flush id fun now _ => (row.settleReferenced intent now).toList.map (.event id)
  if (row.settleReferenced intent 0).isNone then
    .raise "Storage cleanup was already authorized for this path"
  else do
    Script.commitNow
    pure (.flag false)

/-- The rest of `authorize_cleanup` once the owner agrees (lines 668-696). -/
def authorizeLocked (p : Platform) (id : String) (row : RuntimeOutboxEvent) (intent : Intent)
    (owned : Bool) : OutboxScript Reply := do
  if ← hasReference intent then settleAndCommit id row intent
  else if ← Script.query fun e => p.sourceInUse e.db intent.url intent.resourceId then
    pure (.flag false)
  else
    let now ← wallClock
    if row.leaseExpiresAt.all (· ≤ now) then pure (.flag false)
    else do
      Script.statement (fun _ =>
          { writes :=
              (if intent.ownerKind = .preflight ∧ owned then [.request intent.ownerId none]
                else []) ++
              [.event id (row.inPhase intent .authorized)] })
        (fun _ => ())
      Script.commitNow
      pure (.flag true)

/-- `authorize_cleanup` (lines 631-696). -/
def authorizeCleanup (p : Platform) (id token : String) (generation : ℕ) : OutboxScript Reply := do
  match ← readIntent id with
  | none => pure (.flag false)
  | some snapshot =>
    let owner ← lockOwner snapshot
    let event ← lockEvent id
    let now ← wallClock
    match event.filter (·.authorizes snapshot token generation now) with
    | none => pure (.flag false)
    | some row =>
      match owner.elim .proceed (·.verdict snapshot now) with
      | .refuse => pure (.flag false)
      | .settle => settleAndCommit id row snapshot
      | .proceed => authorizeLocked p id row snapshot owner.isSome

/-- `complete_cleanup` (lines 699-713). -/
def completeCleanup (p : Platform) (id token : String) (generation : ℕ) (error : Option String) :
    OutboxScript Reply := do
  match ← lockEvent id with
  | none => pure (.flag false)
  | some row =>
    match row.content.intent? with
    | none => pure (.flag false)
    | some intent =>
      if !row.heldBy token generation then pure (.flag false)
      else if error.isNone ∧ intent.phase ≠ .authorized then
        .raise "Storage cleanup must be authorized before completion"
      else do
        if error.isNone then
          flush id fun _ _ => [.event id (row.inPhase intent .deleted)]
        else pure ()
        let outcome ← finalizeClaims p
          [({ eventId := id, claimToken := token, leaseGeneration := generation,
              content := row.content }, error)] false
        -- the marker of the namespace is refreshed and committed
        Script.commitNow
        pure (.flag (outcome.1 = 1))

/-! ## Outputs -/

/-- `session.get(DataSource, id, with_for_update=True)`. -/
def lockDatasource (id : String) : OutboxScript (Option Datasources.DataSource) :=
  Script.statement
    (fun e =>
      { locks := (e.db.datasources.get id).toList.map fun _ => (.datasource id, .exclusive) })
    (fun e => e.db.datasources.get id)

/-- `INSERT INTO datasources`, which raises when the key is not free. -/
def insertDatasource (id : String) (row : Datasources.DataSource) : OutboxScript Unit := do
  let inserted ← Script.statement
    (fun e =>
      { locks := [(.datasource id, .exclusive)]
        writes := if (e.db.datasources.get id).isNone then [.datasource id (some row)] else [] })
    (fun e => (e.db.datasources.get id).isNone)
  if inserted then pure () else .raise "duplicate key value violates unique constraint"

/-- `UPDATE datasources`, which raises when the row is gone. -/
def updateDatasource (id : String) (set : Datasources.DataSource → Datasources.DataSource) :
    OutboxScript Unit := do
  let updated ← Script.statement
    (fun e =>
      { writes := (e.db.datasources.get id).toList.map fun row => .datasource id (some (set row)) })
    (fun e => (e.db.datasources.get id).isSome)
  if updated then pure () else .raise Datasources.staleData

/-- `OutputPublicationClaim` (`modules/datasource/commands.py:17-23`). -/
structure OutputClaim where
  jobId : String
  buildId : String
  claim : OwnerClaim

/-- The arguments of `stage_output_datasource` (`modules/datasource/commands.py:26-40`). -/
structure Output where
  resultId : String
  name : String
  sourceType : String
  config : Datasources.Config
  schemaCache : String
  keepSchemaCache : Bool
  analysisId : Option String
  isHidden : Option Bool
  claim : Option OutputClaim
  notificationDeliveries : List Payload

/-- The row of an output (`modules/datasource/commands.py:57-81`). -/
def Output.row (output : Output) : Option Datasources.DataSource → Datasources.DataSource
  | none =>
    { name := output.name
      sourceType := output.sourceType
      config := output.config
      schemaCache := some output.schemaCache
      createdByAnalysisId := output.analysisId
      createdBy := "analysis"
      isHidden := output.isHidden.getD true }
  | some row =>
    { row with
      revision := row.revision + 1
      name := output.name
      sourceType := output.sourceType
      config := output.config
      schemaCache := if output.keepSchemaCache then row.schemaCache else some output.schemaCache
      createdByAnalysisId := output.analysisId
      createdBy := "analysis"
      isPendingDelete := false
      isHidden := output.isHidden.getD row.isHidden }

/-- The deliveries of a build, from number `n` on (`modules/datasource/commands.py:86-87`). -/
def enqueueDeliveries (p : Platform) (i : ℕ) : ℕ → List Payload → OutboxScript Unit
  | _, [] => pure ()
  | n, payload :: rest =>
    match DeliveryKind.fromPayload payload with
    | none => .raise "Unsupported notification delivery kind"
    | some kind => do
      if ← insertEvent (p.uuid4 i n) (newEvent (.external kind payload)) then
        enqueueDeliveries p i (n + 1) rest
      else .raise "duplicate key value violates unique constraint"

/-- `stage_output_datasource` once its claim is locked: it settles no intent
(`modules/datasource/commands.py:56-88`). -/
def stageOutput (p : Platform) (i : ℕ) (output : Output) : OutboxScript Unit := do
  match ← lockDatasource output.resultId with
  | none => insertDatasource output.resultId (output.row none)
  | some row => updateDatasource output.resultId fun _ => output.row (some row)
  enqueueDeliveries p i 0 output.notificationDeliveries

/-- `stage_output_datasource` (`modules/datasource/commands.py:26-88`). -/
def stageOutputDatasource (p : Platform) (i : ℕ) (output : Output) : OutboxScript Unit :=
  match output.claim with
  | none => stageOutput p i output
  | some claim => do
    if ← lockActiveJobClaim claim.jobId claim.buildId claim.claim then stageOutput p i output
    else .raise "Build job lease is no longer active"

/-- `create_placeholder_output_datasource`, which settles no intent either
(`modules/datasource/service.py:314-369`). -/
def createPlaceholderOutputDatasource (p : Platform) (id : String)
    (placeholder : Datasources.Placeholder) : OutboxScript Unit :=
  if ¬ p.isUuid id then .raise ("result_id must be a valid UUID, got: '" ++ id ++ "'")
  else do
    match ← Script.query fun e => e.db.datasources.get id with
    | some existing =>
      match placeholder.conflict id existing with
      | some detail => .raise detail
      | none =>
        if placeholder.changes existing then
          updateDatasource id (placeholder.overwrite existing)
        else pure ()
    | none => insertDatasource id (placeholder.row id)

/-- The outputs of a build, one after the other (`modules/compute/commands.py:59-68`). -/
def createPlaceholders (p : Platform) :
    List (String × Datasources.Placeholder) → OutboxScript Unit
  | [] => pure ()
  | (id, placeholder) :: rest => do
    createPlaceholderOutputDatasource p id placeholder
    createPlaceholders p rest

/-- `lock_active_datasources` (`build_datasource_dependencies.py:52-60`) without the locks of the
lifecycles. -/
def requireActiveDatasources : List String → OutboxScript Unit
  | [] => pure ()
  | id :: rest => do
    let active ← Script.query fun e => (e.db.datasources.get id).any fun row => !row.isPendingDelete
    if active then requireActiveDatasources rest
    else .raise ("DataSource " ++ id ++ " not found")

/-- `start_build` (`modules/compute/commands.py:47-91`), but for the rows of the build. -/
def startBuild (p : Platform) (datasourceIds : List String)
    (placeholders : List (String × Datasources.Placeholder)) : OutboxScript Unit := do
  requireActiveDatasources datasourceIds
  createPlaceholders p placeholders

/-! ## Operations -/

/-- A write of another service to the rows that own storage. -/
inductive OwnerWrite where
  | request (id : String) (row : Option ComputeRequest)
  | job (id : String) (row : Option BuildJob)

/-- The row write. -/
def OwnerWrite.write : OwnerWrite → TableWrite
  | .request id row => .request id row
  | .job id row => .job id row

/-- The writes of a caller's transaction. -/
def writeOwners (writes : List OwnerWrite) : OutboxScript Unit :=
  Script.statement (fun _ => { writes := writes.map OwnerWrite.write }) (fun _ => ())

/-- The operations. `others` are the rows that a caller writes in the same transaction. -/
inductive Op where
  | enqueueRuntimeEvent (payload : Payload)
  | enqueueNotificationDelivery (payload : Payload)
  | dispatchPendingEvents (limit : ℕ) (fault : ℕ → Option String)
  | claimExternalDeliveries (kind : DeliveryKind) (limit : ℕ)
  | finalizeExternalDelivery (claim : OutboxClaim) (error : Option String)
  | recordExternalDeliveryPart (claim : OutboxClaim) (partKey : String)
  | claimCleanups (limit : ℕ)
  | registerUploadSource (uploadId sourcePath : String)
  | renewUploadSource (uploadId sourcePath : String)
  | releaseUploadSourceForCleanup (uploadId sourcePath : String)
  | registerPreflightSource (preflightId resourceId sourcePath : String)
      (availableAt : Option ℕ) (others : List OwnerWrite)
  | validateSourceEnqueue (sourcePath : String) (others : List OwnerWrite)
  | transferPreflightSource (sourcePath requestId : String) (others : List OwnerWrite)
  | registerStage (args : StageArgs)
  | publishDatasource (id : String) (row : Datasources.DataSource)
  | upsertOutputDatasource (output : Output)
  | startBuild (datasourceIds : List String)
      (placeholders : List (String × Datasources.Placeholder)) (others : List OwnerWrite)
  | deleteDatasource (id : String)
  | authorizeCleanup (id token : String) (generation : ℕ)
  | completeCleanup (id token : String) (generation : ℕ) (error : Option String)
  | otherWork (writes : List OwnerWrite)

/-- A row of a datasource is written, and what it refers to is settled, in one transaction
(`publication_service.py:85-164`, `modules/datasource/service.py:522-615`). -/
def publishDatasource (p : Platform) (id : String) (row : Datasources.DataSource) :
    OutboxScript Reply := do
  Script.statement (fun _ => { writes := [.datasource id (some row)] }) (fun _ => ())
  settlePublication p row.config
  Script.commitNow
  pure .done

/-- The row of a datasource is deleted (`datasource_delete_service.py:99-100`). -/
def removeDatasource (id : String) : OutboxScript Reply := do
  Script.statement (fun _ => { writes := [.datasource id none] }) (fun _ => ())
  Script.commitNow
  pure .done

/-- A row of a datasource is deleted, and its storage registered for cleanup, in one transaction
(`datasource_delete_service.py:71-100`). -/
def deleteDatasource (p : Platform) (id : String) : OutboxScript Reply := do
  match ← lockDatasource id with
  | none => pure .done
  | some row =>
    enqueueDatasourceCleanup p id row
    removeDatasource id

/-- A part of a transaction, between the writes of its caller and its commit. -/
def inTransaction (others : List OwnerWrite) (part : OutboxScript Unit) : OutboxScript Reply := do
  part
  writeOwners others
  Script.commitNow
  pure .done

/-- `claim_cleanups` (lines 579-582), with `claim_storage_cleanups`
(`runtime_outbox_service.py:227-228`). -/
def claimCleanups (p : Platform) (i limit : ℕ) : OutboxScript Reply := do
  let claims ← claimNextEvents p i .cleanup (min (max limit 1) 16) 0
  -- the marker of the namespace is refreshed and committed
  Script.commitNow
  pure (.claims claims)

/-- The script of an operation. -/
def code (p : Platform) (i : ℕ) : Op → OutboxScript Reply
  | .enqueueRuntimeEvent payload => enqueueRuntimeEvent p i payload
  | .enqueueNotificationDelivery payload => enqueueNotificationDelivery p i payload
  | .dispatchPendingEvents limit fault => dispatchPendingEvents p i limit fault
  | .claimExternalDeliveries kind limit => claimExternalDeliveries p i kind limit
  | .finalizeExternalDelivery claim error => finalizeExternalDelivery p claim error
  | .recordExternalDeliveryPart claim partKey => recordExternalDeliveryPart p claim partKey
  | .claimCleanups limit => claimCleanups p i limit
  | .registerUploadSource uploadId sourcePath => registerUploadSource p uploadId sourcePath
  | .renewUploadSource uploadId sourcePath => renewUploadSource p uploadId sourcePath
  | .releaseUploadSourceForCleanup uploadId sourcePath =>
    releaseUploadSourceForCleanup p uploadId sourcePath
  | .registerPreflightSource preflightId resourceId sourcePath availableAt others =>
    inTransaction others (registerPreflightSource p preflightId resourceId sourcePath availableAt)
  | .validateSourceEnqueue sourcePath others =>
    inTransaction others (lockSourceIntent p sourcePath >>= fun _ => pure ())
  | .transferPreflightSource sourcePath requestId others =>
    inTransaction others (transferPreflightSource p sourcePath requestId)
  | .registerStage args => registerStage p args
  | .publishDatasource id row => publishDatasource p id row
  | .upsertOutputDatasource output => inTransaction [] (stageOutputDatasource p i output)
  | .startBuild datasourceIds placeholders others =>
    inTransaction others (startBuild p datasourceIds placeholders)
  | .deleteDatasource id => deleteDatasource p id
  | .authorizeCleanup id token generation => authorizeCleanup p id token generation
  | .completeCleanup id token generation error => completeCleanup p id token generation error
  | .otherWork writes => inTransaction writes (pure ())

end DataForge.Outbox
