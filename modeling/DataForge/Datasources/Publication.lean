import DataForge.Datasources.Model
import DataForge.Storage.Catalog

/-!
# Publications, updates and deletions of datasources

The operations of `modules/datasource/publication_service.py`, `modules/datasource/service.py` and
`backend_core/datasource_delete_service.py` as transaction scripts, statement by statement. A
deletion finds its active work, and what it makes of the cleanup intents, by arbitrary rules.
-/

namespace DataForge.Datasources

open ReadCommitted

/-- `_event_id` of a URL, and the check of UUIDs. -/
structure Platform where
  eventId : String → String
  isUuid : String → Bool

/-- `_settle_referenced` (`storage_cleanup_service.py:384-394`); `none` when it raises. -/
def OutboxEvent.settleReferenced (event : OutboxEvent) : Option OutboxEvent :=
  if event.payload.phase = .tracked ∨ event.payload.phase = .published then
    some { event with
      payload := { event.payload with phase := .published }
      status := .dispatched
      claimToken := none
      leaseExpiresAt := none }
  else none

/-- What `settle_publication` makes of an event that it has locked. -/
def OutboxEvent.settle (event : OutboxEvent) : Option OutboxEvent :=
  if event.kind = Storage.storageCleanupKind then event.settleReferenced else some event

/-- Lock an event and settle it (`storage_cleanup_service.py:475-477, 485-487`). -/
def settleEvent (id : String) : DatasourceScript Unit := do
  let found ← Script.statement (fun e =>
      { locks := (e.db.events.get id).toList.map fun _ => (.event id, .exclusive)
        writes := ((e.db.events.get id).bind OutboxEvent.settle).toList.map fun event =>
          .event id (some event) })
    (fun e => e.db.events.get id)
  match found with
  | none => pure ()
  | some event =>
    if event.settle.isNone then .raise "Storage cleanup was already authorized for this path"
    else pure ()

/-- Settle events one after the other. -/
def settleEvents : List String → DatasourceScript Unit
  | [] => pure ()
  | id :: rest => do
    settleEvent id
    settleEvents rest

/-- The columns of an event that its lookup reads. -/
def OutboxEvent.columns (event : OutboxEvent) (id : String) : Storage.Event ℕ where
  id
  kind := event.kind
  catalogNamespace := event.catalogNamespace
  catalogTable := event.catalogTable
  catalogFamilyPrefix := event.catalogFamilyPrefix
  payload := []

/-- The events of `_catalog_intents` that match a table, by id
(`storage_cleanup_service.py:402-424, 482-484`). -/
def Tables.catalogIntents (db : Tables) (ns table : String) : List String :=
  ((db.events.rows.filter fun r => Storage.selects ns table none (r.2.columns r.1) &&
    Storage.matchesTable r.2.payload.catalogTable r.2.payload.catalogFamilyPrefix table).map
      Prod.fst).insertionSort (· ≤ ·)

/-- `settle_publication` (`storage_cleanup_service.py:462-487`). -/
def settlePublication (p : Platform) (config : Config) : DatasourceScript Unit := do
  settleEvents (config.paths.map p.eventId)
  match config.catalog with
  | none => pure ()
  | some (ns, table) => do
    let intents ← Script.query fun e => e.db.catalogIntents ns table
    settleEvents intents

/-- The claim under which a worker publishes, and the failure when it is gone. -/
structure Guard where
  claimId : String
  workerId : String
  claimToken : String
  leaseGeneration : ℕ
  failure : String
  deriving DecidableEq

/-- The conditions of `_active_request_claim` (`compute_requests_service.py:1118-1125`). -/
def Guard.holds (guard : Guard) (e : Env Tables TableRow) : Bool :=
  (e.db.claims.get guard.claimId).any fun claim =>
    claim.workerId = guard.workerId && claim.claimToken = guard.claimToken &&
      claim.leaseGeneration = guard.leaseGeneration && e.now < claim.leaseExpiresAt

/-- `publication_guard(session)`, if there is one. -/
def publicationGuard : Option Guard → DatasourceScript Unit
  | none => pure ()
  | some guard => do
    let held ← Script.statement
      (fun e => { locks := if guard.holds e then [(.claim guard.claimId, .exclusive)] else [] })
      (fun e => guard.holds e)
    if held then pure () else .raise guard.failure

/-- `session.get(DataSource, id)`. -/
def getDatasource (id : String) : DatasourceScript (Option DataSource) :=
  Script.query fun e => e.db.datasources.get id

/-- `session.get(DataSource, id, with_for_update=True)`. -/
def getDatasourceForUpdate (id : String) : DatasourceScript (Option DataSource) :=
  Script.statement
    (fun e =>
      { locks := (e.db.datasources.get id).toList.map fun _ => (.datasource id, .exclusive) })
    (fun e => e.db.datasources.get id)

/-- `UPDATE datasources SET … WHERE id = … AND test`; whether a row was updated. -/
def updateWhere (id : String) (test : DataSource → Bool) (set : DataSource → DataSource) :
    DatasourceScript Bool :=
  Script.statement
    (fun e => { writes := ((e.db.datasources.get id).filter test).toList.map fun row =>
      .datasource id (some (set row)) })
    (fun e => (e.db.datasources.get id).any test)

/-- `INSERT INTO datasources`; whether the key was free. -/
def insertDatasource (id : String) (row : DataSource) : DatasourceScript Bool :=
  Script.statement
    (fun e =>
      { locks := [(.datasource id, .exclusive)]
        writes := if (e.db.datasources.get id).isNone then [.datasource id (some row)] else [] })
    (fun e => (e.db.datasources.get id).isNone)

/-- Reading a row again after a commit: it raises when the row is gone. -/
def refresh (id : String) : DatasourceScript Reply := do
  match ← getDatasource id with
  | none => .raise "Could not refresh instance"
  | some row => pure (.datasource row)

/-- `_replayed_response` (`publication_service.py:67-82`). -/
def replayedResponse (p : Platform) (id : String) (existing : DataSource) (name sourceType : String)
    (ownerId : Option String) (guard : Option Guard) : DatasourceScript Reply :=
  if existing.name ≠ name ∨ existing.sourceType ≠ sourceType ∨ existing.ownerId ≠ ownerId then
    .raise ("Datasource publication ID " ++ id ++ " is already in use")
  else do
    publicationGuard guard
    settlePublication p existing.config
    Script.commitNow
    refresh id

/-- `normalize_description` (`schemas.py:231-236`). -/
def normalizeDescription (description : Option String) : Option String :=
  description.filter fun text => Compute.strip text ≠ ""

/-- The row of a new datasource (`publication_service.py:109-119`). -/
def newDatasource (name : String) (description : Option String) (sourceType : String)
    (config : Config) (ownerId schemaInfo : Option String) : DataSource where
  name
  description := normalizeDescription description
  sourceType
  config
  schemaCache := schemaInfo
  ownerId

/-- `create_datasource` (`publication_service.py:85-134`); the first query of the settlement
flushes the row. -/
def createDatasource (p : Platform) (id name : String) (description : Option String)
    (sourceType : String) (config : Config) (ownerId schemaInfo : Option String)
    (guard : Option Guard) : DatasourceScript Reply := do
  publicationGuard guard
  if sourceType ∉ sourceTypes then .raise ("Unsupported DataSourceType: '" ++ sourceType ++ "'")
  else do
    match ← getDatasource id with
    | some existing => replayedResponse p id existing name sourceType ownerId none
    | none =>
      let inserted ← insertDatasource id
        (newDatasource name description sourceType config ownerId schemaInfo)
      if inserted then do
        settlePublication p config
        Script.commitNow
        refresh id
      else do
        Script.rollbackNow
        match ← getDatasource id with
        | none => .raise "duplicate key value violates unique constraint"
        | some existing => replayedResponse p id existing name sourceType ownerId guard

/-- `publish_ingest` (`publication_service.py:137-164`). -/
def publishIngest (p : Platform) (id : String) (config : Config) (expectedRevision : ℕ)
    (schemaInfo : Option String) (guard : Option Guard) : DatasourceScript Reply := do
  match ← getDatasource id with
  | none => .raise ("DataSource " ++ id ++ " not found")
  | some _ =>
    publicationGuard guard
    let published ← updateWhere id
      (fun row => row.revision = expectedRevision && !row.isPendingDelete)
      (fun row =>
        { row with config, revision := expectedRevision + 1, schemaCache := schemaInfo })
    if published then do
      settlePublication p config
      Script.commitNow
      refresh id
    else do
      Script.rollbackNow
      Script.raise ("Datasource " ++ id ++ " publication fence was replaced")

/-- `publish_schema_cache` (`publication_service.py:167-193`). -/
def publishSchemaCache (id : String) (expectedRevision : ℕ) (schemaInfo : String)
    (guard : Option Guard) : DatasourceScript Reply := do
  publicationGuard guard
  let published ← updateWhere id
    (fun row => row.revision = expectedRevision && !row.isPendingDelete)
    (fun row => { row with schemaCache := some schemaInfo })
  if published then do
    Script.commitNow
    pure .done
  else do
    Script.rollbackNow
    match ← getDatasource id with
    | none => .raise ("DataSource " ++ id ++ " not found")
    | some row =>
      if row.isPendingDelete then .raise ("DataSource " ++ id ++ " not found")
      else .raise ("Datasource " ++ id ++ " revision changed before schema publication")

/-- `DataSourceUpdate` (`schemas.py:303-309`); the description may be set to nothing. -/
structure DataSourceUpdate where
  name : Option String := none
  description : Option (Option String) := none
  config : Option Config := none
  isHidden : Option Bool := none

/-- `_PROTECTED_SNAPSHOT_KEYS` (`service.py:195-203`). -/
def protectedSnapshotKeys : List String :=
  ["snapshot_id", "snapshot_timestamp_ms", "current_snapshot_id", "current_snapshot_timestamp_ms",
    "time_travel_snapshot_id", "time_travel_snapshot_timestamp_ms", "time_travel_ui"]

/-- `_EXCEL_BOUND_KEYS` (`service.py:204`). -/
def excelBoundKeys : List String :=
  ["sheet_name", "start_row", "start_col", "end_col", "end_row", "table_name", "named_range",
    "cell_range"]

/-- The key that names the location of a datasource of this type (`service.py:561-565`). -/
def immutableKey (sourceType : String) : Option String :=
  [("file", "file_path"), ("database", "connection_string"),
    ("iceberg", "metadata_path")].lookup sourceType

/-- `DataSourceFileType.read(value, default=None)` (`api_enums.py:69-91`), of tokens and numbers. -/
def readFileType : Option ConfigValue → Except String (Option String)
  | none | some (.other "null") => .ok none
  | some (.str token) =>
    if token ∈ ["csv", "parquet", "json", "ndjson", "excel"] then .ok (some token)
    else .error ("Unsupported DataSourceFileType: '" ++ token ++ "'")
  | some (.other json) =>
    match [("1", "csv"), ("true", "csv"), ("2", "parquet"), ("3", "json"), ("4", "ndjson"),
        ("5", "excel")].lookup json with
    | some token => .ok (some token)
    | none => .error ("Unsupported DataSourceFileType: '" ++ json ++ "'")
  | some (.dict _ _) => .error "Unsupported DataSourceFileType"

/-- The truth value of an entry. -/
def truthy : Option ConfigValue → Bool
  | none => false
  | some (.str s) => s ≠ ""
  | some (.dict entries rest) => !entries.isEmpty || rest ≠ ""
  | some (.other json) => json ∉ ["null", "false", "0", "0.0", "[]"]

/-- What the compute worker has resolved an Excel selection to. -/
structure ExcelSelection where
  sheet : String
  startRow : ℕ
  startCol : ℕ
  endCol : ℕ
  endRow : ℕ

/-- The configuration entries of a selection (`service.py:591-598`). -/
def ExcelSelection.apply (selection : ExcelSelection) (config : Config) : Config :=
  ((((config.put "sheet_name" (some (.str selection.sheet))).put
    "start_row" (some (.other (Nat.repr selection.startRow)))).put
    "start_col" (some (.other (Nat.repr selection.startCol)))).put
    "end_col" (some (.other (Nat.repr selection.endCol)))).put
    "end_row" (some (.other (Nat.repr selection.endRow)))

/-- Whether an update names one of the keys. -/
def Config.hasAny (config : Config) (keys : List String) : Bool :=
  keys.any fun key => (config.get key).isSome

/-- The configuration part of `update_datasource` (`service.py:546-605`), and whether it changes
anything. -/
def DataSource.updateConfig (datasource : DataSource) (update : Config)
    (resolved : Option ExcelSelection) : Except String (DataSource × Bool) :=
  if update.hasAny ["column_schema"] then
    .error "Datasource schemas are read-only and cannot be modified"
  else if update.hasAny protectedSnapshotKeys then
    .error "Snapshot metadata fields are system-managed and cannot be modified"
  else if datasource.sourceType ∉ sourceTypes then
    .error ("Unsupported DataSourceType: '" ++ datasource.sourceType ++ "'")
  else if (immutableKey datasource.sourceType).any fun key =>
      (update.get key).isSome && update.get key ≠ datasource.config.get key then
    .error "Datasource location is immutable. Create a new datasource to change location."
  else do
    let parsingChanged :=
      update.hasAny (excelBoundKeys ++ ["csv_options", "has_header", "skip_rows"])
    let merged := datasource.config.merge update
    let fileType ← readFileType (merged.get "file_type")
    let next ←
      if datasource.sourceType = "file" ∧ fileType = some "excel" ∧
          update.hasAny excelBoundKeys then
        if ¬ truthy (merged.get "file_path") then
          .error "Excel datasource requires file_path"
        else match resolved with
          | none => .error "Excel selection must be resolved by the datasource compute worker"
          | some selection => .ok (selection.apply merged)
      else .ok merged
    let configChanged := !next.same datasource.config
    return ({ datasource with
      config := if configChanged then next else datasource.config
      schemaCache := if parsingChanged && configChanged then none else datasource.schemaCache },
      configChanged)

/-- The changes of `update_datasource` (`service.py:533-605`), and whether there are any. -/
def DataSource.applyUpdate (datasource : DataSource) (update : DataSourceUpdate)
    (resolved : Option ExcelSelection) : Except String (DataSource × Bool) :=
  let described := { datasource with
    name := update.name.getD datasource.name
    description := update.description.getD datasource.description
    isHidden := update.isHidden.getD datasource.isHidden }
  let changed := update.name.any (· ≠ datasource.name) ||
    update.description.any (· ≠ datasource.description) ||
    update.isHidden.any (· ≠ datasource.isHidden)
  match update.config with
  | none => .ok (described, changed)
  | some config => do
    let (updated, configChanged) ← described.updateConfig config resolved
    return (updated, changed || configChanged)

/-- `update_datasource` (`service.py:522-615`). -/
def updateDatasource (p : Platform) (id : String) (update : DataSourceUpdate)
    (resolved : Option ExcelSelection) (expectedRevision : Option ℕ) : DatasourceScript Reply := do
  match ← getDatasourceForUpdate id with
  | none => .raise ("DataSource " ++ id ++ " not found")
  | some row =>
    if row.isPendingDelete then .raise ("DataSource " ++ id ++ " not found")
    else if expectedRevision.any (· ≠ row.revision) then
      .raise "Datasource changed while Excel selection was being resolved"
    else match row.applyUpdate update resolved with
      | .error detail => .raise detail
      | .ok (updated, changed) => do
        if changed then do
          let _ ← updateWhere id (fun _ => true)
            (fun _ => { updated with revision := row.revision + 1 })
          settlePublication p updated.config
        else pure ()
        Script.commitNow
        refresh id

/-- What `create_placeholder_output_datasource` asks for (`service.py:314-322`). -/
structure Placeholder where
  analysisId : String
  analysisTabId : String
  name : Option String
  sourceType : String
  config : Option Config

/-- The configuration of an existing output (`service.py:338-341`). -/
def Placeholder.nextConfig (placeholder : Placeholder) (existing : DataSource) : Config :=
  ((placeholder.config.map fun config => config.merge existing.config).getD existing.config).put
    "analysis_tab_id" (some (.str placeholder.analysisTabId))

/-- Whether an existing output has to be changed (`service.py:343-348`). -/
def Placeholder.changes (placeholder : Placeholder) (existing : DataSource) : Bool :=
  !(placeholder.nextConfig existing).same existing.config ||
    existing.sourceType ≠ placeholder.sourceType ||
    existing.createdByAnalysisId ≠ some placeholder.analysisId || existing.createdBy ≠ "analysis"

/-- The `UPDATE` that is flushed for an existing output, of the columns that differ from the row
that was read; the revision is the one that was read and one more. -/
def Placeholder.overwrite (placeholder : Placeholder) (existing row : DataSource) : DataSource :=
  { row with
    config := if (placeholder.nextConfig existing).same existing.config then row.config
      else placeholder.nextConfig existing
    sourceType := if existing.sourceType = placeholder.sourceType then row.sourceType
      else placeholder.sourceType
    createdByAnalysisId := if existing.createdByAnalysisId = some placeholder.analysisId then
      row.createdByAnalysisId else some placeholder.analysisId
    createdBy := if existing.createdBy = "analysis" then row.createdBy else "analysis"
    revision := existing.revision + 1 }

/-- Why an existing datasource cannot become the output (`service.py:329-337`). -/
def Placeholder.conflict (placeholder : Placeholder) (id : String) (existing : DataSource) :
    Option String :=
  if existing.createdByAnalysisId.any (· ≠ placeholder.analysisId) then
    some ("Output result_id '" ++ id ++ "' is already owned by analysis '" ++
      existing.createdByAnalysisId.getD "" ++ "', cannot reuse it in analysis '" ++
      placeholder.analysisId ++ "'")
  else if existing.createdByAnalysisId = none ∧ existing.createdBy ≠ "analysis" then
    some ("Output result_id '" ++ id ++
      "' conflicts with an existing datasource not managed by analysis outputs")
  else none

/-- The row of a new output (`service.py:358-367`). -/
def Placeholder.row (placeholder : Placeholder) (id : String) : DataSource where
  name := placeholder.name.getD id
  sourceType := placeholder.sourceType
  config := (placeholder.config.getD .empty).put "analysis_tab_id"
    (some (.str placeholder.analysisTabId))
  createdByAnalysisId := some placeholder.analysisId
  createdBy := "analysis"
  isHidden := true

/-- An `UPDATE` of the session has not found its row. -/
def staleData : String :=
  "UPDATE statement on table 'datasources' expected to update 1 row(s); 0 were matched."

/-- `create_placeholder_output_datasource` (`service.py:314-369`) and the commit of the build that
it belongs to. -/
def createPlaceholder (p : Platform) (id : String) (placeholder : Placeholder) :
    DatasourceScript Reply :=
  if ¬ p.isUuid id then .raise ("result_id must be a valid UUID, got: '" ++ id ++ "'")
  else do
    match ← getDatasource id with
    | some existing =>
      match placeholder.conflict id existing with
      | some detail => .raise detail
      | none =>
        if placeholder.changes existing then do
          let updated ← updateWhere id (fun _ => true) (placeholder.overwrite existing)
          if updated then do
            Script.commitNow
            pure .done
          else .raise staleData
        else do
          Script.commitNow
          pure .done
    | none =>
      let inserted ← insertDatasource id (placeholder.row id)
      if inserted then do
        Script.commitNow
        pure .done
      else .raise "duplicate key value violates unique constraint"

/-- `lock_datasource_lifecycle`. -/
def lockLifecycle (id : String) : DatasourceScript Unit :=
  Script.statement (fun _ => { locks := [(.lifecycle id, .exclusive)] }) (fun _ => ())

/-- `request_delete` (`datasource_delete_service.py:31-59`). -/
def requestDelete (id : String) : DatasourceScript Reply := do
  lockLifecycle id
  match ← getDatasource id with
  | none => .raise ("DataSource " ++ id ++ " not found")
  | some existing =>
    if existing.isPendingDelete then do
      Script.commitNow
      refresh id
    else do
      let marked ← updateWhere id (fun _ => true)
        (fun row => { row with isPendingDelete := true, isHidden := true })
      if marked then do
        Script.commitNow
        refresh id
      else .raise staleData

/-- `finalize_delete` (`datasource_delete_service.py:71-100`). -/
def finalizeDelete (id : String) (active : Bool)
    (cleanup : DataSource → Tables → List (String × Option OutboxEvent)) :
    DatasourceScript Reply := do
  lockLifecycle id
  match ← getDatasourceForUpdate id with
  | none => pure .done
  | some row =>
    if ¬ row.isPendingDelete ∨ active then pure .done
    else do
      Script.statement (fun e =>
          { writes := (cleanup row e.db).map fun intent => .event intent.1 intent.2 })
        (fun _ => ())
      Script.statement (fun _ => { writes := [.datasource id none] }) (fun _ => ())
      Script.commitNow
      pure .done

/-- The operations; `claim` stands for whatever happens to a claim elsewhere. -/
inductive Op where
  | createDatasource (id name : String) (description : Option String) (sourceType : String)
      (config : Config) (ownerId schemaInfo : Option String) (guard : Option Guard)
  | publishIngest (id : String) (config : Config) (expectedRevision : ℕ)
      (schemaInfo : Option String) (guard : Option Guard)
  | publishSchemaCache (id : String) (expectedRevision : ℕ) (schemaInfo : String)
      (guard : Option Guard)
  | updateDatasource (id : String) (update : DataSourceUpdate) (resolved : Option ExcelSelection)
      (expectedRevision : Option ℕ)
  | createPlaceholder (id : String) (placeholder : Placeholder)
  | requestDelete (id : String)
  | finalizeDelete (id : String) (active : Bool)
      (cleanup : DataSource → Tables → List (String × Option OutboxEvent))
  | claim (id : String) (row : Option Claim)

/-- The script of an operation. -/
def code (p : Platform) (_ : ℕ) : Op → DatasourceScript Reply
  | .createDatasource id name description sourceType config ownerId schemaInfo guard =>
    createDatasource p id name description sourceType config ownerId schemaInfo guard
  | .publishIngest id config expectedRevision schemaInfo guard =>
    publishIngest p id config expectedRevision schemaInfo guard
  | .publishSchemaCache id expectedRevision schemaInfo guard =>
    publishSchemaCache id expectedRevision schemaInfo guard
  | .updateDatasource id update resolved expectedRevision =>
    updateDatasource p id update resolved expectedRevision
  | .createPlaceholder id placeholder => createPlaceholder p id placeholder
  | .requestDelete id => requestDelete id
  | .finalizeDelete id active cleanup => finalizeDelete id active cleanup
  | .claim id row => do
    Script.statement (fun _ => { writes := [.claim id row] }) (fun _ => ())
    Script.commitNow
    pure .done

end DataForge.Datasources
