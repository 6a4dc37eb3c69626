import DataForge.Compute.Identity
import DataForge.ReadCommitted.Logic
import DataForge.ReadCommitted.Table

/-!
# Datasource rows and cleanup intents

The rows of `backend_core/persistence/datasource/models.py` and of the storage cleanup events in
`backend_core/persistence/runtime_events/models.py`, with the claims under which workers publish.
A configuration is a JSON object, of which the services read strings at two levels.
-/

namespace DataForge.Datasources

open ReadCommitted

/-- A value of a configuration: a string, an object with its string entries, or any other JSON. -/
inductive ConfigValue where
  | str (s : String)
  | dict (entries : List (String × String)) (rest : String)
  | other (json : String)
  deriving DecidableEq

/-- A configuration. -/
abbrev Config := Table String ConfigValue

namespace Config

/-- `config.get(key)` when it is a string. -/
def str? (config : Config) (key : String) : Option String :=
  match config.get key with
  | some (.str s) => some s
  | _ => none

/-- `config[key].get(entry)` when it is a string. -/
def entry? (config : Config) (key entry : String) : Option String :=
  match config.get key with
  | some (.dict entries _) => entries.lookup entry
  | _ => none

/-- `{**config, **update}`. -/
def merge (config update : Config) : Config :=
  update.rows.foldl (fun c r => c.put r.1 (some r.2)) config

/-- `a == b` on dictionaries. -/
def same (a b : Config) : Bool :=
  (a.rows ++ b.rows).all fun r => a.get r.1 = b.get r.1

/-- The paths that a publication settles (`storage_cleanup_service.py:463-474`), in order. -/
def paths (config : Config) : List String :=
  ([config.str? "metadata_path", config.str? "file_path", config.entry? "source" "file_path",
    config.entry? "source" "metadata_path", config.entry? "ingest" "claim_prefix"].filterMap
      id).dedup.insertionSort (· ≤ ·)

/-- The catalog table that a configuration names (`storage_cleanup_service.py:479-481`). -/
def catalog (config : Config) : Option (String × String) :=
  match config.str? "namespace", config.str? "table" with
  | some ns, some table => if ns ≠ "" ∧ table ≠ "" then some (ns, table) else none
  | _, _ => none

end Config

/-- The tokens of `DataSourceType` (`source_types.py:100-105`). -/
def sourceTypes : List String := ["file", "database", "iceberg", "analysis", "schedule"]

/-- `DataSource` (`persistence/datasource/models.py:88-103`). -/
structure DataSource where
  name : String
  description : Option String := none
  sourceType : String
  config : Config
  schemaCache : Option String := none
  revision : ℕ := 1
  createdByAnalysisId : Option String := none
  createdBy : String := "import"
  isHidden : Bool := false
  isPendingDelete : Bool := false
  ownerId : Option String := none

/-- `RuntimeOutboxStatus`. -/
inductive OutboxStatus where
  | pending | dispatching | dispatched | failed | poisoned
  deriving DecidableEq

/-- `StorageCleanupPhase` (`storage_cleanup_service.py:32-36`). -/
inductive CleanupPhase where
  | tracked | published | authorized | deleted
  deriving DecidableEq

/-- What the payload of a storage cleanup names. -/
structure CleanupPayload where
  url : String
  phase : CleanupPhase
  isPrefix : Bool
  resourceId : String
  ownerKind : String
  ownerId : String
  catalogTable : Option String := none
  catalogFamilyPrefix : Option String := none
  deriving DecidableEq

/-- `RuntimeOutboxEvent`. -/
structure OutboxEvent where
  kind : String
  status : OutboxStatus
  payload : CleanupPayload
  catalogNamespace : Option String := none
  catalogTable : Option String := none
  catalogFamilyPrefix : Option String := none
  claimToken : Option String := none
  leaseGeneration : ℕ := 0
  leaseExpiresAt : Option ℕ := none
  deriving DecidableEq

/-- The claim of a running compute request or build job. -/
structure Claim where
  workerId : String
  claimToken : String
  leaseGeneration : ℕ
  leaseExpiresAt : ℕ
  deriving DecidableEq

/-- The tables that publications touch. -/
structure Tables where
  datasources : Table String DataSource
  events : Table String OutboxEvent
  claims : Table String Claim

/-- A row write. -/
inductive TableWrite where
  | datasource (id : String) (row : Option DataSource)
  | event (id : String) (row : Option OutboxEvent)
  | claim (id : String) (row : Option Claim)

/-- The rows that can be locked; the lifecycle of a datasource is an advisory lock. -/
inductive TableRow where
  | datasource (id : String)
  | event (id : String)
  | claim (id : String)
  | lifecycle (id : String)
  deriving DecidableEq

/-- Perform one row write. -/
def Tables.write (db : Tables) : TableWrite → Tables
  | .datasource id row => { db with datasources := db.datasources.put id row }
  | .event id row => { db with events := db.events.put id row }
  | .claim id row => { db with claims := db.claims.put id row }

/-- The row a write touches. -/
def TableWrite.target : TableWrite → TableRow
  | .datasource id _ => .datasource id
  | .event id _ => .event id
  | .claim id _ => .claim id

/-- Two databases agree on a row. -/
def Tables.Same (a b : Tables) : TableRow → Prop
  | .datasource id => a.datasources.get id = b.datasources.get id
  | .event id => a.events.get id = b.events.get id
  | .claim id => a.claims.get id = b.claims.get id
  | .lifecycle _ => True

instance datasourceStorage : Storage Tables TableWrite TableRow where
  apply w db := db.write w
  target := TableWrite.target
  same r a b := a.Same b r
  same_equiv r := by
    cases r <;> first
      | exact ⟨fun _ => rfl, Eq.symm, Eq.trans⟩
      | exact ⟨fun _ => trivial, fun _ => trivial, fun _ _ => trivial⟩
  same_apply {w r} db hne := by
    cases r <;> cases w <;> first
      | rfl
      | trivial
      | (refine (Table.get_put _ _ _ _).trans (if_neg fun he => hne ?_)
         rw [he]; rfl)
  apply_same {r a b} w h := by
    cases r <;> cases w <;> first
      | exact h
      | (refine (Table.get_put _ _ _ _).trans (Eq.trans ?_ (Table.get_put _ _ _ _).symm)
         rw [show _ = _ from h])

/-- What a call returns. -/
inductive Reply where
  | datasource (row : DataSource)
  | done

abbrev DatasourceScript := Script Tables TableWrite TableRow

end DataForge.Datasources
