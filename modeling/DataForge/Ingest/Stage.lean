import DataForge.Ingest.Polars

/-!
# Staging of a datasource

`stage_datasource_to_object_store` (lines 141-209 of `datasources/execution.py`): the batches
of a source are cast to the types of the first and written as record batches to one Parquet
object, behind a multipart upload that is aborted when anything raises.
-/

namespace DataForge.Ingest

open List

variable {κ : Type} {P : Polars κ}

/-! ## Coercion -/

/-- The type that `_coerce_iceberg_compatible_lazyframe` gives a column (lines 69-73). -/
def icebergType (c : String × DType) : DType :=
  if c.2 = .null then .string else c.2

/-- A value under `_coerce_iceberg_compatible_lazyframe`. -/
def icebergCell (P : Polars κ) (c : String × DType) (v : κ) : Option κ :=
  if c.2 = .null then P.cast .string v else some v

/-- `stringify_columns` (line 102). -/
def stringifyColumn : DType → Bool
  | .object | .struct _ | .list _ | .array _ => true
  | _ => false

/-- `timezone_columns` (line 103). -/
def timezoneColumn : DType → Bool
  | .datetime (some zone) => zone ≠ "UTC"
  | _ => false

/-- The type that `_coerce_database_iceberg_compatible_lazyframe` gives a column
(lines 100-110). -/
def databaseType (c : String × DType) : DType :=
  if c.2 = .null then .string
  else if stringifyColumn c.2 then .string
  else if timezoneColumn c.2 then .datetime (some "UTC")
  else c.2

/-- A value under `_coerce_database_iceberg_compatible_lazyframe`. -/
def databaseCell (P : Polars κ) (c : String × DType) (v : κ) : Option κ :=
  if c.2 = .null then P.cast .string v
  else if stringifyColumn c.2 then some (P.stringify v)
  else if timezoneColumn c.2 then some (P.toUtc v)
  else some v

/-- The coercion of a source (lines 157-159). -/
def coerceType (database : Bool) : String × DType → DType :=
  if database then databaseType else icebergType

/-- A value under the coercion of a source. -/
def coerceCell (P : Polars κ) (database : Bool) : String × DType → κ → Option κ :=
  if database then databaseCell P else icebergCell P

theorem exists_zone {d : DType} (h : timezoneColumn d) : ∃ zone, d = .datetime (some zone) := by
  unfold timezoneColumn at h
  split at h
  · exact ⟨_, rfl⟩
  · cases h

theorem hasType_coerceCell {database : Bool} (c : String × DType) (v w : κ)
    (h : P.HasType c.2 v) (hw : coerceCell P database c v = some w) :
    P.HasType (coerceType database c) w := by
  have hnull : c.2 ≠ .null := by
    intro hc
    rw [hc] at h
    exact P.not_hasType_null v h
  cases database with
  | false =>
    change icebergCell P c v = some w at hw
    change P.HasType (icebergType c) w
    rw [icebergCell, if_neg hnull] at hw
    rw [icebergType, if_neg hnull]
    cases hw
    exact h
  | true =>
    change databaseCell P c v = some w at hw
    change P.HasType (databaseType c) w
    rw [databaseCell, if_neg hnull] at hw
    rw [databaseType, if_neg hnull]
    split_ifs at hw ⊢ with hstring hzone <;> cases hw
    · exact P.hasType_stringify v
    · obtain ⟨zone, hc⟩ := exists_zone hzone
      exact P.hasType_toUtc (hc ▸ h)
    · exact h

/-- `coerce(batch.lazy()).collect()`. -/
def Frame.coerce (database : Bool) (f : Frame P) : Frame P :=
  f.mapColumns (coerceType database) (coerceCell P database) hasType_coerceCell

/-! ## The upload -/

/-- Whether an upload is finished, and how. -/
inductive Upload.Status where
  | pending
  | committed
  | aborted
  deriving DecidableEq

/-- `MultipartObjectUpload` with the rows of the Parquet file written to it. -/
structure Upload (κ : Type) where
  rows : List (List (Option κ))
  status : Upload.Status

namespace Upload

/-- `write_batch` through the sink. -/
def write (u : Upload κ) (rows : List (List (Option κ))) : Upload κ :=
  { u with rows := u.rows ++ rows }

/-- `commit` (lines 260-281 of `runtime/object_store.py`). -/
def commit (u : Upload κ) : Upload κ :=
  { u with status := .committed }

/-- `abort` (lines 283-289): a finished upload stays as it is. -/
def abort (u : Upload κ) : Upload κ :=
  if u.status = .pending then { u with status := .aborted } else u

end Upload

/-- The calls that can raise, with the batch and the record batch they are for. -/
inductive Event where
  | first
  | fallback
  | coerceFirst
  | next (batch : ℕ)
  | progress (batch : ℕ)
  | coerce (batch : ℕ)
  | create
  | writer
  | write (batch record : ℕ)
  | close
  | commit
  | manifest

/-- The variables of the function: the upload, once there is one, and the counters. -/
structure Staging (κ : Type) where
  upload : Option (Upload κ)
  filePaths : List String
  rowCount : ℕ

/-- The manifest (lines 187-192). -/
structure Manifest where
  filePaths : List String
  schema : List (String × DType)
  rowCount : ℕ

/-- What the function is called with and what the calls around it do. -/
structure Env where
  tablePath : String
  manifestUrl : String
  isObjectStoreUrl : String → Bool
  joinObjectStoreUrl : String → String → String
  /-- `len(manifest_bytes)`. -/
  manifestBytes : Manifest → ℕ
  /-- The exception that a call raises. -/
  fails : Event → Option String

/-- `_MAX_DATASOURCE_MANIFEST_BYTES` (line 49). -/
def maxManifestBytes : ℕ := 1024 * 1024

/-- A computation that leaves the variables behind when it raises. -/
abbrev Staged (κ α : Type) := Except (String × Staging κ) α

/-- A call that raises or passes. -/
def Env.attempt (env : Env) (e : Event) (s : Staging κ) : Staged κ Unit :=
  match env.fails e with
  | none => .ok ()
  | some message => .error (message, s)

/-- The writer for the first record batch (lines 175-180). -/
def openWriter (env : Env) (s : Staging κ) : Staged κ (Staging κ) :=
  match s.upload with
  | some _ => .ok s
  | none => do
    env.attempt .create s
    let s := { s with upload := some ⟨[], .pending⟩ }
    env.attempt .writer s
    .ok { s with filePaths := s.filePaths ++ [env.joinObjectStoreUrl env.tablePath "data.parquet"] }

/-- One record batch (lines 173-182). `names` are the columns of the record batch, `target`
those of the first batch. -/
def writeRecord (env : Env) (target names : List String) (i j : ℕ)
    (rows : List (List (Option κ))) (s : Staging κ) : Staged κ (Staging κ) :=
  if rows.isEmpty then .ok s
  else do
    let s ← openWriter env s
    if names ≠ target then
      .error ("Target schema's field names are not matching the record batch's field names", s)
    else do
      env.attempt (.write i j) s
      .ok { s with
        upload := s.upload.map (·.write rows)
        rowCount := s.rowCount + rows.length }

/-- The record batches of a batch (lines 172-182). -/
def writeRecords (env : Env) (target names : List String) (i : ℕ) :
    ℕ → List (List (List (Option κ))) → Staging κ → Staged κ (Staging κ)
  | _, [], s => .ok s
  | j, rows :: rest, s => do
    let s ← writeRecord env target names i j rows s
    writeRecords env target names i (j + 1) rest s

/-- One batch (lines 169-182). -/
def stageBatch (env : Env) (database : Bool) (schema : List (String × DType)) (i : ℕ)
    (batch : Frame P) (s : Staging κ) : Staged κ (Staging κ) := do
  env.attempt (.progress i) s
  env.attempt (.coerce i) s
  let batch := batch.coerce database
  if ¬ schema.map Prod.fst ⊆ batch.names then .error ("unable to find column", s)
  else
    let batch := batch.cast schema
    writeRecords env (schema.map Prod.fst) batch.names i 0 (P.toBatches batch.rows) s

/-- The batches behind the first (lines 168-182). -/
def stageRest (env : Env) (database : Bool) (schema : List (String × DType)) :
    ℕ → List (Frame P) → Staging κ → Staged κ (Staging κ)
  | i, [], s => do
    env.attempt (.next i) s
    .ok s
  | i, batch :: rest, s => do
    env.attempt (.next i) s
    let s ← stageBatch env database schema i batch s
    stageRest env database schema (i + 1) rest s

/-- The writer is closed and the upload committed (lines 183-185). -/
def commitUpload (env : Env) (s : Staging κ) : Staged κ (Staging κ) :=
  match s.upload with
  | none => .ok s
  | some u => do
    env.attempt .close s
    env.attempt .commit s
    .ok { s with upload := some u.commit }

/-- The manifest is uploaded (lines 186-196). -/
def uploadManifest (env : Env) (schema : List (String × DType)) (s : Staging κ) :
    Staged κ (Manifest × Staging κ) := do
  let manifest := { filePaths := s.filePaths, schema, rowCount := s.rowCount }
  if env.manifestBytes manifest > maxManifestBytes then
    .error ("Datasource staging manifest exceeds 1 MiB", s)
  else do
    env.attempt .manifest s
    .ok (manifest, s)

/-- A source: whether it is a database, its batches and the frame that `load_datasource_frame`
gives for it. -/
structure Source (P : Polars κ) where
  database : Bool
  batches : List (Frame P)
  frame : Frame P

/-- The first batch (lines 153-155). -/
def Source.first (src : Source P) : Frame P :=
  src.batches.headD src.frame.limit0

/-- The rows of all batches in order. -/
def Source.rows (src : Source P) : List (List (Option κ)) :=
  src.batches.flatMap Frame.rows

/-- The `schema` that the first batch fixes (lines 160-161). -/
def Source.schema (src : Source P) : List (String × DType) :=
  (src.first.coerce src.database).schema

/-- The body of the `try` (lines 167-196). -/
def stageBatches (env : Env) (src : Source P) : Staged κ (Manifest × Staging κ) := do
  let s ← stageBatch env src.database src.schema 0 (src.first.coerce src.database) ⟨none, [], 0⟩
  let s ← stageRest env src.database src.schema 1 src.batches.tail s
  let s ← commitUpload env s
  uploadManifest env src.schema s

/-- What is left behind: the manifest or the exception, and the upload. -/
structure Outcome (κ : Type) where
  result : Except String Manifest
  upload : Option (Upload κ)

/-- The exception that is raised before the `try` (lines 148-162). -/
def beforeUpload (env : Env) (src : Source P) : Option String :=
  if ¬ env.isObjectStoreUrl env.tablePath then
    some "Datasource staging output must be an object-store table path"
  else if ¬ env.isObjectStoreUrl env.manifestUrl then
    some "Datasource staging manifest must be an object-store URL"
  else
    env.fails .first <|> (if src.batches.isEmpty then env.fails .fallback else none) <|>
      env.fails .coerceFirst

/-- `stage_datasource_to_object_store`. -/
def stageDatasourceToObjectStore (env : Env) (src : Source P) : Outcome κ :=
  match beforeUpload env src with
  | some message => ⟨.error message, none⟩
  | none =>
    match stageBatches env src with
    | .ok (manifest, s) => ⟨.ok manifest, s.upload⟩
    | .error (message, s) => ⟨.error message, s.upload.map Upload.abort⟩

end DataForge.Ingest
