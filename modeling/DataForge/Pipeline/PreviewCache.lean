import DataForge.ReadCommitted.Table
import Mathlib.Data.Finset.Image

/-!
# The preview cache

`src/packages/worker/runtime/preview_cache.py:43-213`. Frames are cached under the hash of
everything they were computed from; each is owned by the steps that checkpoint it. Frames are
modelled by their contents: a collected frame and the lazy frame it came from are one value, and
`World.collects` says whether collecting a frame succeeds.
-/

namespace DataForge.Pipeline

open ReadCommitted

/-- What the engine reads of the parameters of a step. -/
class StepParams (π : Type) where
  rightSource : π → Option String
  sources : π → Option (List String)
  cacheEnabled : π → Bool
  /-- All `expressions` are literals or columns. -/
  literalColumns : π → Bool

/-- A converted step (`operations/step_converter.py:206-235`): its operation and its validated
parameters. -/
structure BackendStep (π : Type) where
  operation : String
  params : π

namespace BackendStep

variable {π : Type} [StepParams π] (b : BackendStep π)

/-- `params.get("right_source")`. -/
def rightSource : Option String := StepParams.rightSource b.params

/-- `params.get("sources")`. -/
def sources : Option (List String) := StepParams.sources b.params

/-- The sources that the step reads besides its input. -/
def reads : List String := b.rightSource.toList ++ b.sources.getD []

/-- A view that checkpoints its input. -/
def checkpoints : Bool := b.operation = "view" && StepParams.cacheEnabled b.params

/-- A view whose checkpoint is switched off. -/
def optsOut : Bool := b.operation = "view" && !StepParams.cacheEnabled b.params

end BackendStep

/-- `DataSourceType`, as far as the cache looks at it. -/
inductive SourceKind where
  | iceberg
  | file
  | other
deriving DecidableEq, Repr

/-- A datasource configuration; `rest` holds the entries the cache does not look at. -/
structure SourceConfig (ρ : Type) where
  kind : SourceKind
  metadataPath : Option String := none
  branch : Option String := none
  namespaceName : Option String := none
  metadataFile : Option String := none
  filePath : Option String := none
  rest : ρ
deriving DecidableEq

/-- The identity of a local file: `st_mtime_ns`, `st_ctime_ns`, `st_size`, `st_ino`, `st_dev`. -/
structure FileIdentity where
  mtimeNs : ℤ
  ctimeNs : ℤ
  size : ℤ
  ino : ℤ
  dev : ℤ
deriving DecidableEq, Repr

/-- What `_canonical_hash` is applied to. -/
inductive Digest (ρ π K : Type) where
  | iceberg (config : SourceConfig ρ)
  | file (config : SourceConfig ρ) (identity : FileIdentity)
  | step (operation : String) (params : π) (parent : K) (sources : Finset (String × K))

/-- The storage that sources are read from, at one moment. -/
structure World (ρ F : Type) where
  /-- `resolve_iceberg_branch_metadata_path`; `none` when it raises. -/
  resolveIceberg : SourceConfig ρ → Option String
  /-- `Path.stat` of a local path that is a file. -/
  stat : String → Option FileIdentity
  /-- `load_datasource`. -/
  load : SourceConfig ρ → Except String F

/-- The local path that a file path names: no other scheme than `file`, no remote host and no
glob pattern. -/
abbrev LocalPath := String → Option String

variable {ρ π K F : Type}

/-- `PreviewCache.source` (`preview_cache.py:50-103`): a pinned copy of the configuration and
its key. -/
def source (localPath : LocalPath) (hash : Digest ρ π K → Option K) (w : World ρ F)
    (config : SourceConfig ρ) : SourceConfig ρ × Option K :=
  match config.kind with
  | .iceberg =>
    match config.metadataPath with
    | none => (config, none)
    | some _ =>
      match w.resolveIceberg config with
      | none => (config, none)
      | some path =>
        let pinned := { config with metadataPath := some path }
        match hash (.iceberg pinned) with
        | none => (config, none)
        | some key => (pinned, some key)
  | .file =>
    match config.filePath.bind localPath with
    | none => (config, none)
    | some path =>
      match w.stat path with
      | none => (config, none)
      | some identity => (config, hash (.file config identity))
  | .other => (config, none)

/-- `_CACHEABLE_OPERATIONS`. -/
def cacheableOperations : List String :=
  ["deduplicate", "drop", "explode", "fill_null", "filter", "groupby", "join", "limit", "pivot",
    "rename", "sample", "select", "sort", "string_transform", "timeseries", "topk",
    "union_by_name", "unpivot", "with_columns"]

/-- `_TRANSPARENT_OPERATIONS`. -/
def transparentOperations : List String := ["chart", "download", "export", "view"]

/-- The sources that a key covers. -/
def BackendStep.referenced [StepParams π] (step : BackendStep π) : List String :=
  step.rightSource.toList ++
    if step.operation = "union_by_name" then step.sources.getD [] else []

/-- The keys of the referenced sources, unless one of them has none. -/
def referencedKeys (sourceKeys : String → Option K) (referenced : List String) :
    Option (List (String × K)) :=
  referenced.mapM fun id => (sourceKeys id).map fun key => (id, key)

/-- `PreviewCache.step_key` (`preview_cache.py:105-151`). -/
def stepKey [StepParams π] [DecidableEq K] (hash : Digest ρ π K → Option K) (parentKey : Option K)
    (step : BackendStep π) (sourceKeys : String → Option K) : Option K :=
  if step.operation ∈ transparentOperations then parentKey
  else
    match parentKey with
    | none => none
    | some parent =>
      if step.operation ∉ cacheableOperations then none
      else if step.operation = "with_columns" ∧ StepParams.literalColumns step.params = false then
        none
      else if step.operation = "union_by_name" ∧ step.sources = none then none
      else
        match referencedKeys sourceKeys step.referenced with
        | none => none
        | some keys => hash (.step step.operation step.params parent keys.toFinset)

/-- `PreviewCache`. -/
structure PreviewCache (K F : Type) where
  frames : Table K F
  owners : Table String K

namespace PreviewCache

variable [DecidableEq K]

/-- A new cache. -/
def empty : PreviewCache K F := ⟨.empty, .empty⟩

/-- `get`. -/
def get (c : PreviewCache K F) (key : Option K) : Option F := key.bind c.frames.get

/-- `_remove_unowned_frame`. -/
def removeUnownedFrame (c : PreviewCache K F) (key : K) : PreviewCache K F :=
  if c.owners.rows.any fun p => p.2 = key then c else { c with frames := c.frames.put key none }

/-- `discard` (`preview_cache.py:166-169`). -/
def discard (c : PreviewCache K F) (owner : String) : PreviewCache K F :=
  match c.owners.get owner with
  | none => c
  | some previous => { c with owners := c.owners.put owner none }.removeUnownedFrame previous

/-- `put` (`preview_cache.py:158-164`). -/
def put (c : PreviewCache K F) (owner : String) (key : K) (frame : F) : PreviewCache K F :=
  let c := match c.owners.get owner with
    | none => c
    | some previous => if previous = key then c else c.discard owner
  { frames := c.frames.put key (some frame), owners := c.owners.put owner (some key) }

/-- `invalidate` (`preview_cache.py:171-173`). -/
def invalidate (c : PreviewCache K F) (owner : String) (key : Option K) : PreviewCache K F :=
  if key = none ∨ c.owners.get owner ≠ key then c.discard owner else c

/-- `materialize` (`preview_cache.py:175-190`). -/
def materialize (collects : F → Bool) (c : PreviewCache K F) (key : Option K) (frame : F)
    (owner : String) : PreviewCache K F × F :=
  match key with
  | none => (c, frame)
  | some k =>
    match c.get key with
    | some cached => (c.put owner k cached, cached)
    | none => if collects frame then (c.put owner k frame, frame) else (c, frame)

end PreviewCache

end DataForge.Pipeline
