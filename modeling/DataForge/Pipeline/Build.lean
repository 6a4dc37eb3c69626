import DataForge.Pipeline.Steps
import DataForge.Pipeline.PreviewCache

/-!
# Building the frame of a pipeline

`_build_pipeline_details` (`src/packages/worker/runtime/polars_compute.py:46-289`): the steps are
ordered breadth-first along their dependencies, each is applied to the frame of the step it
depends on, and the frame of the last step in that order is the result. With a preview cache,
each branch starts from its nearest cached step. Timings and progress events are left out.
-/

namespace DataForge.Pipeline

open ReadCommitted

/-- The operations of the engine: conversion of a configuration, application of a step to its
input and the frames of its sources, whether a collect succeeds, and the hash of the cache. -/
structure Engine (κ ρ π K F : Type) where
  convert : κ → Except String (BackendStep π)
  apply : BackendStep π → String → F → (String → Option F) → Option F → Except String F
  collects : F → Bool
  localPath : LocalPath
  hash : Digest ρ π K → Option K

/-- The exceptions that building a pipeline raises. -/
inductive BuildError where
  | missingId
  | multipleDependencies (stepId : String)
  | missingStep (stepId dependency : String)
  | cycle
  | source (message : String)
  | additionalSource (id message : String)
  | conversion (stepId message : String)
  | operation (stepId message : String)
  | keyError (stepId : String)
  | rendering (message : String)
deriving DecidableEq, Repr

variable {κ ρ π K F : Type} [StepParams π]

/-! ## The order of the steps -/

/-- `step_map`. -/
def stepMapOf (steps : List (Step κ)) : Except BuildError (Table String (Step κ)) :=
  steps.foldlM (fun t s =>
    if s.id = "" then .error .missingId else .ok (t.put s.id (some s))) .empty

/-- `dependency_map`, `dependents` and `in_degree`. -/
structure Graph where
  dependencyMap : Table String (Option String)
  dependents : Table String (List String)
  inDegree : Table String ℤ

/-- The steps that depend on a step. -/
def Graph.dependentsOf (g : Graph) (id : String) : List String := (g.dependents.get id).getD []

/-- `dependency_map[step_id]`. -/
def Graph.parent (g : Graph) (id : String) : Option String := (g.dependencyMap.get id).getD none

/-- One round of the loop over `step_map` (`polars_compute.py:69-90`). -/
def addDependency (m : Table String (Step κ)) (g : Graph) (p : String × Step κ) :
    Except BuildError Graph :=
  match p.2.dependsOn with
  | [] => .ok { g with dependencyMap := g.dependencyMap.put p.1 (some none) }
  | [dep] =>
    if (m.get dep).isNone then .error (.missingStep p.1 dep)
    else .ok {
      dependencyMap := g.dependencyMap.put p.1 (some (some dep))
      dependents := g.dependents.put dep (some (g.dependentsOf dep ++ [p.1]))
      inDegree := g.inDegree.put p.1 (some ((g.inDegree.get p.1).getD 0 + 1)) }
  | _ => .error (.multipleDependencies p.1)

/-- The dependency graph of a step map. -/
def graphOf (m : Table String (Step κ)) : Except BuildError Graph :=
  m.rows.foldlM (addDependency m) ⟨.empty, .empty,
    m.rows.foldl (fun t p => t.put p.1 (some 0)) .empty⟩

/-- One dependent of the current step loses a dependency. -/
def release (s : List String × Table String ℤ) (child : String) : List String × Table String ℤ :=
  let degree := (s.2.get child).getD 0 - 1
  (if degree = 0 then s.1 ++ [child] else s.1, s.2.put child (some degree))

/-- The loop over the queue (`polars_compute.py:92-100`). A step is queued at most once, so fuel
for each step is enough. -/
def kahn (dependents : String → List String) :
    ℕ → List String → Table String ℤ → List String
  | 0, _, _ => []
  | _ + 1, [], _ => []
  | n + 1, current :: queue, inDegree =>
    let s := (dependents current).foldl release (queue, inDegree)
    current :: kahn dependents n s.1 s.2

/-- The steps, their graph and their order. -/
structure Plan (κ : Type) where
  steps : Table String (Step κ)
  graph : Graph
  ordered : List String

/-- The first part of `_build_pipeline_details` (`polars_compute.py:54-103`). -/
def planOf (steps : List (Step κ)) : Except BuildError (Plan κ) := do
  let m ← stepMapOf (applySteps steps)
  let g ← graphOf m
  let queue := (g.inDegree.rows.filter fun p => p.2 = 0).map Prod.fst
  let ordered := kahn g.dependentsOf m.rows.length queue g.inDegree
  if ordered.length ≠ m.rows.length then .error .cycle else .ok ⟨m, g, ordered⟩

/-! ## Keys and cached frames -/

/-- `backend_steps`: the steps whose conversion succeeds. -/
def Plan.backendStep (E : Engine κ ρ π K F) (p : Plan κ) (id : String) :
    Option (BackendStep π) :=
  (p.steps.get id).bind fun s => (E.convert s.body).toOption

/-- What the cache says about one call. -/
structure Lookup (ρ K F : Type) where
  config : SourceConfig ρ
  sourceKey : Option K
  rightConfigs : Table String (SourceConfig ρ)
  rightKeys : Table String (Option K)
  stepKeys : Table String (Option K)
  cachedFrames : Table String F

/-- The lookup without a cache. -/
def Lookup.none (config : SourceConfig ρ) (additional : Table String (SourceConfig ρ)) :
    Lookup ρ K F :=
  ⟨config, .none, additional, .empty, .empty, .empty⟩

/-- The keys of the steps, in their order (`polars_compute.py:129-141`). -/
def stepKeysOf [DecidableEq K] (E : Engine κ ρ π K F) (p : Plan κ) (sourceKey : Option K)
    (rightKeys : String → Option K) : Table String (Option K) :=
  p.ordered.foldl (fun keys id =>
    let key := match p.backendStep E id with
      | none => none
      | some b =>
        let parentKey := match p.graph.parent id with
          | none => sourceKey
          | some parent => (keys.get parent).getD none
        stepKey E.hash parentKey b rightKeys
    keys.put id (some key))
    (p.steps.rows.foldl (fun t s => t.put s.1 (some none)) .empty)

/-- One round of the loop over `step_keys` (`polars_compute.py:144-155`). -/
def lookupStep [DecidableEq K] (E : Engine κ ρ π K F) (p : Plan κ)
    (s : PreviewCache K F × Table String F) (e : String × Option K) :
    PreviewCache K F × Table String F :=
  let cache := s.1.invalidate e.1 e.2
  match cache.get e.2 with
  | none => (cache, s.2)
  | some frame =>
    let cache := match p.backendStep E e.1 with
      | some b => if b.checkpoints then (cache.materialize E.collects e.2 frame e.1).1 else cache
      | none => cache
    (cache, s.2.put e.1 (some frame))

/-- Keys, invalidation and lookup (`polars_compute.py:110-155`). -/
def lookup [DecidableEq K] (E : Engine κ ρ π K F) (w : World ρ F) (p : Plan κ)
    (config : SourceConfig ρ) (additional : Table String (SourceConfig ρ))
    (cache : PreviewCache K F) : PreviewCache K F × Lookup ρ K F :=
  let cache := p.ordered.foldl (fun c id =>
    match p.backendStep E id with
    | some b => if b.optsOut then c.discard id else c
    | none => c) cache
  let main := source E.localPath E.hash w config
  let rights := additional.rows.map fun e => (e.1, source E.localPath E.hash w e.2)
  let rightConfigs := rights.foldl (fun t e => t.put e.1 (some e.2.1)) .empty
  let rightKeys := rights.foldl (fun t e => t.put e.1 (some e.2.2)) .empty
  let stepKeys := stepKeysOf E p main.2 fun id => (rightKeys.get id).getD none
  let found := stepKeys.rows.foldl (lookupStep E p) (cache.invalidate "source" main.2, .empty)
  (found.1, ⟨main.1, main.2, rightConfigs, rightKeys, stepKeys, found.2⟩)

/-! ## Frames -/

/-- Climb from a leaf to its nearest cached or already required ancestor
(`polars_compute.py:161-170`). -/
def require (parent : String → Option String) (cached : String → Bool) :
    ℕ → List String → String → List String
  | 0, required, _ => required
  | n + 1, required, id =>
    if id ∈ required then required
    else if cached id then required ++ [id]
    else
      match parent id with
      | none => required ++ [id]
      | some p => require parent cached n (required ++ [id]) p

/-- `required_steps`. -/
def requiredSteps (p : Plan κ) (cached : String → Bool) : List String :=
  (p.steps.rows.map Prod.fst).foldl (fun required id =>
    if p.graph.dependentsOf id ≠ [] then required
    else require p.graph.parent cached p.steps.rows.length required id) []

/-- `required_sources` (`polars_compute.py:178-191`). -/
def requiredSources (E : Engine κ ρ π K F) (p : Plan κ) (l : Lookup ρ K F)
    (required : List String) : List String :=
  (required.filter fun id => (l.cachedFrames.get id).isNone).flatMap fun id =>
    match p.backendStep E id with
    | none => []
    | some b => b.reads

/-- Load a frame unless it is cached. -/
def loadSource [DecidableEq K] (w : World ρ F) (cache : Option (PreviewCache K F))
    (key : Option K) (config : SourceConfig ρ) : Except String F :=
  match cache.bind (·.get key) with
  | some frame => .ok frame
  | none => w.load config

/-- The source frame, loaded only when a required step without parent is not cached
(`polars_compute.py:173-176`). `emptyFrame` is `pl.LazyFrame()`. -/
def loadBase [DecidableEq K] (w : World ρ F) (emptyFrame : F) (p : Plan κ)
    (cache : Option (PreviewCache K F)) (l : Lookup ρ K F) (required : List String) :
    Except BuildError F :=
  if p.ordered = [] ∨ ∃ id ∈ required,
      p.graph.parent id = none ∧ (l.cachedFrames.get id).isNone then
    match loadSource w cache l.sourceKey l.config with
    | .ok frame => .ok frame
    | .error message => .error (.source message)
  else .ok emptyFrame

/-- `right_sources` (`polars_compute.py:192-200`). -/
def loadRightSources [DecidableEq K] (w : World ρ F) (cache : Option (PreviewCache K F))
    (l : Lookup ρ K F) (requiredSources : List String) : Except BuildError (Table String F) :=
  l.rightConfigs.rows.foldlM (fun t e =>
    if cache.isSome ∧ e.1 ∉ requiredSources then .ok t
    else
      match loadSource w cache ((l.rightKeys.get e.1).getD none) e.2 with
      | .ok frame => .ok (t.put e.1 (some frame))
      | .error message => .error (.additionalSource e.1 message)) .empty

/-- The frame that a step reads: that of its parent, or the source. -/
def Graph.input (g : Graph) (base : F) (frames : Table String F) (id : String) : Option F :=
  match g.parent id with
  | none => some base
  | some parent => frames.get parent

/-- The state of the loop over the ordered steps. -/
abbrev BuildState (K F : Type) := Option (PreviewCache K F) × Table String F

/-- One round of the loop (`polars_compute.py:209-262`). -/
def buildStep [DecidableEq K] (E : Engine κ ρ π K F) (p : Plan κ) (l : Lookup ρ K F)
    (required : List String) (base : F) (rights : Table String F) (s : BuildState K F)
    (id : String) : Except BuildError (BuildState K F) :=
  if id ∉ required ∨ (l.cachedFrames.get id).isSome then .ok s
  else
    match p.steps.get id with
    | none => .error (.keyError id)
    | some step =>
      match E.convert step.body with
      | .error message => .error (.conversion id message)
      | .ok b =>
        match p.graph.input base s.2 id with
        | none => .error (.keyError id)
        | some frame =>
          match E.apply b id frame rights.get (b.rightSource.bind rights.get) with
          | .error message => .error (.operation id message)
          | .ok result =>
            match s.1 with
            | none => .ok (none, s.2.put id (some result))
            | some cache =>
              if b.checkpoints then
                let m := cache.materialize E.collects ((l.stepKeys.get id).getD none) result id
                .ok (some m.1, s.2.put id (some m.2))
              else .ok (some cache, s.2.put id (some result))

/-- The loop; an exception leaves the cache as it is at that moment. -/
def buildLoop [DecidableEq K] (E : Engine κ ρ π K F) (p : Plan κ) (l : Lookup ρ K F)
    (required : List String) (base : F) (rights : Table String F) :
    List String → BuildState K F → Option (PreviewCache K F) × Except BuildError (Table String F)
  | [], s => (s.1, .ok s.2)
  | id :: rest, s =>
    match buildStep E p l required base rights s id with
    | .error e => (s.1, .error e)
    | .ok s' => buildLoop E p l required base rights rest s'

/-- The second part of `_build_pipeline_details` (`polars_compute.py:157-289`): the cache after
the call, and the frame with its key. -/
def buildFrames [DecidableEq K] (E : Engine κ ρ π K F) (w : World ρ F) (emptyFrame : F)
    (p : Plan κ) (cache : Option (PreviewCache K F)) (l : Lookup ρ K F) :
    Option (PreviewCache K F) × Except BuildError (F × Option K) :=
  let required := requiredSteps p fun id => (l.cachedFrames.get id).isSome
  match loadBase w emptyFrame p cache l required with
  | .error e => (cache, .error e)
  | .ok base =>
    match loadRightSources w cache l (requiredSources E p l required) with
    | .error e => (cache, .error e)
    | .ok rights =>
      match p.ordered.getLast? with
      | none => (cache, .ok (base, l.sourceKey))
      | some result =>
        match buildLoop E p l required base rights p.ordered (cache, l.cachedFrames) with
        | (cache, .error e) => (cache, .error e)
        | (cache, .ok frames) =>
          match frames.get result with
          | none => (cache, .error (.keyError result))
          | some frame => (cache, .ok (frame, (l.stepKeys.get result).getD none))

/-- `_build_pipeline_details`. -/
def buildPipelineDetails [DecidableEq K] (E : Engine κ ρ π K F) (w : World ρ F) (emptyFrame : F)
    (config : SourceConfig ρ) (steps : List (Step κ))
    (additional : Table String (SourceConfig ρ)) (cache : Option (PreviewCache K F)) :
    Option (PreviewCache K F) × Except BuildError (F × Option K) :=
  match planOf steps with
  | .error e => (cache, .error e)
  | .ok p =>
    match cache with
    | none => buildFrames E w emptyFrame p none (.none config additional)
    | some c =>
      let found := lookup E w p config additional c
      buildFrames E w emptyFrame p (some found.1) found.2

end DataForge.Pipeline
