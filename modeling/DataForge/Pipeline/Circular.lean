import DataForge.Effects.Outcome
import DataForge.Pipeline.Inlined

/-!
# Loading analysis sources with the cache of the process

`_load_analysis_pipeline` (`src/packages/worker/operations/datasource.py:72-87`) with the stack of
the sources being loaded and the cache that it shares with earlier calls (lines 130-144), what a
datasource of a tab resolves to, and the sources that the evaluation of one requests when nothing
raises.
-/

namespace DataForge.Pipeline

open Effects ReadCommitted Relation

/-! ## Datasources of tabs -/

/-- `DataSourceType` (`src/packages/worker/runtime/domain/datasource/source_types.py:35-52`). -/
inductive DataSourceType where
  | file
  | database
  | iceberg
  | analysis
  | schedule
deriving DecidableEq

/-- What loading dispatches on beside the id of a datasource and its tab. `sourceType` is the
type of the datasource, as far as it reads as one; `ownType`, `ownAnalysisId` and `ownTabId` are
the entries of its config under these names, which replace what the resolver puts beside them.
`ownPipeline` says whether the config holds a pipeline itself, and `invalid` is the error of
`DatasourceParams.model_validate`. -/
class SourceEntries (δ : Type) where
  isDict : δ → Bool
  hasBranch : δ → Bool
  sourceType : δ → Option DataSourceType
  ownType : δ → Option (Option DataSourceType)
  ownAnalysisId : δ → Option String
  ownTabId : δ → Option (Option String)
  ownPipeline : δ → Bool
  invalid : δ → Option String

/-- The entries of a resolved datasource that decide where it loads. -/
structure Merged where
  sourceType : Option DataSourceType
  analysisId : String
  tabId : Option String

/-- The entries of a config over those of the resolver. -/
def Merged.of {δ : Type} [SourceEntries δ] (config : δ) (type : DataSourceType)
    (analysisId : String) (tabId : Option String) : Merged where
  sourceType := (SourceEntries.ownType config).getD (some type)
  analysisId := (SourceEntries.ownAnalysisId config).getD analysisId
  tabId := (SourceEntries.ownTabId config).getD tabId

/-- Where a reference loads: a tab of the pipeline, or outside of it. -/
inductive Dispatch (δ : Type) where
  | nested (tabId : Option String)
  | elsewhere (source : TabSource δ)

variable {κ δ π F K : Type} [StepSources κ] [StepParams π] [SourceEntries δ] [DecidableEq K]

/-! ## The process -/

/-- `_ANALYSIS_CACHE_MAX` (line 69). -/
def analysisCacheMax : ℕ := 20

/-- `_ANALYSIS_CACHE`, the oldest entry first, and the stacks that sources have been evaluated
with so far, each with the source in front. -/
structure Process (K F : Type) where
  cache : List (K × F)
  evaluations : List (List (Option String))

/-- `_store_analysis_cache` (lines 134-143). -/
def storeAnalysisCache (cache : List (K × F)) (key : K) (frame : F) : List (K × F) :=
  if cache.any (·.1 = key) then cache
  else if (cache ++ [(key, frame)]).length ≤ analysisCacheMax then cache ++ [(key, frame)]
  else (cache ++ [(key, frame)]).tail

/-- Computations of the worker. -/
abbrev Loading (K F : Type) := ExceptT String (StateM (Process K F))

/-- `_get_analysis_cache` (lines 129-131). -/
def getCached (key : K) : Loading K F (Option F) := do
  let p ← get
  pure (p.cache.lookup key)

/-- The cache with the frame of a source. -/
def storeCached (key : K) (frame : F) : Loading K F Unit :=
  modify fun p => { p with cache := storeAnalysisCache p.cache key frame }

/-- The evaluation of a source begins. -/
def enter (stack : List (Option String)) : Loading K F Unit :=
  modify fun p => { p with evaluations := p.evaluations ++ [stack] }

namespace AnalysisPipeline

/-- The error of the guard. -/
def circular : String := "Analysis pipeline contains a circular reference"

/-- The error for an analysis source without a pipeline. -/
def pipelineRequired : String := "analysis_pipeline is required for analysis datasource loading"

variable (P : AnalysisPipeline κ δ)

/-- `_resolve_pipeline_datasource` (lines 100-121), with what its callers read of the result. -/
def resolvePipelineDatasource (s : TabSource δ) : Except String Merged :=
  if s.id = "" then .error "Analysis tab missing datasource.id"
  else if !SourceEntries.isDict s.config then
    .error "Analysis tab datasource.config must be a dict"
  else if !SourceEntries.hasBranch s.config then
    .error "Analysis tab datasource.config.branch is required"
  else
    match s.tab?, SourceEntries.sourceType s.config with
    | some tabId, _ => .ok (Merged.of s.config .analysis P.analysisId (some tabId))
    -- `str(None)` stands for the analysis id that the config lacks
    | none, some type => .ok (Merged.of s.config type "None" none)
    | none, none => .error ("Analysis pipeline missing datasource metadata for " ++ s.id)

/-- Where a reference loads. The datasource that a tab is built on gets the pipeline when its
analysis id is that of the pipeline (lines 207-217), one that a step names always (lines 300-319).
-/
def dispatch : Ref δ → Except String (Dispatch δ)
  | .analysis tabId => .ok (.nested (some tabId))
  | .base s =>
    match P.resolvePipelineDatasource s with
    | .error message => .error message
    | .ok merged =>
      if merged.sourceType ≠ some .analysis then .ok (.elsewhere s)
      else
        match SourceEntries.invalid s.config with
        | some message => .error message
        | none =>
          if P.analysisId ≠ "" ∧ merged.analysisId = P.analysisId then .ok (.nested merged.tabId)
          else if SourceEntries.ownPipeline s.config then .ok (.elsewhere s)
          else .error pipelineRequired
  | .payload s =>
    match P.resolvePipelineDatasource s with
    | .error message => .error message
    | .ok merged =>
      if merged.sourceType ≠ some .analysis then .ok (.elsewhere s)
      else
        match SourceEntries.invalid s.config with
        | some message => .error message
        | none => .ok (.nested merged.tabId)
  | .outside _ => .error "datasource not found"

/-- `load_datasource` (lines 324-338) and what it calls, of a reference. -/
def loadIn (nested : Option String → Loading K F F) (load : TabSource δ → Except String F)
    (ref : Ref δ) : Loading K F F :=
  match P.dispatch ref with
  | .error message => throw message
  | .ok (.nested tabId) => nested tabId
  | .ok (.elsewhere source) => raise (load source)

/-- `_load_validated_datasource` (lines 335-338) of an analysis config and
`_load_analysis_pipeline` (lines 72-87); `digest` is the key of the cache (lines 90-97) of a
requested tab id. -/
def loadPipeline (E : Engine κ (Ref δ) π Unit F) (load : TabSource δ → Except String F)
    (digest : Option String → K) : ℕ → List (Option String) → Option String → Loading K F F
  | 0, _, _ => throw "recursion"
  | n + 1, stack, tabId =>
    if P.analysisId = "" then throw pipelineRequired
    else if tabId ∈ stack then throw circular
    else do
      match ← getCached (digest tabId) with
      | some frame => pure frame
      | none => do
        enter (tabId :: stack)
        let frame ← P.buildAnalysis (P.loadIn (loadPipeline E load digest n (tabId :: stack)) load)
          E tabId
        storeCached (digest tabId) frame
        pure frame

/-- The ids that an analysis source can be requested by: those of the tabs, and those that their
datasources ask for. -/
def requestable : List (Option String) :=
  P.tabs.flatMap fun t =>
    [some t.id, (SourceEntries.ownTabId t.source.config).getD t.source.tab?]

/-- A bound on the depth of nested sources: the requested id and those that the tabs name. -/
def nesting : ℕ := P.requestable.length + 2

/-- `load_datasource` of an analysis config, on an empty stack. -/
def loadDatasource (E : Engine κ (Ref δ) π Unit F) (load : TabSource δ → Except String F)
    (digest : Option String → K) (tabId : Option String) : Loading K F F :=
  P.loadPipeline E load digest P.nesting [] tabId

/-! ## Requests -/

/-- The keys that building a tab leaves in the cache of frames. -/
def tabKeys (tab : Tab κ δ) : List String :=
  (applySteps tab.steps).map stepKeyOf ++ if tab.outputId = "" then [] else [tab.outputId]

/-- What the source id of a step loads when the frames of some keys are at hand. -/
def idRequests (keys : List String) (id : String) : List (Ref δ) :=
  if id = "" ∨ id ∈ keys then [] else (P.sourceRef id).toList

/-- What building a tab loads when the frames of some keys are at hand. -/
def tabRequests (keys : List String) (tab : Tab κ δ) : List (Ref δ) :=
  (if tab.source.id ∈ keys then [] else [.base tab.source]) ++
    ((applySteps tab.steps).flatMap Step.sourceIds).flatMap (P.idRequests keys)

/-- What building a chain loads. -/
def chainRequests : List String → List (Tab κ δ) → List (Ref δ)
  | _, [] => []
  | keys, tab :: rest => P.tabRequests keys tab ++ chainRequests (keys ++ tabKeys tab) rest

/-- The analysis source that a reference requests. -/
def nested? (ref : Ref δ) : Option (Option String) :=
  match P.dispatch ref with
  | .ok (.nested tabId) => some tabId
  | _ => none

/-- The analysis sources that evaluating one requests. -/
def requests (tabId : Option String) : List (Option String) :=
  match P.selectTab tabId with
  | .error _ => []
  | .ok selected => (P.chainRequests [] (P.resolveTabChain selected.id)).filterMap P.nested?

/-- Requests lead from a source to one that leads back to itself. -/
def LeadsBack (tabId : Option String) : Prop :=
  ∃ x, ReflTransGen (fun t r => r ∈ P.requests t) tabId x ∧
    TransGen (fun t r => r ∈ P.requests t) x x

/-! ## Other errors -/

/-- Evaluating an analysis source builds a tab. -/
def Builds (tabId : Option String) (tab : Tab κ δ) : Prop :=
  ∃ selected, P.selectTab tabId = .ok selected ∧ tab ∈ P.resolveTabChain selected.id

/-- The analysis sources that loading one can evaluate, nested ones included. -/
def Evaluates : Option String → Option String → Prop :=
  ReflTransGen fun t r => ∃ tab, P.Builds t tab ∧ ∃ ref ∈ P.tabLoads tab, P.nested? ref = some r

/-- An error that something other than the guard raises in the course of loading a source: the
pipeline, a source that is evaluated, or a tab that is built lacks something, or a load or a
step of such a tab fails. -/
inductive OtherError (E : Engine κ (Ref δ) π Unit F) (load : TabSource δ → Except String F)
    (start : Option String) : String → Prop
  | analysisId (h : P.analysisId = "") : OtherError E load start pipelineRequired
  | select {t e} (ht : P.Evaluates start t) (h : P.selectTab t = .error e) :
    OtherError E load start e
  | missingDatasource {t tab} (ht : P.Evaluates start t) (htab : P.Builds t tab)
    (h : tab.source.id = "") : OtherError E load start "Analysis tab missing datasource.id"
  | missingConfig {t tab step id} (ht : P.Evaluates start t) (htab : P.Builds t tab)
    (hstep : step ∈ applySteps tab.steps) (hid : id ∈ step.sourceIds) (hne : id ≠ "")
    (h : P.sourceRef id = none) :
    OtherError E load start ("Analysis pipeline missing datasource config for " ++ id)
  | dispatch {t tab ref e} (ht : P.Evaluates start t) (htab : P.Builds t tab)
    (href : ref ∈ P.tabLoads tab) (h : P.dispatch ref = .error e) : OtherError E load start e
  | load {t tab ref source e} (ht : P.Evaluates start t) (htab : P.Builds t tab)
    (href : ref ∈ P.tabLoads tab) (hsource : P.dispatch ref = .ok (.elsewhere source))
    (h : load source = .error e) : OtherError E load start e
  | convert {t tab step e} (ht : P.Evaluates start t) (htab : P.Builds t tab)
    (hstep : step ∈ applySteps tab.steps) (h : E.convert step.body = .error e) :
    OtherError E load start e
  | apply {t tab step b frame rights right e} (ht : P.Evaluates start t) (htab : P.Builds t tab)
    (hstep : step ∈ applySteps tab.steps) (hconvert : E.convert step.body = .ok b)
    (h : E.apply b (stepKeyOf step) frame rights right = .error e) : OtherError E load start e

end AnalysisPipeline

end DataForge.Pipeline
