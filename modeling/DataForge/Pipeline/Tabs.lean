import DataForge.Pipeline.Build

/-!
# Tabs that read other tabs

An analysis source is evaluated by folding the steps of the tab, and of the tabs upstream of it,
over one cache of frames (`src/packages/worker/operations/datasource.py:100-321`); a tab that is
run itself goes through `_build_pipeline_details`, with the sources its steps name resolved by
`_get_additional_datasources` (`src/packages/worker/runtime/compute_service.py:861-1010`).
The evaluation of an analysis source is written for any monad with exceptions, since it can run
with and without the cache of the process.
-/

namespace DataForge.Pipeline

open ReadCommitted

/-- What both evaluators read of the configuration of a step: `config.get("right_source")` and
`config.get("sources", [])`. -/
class StepSources (κ : Type) where
  rightSource : κ → Option String
  sources : κ → List String

/-- The datasource of a tab; `config` holds the entries that loading looks at. -/
structure TabSource (δ : Type) where
  id : String
  analysisTabId : Option String
  config : δ
deriving DecidableEq

/-- A tab; `outputId` is `output.result_id`. -/
structure Tab (κ δ : Type) where
  id : String
  source : TabSource δ
  outputId : String
  steps : List (Step κ)

/-- An analysis pipeline. -/
structure AnalysisPipeline (κ δ : Type) where
  analysisId : String
  tabs : List (Tab κ δ)

/-- What is loaded: the analysis source of a tab, the datasource that a tab is built on, a
datasource that a step names as a tab of the pipeline configures it, or one that no tab names. -/
inductive Ref (δ : Type) where
  | analysis (tabId : String)
  | base (source : TabSource δ)
  | payload (source : TabSource δ)
  | outside (id : String)
deriving DecidableEq

variable {κ δ π K F : Type}

/-- The sources that a step names. -/
def Step.sourceIds [StepSources κ] (s : Step κ) : List String :=
  (StepSources.rightSource s.body).toList.filter (· ≠ "") ++ StepSources.sources s.body

/-- The tab that a datasource names. -/
def TabSource.tab? (s : TabSource δ) : Option String := s.analysisTabId.filter (· ≠ "")

namespace AnalysisPipeline

variable (P : AnalysisPipeline κ δ)

/-- The tab with an output, the last one if there are several. -/
def outputTab (output : String) : Option (Tab κ δ) :=
  P.tabs.reverse.find? fun t => t.id ≠ "" ∧ t.outputId ≠ "" ∧ t.outputId = output

/-- `pipeline_datasource_payload`. -/
def datasourcePayload (id : String) : Option (TabSource δ) :=
  (P.tabs.find? fun t => t.source.id = id).map Tab.source

/-! ## Inlined tabs -/

/-- `_resolve_analysis_tab` (`datasource.py:146-154`). -/
def resolveAnalysisTab (tabId : Option String) : Except String (Tab κ δ) :=
  match (tabId.filter (· ≠ "")).bind fun id => P.tabs.find? fun t => t.id = id with
  | some tab => .ok tab
  | none =>
    match P.tabs.find? fun t => !t.steps.isEmpty with
    | some tab => .ok tab
    | none => .error "Analysis pipeline missing tab steps"

/-- `tab_input`. -/
def tabInput (tabId : String) : Option String :=
  (P.tabs.reverse.find? fun t => t.id = tabId ∧ t.source.id ≠ "").map fun t => t.source.id

/-- The loop of `_resolve_tab_chain`, from the target upstream. The ids in `seen` are distinct
ids of tabs, so the fuel does not run out. -/
def chainLoop : ℕ → List String → String → List (Tab κ δ)
  | 0, _, _ => []
  | n + 1, seen, current =>
    if current = "" ∨ current ∈ seen then []
    else
      match P.tabs.find? fun t => t.id = current with
      | none => []
      | some tab =>
        match (P.tabInput current).bind P.outputTab with
        | none => [tab]
        | some upstream => tab :: chainLoop n (current :: seen) upstream.id

/-- `_resolve_tab_chain` (`datasource.py:157-189`). -/
def resolveTabChain (target : String) : List (Tab κ δ) :=
  (P.chainLoop (P.tabs.length + 1) [] target).reverse

/-- The source of a step of an inlined tab, unless its frame is at hand. -/
def sourceRef (id : String) : Option (Ref δ) :=
  match P.tabs.reverse.find? fun t => t.outputId ≠ "" ∧ t.outputId = id with
  | some tab => some (.analysis tab.id)
  | none => (P.datasourcePayload id).map .payload

section Inlined

variable {m : Type → Type} [Monad m] [MonadExceptOf String m] (load : Ref δ → m F)

/-- One round of the loops of `_collect_analysis_sources`. -/
def collectSource (cache additional : Table String F) (id : String) : m (Table String F) :=
  if id = "" then pure additional
  else
    match cache.get id with
    | some frame => pure (additional.put id (some frame))
    | none =>
      match P.sourceRef id with
      | none => throw ("Analysis pipeline missing datasource config for " ++ id)
      | some ref => do
        let frame ← load ref
        pure (additional.put id (some frame))

/-- `_collect_analysis_sources` (`datasource.py:274-321`). -/
def collectAnalysisSources [StepSources κ] (steps : List (Step κ)) (cache : Table String F) :
    m (Table String F) :=
  (steps.flatMap Step.sourceIds).foldlM (P.collectSource load cache) .empty

/-- The key of a step in the cache of frames. -/
def stepKeyOf (s : Step κ) : String := if s.id = "" then "step" else s.id

/-- One round of the loop of `_build_tab_pipeline`. -/
def inlineStep [StepParams π] (E : Engine κ (Ref δ) π K F) (additional : Table String F)
    (c : Table String F × F) (s : Step κ) : Except String (Table String F × F) :=
  match E.convert s.body with
  | .error message => .error message
  | .ok b =>
    match E.apply b (stepKeyOf s) c.2 additional.get (b.rightSource.bind c.1.get) with
    | .error message => .error message
    | .ok frame => .ok (c.1.put (stepKeyOf s) (some frame), frame)

/-- Raise the error of a pure computation. -/
def raise {α : Type} : Except String α → m α
  | .ok a => pure a
  | .error message => throw message

/-- The frame a tab starts from. -/
def baseFrame (cache : Table String F) (source : TabSource δ) : m F :=
  match cache.get source.id with
  | some frame => pure frame
  | none => load (.base source)

/-- `_build_tab_pipeline` (`datasource.py:192-249`). -/
def buildTabPipeline [StepParams π] [StepSources κ] (E : Engine κ (Ref δ) π K F)
    (cache : Table String F) (tab : Tab κ δ) : m (Table String F × F) :=
  if tab.source.id = "" then throw "Analysis tab missing datasource.id"
  else do
    let base ← baseFrame load cache tab.source
    let additional ← P.collectAnalysisSources load (applySteps tab.steps) cache
    let r ← raise ((applySteps tab.steps).foldlM (inlineStep E additional) (cache, base))
    pure (if tab.outputId = "" then r.1 else r.1.put tab.outputId (some r.2), r.2)

/-- The tabs of a chain, one after the other. -/
def buildChain [StepParams π] [StepSources κ] (E : Engine κ (Ref δ) π K F)
    (chain : List (Tab κ δ)) : m (Table String F × Option F) :=
  chain.foldlM (fun c tab => do
    let r ← P.buildTabPipeline load E c.1 tab
    pure (r.1, some r.2)) (.empty, none)

/-- The selected tab. -/
def selectTab (tabId : Option String) : Except String (Tab κ δ) :=
  if P.tabs.isEmpty then .error "Analysis pipeline missing tabs"
  else
    match P.resolveAnalysisTab tabId with
    | .error message => .error message
    | .ok tab => if tab.id = "" then .error "Analysis pipeline missing tab id" else .ok tab

/-- The last frame. -/
def lastFrame : Option F → Except String F
  | some frame => .ok frame
  | none => .error "Analysis pipeline did not produce a LazyFrame"

/-- `_build_analysis_from_pipeline` (`datasource.py:252-271`). -/
def buildAnalysis [StepParams π] [StepSources κ] (E : Engine κ (Ref δ) π K F)
    (tabId : Option String) : m F :=
  match P.selectTab tabId with
  | .error message => throw message
  | .ok selected => do
    let built ← P.buildChain load E (P.resolveTabChain selected.id)
    raise (lastFrame built.2)

end Inlined

/-- Every id that an analysis source can be requested by. -/
def requested : List String :=
  P.tabs.map Tab.id ++ P.tabs.filterMap fun t => t.source.analysisTabId

/-- A bound on the depth of nested analysis sources: the ids on the stack are distinct. -/
def depth : ℕ := P.requested.length + 1

/-- Loading a reference, given how analysis sources and other datasources load. A datasource that
names a tab is one, with no entries in its config that say otherwise. -/
def loadRef (nested : String → Except String F) (load : TabSource δ → Except String F)
    (outside : String → Option (Except String F)) : Ref δ → Except String F
  | .analysis tabId => nested tabId
  | .base source | .payload source =>
    match source.tab? with
    | some tabId => nested tabId
    | none => load source
  | .outside id => (outside id).getD (.error "datasource not found")

/-- `_load_analysis_pipeline` (`datasource.py:72-87`) without the cache of the process; `stack`
holds the analysis sources being loaded. -/
def loadAnalysis [StepParams π] [StepSources κ] (E : Engine κ (Ref δ) π K F)
    (load : TabSource δ → Except String F) : ℕ → List String → String → Except String F
  | 0, _, _ => .error "recursion"
  | n + 1, stack, tabId =>
    if tabId ∈ stack then .error "Analysis pipeline contains a circular reference"
    else P.buildAnalysis (loadRef (loadAnalysis E load n (tabId :: stack)) load fun _ => none) E
      (some tabId)

/-! ## Direct runs -/

/-- `_resolve_pipeline_datasource_config` (`compute_service.py:946-982`). -/
def datasourceRef (source : TabSource δ) : Ref δ :=
  match source.tab? with
  | some tabId => .analysis tabId
  | none =>
    match P.outputTab source.id with
    | some tab => .analysis tab.id
    | none => .payload source

/-- `_resolve_step_source_config` (`compute_service.py:990-1010`); `found` says whether the
backend knows a datasource. -/
def stepSourceRef (found : String → Bool) (id : String) : Option (Ref δ) :=
  match P.outputTab id with
  | some tab => some (.analysis tab.id)
  | none =>
    match P.datasourcePayload id with
    | some source => some (P.datasourceRef source)
    | none => if found id then some (.outside id) else none

/-- `_get_additional_datasources` (`compute_service.py:861-894`). -/
def additionalDatasources [StepSources κ] (found : String → Bool) (steps : List (Step κ)) :
    Table String (SourceConfig (Ref δ)) :=
  ((applySteps steps).flatMap Step.sourceIds).foldl (fun t id =>
    if (t.get id).isSome then t
    else
      match P.stepSourceRef found id with
      | none => t
      | some ref => t.put id (some { kind := .other, rest := ref })) .empty

/-- Storage in which references load. -/
def refWorld (load : Ref δ → Except String F) : World (Ref δ) F where
  resolveIceberg _ := none
  stat _ := none
  load config := load config.rest

end AnalysisPipeline

end DataForge.Pipeline
