import DataForge.Analyses.Pipeline
import DataForge.Forest.Search
import Mathlib.Data.List.Dedup

/-!
# The analysis service

The operations on analyses (`modules/analysis/service.py`, `modules/analysis_versions/service.py`)
over the tables they touch. An operation is one transaction: it reads datasources and the links of
other analyses from what is committed while it runs, and holds the row lock of its own analysis
from `revisions.require` on.
-/

namespace DataForge.Analyses

/-- `DataSource` (`persistence/datasource/models.py`). A row of the analysis type names its
analysis: `create_placeholder_output_datasource` is the only one to write that type. -/
structure DataSource where
  isHidden : Bool
  isAnalysisSource : Bool := false
  createdByAnalysisId : Option String := none
  createdByAnalysis : Bool := false
  named : isAnalysisSource → createdByAnalysisId.isSome := by decide

/-- The analysis a datasource comes from: `analysis_source_id` of an analysis source. -/
def DataSource.source (row : DataSource) : Option String :=
  if row.isAnalysisSource then row.createdByAnalysisId else none

/-- `Analysis` (`persistence/analysis/models.py`), as far as the service changes it. -/
structure Analysis (κ δ : Type) where
  name : String
  description : Option String
  tabs : List (PipelineTab κ δ)
  revision : ℕ := 1

/-- `AnalysisVersion`. -/
structure Version (κ δ : Type) where
  version : ℕ
  name : String
  description : Option String
  tabs : List (PipelineTab κ δ)

/-- The tables; `links` are the rows of `AnalysisDataSource`. -/
structure Db (κ δ : Type) where
  datasources : String → Option DataSource
  analyses : String → Option (Analysis κ δ)
  links : List (String × String)
  versions : String → List (Version κ δ)

/-- What a transaction reads of the tables that it does not lock: a datasource row once, the link
rows again in each walk. -/
structure View where
  datasource : String → Option DataSource
  rows : ℕ → List (String × String)

/-- The view of a transaction that runs alone. -/
def Db.view {κ δ : Type} (db : Db κ δ) : View := ⟨db.datasources, fun _ => db.links⟩

/-- The datasources linked to an analysis. -/
def linked (rows : List (String × String)) (analysisId : String) : List String :=
  (rows.filter (·.1 = analysisId)).map Prod.snd

namespace View

variable (v : View)

/-- The analysis a datasource id leads to. -/
def source (datasourceId : String) : Option String :=
  (v.datasource datasourceId).bind DataSource.source

/-- The analyses that the walk goes on to from one of them. -/
def next (walk : ℕ) (analysisId : String) : List String :=
  (linked (v.rows walk) analysisId).filterMap v.source

/-- `assert_no_analysis_cycle` (`backend_core/analysis_cycles.py:12-31`). -/
def assertNoAnalysisCycle (walk : ℕ) (analysisId sourceAnalysisId : String) :
    Except Failure Unit :=
  if analysisId = sourceAnalysisId then
    .error (.cycle "Analysis cannot use itself as a datasource")
  else
    let rows := v.rows walk
    match Search.reaches (v.next walk) analysisId (rows.length + 2) sourceAnalysisId [] with
    | some (true, _) => .error (.cycle "Analysis datasource introduces a cycle")
    | some (false, _) => .ok ()
    | none => .error .endless

/-- `_require_visible_analysis_input` (`service.py:296-308`). -/
def requireVisible (datasourceId : String) : Except Failure DataSource :=
  match v.datasource datasourceId with
  | some row => if row.isHidden then .error (.notFound datasourceId) else .ok row
  | none => .error (.notFound datasourceId)

variable {κ δ : Type} (R : Rules κ δ)

/-- `tab_output_map` (`service.py:320-323`); of two tabs with one id the later one counts. -/
def tabOutputMap (tabs : List (PipelineTab κ δ)) (tabId : String) : Option String :=
  ((tabs.filter (·.id ≠ "")).reverse.find? (·.id = tabId)).map PipelineTab.resultId

/-- The checks on the datasource of a tab (`service.py:326-338`). -/
def checkDatasource (analysisId : Option String) (tabs : List (PipelineTab κ δ)) (walk : ℕ)
    (tab : PipelineTab κ δ) : Except Failure Unit :=
  match tab.datasource.analysisTabId with
  | some tabId =>
    if tabOutputMap tabs tabId ≠ some tab.datasource.id then
      .error (.valueError ("Datasource id '" ++ tab.datasource.id ++
        "' does not match output.result_id of tab '" ++ tabId ++ "'"))
    else .ok ()
  | none => do
    let row ← v.requireVisible tab.datasource.id
    match analysisId, row.source with
    | some analysisId, some sourceId => v.assertNoAnalysisCycle walk analysisId sourceId
    | _, _ => pure ()

/-- The checks on the steps of a tab (`service.py:361-370`), with the ids seen so far. -/
def checkSteps : List String → List (PipelineStep κ) → Except Failure (List (PipelineStep κ))
  | _, [] => .ok []
  | seen, step :: rest =>
    if Compute.strip step.id = "" then .error (.valueError "Pipeline step id is required")
    else do
      let config ← normalizeStepConfig R step.type step.config
      step.dependsOn.forM fun dep =>
        if dep ∈ step.id :: seen then .ok ()
        else .error (.valueError ("Step depends on unknown step '" ++ dep ++ "'"))
      let rest ← checkSteps (step.id :: seen) rest
      return { step with config } :: rest

/-- `_validate_analysis_payload` (`service.py:311-371`): the tabs to store and the datasources to
link. -/
def validateAnalysisPayload (analysisId : Option String) (tabs : List (PipelineTab κ δ)) :
    Except Failure (List (PipelineTab κ δ) × List String) :=
  if tabs = [] then .error (.valueError "Analysis requires at least one tab")
  else do
    tabs.zipIdx.forM fun p => v.checkDatasource analysisId tabs p.2 p.1
    (foreign tabs).dedup.forM fun id => do
      let _ ← v.requireVisible id
    let checked ← tabs.mapM fun tab => do
      let steps ← checkSteps R [] tab.steps
      return { tab with steps }
    return (checked, external tabs)

end View

namespace Db

variable {κ δ : Type} (R : Rules κ δ) (db : Db κ δ)

/-- `create_version` (`analysis_versions/service.py:16-34`). -/
def createVersion (analysisId : String) (analysis : Analysis κ δ) : Db κ δ :=
  let version := ((db.versions analysisId).map Version.version).foldr max 0 + 1
  { db with
    versions := Function.update db.versions analysisId
      (db.versions analysisId ++
        [⟨version, analysis.name, analysis.description, analysis.tabs⟩]) }

/-- Storing the row of an analysis. -/
def store (analysisId : String) (analysis : Analysis κ δ) : Db κ δ :=
  { db with analyses := Function.update db.analyses analysisId (some analysis) }

/-- `replace_datasource_links` (`service.py:291-293`). -/
def replaceDatasourceLinks (analysisId : String) (datasourceIds : List String) : Db κ δ :=
  { db with
    links := db.links.filter (·.1 ≠ analysisId) ++
      datasourceIds.dedup.map fun datasourceId => (analysisId, datasourceId) }

/-- `_save_pipeline` (`service.py:89-94`) after `create_version`. -/
def savePipeline (analysisId : String) (analysis : Analysis κ δ)
    (tabs : List (PipelineTab κ δ)) : Db κ δ :=
  (db.createVersion analysisId analysis).store analysisId
    { analysis with tabs, revision := analysis.revision + 1 }

/-- `_require_analysis` (`service.py:82-86`). -/
def requireAnalysis (analysisId : String) : Except Failure (Analysis κ δ) :=
  match db.analyses analysisId with
  | some analysis => .ok analysis
  | none => .error (.notFound analysisId)

end Db

/-- A request, with the ids that it generates. `duplicate_analysis` and `import_analysis` rewrite
the ids of a pipeline and create an analysis of it. -/
inductive Op (κ δ : Type) where
  | create (analysisId name : String) (description : Option String)
    (tabs : List (PipelineTab κ δ))
  | update (analysisId : String) (name : Option String) (description : Option String)
    (tabs : Option (List (PipelineTab κ δ)))
  | addStep (analysisId tabId stepType : String) (config : StepConfig κ) (position : Option ℤ)
    (dependsOn : List String) (newId : String)
  | updateStep (analysisId tabId stepId : String) (config : Option (StepConfig κ))
    (stepType : Option String)
  | removeStep (analysisId tabId stepId : String)
  | deriveTab (analysisId tabId name newTabId newStepId newResultId : String)
  | duplicateTab (analysisId tabId name newTabId newResultId : String) (newIds : List String)
  | restore (analysisId : String) (version : ℕ)

namespace Op

variable {κ δ : Type}

/-- The analysis a request is about. -/
def analysisId : Op κ δ → String
  | .create id .. | .update id .. | .addStep id .. | .updateStep id .. | .removeStep id ..
  | .deriveTab id .. | .duplicateTab id .. | .restore id .. => id

variable (R : Rules κ δ) (v : View) (db : Db κ δ)

/-- The transaction of a request, and its failures. -/
def apply : Op κ δ → Except Failure (Db κ δ)
  | .create id name description tabs => do
    -- `create_analysis` (`service.py:384-414`)
    let (tabs, datasourceIds) ← v.validateAnalysisPayload R (some id) tabs
    let analysis := { name, description, tabs }
    let db := (db.store id analysis).replaceDatasourceLinks id datasourceIds
    return db.createVersion id analysis
  | .update id name description tabs => do
    -- `update_analysis` (`service.py:730-755`)
    let analysis ← db.requireAnalysis id
    let edited := { analysis with
      name := name.getD analysis.name
      description := description.or analysis.description
      revision := analysis.revision + 1 }
    match tabs with
    | none => return (db.createVersion id analysis).store id edited
    | some tabs => do
      let (tabs, datasourceIds) ← v.validateAnalysisPayload R (some id) tabs
      return ((db.createVersion id analysis).store id { edited with tabs }).replaceDatasourceLinks
        id datasourceIds
  | .addStep id tabId stepType config position dependsOn newId => do
    let analysis ← db.requireAnalysis id
    let tabs ← Analyses.addStep R (fun source => do let _ ← v.requireVisible source)
      analysis.tabs tabId stepType config position dependsOn newId
    return db.savePipeline id analysis tabs
  | .updateStep id tabId stepId config stepType => do
    let analysis ← db.requireAnalysis id
    let tabs ← Analyses.updateStep R analysis.tabs tabId stepId config stepType
    return db.savePipeline id analysis tabs
  | .removeStep id tabId stepId => do
    let analysis ← db.requireAnalysis id
    let tabs ← Analyses.removeStep analysis.tabs tabId stepId
    return db.savePipeline id analysis tabs
  | .deriveTab id tabId name newTabId newStepId newResultId => do
    let analysis ← db.requireAnalysis id
    let tabs ← Analyses.deriveTab R analysis.tabs tabId name newTabId newStepId newResultId
    return db.savePipeline id analysis tabs
  | .duplicateTab id tabId name newTabId newResultId newIds => do
    let analysis ← db.requireAnalysis id
    let tabs ← Analyses.duplicateTab R analysis.tabs tabId name newTabId newResultId newIds
    return db.savePipeline id analysis tabs
  | .restore id version => do
    -- `restore_version` (`analysis_versions/service.py:71-96`)
    let analysis ← db.requireAnalysis id
    match (db.versions id).find? (·.version = version) with
    | none => .error (.notFound id)
    | some target => do
      let (tabs, datasourceIds) ← v.validateAnalysisPayload R (some id) target.tabs
      return ((db.createVersion id analysis).store id
        { name := target.name, description := target.description, tabs
          revision := analysis.revision + 1 }).replaceDatasourceLinks id datasourceIds

end Op

/-- `create_placeholder_output_datasource` (`modules/datasource/service.py:314-369`). -/
def Db.register {κ δ : Type} (R : Rules κ δ) (db : Db κ δ) (resultId analysisId : String)
    (isAnalysisSource : Bool) : Except Failure (Db κ δ) :=
  let row (isHidden : Bool) : DataSource :=
    { isHidden, isAnalysisSource, createdByAnalysisId := some analysisId
      createdByAnalysis := true, named := fun _ => rfl }
  if ¬ R.isUuid resultId then
    .error (.valueError ("result_id must be a valid UUID, got: '" ++ resultId ++ "'"))
  else
    match db.datasources resultId with
    | none =>
      .ok { db with datasources := Function.update db.datasources resultId (some (row true)) }
    | some existing =>
      let kept := { db with
        datasources := Function.update db.datasources resultId (some (row existing.isHidden)) }
      match existing.createdByAnalysisId with
      | some owner =>
        if owner ≠ analysisId then
          .error (.valueError ("Output result_id '" ++ resultId ++
            "' is already owned by analysis '" ++ owner ++ "', cannot reuse it in analysis '" ++
            analysisId ++ "'"))
        else .ok kept
      | none =>
        if ¬ existing.createdByAnalysis then
          .error (.valueError ("Output result_id '" ++ resultId ++
            "' conflicts with an existing datasource not managed by analysis outputs"))
        else .ok kept

/-- Configurations are kept as they are, and no contents matter. -/
def plainRules : Rules Unit Unit where
  normalizeRest _ rest := some rest
  isUuid _ := true
  viewConfig := ()
  derivedRest _ rest := rest
  duplicatedRest _ rest := rest

end DataForge.Analyses
