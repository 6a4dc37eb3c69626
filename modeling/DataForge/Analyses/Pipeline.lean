import DataForge.Compute.Identity
import Mathlib.Data.List.Basic

/-!
# Analysis pipelines

The stored document of an analysis (`backend_core/domain/analysis/pipeline_types.py`) and the
changes that `modules/analysis/service.py` makes to it. Of a step configuration the service reads
the two fields that name sources; the rest is in `κ`, and the rest of a tab in `δ`.
-/

namespace DataForge.Analyses

/-- A value of a configuration field, as far as it is looked at; an item of a list that is not a
string is `none`. -/
inductive Value where
  | str (s : String)
  | list (items : List (Option String))
  | other
deriving DecidableEq

/-- The string of a value. -/
def Value.str? : Value → Option String
  | .str s => some s
  | _ => none

/-- The strings of a list value. -/
def Value.strings : Value → List String
  | .list items => items.reduceOption
  | _ => []

/-- A step configuration. -/
structure StepConfig (κ : Type) where
  rightSource : Option Value := none
  sources : Option Value := none
  rest : κ
deriving DecidableEq

/-- `PipelineStep` (`pipeline_types.py:7-30`). -/
structure PipelineStep (κ : Type) where
  id : String
  type : String
  config : StepConfig κ
  dependsOn : List String := []
  isApplied : Option Bool := some true
deriving DecidableEq

/-- `TabDatasource` (`pipeline_types.py:33-53`). -/
structure TabDatasource where
  id : String
  analysisTabId : Option String := none
deriving DecidableEq

/-- `PipelineTab` (`pipeline_types.py:84-119`) with the `result_id` of its output. -/
structure PipelineTab (κ δ : Type) where
  id : String
  name : String
  datasource : TabDatasource
  resultId : String
  steps : List (PipelineStep κ) := []
  parentId : Option String := none
  rest : δ
deriving DecidableEq

/-- What a request fails with. -/
inductive Failure where
  | valueError (text : String)
  | notFound (id : String)
  | cycle (text : String)
  | invalidConfig
  | endless
deriving DecidableEq

/-- The parts of a step's schema apart from its sources (`step_schemas.py`), the check of UUIDs,
and the contents of new tabs. -/
structure Rules (κ δ : Type) where
  normalizeRest : String → κ → Option κ
  isUuid : String → Bool
  viewConfig : κ
  derivedRest : String → δ → δ
  duplicatedRest : String → δ → δ

variable {κ δ : Type} (R : Rules κ δ)

/-- The source fields of `JoinConfig`, of `UnionByNameConfig` and of the other models, all of which
forbid extra fields (`step_schemas.py:267-296`). -/
def normalizeSources (stepType : String) (config : StepConfig κ) :
    Option (Option Value × Option Value) :=
  if stepType = "join" then
    match config.rightSource, config.sources with
    | none, none => some (some (.str ""), none)
    | some (.str s), none => some (some (.str s), none)
    | _, _ => none
  else if stepType = "union_by_name" then
    match config.rightSource, config.sources with
    | none, none => some (none, some (.list []))
    | none, some (.list items) =>
      if items.all Option.isSome then some (none, some (.list items)) else none
    | _, _ => none
  else if config.rightSource = none ∧ config.sources = none then some (none, none)
  else none

/-- `normalize_step_config` (`step_schemas.py:629-631`). -/
def normalizeStepConfig (stepType : String) (config : StepConfig κ) :
    Except Failure (StepConfig κ) :=
  match normalizeSources stepType config, R.normalizeRest stepType config.rest with
  | some (rightSource, sources), some rest => .ok { rightSource, sources, rest }
  | _, _ => .error .invalidConfig

/-- The sources that a configuration names (`service.py:342-354, 838-841`), empty ones too. -/
def StepConfig.sourceIds (config : StepConfig κ) : List String :=
  (config.rightSource.bind Value.str?).toList.filter (· ≠ "") ++
    (config.sources.map Value.strings).getD []

/-- The sources that a configuration refers to. -/
def StepConfig.references (config : StepConfig κ) : List String :=
  config.sourceIds.filter (· ≠ "")

/-- The ids of steps. -/
def stepIds (steps : List (PipelineStep κ)) : List String := steps.map PipelineStep.id

/-- The tab ids of a pipeline. -/
def tabIds (tabs : List (PipelineTab κ δ)) : List String :=
  (tabs.map PipelineTab.id).filter (· ≠ "")

/-- The sources that the steps of a pipeline refer to. -/
def references (tabs : List (PipelineTab κ δ)) : List String :=
  tabs.flatMap fun tab => tab.steps.flatMap (·.config.references)

/-- The datasource that a tab reads, unless another tab provides it. -/
def PipelineTab.input (tab : PipelineTab κ δ) : Option String :=
  if tab.datasource.analysisTabId = none then some tab.datasource.id else none

/-- The datasources that the tabs read themselves. -/
def inputs (tabs : List (PipelineTab κ δ)) : List String := tabs.filterMap PipelineTab.input

/-- The references that no tab provides. -/
def foreign (tabs : List (PipelineTab κ δ)) : List String :=
  (references tabs).filter (· ∉ tabIds tabs)

/-- The external datasources of a pipeline. -/
def external (tabs : List (PipelineTab κ δ)) : List String := inputs tabs ++ foreign tabs

/-- `find_tab` (`pipeline_types.py:136-141`). -/
def findTab (tabs : List (PipelineTab κ δ)) (tabId : String) :
    Except Failure (PipelineTab κ δ) :=
  match tabs.find? (·.id = tabId) with
  | some tab => .ok tab
  | none => .error (.valueError ("Tab " ++ tabId ++ " not found"))

/-- A change to the steps of the tab that `find_tab` finds. -/
def editSteps (tabs : List (PipelineTab κ δ)) (tabId : String)
    (f : List (PipelineStep κ) → List (PipelineStep κ)) : List (PipelineTab κ δ) :=
  tabs.modify (tabs.findIdx (·.id = tabId)) fun tab => { tab with steps := f tab.steps }

/-- `list.insert`, at an index within the list. -/
def insertAt {α : Type} (l : List α) (index : ℕ) (x : α) : List α :=
  l.take index ++ x :: l.drop index

/-- The place at which a step is added (`service.py:854-858`). -/
def clampPosition (position : Option ℤ) (length : ℕ) : ℕ :=
  match position with
  | none => length
  | some position => (max 0 (min position length)).toNat

/-- `add_step` (`service.py:812-863`) on the pipeline. `check` looks up an external source. -/
def addStep (check : String → Except Failure Unit) (tabs : List (PipelineTab κ δ))
    (tabId stepType : String) (config : StepConfig κ) (position : Option ℤ)
    (dependsOn : List String) (newId : String) : Except Failure (List (PipelineTab κ δ)) := do
  let config ← normalizeStepConfig R stepType config
  let tab ← findTab tabs tabId
  dependsOn.forM fun dep =>
    if dep ∈ (stepIds tab.steps).filter (· ≠ "") then .ok ()
    else .error (.valueError ("depends_on references unknown step '" ++ dep ++ "'"))
  let pipelineSourceIds := tabIds tabs ++ (tabs.map (·.datasource.id)).filter (· ≠ "")
  (config.sourceIds.filter (· ∉ pipelineSourceIds)).forM check
  let step : PipelineStep κ := { id := newId, type := stepType, config, dependsOn }
  return editSteps tabs tabId fun steps =>
    insertAt steps (clampPosition position steps.length) step

/-- The configuration that `update_step` stores (`service.py:899-902`). -/
def updateConfig (step : PipelineStep κ) (config : Option (StepConfig κ))
    (stepType : Option String) : Except Failure (StepConfig κ) :=
  if stepType.isSome ∨ config.isSome then
    normalizeStepConfig R (stepType.getD step.type) (config.getD step.config)
  else .ok step.config

/-- `update_step` (`service.py:882-908`) on the pipeline. -/
def updateStep (tabs : List (PipelineTab κ δ)) (tabId stepId : String)
    (config : Option (StepConfig κ)) (stepType : Option String) :
    Except Failure (List (PipelineTab κ δ)) := do
  let tab ← findTab tabs tabId
  match tab.steps.find? (·.id = stepId) with
  | none => .error (.valueError ("Step " ++ stepId ++ " not found"))
  | some step => do
    let config ← updateConfig R step config stepType
    return editSteps tabs tabId fun steps =>
      steps.modify (steps.findIdx (·.id = stepId)) fun s =>
        { s with type := stepType.getD s.type, config }

/-- `remove_step` (`service.py:911-934`) on the pipeline. -/
def removeStep (tabs : List (PipelineTab κ δ)) (tabId stepId : String) :
    Except Failure (List (PipelineTab κ δ)) := do
  let tab ← findTab tabs tabId
  if stepId ∉ stepIds tab.steps then .error (.valueError ("Step " ++ stepId ++ " not found"))
  else return editSteps tabs tabId fun steps =>
    (steps.eraseIdx (steps.findIdx (·.id = stepId))).map fun s =>
      { s with dependsOn := s.dependsOn.erase stepId }

/-- `derive_tab` (`service.py:937-985`) on the pipeline. -/
def deriveTab (tabs : List (PipelineTab κ δ)) (tabId name newTabId newStepId newResultId : String) :
    Except Failure (List (PipelineTab κ δ)) := do
  let source ← findTab tabs tabId
  if source.resultId = "" then
    .error (.valueError ("Tab " ++ tabId ++ " has no output.result_id"))
  else return tabs ++ [{
    id := newTabId, name, parentId := some tabId
    datasource := { id := source.resultId, analysisTabId := some tabId }
    resultId := newResultId
    steps := [{ id := newStepId, type := "view", config := { rest := R.viewConfig } }]
    rest := R.derivedRest name source.rest }]

/-- `step_id_map` (`service.py:1026-1030`); of two steps with one id the later one counts. -/
def stepIdMap (steps : List (PipelineStep κ)) (newIds : List String) (id : String) :
    Option String :=
  ((stepIds steps).zip newIds).reverse.lookup id

/-- The step copies of `duplicate_tab` (`service.py:1026-1048`). -/
def duplicateSteps (tabId : String) (source : List (PipelineStep κ)) (newIds : List String) :
    Except Failure (List (PipelineStep κ)) :=
  (source.zip newIds).mapM fun p => do
    let dependsOn ← p.1.dependsOn.mapM fun dep =>
      match stepIdMap source newIds dep with
      | some mapped => Except.ok mapped
      | none => .error (.valueError ("Unable to rewrite dependency '" ++ dep ++
          "' while duplicating tab '" ++ tabId ++ "'"))
    return { p.1 with id := p.2, dependsOn }

/-- `duplicate_tab` (`service.py:1009-1077`) on the pipeline. -/
def duplicateTab (tabs : List (PipelineTab κ δ)) (tabId name newTabId newResultId : String)
    (newIds : List String) : Except Failure (List (PipelineTab κ δ)) := do
  let source ← findTab tabs tabId
  let steps ← duplicateSteps tabId source.steps newIds
  return insertAt tabs (tabs.findIdx (·.id = tabId) + 1)
    { source with id := newTabId, name, resultId := newResultId, steps
                  rest := R.duplicatedRest name source.rest }

end DataForge.Analyses
