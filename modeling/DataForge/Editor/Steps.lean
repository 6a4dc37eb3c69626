import Mathlib.Data.List.Nodup
import Mathlib.Data.List.Perm.Basic

/-!
# The step list of the editor

`AnalysisStore` (`src/packages/frontend/src/lib/stores/analysis.svelte.ts`): the operations on
the steps of the active tab, as functions on its list. `none` stands for an early return, of
`insertStep` and `moveStep` with `false`, which leaves the tab as it is. A missing `depends_on` is
the empty list, as `?? []` has it, and `cloneJson` copies, which values do by themselves.
-/

namespace DataForge.Editor

/-- `PipelineStep` (`src/packages/frontend/src/lib/types/analysis.ts`), with configurations in
`κ`. -/
structure PipelineStep (κ : Type) where
  id : String
  type : String
  config : κ
  dependsOn : List String
  isApplied : Option Bool
deriving DecidableEq

/-- `CHART_ALIAS_TO_TYPE` (`types/pipeline-step.ts:11-21`): its keys. -/
def chartAliases : List String :=
  ["plot_bar", "plot_horizontal_bar", "plot_area", "plot_heatgrid", "plot_histogram",
    "plot_scatter", "plot_line", "plot_pie", "plot_boxplot"]

/-- `isChartStepType` (`types/pipeline-step.ts:32-34`). -/
def isChartStep (type : String) : Bool := type = "chart" ∨ type ∈ chartAliases

/-- An id as a condition: `null` and the empty string are false. -/
def truthy (id : Option String) : Option String := id.filter (· ≠ "")

/-- `list.splice(index, 0, x)`. -/
def splice {α : Type} (l : List α) (index : ℕ) (x : α) : List α :=
  l.take index ++ x :: l.drop index

variable {κ : Type}

/-- The ids of steps. -/
def ids (steps : List (PipelineStep κ)) : List String := steps.map PipelineStep.id

/-- `steps[i] = { ...steps[i], depends_on }` for the first step with the id, if there is one. -/
def relink (steps : List (PipelineStep κ)) (id : String) (dependsOn : List String) :
    List (PipelineStep κ) :=
  steps.modify (steps.findIdx (·.id = id)) fun s => { s with dependsOn }

/-- `addStep` (`analysis.svelte.ts:135-146`). -/
def addStep (steps : List (PipelineStep κ)) (step : PipelineStep κ) : List (PipelineStep κ) :=
  let parentId := steps.getLast?.map PipelineStep.id
  steps ++ [{ step with dependsOn := (truthy parentId).toList }]

/-- The checks of `insertStep` on the step that is to follow (`analysis.svelte.ts:319-322`). -/
def insertable (nextDeps : List String) (parentId : Option String) : Bool :=
  nextDeps.length ≤ 1 ∧ (nextDeps = [] ∨ nextDeps.head? = truthy parentId)

/-- `insertStep` (`analysis.svelte.ts:302-332`). -/
def insertStep (steps : List (PipelineStep κ)) (step : PipelineStep κ) (index : ℕ)
    (parentId nextId : Option String) : Option (List (PipelineStep κ)) :=
  let inserted := { step with dependsOn := (truthy parentId).toList }
  match truthy nextId with
  | none => some (splice steps index inserted)
  | some next =>
    match steps.find? (·.id = next) with
    | none => none
    | some nextStep =>
      if isChartStep step.type then some (splice steps index inserted)
      else if insertable nextStep.dependsOn parentId then
        some (splice (relink steps next [step.id]) index inserted)
      else none

/-- `removeStep` (`analysis.svelte.ts:361-382`). -/
def removeStep (steps : List (PipelineStep κ)) (id : String) : Option (List (PipelineStep κ)) :=
  match steps.find? (·.id = id) with
  | none => none
  | some removed =>
    some ((steps.filter (·.id ≠ id)).map fun s =>
      if id ∈ s.dependsOn then { s with dependsOn := (truthy removed.dependsOn.head?).toList }
      else s)

/-- The step that `moveStep` unlinks from the one it moves (`analysis.svelte.ts:405-406`). -/
def dependentStep (steps : List (PipelineStep κ)) (moving : PipelineStep κ) :
    Option (PipelineStep κ) :=
  if isChartStep moving.type then none else steps.find? (moving.id ∈ ·.dependsOn)

/-- Relinking the dependent step, if there is one (`analysis.svelte.ts:411-420`). -/
def unlink (steps : List (PipelineStep κ)) (dependent : Option (PipelineStep κ))
    (dependsOn : List String) : List (PipelineStep κ) :=
  match dependent with
  | none => steps
  | some dependent => relink steps dependent.id dependsOn

/-- `moveStep` (`analysis.svelte.ts:388-449`). -/
def moveStep (steps : List (PipelineStep κ)) (stepId : String) (toIndex : ℕ)
    (newParentId newNextId : Option String) : Option (List (PipelineStep κ)) :=
  match steps.find? (·.id = stepId) with
  | none => none
  | some moving =>
    let fromIndex := steps.findIdx (·.id = stepId)
    let removed := steps.eraseIdx fromIndex
    let unlinked := unlink removed (dependentStep steps moving)
      (truthy moving.dependsOn.head?).toList
    let moved := { moving with dependsOn := (truthy newParentId).toList }
    let actualToIndex := if fromIndex < toIndex then toIndex - 1 else toIndex
    let placed := splice unlinked actualToIndex moved
    match truthy newNextId with
    | none => some placed
    | some next =>
      some (if isChartStep moving.type then placed else relink placed next [stepId])

/-- A call of the editor. -/
inductive Call (κ : Type) where
  | addStep (step : PipelineStep κ)
  | insertStep (step : PipelineStep κ) (index : ℕ) (parentId nextId : Option String)
  | removeStep (id : String)
  | moveStep (stepId : String) (toIndex : ℕ) (newParentId newNextId : Option String)

/-- The steps after a call, or `none` if it leaves the tab as it is. -/
def Call.apply (steps : List (PipelineStep κ)) : Call κ → Option (List (PipelineStep κ))
  | .addStep step => some (Editor.addStep steps step)
  | .insertStep step index parentId nextId => Editor.insertStep steps step index parentId nextId
  | .removeStep id => Editor.removeStep steps id
  | .moveStep stepId toIndex newParentId newNextId =>
    Editor.moveStep steps stepId toIndex newParentId newNextId

/-- `buildTarget` (`components/pipeline/PipelineCanvas.svelte:144-150`): the parent and the next
step of a place in the list. -/
structure Target (steps : List (PipelineStep κ)) (index : ℕ) (parentId nextId : Option String) :
    Prop where
  index_le : index ≤ steps.length
  parent : parentId = if index = 0 then none else (steps[index - 1]?).map PipelineStep.id
  next : nextId = (steps[index]?).map PipelineStep.id

instance (steps : List (PipelineStep κ)) (index : ℕ) (parentId nextId : Option String) :
    Decidable (Target steps index parentId nextId) :=
  decidable_of_iff (index ≤ steps.length ∧
      (parentId = if index = 0 then none else (steps[index - 1]?).map PipelineStep.id) ∧
      nextId = (steps[index]?).map PipelineStep.id)
    ⟨fun h => ⟨h.1, h.2.1, h.2.2⟩, fun h => ⟨h.1, h.2, h.3⟩⟩

/-- The calls that the editor makes: new steps have fresh ids, and a parent and a next step are
adjacent in the list. -/
def Call.Valid (steps : List (PipelineStep κ)) : Call κ → Prop
  | .addStep step => step.id ≠ "" ∧ step.id ∉ ids steps
  | .insertStep step index parentId nextId =>
    step.id ≠ "" ∧ step.id ∉ ids steps ∧ Target steps index parentId nextId
  | .removeStep _ => True
  | .moveStep _ toIndex newParentId newNextId => Target steps toIndex newParentId newNextId

end DataForge.Editor
