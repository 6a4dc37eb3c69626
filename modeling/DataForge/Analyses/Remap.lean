import DataForge.Analyses.Service
import DataForge.Effects.Except

/-!
# Copies of a pipeline with new ids

`duplicate_analysis` and `_rewrite_import_payload` (`modules/analysis/service.py:132-214`,
`:482-559`) give the tabs, outputs and steps of a pipeline new ids, keep three dictionaries of
them and rewrite the references by these. The shape that both check first is the type of
pipelines here.
-/

namespace DataForge.Analyses

/-- The value that a dictionary filled with these entries has for a key. -/
def last {β : Type} (entries : List (String × β)) (key : String) : Option β :=
  entries.reverse.lookup key

/-- The ids drawn for the tabs, outputs and steps, by their places. -/
structure FreshIds where
  tab : ℕ → String
  output : ℕ → String
  step : ℕ × ℕ → String

/-- How the two functions word their failures. -/
structure Wording where
  subject : String
  upstream : String

/-- A failure about a missing tab or output. -/
def Wording.missing (w : Wording) (what id : String) : Failure :=
  .valueError (w.subject ++ " references missing " ++ what ++ " '" ++ id ++ "'")

variable {κ δ : Type}

/-- A configuration with its sources renamed. -/
def StepConfig.mapSources (f : String → String) (config : StepConfig κ) : StepConfig κ :=
  { config with
    rightSource :=
      match config.rightSource with
      | some (.str r) => some (.str (f r))
      | v => v
    sources :=
      match config.sources with
      | some (.list items) => some (.list (items.map (Option.map f)))
      | v => v }

section Maps

variable (F : FreshIds) (tabs : List (PipelineTab κ δ))

/-- The ids of the outputs. -/
def resultIds : List String := tabs.map PipelineTab.resultId

/-- The places of the tabs. -/
def tabPlaces : List (String × ℕ) := (tabs.map PipelineTab.id).zipIdx

/-- The places of the outputs. -/
def outputPlaces : List (String × ℕ) := (resultIds tabs).zipIdx

/-- The places of the steps, over all tabs. -/
def stepPlaces : List (String × ℕ × ℕ) :=
  tabs.zipIdx.flatMap fun p => p.1.steps.zipIdx.map fun q => (q.1.id, p.2, q.2)

/-- `tab_id_map`. -/
def tabIdMap (id : String) : Option String := (last (tabPlaces tabs) id).map F.tab

/-- `output_id_map`. -/
def outputIdMap (id : String) : Option String := (last (outputPlaces tabs) id).map F.output

/-- `step_id_map`. -/
def allStepIdMap (id : String) : Option String := (last (stepPlaces tabs) id).map F.step

variable (remap : String → Option String)

/-- `{**datasource_remap, **tab_id_map, **output_id_map}`. -/
def sourceIdMap (id : String) : Option String :=
  (outputIdMap F tabs id).or ((tabIdMap F tabs id).or (remap id))

/-- `_remap_step_references` (`service.py:198-214`) on a step that has its new id. -/
def remapStep (step : PipelineStep κ) : PipelineStep κ :=
  { step with
    dependsOn := step.dependsOn.map fun dep => (allStepIdMap F tabs dep).getD dep
    config := step.config.mapSources fun r => (sourceIdMap F tabs remap r).getD r }

/-- The parent of a tab (`service.py:171-176`, `:531-536`). -/
def remapParent (w : Wording) (parentId : Option String) : Except Failure (Option String) :=
  match parentId with
  | none => .ok none
  | some parentId =>
    match tabIdMap F tabs parentId with
    | some mapped => .ok (some mapped)
    | none => .error (w.missing "parent tab" parentId)

/-- The input of a tab (`service.py:177-192`, `:537-548`). -/
def remapDatasource (w : Wording) (datasource : TabDatasource) :
    Except Failure TabDatasource :=
  match datasource.analysisTabId with
  | some upstream =>
    match tabIdMap F tabs upstream, outputIdMap F tabs datasource.id with
    | none, _ => .error (w.missing (w.upstream ++ "tab") upstream)
    | some _, none => .error (w.missing (w.upstream ++ "output") datasource.id)
    | some tabId, some id => .ok { id, analysisTabId := some tabId }
  | none => .ok { datasource with id := (remap datasource.id).getD datasource.id }

/-- What both functions make of a tab. -/
def rewriteTab (w : Wording) (place : ℕ) (tab : PipelineTab κ δ) :
    Except Failure (PipelineTab κ δ) := do
  let parentId ← remapParent F tabs w tab.parentId
  let datasource ← remapDatasource F tabs remap w tab.datasource
  return { tab with
    id := F.tab place, resultId := F.output place, parentId, datasource
    steps := tab.steps.mapIdx fun j s =>
      remapStep F tabs remap { s with id := F.step (place, j) } }

/-- The copy of a pipeline. -/
def rewriteTabs (w : Wording) : Except Failure (List (PipelineTab κ δ)) :=
  tabs.zipIdx.mapM fun p => rewriteTab F tabs remap w p.2 p.1

end Maps

/-- A tab with all its steps applied. -/
def PipelineTab.enabled (tab : PipelineTab κ δ) : PipelineTab κ δ :=
  { tab with steps := tab.steps.map fun s => { s with isApplied := some true } }

/-- `_rewrite_import_payload` (`service.py:132-195`). -/
def rewriteImportPayload (F : FreshIds) (remap : String → Option String)
    (tabs : List (PipelineTab κ δ)) : Except Failure (List (PipelineTab κ δ)) :=
  rewriteTabs F (tabs.map PipelineTab.enabled) remap ⟨"Imported tab", "upstream "⟩

/-! ## Duplicating an analysis -/

/-- `[a-z0-9]`. -/
def isSlugChar (c : Char) : Bool := ('a' ≤ c ∧ c ≤ 'z') ∨ ('0' ≤ c ∧ c ≤ '9')

/-- `re.sub(r'[^a-z0-9]+', '_', ...)`; the flag says that a run has been replaced. -/
def subRuns : Bool → List Char → List Char
  | _, [] => []
  | inRun, c :: cs =>
    if isSlugChar c then c :: subRuns false cs
    else if inRun then subRuns true cs
    else '_' :: subRuns true cs

/-- How outputs are named: `str.lower`, and the `filename`, `table_name` and `branch` that
`duplicate_analysis` sets (`service.py:512-517`). -/
structure Naming (δ : Type) where
  lower : String → String
  setOutputName : String → δ → δ

variable (N : Naming δ)

/-- `export_slug` (`modules/export/generators.py:63-65`). -/
def Naming.exportSlug (value fallback : String) : String :=
  let replaced := subRuns false (N.lower (Compute.strip value)).toList
  let slug := String.ofList ((replaced.dropWhile (· = '_')).rdropWhile (· = '_'))
  if slug = "" then fallback else slug

/-- `_default_output_name` (`service.py:97-98`), which `duplicate_analysis` calls with the
name of the tab or a substitute. -/
def Naming.defaultOutputName (analysisName tabName : String) (index : ℕ) : String :=
  let tabName := if tabName = "" then "tab_" ++ toString (index + 1) else tabName
  N.exportSlug (analysisName ++ "_" ++ tabName) "analysis"

/-- The tabs with the names of their new outputs. -/
def Naming.name (analysisName : String) (tabs : List (PipelineTab κ δ)) :
    List (PipelineTab κ δ) :=
  tabs.mapIdx fun i t =>
    { t with rest := N.setOutputName (N.defaultOutputName analysisName t.name i) t.rest }

/-- The tabs that `duplicate_analysis` (`service.py:482-559`) creates an analysis of. -/
def duplicateTabs (F : FreshIds) (name : String) (tabs : List (PipelineTab κ δ)) :
    Except Failure (List (PipelineTab κ δ)) :=
  rewriteTabs F (N.name name tabs) (fun _ => none) ⟨"Duplicate source", ""⟩

/-- `duplicate_analysis`: the tabs it stores. -/
def duplicateAnalysis (R : Rules κ δ) (v : View) (F : FreshIds) (newId name : String)
    (tabs : List (PipelineTab κ δ)) : Except Failure (List (PipelineTab κ δ)) := do
  let copy ← duplicateTabs N F name tabs
  let (stored, _) ← v.validateAnalysisPayload R (some newId) copy
  return stored

end DataForge.Analyses
