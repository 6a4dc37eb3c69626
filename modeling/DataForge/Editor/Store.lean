import DataForge.Editor.Steps
import Mathlib.Logic.Relation

/-!
# The analysis store of the editor

`AnalysisStore` (`src/packages/frontend/src/lib/stores/analysis.svelte.ts`) with the requests it
has sent: loads and saves are answered later, in any order, and edits go on in between. A load is
guarded by a token, so the answer to one that was overtaken changes nothing. The answer to a save
is applied in any case: it meets what the editor needs exactly when the analysis is still the
current one and was not edited since.
-/

namespace DataForge.Editor

/-- `AnalysisTab`: a tab with its steps, the rest in `δ`. -/
structure Tab (κ δ : Type) where
  id : String
  steps : List (PipelineStep κ)
  rest : δ
deriving DecidableEq

/-- `Analysis`, as far as the store reads it. -/
structure Analysis (κ δ : Type) where
  id : String
  name : String
  description : Option String
  tabs : Option (List (Tab κ δ))
deriving DecidableEq

/-- The fields of the store that loads, saves and edits touch. -/
structure AnalysisStore (κ δ : Type) where
  current : Option (Analysis κ δ) := none
  tabs : List (Tab κ δ) := []
  savedTabs : List (Tab κ δ) := []
  activeTabId : Option String := none
  loading : Bool := false
  error : Option String := none
  loadId : ℕ := 0
  lastSaved : Option (String × Option String) := none
  currentRevision : Option String := none
deriving DecidableEq

/-- The functions on tabs that the store calls: `normalizeTabSteps` with `ensureTabDefaults`, which
throws on malformed tabs, and the messages of `validatePipelineTabs`. -/
structure TabRules (κ δ : Type) where
  sanitize : List (Tab κ δ) → Option (List (Tab κ δ))
  validatePipelineTabs : List (Tab κ δ) → List String

/-- `Partial<PipelineStep>`. -/
structure StepUpdate (κ : Type) where
  id : Option String := none
  type : Option String := none
  config : Option κ := none
  dependsOn : Option (List String) := none
  isApplied : Option (Option Bool) := none

/-- The local edits. -/
inductive Edit (κ : Type) where
  | steps (call : Call κ)
  | updateStep (id : String) (updates : StepUpdate κ)
  | update (name : Option String) (description : Option (Option String))

namespace AnalysisStore

variable {κ δ : Type} (R : TabRules κ δ) (s : AnalysisStore κ δ)

/-- `activeTab` (`analysis.svelte.ts:46-48`). -/
def activeTab : Option (Tab κ δ) :=
  (s.tabs.find? fun tab => s.activeTabId = some tab.id).or s.tabs.head?

/-- `updateTabSteps` (`analysis.svelte.ts:298-300`). -/
def updateTabSteps (tabId : String) (steps : List (PipelineStep κ)) : AnalysisStore κ δ :=
  { s with tabs := s.tabs.map fun tab => if tab.id = tabId then { tab with steps } else tab }

/-- `setTabs` (`analysis.svelte.ts:148-154`). -/
def setTabs (tabs : List (Tab κ δ)) : AnalysisStore κ δ :=
  { s with
    tabs
    activeTabId :=
      if (truthy s.activeTabId).any fun id => tabs.any (·.id = id) then s.activeTabId
      else tabs.head?.map Tab.id }

/-- `applyTabs` (`analysis.svelte.ts:156-162`). -/
def applyTabs (tabs : List (Tab κ δ)) : AnalysisStore κ δ :=
  match R.sanitize tabs with
  | none => s
  | some sanitized =>
    { s.setTabs sanitized with savedTabs := sanitized, loading := false, error := none }

/-- `applyDetail` with `resolveTabs` (`analysis.svelte.ts:94-108`). -/
def applyDetail (analysis : Analysis κ δ) (revision : String) : AnalysisStore κ δ :=
  applyTabs R
    { s with
      current := some analysis
      currentRevision := some revision
      lastSaved := some (analysis.name, analysis.description) }
    (analysis.tabs.getD [])

/-- `isDirty` (`analysis.svelte.ts:110-119`). -/
def isDirty [DecidableEq κ] [DecidableEq δ] : Bool :=
  match s.current with
  | none => false
  | some current =>
    let saved := s.lastSaved.getD (current.name, current.description)
    (current.name ≠ saved.1 || current.description ≠ saved.2) || s.tabs ≠ s.savedTabs

/-- `reset` (`analysis.svelte.ts:511-523`). -/
def reset : AnalysisStore κ δ :=
  { s with
    current := none, currentRevision := none, tabs := [], savedTabs := [], activeTabId := none
    lastSaved := none, loading := false, error := none }

/-- `updateStep` (`analysis.svelte.ts:334-346`) on one step. -/
def updateOne (updates : StepUpdate κ) (step : PipelineStep κ) : PipelineStep κ where
  id := updates.id.getD step.id
  type := updates.type.getD step.type
  config := updates.config.getD step.config
  dependsOn := updates.dependsOn.getD step.dependsOn
  isApplied := updates.isApplied.getD step.isApplied

/-- A local edit (`analysis.svelte.ts:135-146, 302-449, 498-501`). -/
def edit : Edit κ → AnalysisStore κ δ
  | .steps call =>
    match s.activeTab with
    | none => s
    | some tab =>
      match call.apply tab.steps with
      | none => s
      | some steps => s.updateTabSteps tab.id steps
  | .updateStep id updates =>
    match s.activeTab with
    | none => s
    | some tab => s.updateTabSteps tab.id
        (tab.steps.map fun step => if step.id = id then updateOne updates step else step)
  | .update name description =>
    { s with
      current := s.current.map fun current =>
        { current with
          name := name.getD current.name
          description := description.getD current.description } }

/-- What the user edits: the tabs, the name and the description. -/
def draft : List (Tab κ δ) × Option (String × Option String) :=
  (s.tabs, s.current.map fun current => (current.name, current.description))

end AnalysisStore

/-- A request in flight. A load carries its token; a save is kept with the draft it sent and
whether the user has edited that since. -/
inductive Request (κ δ : Type) where
  | load (token : ℕ) (id : String)
  | save (id : String) (draft : List (Tab κ δ) × Option (String × Option String)) (edited : Bool)
deriving DecidableEq

namespace Request

variable {κ δ : Type}

/-- The analysis a request is about. -/
def id : Request κ δ → String
  | .load _ id => id
  | .save id _ _ => id

/-- The request with its edit mark. -/
def mark (edited : Bool) : Request κ δ → Request κ δ
  | .load token id => .load token id
  | .save id draft _ => .save id draft edited

@[simp] theorem id_mark (edited : Bool) (r : Request κ δ) : (r.mark edited).id = r.id := by
  cases r <;> rfl

end Request

/-- An answer. -/
inductive Response (κ δ : Type) where
  | detail (analysis : Analysis κ δ) (revision : String)
  | notModified
  | error (message : String)

/-- The answers that a request can have: the analysis asked for, or an error; a load may be told
that nothing changed. -/
def Response.Fits {κ δ : Type} (request : Request κ δ) : Response κ δ → Prop
  | .detail analysis _ => analysis.id = request.id
  | .notModified => ∃ token id, request = .load token id
  | .error _ => True

namespace AnalysisStore

variable {κ δ : Type} (R : TabRules κ δ) (s : AnalysisStore κ δ)

/-- The continuations of `loadAnalysis` (`analysis.svelte.ts:80-91`) and of `save`
(`analysis.svelte.ts:486-495`). -/
def receive : Request κ δ → Response κ δ → AnalysisStore κ δ
  | .load token _, .detail analysis revision =>
    if s.loadId ≠ token then s else s.applyDetail R analysis revision
  | .load _ _, .notModified => s
  | .load token _, .error message =>
    if s.loadId ≠ token then s else { s with error := some message, loading := false }
  | .save _ _ _, .detail analysis revision => s.applyDetail R analysis revision
  | .save _ _ _, .notModified => s
  | .save _ _ _, .error message => { s with error := some message, loading := false }

end AnalysisStore

/-- The store, the requests in flight, and the analysis that was asked for last. -/
structure System (κ δ : Type) where
  store : AnalysisStore κ δ := {}
  pending : List (Request κ δ) := []
  viewed : Option String := none

/-- What happens at the editor. -/
inductive Event (κ δ : Type) where
  | loadAnalysis (id : String)
  | save
  | edit (e : Edit κ)
  | respond (i : ℕ) (response : Response κ δ)

namespace System

variable {κ δ : Type} [DecidableEq κ] [DecidableEq δ] (R : TabRules κ δ) (s : System κ δ)

/-- `loadAnalysis` up to its request (`analysis.svelte.ts:72-78`). It drops the draft, and with it
the edits that a save in flight has not seen. -/
def loadAnalysis (id : String) : System κ δ :=
  let token := s.store.loadId + 1
  { store := { s.store.reset with loadId := token, loading := true, error := none }
    pending := s.pending.map (Request.mark false) ++ [.load token id]
    viewed := some id }

/-- `save` up to its request (`analysis.svelte.ts:451-485`). -/
def save : System κ δ :=
  match s.store.current with
  | none => { s with store := { s.store with loading := false } }
  | some current =>
    let idle := { s with store := { s.store with loading := false, error := none } }
    if R.validatePipelineTabs s.store.tabs ≠ [] then idle
    else if s.store.currentRevision = none then idle
    else
      { s with
        store := { s.store with loading := true, error := none }
        pending := s.pending ++ [.save current.id s.store.draft false] }

/-- A local edit; the saves in flight have not seen what it changes. -/
def edit (e : Edit κ) : System κ δ :=
  let store := s.store.edit e
  { s with
    store
    pending := if store.draft = s.store.draft then s.pending
      else s.pending.map (Request.mark true) }

/-- The arrival of an answer. -/
def respond (i : ℕ) (request : Request κ δ) (response : Response κ δ) : System κ δ :=
  { s with store := s.store.receive R request response, pending := s.pending.eraseIdx i }

end System

/-- One event. -/
inductive System.Step {κ δ : Type} [DecidableEq κ] [DecidableEq δ] (R : TabRules κ δ) :
    System κ δ → Event κ δ → System κ δ → Prop
  | loadAnalysis {s} (id : String) : Step R s (.loadAnalysis id) (s.loadAnalysis id)
  | save {s} : Step R s .save (s.save R)
  | edit {s} (e : Edit κ) : Step R s (.edit e) (s.edit e)
  | respond {s} {i : ℕ} {request : Request κ δ} {response : Response κ δ} :
    s.pending[i]? = some request → response.Fits request →
    Step R s (.respond i response) (s.respond R i request response)

end DataForge.Editor

