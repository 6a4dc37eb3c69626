import DataForge.ReadCommitted.Table
import DataForge.Forest.Order

/-!
# Steps of a pipeline tab

`src/packages/worker/runtime/compute_utils.py:10-91` and `compute_service.py:1113-1118`. A tab is
a list of steps, each of which reads the result of at most one other step; a step that is not
applied is skipped, and its dependents read the result of its nearest applied ancestor.
-/

namespace DataForge.Pipeline

open ReadCommitted

/-- A step. `id` is empty when the step has none; `body` holds its type and configuration. -/
structure Step (κ : Type) where
  id : String
  dependsOn : List String
  isApplied : Option Bool
  body : κ

variable {κ : Type}

/-- `is_step_applied`. -/
def Step.applied (s : Step κ) : Bool := s.isApplied != some false

/-- The first dependency, unless it is empty. -/
def Step.dependency (s : Step κ) : Option String := s.dependsOn.head?.filter (· ≠ "")

/-- `find_step_index` (`compute_utils.py:10-16`). -/
def findStepIndex (steps : List (Step κ)) (target : String) : Except String ℤ :=
  if target = "source" then .ok (-1)
  else
    match steps.findIdx? fun s => s.id = target with
    | some i => .ok i
    | none => .error ("Step with id " ++ target ++ " not found in pipeline")

/-- `_build_step_map`. -/
def buildStepMap (steps : List (Step κ)) : Table String (Step κ) :=
  (steps.filter fun s => s.id ≠ "").foldl (fun t s => t.put s.id (some s)) .empty

/-- The loop of `_nearest_applied_ancestor`. The ids in `seen` are distinct and stand in the
map, so the fuel does not run out. -/
def climb (stepMap : Table String (Step κ)) (appliedIds : List String) :
    ℕ → List String → String → Option String
  | 0, _, _ => none
  | n + 1, seen, parentId =>
    if parentId ∈ appliedIds then some parentId
    else if parentId ∈ seen then none
    else
      match (stepMap.get parentId).bind Step.dependency with
      | none => none
      | some next => climb stepMap appliedIds n (parentId :: seen) next

/-- `_nearest_applied_ancestor` (`compute_utils.py:27-51`). -/
def nearestAppliedAncestor (stepId : String) (stepMap : Table String (Step κ))
    (appliedIds : List String) : Option String :=
  match (stepMap.get stepId).bind Step.dependency with
  | none => none
  | some parentId => climb stepMap appliedIds (stepMap.rows.length + 1) [] parentId

/-- `apply_steps` (`compute_utils.py:54-75`). -/
def applySteps (steps : List (Step κ)) : List (Step κ) :=
  let applied := steps.filter Step.applied
  let appliedIds := (applied.map Step.id).filter (· ≠ "")
  applied.map fun s =>
    if s.id = "" then s
    else { s with
      dependsOn := (nearestAppliedAncestor s.id (buildStepMap steps) appliedIds).toList }

/-- `resolve_applied_target` (`compute_utils.py:78-91`). -/
def resolveAppliedTarget (steps : List (Step κ)) (target : String) : String :=
  if target = "source" then "source"
  else
    let stepMap := buildStepMap steps
    match stepMap.get target with
    | none => "source"
    | some s =>
      if s.applied then target
      else
        let appliedIds := (stepMap.rows.filter fun p => p.2.applied).map Prod.fst
        (nearestAppliedAncestor target stepMap appliedIds).getD "source"

/-- `_steps_through_target` (`compute_service.py:1113-1118`). `hydrate` attaches library UDF
code to a configuration. -/
def stepsThroughTarget (hydrate : κ → Except String κ) (steps : List (Step κ))
    (target : String) : Except String (List (Step κ)) :=
  if target = "source" then .ok []
  else do
    let applied := applySteps steps
    let i ← findStepIndex applied target
    (applied.take (i + 1).toNat).mapM fun s => return { s with body := ← hydrate s.body }

/-! ## The dependency graph -/

/-- The ids of the steps, in list order. -/
def ids (steps : List (Step κ)) : List String := steps.map Step.id

theorem find?_id {steps : List (Step κ)} (hu : (ids steps).Nodup) {s : Step κ} (hs : s ∈ steps) :
    steps.find? (fun x => x.id = s.id) = some s := by
  cases hfind : steps.find? fun x => x.id = s.id with
  | none => simpa using List.find?_eq_none.mp hfind s hs
  | some x =>
    have hx : x.id = s.id := by simpa using List.find?_some hfind
    rw [List.inj_on_of_nodup_map hu (List.mem_of_find?_eq_some hfind) hs hx]

/-- The step that a step depends on, if it is in the list. -/
def dependencyOf (steps : List (Step κ)) (id : String) : Option String :=
  ((steps.find? fun s => s.id = id).bind Step.dependency).filter (· ∈ ids steps)

/-- Steps with unique, non-empty ids and at most one dependency each, without a cycle. -/
structure Proper (steps : List (Step κ)) : Prop where
  unique : (ids steps).Nodup
  named : ∀ s ∈ steps, s.id ≠ ""
  single : ∀ s ∈ steps, s.dependsOn.length ≤ 1
  acyclic : ∀ id, ¬ Relation.TransGen (fun a b => dependencyOf steps a = some b) id id

/-- The dependency graph of steps. -/
def Proper.forest {steps : List (Step κ)} (h : Proper steps) : Forest String where
  nodes := ids steps
  parent := dependencyOf steps
  nodup := h.unique
  closed x _ p hp := by
    obtain ⟨_, hm⟩ := Option.filter_eq_some_iff.mp hp
    simpa using hm
  acyclic x _ := h.acyclic x

/-! ## Steps with the same wiring -/

variable {κ' : Type} (f : Step κ → Step κ')

theorem ids_map (hid : ∀ s, (f s).id = s.id) (steps : List (Step κ)) :
    ids (steps.map f) = ids steps := by
  simp [ids, Function.comp_def, hid]

theorem dependencyOf_map (hid : ∀ s, (f s).id = s.id) (hdep : ∀ s, (f s).dependsOn = s.dependsOn)
    (steps : List (Step κ)) (id : String) :
    dependencyOf (steps.map f) id = dependencyOf steps id := by
  unfold dependencyOf
  rw [ids_map f hid, List.find?_map]
  have hfun : (fun s : Step κ' => decide (s.id = id)) ∘ f = fun s => decide (s.id = id) := by
    funext s
    rw [Function.comp_apply, hid]
  rw [hfun]
  cases steps.find? fun s => s.id = id with
  | none => rfl
  | some s => simp [Step.dependency, hdep]

theorem Proper.map (hid : ∀ s, (f s).id = s.id) (hdep : ∀ s, (f s).dependsOn = s.dependsOn)
    {steps : List (Step κ)} (h : Proper steps) : Proper (steps.map f) where
  unique := by
    rw [ids_map f hid]
    exact h.unique
  named s hs := by
    obtain ⟨x, hx, rfl⟩ := List.mem_map.mp hs
    rw [hid]
    exact h.named x hx
  single s hs := by
    obtain ⟨x, hx, rfl⟩ := List.mem_map.mp hs
    rw [hdep]
    exact h.single x hx
  acyclic id := by
    simp only [dependencyOf_map f hid hdep]
    exact h.acyclic id

end DataForge.Pipeline
