import DataForge.Editor.Removal
import DataForge.Pipeline.Ancestors

/-!
# Applied steps in the editor and in the worker

`applySteps` (`src/packages/frontend/src/lib/utils/pipeline.ts:3-26`) against `apply_steps`
(`src/packages/worker/runtime/compute_utils.py:54-75`).
-/

namespace DataForge.Editor

open ReadCommitted

variable {κ : Type}

/-- `step.is_applied !== false`. -/
def PipelineStep.applied (s : PipelineStep κ) : Bool := s.isApplied != some false

/-- `map` (`pipeline.ts:7`): of several steps with one id the last one stays. -/
def stepMap (steps : List (PipelineStep κ)) : Table String (PipelineStep κ) :=
  steps.foldl (fun t s => t.put s.id (some s)) .empty

/-- `resolve` (`pipeline.ts:10-20`). The ids in `seen` are distinct, and all but the first one
stand in the map, so the fuel does not run out. -/
def resolve (map : Table String (PipelineStep κ)) (appliedIds : List String) :
    ℕ → List String → String → Option String
  | 0, _, _ => none
  | n + 1, seen, stepId =>
    match map.get stepId with
    | none => none
    | some step =>
      match truthy step.dependsOn.head? with
      | none => none
      | some parentId =>
        if parentId ∈ appliedIds then some parentId
        else if parentId ∈ seen then none
        else resolve map appliedIds n (parentId :: seen) parentId

/-- `applySteps` (`pipeline.ts:3-26`). -/
def applySteps (steps : List (PipelineStep κ)) : List (PipelineStep κ) :=
  let applied := steps.filter PipelineStep.applied
  let map := stepMap steps
  let appliedIds := ids applied
  applied.map fun step =>
    { step with dependsOn := (resolve map appliedIds (map.rows.length + 2) [] step.id).toList }

/-! ## The recursion ends -/

/-- The calls of `resolve` that return. -/
inductive Resolves (map : Table String (PipelineStep κ)) (appliedIds : List String) :
    List String → String → Option String → Prop
  | missing {seen stepId} : map.get stepId = none → Resolves map appliedIds seen stepId none
  | root {seen stepId step} : map.get stepId = some step → truthy step.dependsOn.head? = none →
      Resolves map appliedIds seen stepId none
  | applied {seen stepId step parentId} : map.get stepId = some step →
      truthy step.dependsOn.head? = some parentId → parentId ∈ appliedIds →
      Resolves map appliedIds seen stepId (some parentId)
  | seen {seen stepId step parentId} : map.get stepId = some step →
      truthy step.dependsOn.head? = some parentId → parentId ∉ appliedIds → parentId ∈ seen →
      Resolves map appliedIds seen stepId none
  | next {seen stepId step parentId found} : map.get stepId = some step →
      truthy step.dependsOn.head? = some parentId → parentId ∉ appliedIds → parentId ∉ seen →
      Resolves map appliedIds (parentId :: seen) parentId found →
      Resolves map appliedIds seen stepId found

/-- Every id in `seen` but the one looked at has a row, so only as many are looked at as the map
has rows, and one more. -/
theorem resolves_resolve (map : Table String (PipelineStep κ)) (appliedIds : List String) (n : ℕ)
    {seen : List String} {stepId : String} (hnodup : seen.Nodup)
    (hrow : ∀ id ∈ seen, id = stepId ∨ id ∈ map.rows.map Prod.fst)
    (hlen : map.rows.length + 1 < seen.length + n) :
    Resolves map appliedIds seen stepId (resolve map appliedIds n seen stepId) := by
  induction n generalizing seen stepId with
  | zero =>
    have hsub : seen ⊆ stepId :: map.rows.map Prod.fst := fun id hid =>
      List.mem_cons.mpr (hrow id hid)
    have hle := (List.subperm_of_subset hnodup hsub).length_le
    rw [List.length_cons, List.length_map] at hle
    omega
  | succ n ih =>
    rw [resolve]
    cases hget : map.get stepId with
    | none => exact .missing hget
    | some step =>
      dsimp only
      cases hparent : truthy step.dependsOn.head? with
      | none => exact .root hget hparent
      | some parentId =>
        dsimp only
        by_cases ha : parentId ∈ appliedIds
        · rw [if_pos ha]
          exact .applied hget hparent ha
        rw [if_neg ha]
        by_cases hs : parentId ∈ seen
        · rw [if_pos hs]
          exact .seen hget hparent ha hs
        rw [if_neg hs]
        refine .next hget hparent ha hs (ih (List.nodup_cons.mpr ⟨hs, hnodup⟩) ?_ ?_)
        · intro id hid
          rcases List.mem_cons.mp hid with rfl | hid
          · exact .inl rfl
          · right
            rcases hrow id hid with rfl | hmem
            · exact List.mem_map.mpr ⟨_, (map.mem_rows_iff _ _).mpr hget, rfl⟩
            · exact hmem
        · rw [List.length_cons]
          omega

/-- Every call of `resolve` that `applySteps` makes returns, and gives the step its dependency. -/
def Terminates (steps : List (PipelineStep κ)) : Prop :=
  List.Forall₂ (fun s s' => ∃ found, Resolves (stepMap steps)
      (ids (steps.filter PipelineStep.applied)) [] s.id found ∧
      s' = { s with dependsOn := found.toList })
    (steps.filter PipelineStep.applied) (applySteps steps)

theorem resolves_start (map : Table String (PipelineStep κ)) (appliedIds : List String)
    (stepId : String) :
    Resolves map appliedIds [] stepId
      (resolve map appliedIds (map.rows.length + 2) [] stepId) := by
  apply resolves_resolve
  · exact List.nodup_nil
  · exact fun id hid => absurd hid List.not_mem_nil
  · rw [List.length_nil]
    omega

theorem applySteps_terminates (steps : List (PipelineStep κ)) : Terminates steps := by
  unfold Terminates applySteps
  dsimp only
  rw [List.forall₂_map_right_iff, List.forall₂_same]
  exact fun s _ => ⟨_, resolves_start _ _ _, rfl⟩

/-! ## The worker's loop -/

section Agree

variable {steps : List (PipelineStep κ)}

theorem get_stepMap {id : String} (hid : id ≠ "") :
    (Pipeline.buildStepMap (steps.map saved)).get id = ((stepMap steps).get id).map saved := by
  rw [Pipeline.get_buildStepMap_last _ hid, Pipeline.lastStep, stepMap, Table.get_foldl_put,
    Table.get_empty, Option.or_none, ← List.map_reverse, List.find?_map]
  rfl

/-- A call of `resolve` that returns makes the loop of the worker end with the same id. -/
theorem Resolves.climbs {appliedIds seen : List String} {stepId : String} {found : Option String}
    (h : Resolves (stepMap steps) appliedIds seen stepId found) (hid : stepId ≠ "") :
    match ((Pipeline.buildStepMap (steps.map saved)).get stepId).bind Pipeline.Step.dependency with
    | none => found = none
    | some parentId =>
      Pipeline.Climbs (Pipeline.buildStepMap (steps.map saved)) appliedIds seen parentId found := by
  have hdep : ∀ {stepId step}, stepId ≠ "" → (stepMap steps).get stepId = some step →
      ((Pipeline.buildStepMap (steps.map saved)).get stepId).bind Pipeline.Step.dependency =
        truthy step.dependsOn.head? := by
    intro stepId step hid hget
    rw [get_stepMap hid, hget]
    rfl
  induction h with
  | missing hget =>
    rw [get_stepMap hid, hget]
    rfl
  | root hget hparent => rw [hdep hid hget, hparent]
  | applied hget hparent ha =>
    rw [hdep hid hget, hparent]
    exact .applied ha
  | seen hget hparent ha hs =>
    rw [hdep hid hget, hparent]
    exact .seen ha hs
  | @next seen stepId step parentId found hget hparent ha hs _ ih =>
    rw [hdep hid hget, hparent]
    have hne : parentId ≠ "" := by simpa using (Option.filter_eq_some_iff.mp hparent).2
    have hnext := ih hne
    cases hd : ((Pipeline.buildStepMap (steps.map saved)).get parentId).bind
        Pipeline.Step.dependency with
    | none =>
      rw [hd] at hnext
      rw [hnext]
      exact .root ha hs hd
    | some q =>
      rw [hd] at hnext
      exact .next ha hs hd hnext

theorem resolve_eq_nearestAppliedAncestor (appliedIds : List String) {stepId : String}
    (hid : stepId ≠ "") :
    resolve (stepMap steps) appliedIds ((stepMap steps).rows.length + 2) [] stepId =
      Pipeline.nearestAppliedAncestor stepId (Pipeline.buildStepMap (steps.map saved))
        appliedIds := by
  have hclimbs := (resolves_start (stepMap steps) appliedIds stepId).climbs hid
  have hfinds := Pipeline.finds_nearestAppliedAncestor
    (Pipeline.buildStepMap (steps.map saved)) appliedIds stepId
  unfold Pipeline.Finds at hfinds
  cases hd : ((Pipeline.buildStepMap (steps.map saved)).get stepId).bind
      Pipeline.Step.dependency with
  | none =>
    rw [hd] at hclimbs hfinds
    rw [hclimbs, hfinds]
  | some parentId =>
    rw [hd] at hclimbs hfinds
    exact hclimbs.unique hfinds

/-- Of any steps, repeated ids, dangling dependencies and cycles included, the editor and the
worker keep the same ones, in the same order and with the same dependencies, and both end; unless
an applied step has the empty id. -/
theorem applySteps_agree (steps : List (PipelineStep κ))
    (hid : ∀ s ∈ steps, s.applied = true → s.id ≠ "") :
    (applySteps steps).map saved = Pipeline.applySteps (steps.map saved) ∧
      Terminates steps ∧ Pipeline.Terminates (steps.map saved) := by
  refine ⟨?_, applySteps_terminates steps, Pipeline.applySteps_terminates _⟩
  have hfilter : (steps.map saved).filter Pipeline.Step.applied =
      (steps.filter PipelineStep.applied).map saved := by
    rw [List.filter_map]
    rfl
  have happlied : ((((steps.filter PipelineStep.applied).map saved).map Pipeline.Step.id).filter
      (· ≠ "")) = ids (steps.filter PipelineStep.applied) := by
    have hids : ((steps.filter PipelineStep.applied).map saved).map Pipeline.Step.id =
        ids (steps.filter PipelineStep.applied) := List.map_map
    rw [hids, List.filter_eq_self]
    intro id hmem
    obtain ⟨s, hs, rfl⟩ := List.mem_map.mp hmem
    obtain ⟨hs, happ⟩ := List.mem_filter.mp hs
    exact decide_eq_true (hid s hs happ)
  unfold applySteps Pipeline.applySteps
  dsimp only
  rw [hfilter, happlied, List.map_map, List.map_map]
  refine List.map_congr_left fun s hs => ?_
  obtain ⟨hs, happ⟩ := List.mem_filter.mp hs
  have hne : (saved s).id ≠ "" := hid s hs happ
  rw [Function.comp_apply, Function.comp_apply, if_neg hne,
    ← resolve_eq_nearestAppliedAncestor _ hne]
  rfl

end Agree

/-- Disabled steps that depend on each other, a dangling dependency and an id that stands
twice. -/
def tangled : List (PipelineStep Unit) :=
  [⟨"a", "filter", (), ["b"], some false⟩, ⟨"b", "filter", (), ["a"], some false⟩,
    ⟨"c", "filter", (), ["a", "d"], none⟩, ⟨"d", "filter", (), ["gone"], none⟩,
    ⟨"d", "filter", (), ["c"], none⟩]

theorem applySteps_agree_tangled :
    (applySteps tangled).map saved = Pipeline.applySteps (tangled.map saved) ∧
      Terminates tangled ∧ Pipeline.Terminates (tangled.map saved) :=
  applySteps_agree tangled (by decide)

/-- The worker leaves the dependencies of a step with the empty id as they are. -/
theorem applySteps_disagree_unnamed :
    (applySteps [(⟨"", "filter", (), ["gone"], none⟩ : PipelineStep Unit)]).map saved ≠
      Pipeline.applySteps ([⟨"", "filter", (), ["gone"], none⟩].map saved) := by
  intro h
  have hdeps := congrArg (List.map Pipeline.Step.dependsOn) h
  exact absurd hdeps (by decide)

end DataForge.Editor

