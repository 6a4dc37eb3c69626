import DataForge.Analyses.Edits
import DataForge.Editor.Order
import DataForge.Pipeline.Removed

/-!
# Removing a step in the service and in the editor

The steps of a tab after `remove_step` (`modules/analysis/service.py:911-934`) and after the
editor's `removeStep`, as the worker reads both, against the tab with the step disabled.
-/

namespace DataForge.Editor

open Analyses Effects

variable {κ δ : Type}

/-- A stored step as the worker reads it. -/
def stored (s : Analyses.PipelineStep κ) : Pipeline.Step (String × StepConfig κ) :=
  ⟨s.id, s.dependsOn, s.isApplied, (s.type, s.config)⟩

/-- A stored step as the editor loads it. -/
def loaded (s : Analyses.PipelineStep κ) : PipelineStep (StepConfig κ) :=
  ⟨s.id, s.type, s.config, s.dependsOn, s.isApplied⟩

/-- A step of the editor as the worker reads it. -/
def saved (s : PipelineStep κ) : Pipeline.Step (String × κ) :=
  ⟨s.id, s.dependsOn, s.isApplied, (s.type, s.config)⟩

/-- The steps of the tab after `remove_step`. -/
def serverSteps (tabs : List (PipelineTab κ δ)) (tabId stepId : String) :
    Except Failure (List (Pipeline.Step (String × StepConfig κ))) := do
  let tabs ← Analyses.removeStep tabs tabId stepId
  let tab ← findTab tabs tabId
  return tab.steps.map stored

/-- The steps of the tab after `removeStep` in the editor. -/
def editorSteps (tab : PipelineTab κ δ) (stepId : String) :
    Option (List (Pipeline.Step (String × StepConfig κ))) :=
  (removeStep (tab.steps.map loaded) stepId).map (List.map saved)

/-- The steps that the worker gives the engine for a step
(`compute_service.py:1099`, `:1113-1118`). -/
def requestedSteps {β : Type} (hydrate : β → Except String β) (steps : List (Pipeline.Step β))
    (id : String) : Except String (List (Pipeline.Step β)) :=
  Pipeline.stepsThroughTarget hydrate steps (Pipeline.resolveAppliedTarget steps id)

/-- The steps of the first list have the results they have in the second one. -/
def SameResults {β : Type} (steps other : List (Pipeline.Step β)) : Prop :=
  ∀ hydrate, ∀ id ∈ Pipeline.ids steps,
    requestedSteps hydrate steps id = requestedSteps hydrate other id

/-- The service and the editor remove a step alike, and every other step keeps the result it
has with the step disabled. -/
def RemovalAgrees (tabs : List (PipelineTab κ δ)) (tab : PipelineTab κ δ)
    (stepId : String) : Prop :=
  ∃ server edited, serverSteps tabs tab.id stepId = .ok server ∧
    editorSteps tab stepId = some edited ∧ server = edited ∧
    SameResults server (Pipeline.disable stepId (tab.steps.map stored)) ∧
    SameResults edited (Pipeline.disable stepId (tab.steps.map stored))

/-! ## The two removals -/

variable {tab : PipelineTab κ δ}

theorem findTab_edit {tabs l1 l2 : List (PipelineTab κ δ)} {tabId : String}
    (h : TabAt tabs tabId l1 tab l2) (steps : List (Analyses.PipelineStep κ)) :
    findTab (l1 ++ { tab with steps } :: l2) tabId = .ok { tab with steps } := by
  have hno : l1.find? (·.id = tabId) = none := by
    rw [List.find?_eq_none]
    intro y hy
    obtain ⟨i, hi, rfl⟩ := List.getElem_of_mem hy
    have hlt : i < tabs.findIdx (·.id = tabId) := by
      rw [h.idx]
      exact hi
    have hnot := List.not_of_lt_findIdx hlt
    simp only [h.eq, List.getElem_append_left hi] at hnot
    exact ne_true_of_eq_false hnot
  rw [findTab, List.find?_append, hno, Option.none_or]
  simp [h.id]

variable {stepId : String}

/-- `remove_step` drops the step from the list and from the dependencies. -/
theorem serverSteps_eq {tabs : List (PipelineTab κ δ)} (htab : findTab tabs tab.id = .ok tab)
    (hu : (stepIds tab.steps).Nodup) (hid : stepId ∈ stepIds tab.steps) :
    serverSteps tabs tab.id stepId = .ok ((tab.steps.filter (·.id ≠ stepId)).map fun s =>
      stored { s with dependsOn := s.dependsOn.erase stepId }) := by
  have hrun : ∃ tabs', Analyses.removeStep tabs tab.id stepId = .ok tabs' := by
    rw [Analyses.removeStep, htab]
    exact ⟨_, if_neg (not_not.mpr hid)⟩
  obtain ⟨tabs', hrun⟩ := hrun
  obtain ⟨l1, tab0, l2, s1, step, s2, hat, hs, hstep, -, rfl⟩ := removeStep_ok hrun
  have htab0 : tab0 = tab := by
    have hfind := findTab_edit hat tab0.steps
    rw [← hat.eq, htab] at hfind
    exact (Except.ok.inj hfind).symm
  subst htab0
  have hfilter : tab0.steps.filter (·.id ≠ stepId) = s1 ++ s2 := by
    have hnodup := hu
    rw [stepIds, hs, List.map_append, List.map_cons, List.nodup_middle, List.nodup_cons,
      hstep, ← List.map_append] at hnodup
    rw [hs, List.filter_append, List.filter_cons_of_neg (by simp [hstep]),
      ← List.filter_append, List.filter_eq_self]
    intro s hmem
    refine decide_eq_true fun he => hnodup.1 ?_
    exact List.mem_map.mpr ⟨s, hmem, he⟩
  rw [serverSteps, hrun]
  change (do
    let tab ← findTab _ tab0.id
    return tab.steps.map stored) = _
  rw [findTab_edit hat, hfilter]
  change Except.ok (List.map _ (List.map _ _)) = _
  rw [List.map_map]
  rfl

/-- The editor attaches the dependents of the step to its parent. -/
theorem editorSteps_eq (hid : stepId ∈ stepIds tab.steps) :
    editorSteps tab stepId = some (Pipeline.remove stepId (tab.steps.map stored)) := by
  obtain ⟨s, hs, rfl⟩ := List.mem_map.mp hid
  have hsome : (tab.steps.find? (·.id = s.id)).isSome :=
    List.find?_isSome.mpr ⟨s, hs, by simp⟩
  obtain ⟨step, hfind⟩ := Option.isSome_iff_exists.mp hsome
  have hloaded : (tab.steps.map loaded).find? (·.id = s.id) = some (loaded step) := by
    rw [List.find?_map]
    change Option.map loaded (tab.steps.find? (·.id = s.id)) = _
    rw [hfind]
    rfl
  have hstored : Pipeline.firstDependency (tab.steps.map stored) s.id =
      truthy step.dependsOn.head? := by
    rw [Pipeline.firstDependency, List.find?_map]
    change (Option.map stored (tab.steps.find? (·.id = s.id))).bind _ = _
    rw [hfind]
    rfl
  rw [editorSteps, removeStep, hloaded, Pipeline.remove, hstored]
  simp only [Option.map_some, List.filter_map, List.map_map, Option.some_inj]
  refine List.map_congr_left fun t _ => ?_
  by_cases hmem : s.id ∈ t.dependsOn
  · simp [loaded, saved, stored, Pipeline.Step.attached, hmem]
  · simp [loaded, saved, stored, Pipeline.Step.attached, hmem]

theorem sameResults_remove {β : Type} {steps : List (Pipeline.Step β)}
    (h : Pipeline.Proper steps) {x : String} (hx : x ∈ Pipeline.ids steps) :
    SameResults (Pipeline.remove x steps) (Pipeline.disable x steps) := by
  intro hydrate id hid
  rw [requestedSteps, requestedSteps, h.resolveAppliedTarget_remove hx hid,
    Pipeline.stepsThroughTarget, Pipeline.stepsThroughTarget, h.applySteps_remove hx]

theorem server_eq_attached {steps : List (Analyses.PipelineStep κ)}
    (h : Pipeline.Proper (steps.map stored)) (stepId : String) :
    ((steps.filter (·.id ≠ stepId)).map fun s =>
        stored { s with dependsOn := s.dependsOn.erase stepId }) =
      ((steps.map stored).filter (·.id ≠ stepId)).map (Pipeline.Step.attached stepId none) := by
  rw [List.filter_map, List.map_map]
  refine List.map_congr_left fun s hs => ?_
  have hsingle := h.single (stored s) (List.mem_map_of_mem (List.mem_filter.mp hs).1)
  change s.dependsOn.length ≤ 1 at hsingle
  have herase : s.dependsOn.erase stepId = if stepId ∈ s.dependsOn then [] else s.dependsOn := by
    match hd : s.dependsOn with
    | [] => simp
    | [q] => by_cases hq : q = stepId <;> simp [hq, Ne.symm]
    | q :: r :: l =>
      rw [hd] at hsingle
      simp at hsingle
  change Pipeline.Step.mk _ _ _ _ = Pipeline.Step.mk _ _ _ _
  congr 1

/-- A step that nothing is lost by: it reads no other step, or no step reads it. -/
def Loose (steps : List (Analyses.PipelineStep κ)) (stepId : String) : Prop :=
  (∀ s ∈ steps, s.id = stepId → truthy s.dependsOn.head? = none) ∨
    ∀ s ∈ steps, stepId ∉ s.dependsOn

/-- The two removals agree exactly when nothing is to be attached to a parent. -/
theorem attached_none_iff {steps : List (Analyses.PipelineStep κ)}
    (h : Pipeline.Proper (steps.map stored)) (hid : stepId ∈ stepIds steps) :
    ((steps.map stored).filter (·.id ≠ stepId)).map (Pipeline.Step.attached stepId none) =
        Pipeline.remove stepId (steps.map stored) ↔ Loose steps stepId := by
  obtain ⟨step, hstep, rfl⟩ := List.mem_map.mp hid
  have hstored := List.mem_map_of_mem (f := stored) hstep
  have hfirst : Pipeline.firstDependency (steps.map stored) step.id =
      truthy step.dependsOn.head? := h.firstDependency_eq hstored
  have hroot : (∀ s ∈ steps, s.id = step.id → truthy s.dependsOn.head? = none) ↔
      truthy step.dependsOn.head? = none := by
    constructor
    · exact fun hall => hall step hstep rfl
    · intro hnone s hs he
      have hfirst' : Pipeline.firstDependency (steps.map stored) s.id =
          truthy s.dependsOn.head? := h.firstDependency_eq (List.mem_map_of_mem hs)
      rw [← hfirst', he, hfirst, hnone]
  rw [Loose, hroot, Pipeline.remove, hfirst]
  cases hparent : truthy step.dependsOn.head? with
  | none => exact iff_of_true rfl (.inl rfl)
  | some p =>
    rw [List.map_inj_left, or_iff_right (Option.some_ne_none p)]
    constructor
    · intro hall s hs hmem
      by_cases hne : s.id = step.id
      · -- a step that reads itself is a cycle
        have hnamed : step.id ≠ "" := h.named _ hstored
        have hdep := (h.mem_dependsOn_iff (List.mem_map_of_mem hs) hnamed).mp hmem
        have hself : Pipeline.dependencyOf (steps.map stored) s.id = some step.id := by
          rw [show s.id = (stored s).id from rfl, h.dependencyOf_eq (List.mem_map_of_mem hs),
            hdep, Option.filter_eq_some_iff, decide_eq_true_eq]
          exact ⟨rfl, List.mem_map_of_mem hstored⟩
        rw [hne] at hself
        exact h.acyclic step.id (.single hself)
      · have heq := hall (stored s) (List.mem_filter.mpr
          ⟨List.mem_map_of_mem hs, decide_eq_true hne⟩)
        have hdeps := congrArg Pipeline.Step.dependsOn heq
        change (if step.id ∈ s.dependsOn then [] else s.dependsOn) =
          (if step.id ∈ s.dependsOn then [p] else s.dependsOn) at hdeps
        rw [if_pos hmem, if_pos hmem] at hdeps
        cases hdeps
    · intro hall t ht
      obtain ⟨s, hs, rfl⟩ := List.mem_map.mp (List.mem_filter.mp ht).1
      have hnot : step.id ∉ (stored s).dependsOn := hall s hs
      rw [Pipeline.Step.attached, Pipeline.Step.attached, if_neg hnot, if_neg hnot]

/-- The service and the editor remove a step of a tab alike, as if it had been disabled,
exactly when the step reads no other step or no step reads it. -/
theorem removalAgrees_iff {tabs : List (PipelineTab κ δ)} (htab : findTab tabs tab.id = .ok tab)
    (h : Pipeline.Proper (tab.steps.map stored)) (hid : stepId ∈ stepIds tab.steps) :
    RemovalAgrees tabs tab stepId ↔ Loose tab.steps stepId := by
  have hids : Pipeline.ids (tab.steps.map stored) = stepIds tab.steps := by
    rw [Pipeline.ids, List.map_map]
    rfl
  have hx : stepId ∈ Pipeline.ids (tab.steps.map stored) := by
    rw [hids]
    exact hid
  have hserver := serverSteps_eq htab (hids ▸ h.unique) hid
  rw [server_eq_attached h] at hserver
  have hedited := editorSteps_eq hid
  have hresults := sameResults_remove h hx
  rw [← attached_none_iff h hid, RemovalAgrees, hserver, hedited]
  constructor
  · rintro ⟨server, edited, hs, he, heq, -⟩
    cases hs
    cases he
    exact heq
  · intro heq
    exact ⟨_, _, rfl, rfl, heq, heq ▸ hresults, hresults⟩

/-- A chain of three steps. -/
def threeSteps : PipelineTab Unit Unit :=
  { id := "tab", name := "Tab", datasource := { id := "ds" }, resultId := "out", rest := ()
    steps := [⟨"a", "filter", { rest := () }, [], some true⟩,
      ⟨"b", "sort", { rest := () }, ["a"], some true⟩,
      ⟨"c", "limit", { rest := () }, ["b"], some true⟩] }

theorem proper_chain : Pipeline.Proper (threeSteps.steps.map stored) :=
  .of_backward (by decide) (by decide) (by decide) (by decide)

/-- The last step of the chain can be removed on either side. -/
theorem removalAgrees_chain_last : RemovalAgrees [threeSteps] threeSteps "c" :=
  (removalAgrees_iff (rfl : findTab [threeSteps] threeSteps.id = .ok threeSteps)
    proper_chain (by decide)).mpr
    (.inr (by decide))

/-- The service detaches the last step of the chain when the middle one is removed. -/
theorem not_removalAgrees_middle :
    Pipeline.Proper (threeSteps.steps.map stored) ∧
      ¬ RemovalAgrees [threeSteps] threeSteps "b" := by
  refine ⟨proper_chain, ?_⟩
  rintro ⟨server, edited, hs, he, heq, -⟩
  cases hs
  cases he
  have hdeps := congrArg (List.map Pipeline.Step.dependsOn) heq
  exact absurd hdeps (by decide)

end DataForge.Editor
