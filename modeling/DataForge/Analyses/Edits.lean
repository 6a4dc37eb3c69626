import DataForge.Analyses.Payload

/-!
# What the edits of a pipeline change

Each operation on a stored pipeline, as the parts of the pipeline before and after it.
-/

namespace DataForge.Analyses

open Effects

variable {κ δ : Type} {R : Rules κ δ}

section Find

variable {α : Type} {l : List α} {p : α → Bool} {x : α}

theorem findIdx_append_cons {l1 l2 : List α} (hp : p x) (hno : ∀ y ∈ l1, ¬ p y) :
    (l1 ++ x :: l2).findIdx p = l1.length := by
  rw [List.findIdx_append, List.findIdx_eq_length.mpr fun y hy => by simpa using hno y hy]
  simp [List.findIdx_cons, hp]

private theorem split_of_find? (h : l.find? p = some x) :
    ∃ l1 l2, l = l1 ++ x :: l2 ∧ p x ∧ (∀ y ∈ l1, ¬ p y) ∧ l.findIdx p = l1.length := by
  obtain ⟨hp, l1, l2, rfl, hl1⟩ := List.find?_eq_some_iff_append.mp h
  have hno : ∀ y ∈ l1, ¬ p y := fun y hy => by simpa using hl1 y hy
  exact ⟨l1, l2, rfl, hp, hno, findIdx_append_cons hp hno⟩

private theorem modify_append_cons {l1 l2 : List α} (f : α → α) :
    (l1 ++ x :: l2).modify l1.length f = l1 ++ f x :: l2 := by
  rw [List.modify_eq_take_cons_drop (by simp)]
  simp

theorem eraseIdx_append_cons {l1 l2 : List α} :
    (l1 ++ x :: l2).eraseIdx l1.length = l1 ++ l2 := by
  simp [List.eraseIdx_append_of_length_le]

end Find

/-- A tab of a pipeline and what stands before and after it. -/
structure TabAt (tabs : List (PipelineTab κ δ)) (tabId : String) (l1 : List (PipelineTab κ δ))
    (tab : PipelineTab κ δ) (l2 : List (PipelineTab κ δ)) : Prop where
  eq : tabs = l1 ++ tab :: l2
  id : tab.id = tabId
  edit : ∀ f, editSteps tabs tabId f = l1 ++ { tab with steps := f tab.steps } :: l2
  idx : tabs.findIdx (·.id = tabId) = l1.length

theorem findTab_ok {tabs : List (PipelineTab κ δ)} {tabId : String} {tab : PipelineTab κ δ}
    (h : findTab tabs tabId = .ok tab) : ∃ l1 l2, TabAt tabs tabId l1 tab l2 := by
  unfold findTab at h
  split at h
  · next hfind =>
    cases h
    obtain ⟨l1, l2, rfl, hid, -, hidx⟩ := split_of_find? hfind
    refine ⟨l1, l2, rfl, by simpa using hid, fun f => ?_, hidx⟩
    rw [editSteps, hidx, modify_append_cons]
  · cases h

variable {tabs tabs' : List (PipelineTab κ δ)}

/-- What `add_step` does. -/
theorem addStep_ok {check : String → Except Failure Unit} {tabId stepType : String}
    {config : StepConfig κ} {position : Option ℤ} {dependsOn : List String} {newId : String}
    (h : addStep R check tabs tabId stepType config position dependsOn newId = .ok tabs') :
    ∃ l1 tab l2 config', TabAt tabs tabId l1 tab l2 ∧
      config'.references = config.references ∧
      (∀ dep ∈ dependsOn, dep ∈ stepIds tab.steps) ∧
      (∀ src ∈ config.references, src ∈ tabIds tabs ∨ src ∈ tabs.map (·.datasource.id) ∨
        check src = .ok ()) ∧
      tabs' = l1 ++ { tab with
        steps := insertAt tab.steps (clampPosition position tab.steps.length)
          { id := newId, type := stepType, config := config', dependsOn } } :: l2 := by
  unfold addStep at h
  obtain ⟨config', hconfig, h⟩ := bind_ok.mp h
  obtain ⟨tab, htab, h⟩ := bind_ok.mp h
  obtain ⟨⟨⟩, hdeps, h⟩ := bind_ok.mp h
  obtain ⟨⟨⟩, hsources, h⟩ := bind_ok.mp h
  obtain ⟨l1, l2, hat⟩ := findTab_ok htab
  have href := references_normalize hconfig
  refine ⟨l1, tab, l2, config', hat, href, fun dep hdep => ?_, fun src hsrc => ?_, ?_⟩
  · have hdep := forM_ok.mp hdeps dep hdep
    split at hdep
    · next hmem => exact (List.mem_filter.mp hmem).1
    · cases hdep
  · rw [← href] at hsrc
    have hsrc' : src ∈ config'.sourceIds := (List.mem_filter.mp hsrc).1
    by_cases hin : src ∈ tabIds tabs ++ (tabs.map (·.datasource.id)).filter (· ≠ "")
    · rcases List.mem_append.mp hin with hin | hin
      · exact .inl hin
      · exact .inr (.inl (List.mem_filter.mp hin).1)
    · exact .inr (.inr (forM_ok.mp hsources src (List.mem_filter.mpr ⟨hsrc', by simpa using hin⟩)))
  · have h : editSteps tabs tabId _ = tabs' := Except.ok.inj h
    rw [← h, hat.edit]

/-- What `update_step` does. -/
theorem updateStep_ok {tabId stepId : String} {config : Option (StepConfig κ)}
    {stepType : Option String} (h : updateStep R tabs tabId stepId config stepType = .ok tabs') :
    ∃ l1 tab l2 s1 step s2 type config', TabAt tabs tabId l1 tab l2 ∧
      tab.steps = s1 ++ step :: s2 ∧ step.id = stepId ∧ (∀ s ∈ s1, s.id ≠ stepId) ∧
      config'.references = (config.getD step.config).references ∧
      tabs' = l1 ++ { tab with
        steps := s1 ++ { step with type, config := config' } :: s2 } :: l2 := by
  unfold updateStep at h
  obtain ⟨tab, htab, h⟩ := bind_ok.mp h
  obtain ⟨l1, l2, hat⟩ := findTab_ok htab
  split at h
  · cases h
  · next step hfind =>
    obtain ⟨config', hconfig, h⟩ := bind_ok.mp h
    obtain ⟨s1, s2, hs, hid, hfirst, hidx⟩ := split_of_find? hfind
    refine ⟨l1, tab, l2, s1, step, s2, stepType.getD step.type, config', hat, hs,
      by simpa using hid, fun s hs => by simpa using hfirst s hs, ?_, ?_⟩
    · unfold updateConfig at hconfig
      split at hconfig
      · exact references_normalize hconfig
      · next hnone =>
        cases hconfig
        cases config with
        | none => rfl
        | some config => exact absurd (.inr rfl) hnone
    · have h : editSteps tabs tabId _ = tabs' := Except.ok.inj h
      rw [← h, hat.edit, hidx, hs, modify_append_cons]

/-- What `remove_step` does. -/
theorem removeStep_ok {tabId stepId : String} (h : removeStep tabs tabId stepId = .ok tabs') :
    ∃ l1 tab l2 s1 step s2, TabAt tabs tabId l1 tab l2 ∧
      tab.steps = s1 ++ step :: s2 ∧ step.id = stepId ∧ (∀ s ∈ s1, s.id ≠ stepId) ∧
      tabs' = l1 ++ { tab with
        steps := (s1 ++ s2).map fun s => { s with dependsOn := s.dependsOn.erase stepId } } ::
          l2 := by
  unfold removeStep at h
  obtain ⟨tab, htab, h⟩ := bind_ok.mp h
  obtain ⟨l1, l2, hat⟩ := findTab_ok htab
  split at h
  · cases h
  · next hmem =>
    obtain ⟨s, hs, hid⟩ := List.mem_map.mp (not_not.mp hmem)
    have hsome : (tab.steps.find? (·.id = stepId)).isSome :=
      List.find?_isSome.mpr ⟨s, hs, by simpa using hid⟩
    obtain ⟨step, hfind⟩ := Option.isSome_iff_exists.mp hsome
    obtain ⟨s1, s2, hs, hid, hfirst, hidx⟩ := split_of_find? hfind
    refine ⟨l1, tab, l2, s1, step, s2, hat, hs, by simpa using hid,
      fun s hs => by simpa using hfirst s hs, ?_⟩
    have h : editSteps tabs tabId _ = tabs' := Except.ok.inj h
    rw [← h, hat.edit, hidx, hs, eraseIdx_append_cons]

theorem deriveTab_ok {tabId name newTabId newStepId newResultId : String}
    (h : deriveTab R tabs tabId name newTabId newStepId newResultId = .ok tabs') :
    ∃ source ∈ tabs, source.id = tabId ∧ tabs' = tabs ++ [{
      id := newTabId, name, parentId := some tabId
      datasource := { id := source.resultId, analysisTabId := some tabId }
      resultId := newResultId
      steps := [{ id := newStepId, type := "view", config := { rest := R.viewConfig } }]
      rest := R.derivedRest name source.rest }] := by
  unfold deriveTab at h
  obtain ⟨source, hsource, h⟩ := bind_ok.mp h
  obtain ⟨l1, l2, hat⟩ := findTab_ok hsource
  split at h
  · cases h
  · exact ⟨source, by rw [hat.eq]; simp, hat.id, (Except.ok.inj h).symm⟩

/-- A copied step: only its id and its dependencies are new. -/
structure Copied (rename : String → Option String) (s s' : PipelineStep κ) : Prop where
  config : s'.config = s.config
  dependsOn : List.Forall₂ (fun dep dep' => rename dep = some dep') s.dependsOn s'.dependsOn

private theorem stepIds_of_forall₂ {pairs : List (PipelineStep κ × String)}
    {steps : List (PipelineStep κ)} (h : List.Forall₂ (fun p s => s.id = p.2) pairs steps) :
    stepIds steps = pairs.map Prod.snd := by
  induction h with
  | nil => rfl
  | cons hp _ ih => rw [stepIds, List.map_cons, List.map_cons, hp, ← stepIds, ih]

private theorem duplicateSteps_ok {tabId : String} {source steps : List (PipelineStep κ)}
    {newIds : List String} (hlen : newIds.length = source.length)
    (h : duplicateSteps tabId source newIds = .ok steps) :
    stepIds steps = newIds ∧ List.Forall₂ (Copied (stepIdMap source newIds)) source steps := by
  have hall := mapM_ok.mp h
  have hcopied : List.Forall₂ (fun p s' => s'.id = p.2 ∧
      Copied (stepIdMap source newIds) p.1 s') (source.zip newIds) steps := by
    refine hall.imp fun p s' hp => ?_
    obtain ⟨deps, hdeps, hs⟩ := bind_ok.mp hp
    cases hs
    refine ⟨rfl, rfl, (mapM_ok.mp hdeps).imp fun dep dep' hdep => ?_⟩
    split at hdep
    · next mapped hm => rw [hm, Except.ok.inj hdep]
    · cases hdep
  have hfst : (source.zip newIds).map Prod.fst = source := List.map_fst_zip (by omega)
  have hsnd : (source.zip newIds).map Prod.snd = newIds := List.map_snd_zip (by omega)
  refine ⟨?_, ?_⟩
  · rw [← hsnd]
    exact stepIds_of_forall₂ (hcopied.imp fun _ _ hp => hp.1)
  · have hright := List.forall₂_map_left_iff.mpr (hcopied.imp fun _ _ hp => hp.2)
    rwa [hfst] at hright

/-- What `duplicate_tab` does. -/
theorem duplicateTab_ok {tabId name newTabId newResultId : String} {newIds : List String}
    (hlen : ∀ tab ∈ tabs, tab.id = tabId → newIds.length = tab.steps.length)
    (h : duplicateTab R tabs tabId name newTabId newResultId newIds = .ok tabs') :
    ∃ l1 source l2 steps, tabs = l1 ++ source :: l2 ∧ source.id = tabId ∧
      stepIds steps = newIds ∧
      List.Forall₂ (Copied (stepIdMap source.steps newIds)) source.steps steps ∧
      tabs' = l1 ++ source :: { source with
        id := newTabId, name, resultId := newResultId, steps
        rest := R.duplicatedRest name source.rest } :: l2 := by
  unfold duplicateTab at h
  obtain ⟨source, hsource, h⟩ := bind_ok.mp h
  obtain ⟨steps, hsteps, h⟩ := bind_ok.mp h
  obtain ⟨l1, l2, hat⟩ := findTab_ok hsource
  have hmem : source ∈ tabs := by rw [hat.eq]; simp
  obtain ⟨hids, hcopied⟩ := duplicateSteps_ok (hlen source hmem hat.id) hsteps
  refine ⟨l1, source, l2, steps, hat.eq, hat.id, hids, hcopied, ?_⟩
  have h := Except.ok.inj h
  have hsplit : tabs = (l1 ++ [source]) ++ l2 := by rw [hat.eq]; simp
  rw [← h, hat.idx, insertAt, hsplit, List.take_left' (by simp), List.drop_left' (by simp)]
  simp

end DataForge.Analyses
