import DataForge.Analyses.Renaming

/-!
# Importing a pipeline

`_rewrite_import_payload` turns every step on, so the imported pipeline means what the given one
does when it is a renaming of it and no step of it was off.
-/

namespace DataForge.Analyses

open Effects

variable {κ δ : Type}

/-- `is_step_applied` (`packages/worker/runtime/compute_utils.py:19-20`). -/
def PipelineStep.applied (step : PipelineStep κ) : Bool := step.isApplied ≠ some false

/-- A tab with its flags as the worker reads them. -/
def PipelineTab.flagged (tab : PipelineTab κ δ) : PipelineTab κ δ :=
  { tab with steps := tab.steps.map fun s => { s with isApplied := some s.applied } }

/-- The imported pipeline is a renaming of the given one that keeps which steps are applied. -/
def ImportRenames (tabs : List (PipelineTab κ δ)) (remap : String → Option String)
    (copy : List (PipelineTab κ δ)) : Prop :=
  ∃ ρ : Renaming, ρ.Proper tabs ∧
    copy.map PipelineTab.flagged =
      (tabs.mapIdx (ρ.apply tabs fun d => (remap d).getD d)).map PipelineTab.flagged

section Enabled

variable {tabs : List (PipelineTab κ δ)} {F : FreshIds} {remap : String → Option String}

theorem sameIds_enabled : SameIds tabs (tabs.map PipelineTab.enabled) where
  ids := by
    rw [List.map_map]
    rfl
  outputs := by
    rw [resultIds, List.map_map]
    rfl
  steps := by
    rw [List.map_map]
    refine List.map_congr_left fun t _ => ?_
    simp only [Function.comp_apply, PipelineTab.enabled, stepIds, List.map_map]
    rfl

theorem copyTab_enabled (i : ℕ) (t : PipelineTab κ δ) :
    copyTab F (tabs.map PipelineTab.enabled) remap i t.enabled =
      (copyTab F tabs remap i t).enabled := by
  simp only [copyTab, copyDatasource, remapStep, PipelineTab.enabled,
    sameIds_enabled.tabIdMap, sameIds_enabled.outputIdMap, sameIds_enabled.allStepIdMap,
    sameIds_enabled.sourceIdMap]
  congr 1
  refine List.ext_getElem? fun j => ?_
  simp only [List.getElem?_mapIdx, List.getElem?_map, Option.map_map]
  rfl

theorem rewriteImportPayload_iff {copy : List (PipelineTab κ δ)} :
    rewriteImportPayload F remap tabs = .ok copy ↔
      (∀ t ∈ tabs, Linked tabs t) ∧
        copy = tabs.mapIdx fun i t => (copyTab F tabs remap i t).enabled := by
  have hcopy : (tabs.map PipelineTab.enabled).mapIdx
      (copyTab F (tabs.map PipelineTab.enabled) remap) =
      tabs.mapIdx fun i t => (copyTab F tabs remap i t).enabled := by
    refine List.ext_getElem? fun i => ?_
    simp only [List.getElem?_mapIdx, List.getElem?_map, Option.map_map]
    congr 1
    funext t
    exact copyTab_enabled i t
  rw [rewriteImportPayload, rewriteTabs_iff, List.forall_mem_map, hcopy]
  exact and_congr_left fun _ => forall₂_congr fun t _ => sameIds_enabled.linked rfl rfl

end Enabled

section Flags

variable {a b : PipelineTab κ δ}

theorem flagged_enabled : a.enabled.flagged = a.enabled := by
  simp only [PipelineTab.flagged, PipelineTab.enabled, List.map_map]
  rfl

theorem flagged_of_applied (h : ∀ s ∈ a.steps, s.isApplied ≠ some false) :
    a.flagged = a.enabled := by
  rw [PipelineTab.flagged, PipelineTab.enabled]
  congr 1
  refine List.map_congr_left fun s hs => ?_
  rw [PipelineStep.applied, decide_eq_true (h s hs)]

theorem eq_of_enabled (h : a.enabled = b.enabled)
    (hflags : a.steps.map PipelineStep.isApplied = b.steps.map PipelineStep.isApplied) :
    a = b := by
  have hsteps : a.steps = b.steps := by
    refine List.ext_getElem? fun j => ?_
    have hj := congrArg (fun t : PipelineTab κ δ => t.steps[j]?) h
    have hf := congrArg (fun l : List (Option Bool) => l[j]?) hflags
    simp only [PipelineTab.enabled, List.getElem?_map] at hj hf
    cases ha : a.steps[j]? with
    | none =>
      rw [ha] at hj
      cases hb : b.steps[j]? with
      | none => rfl
      | some s' =>
        rw [hb] at hj
        cases hj
    | some s =>
      rw [ha] at hj hf
      cases hb : b.steps[j]? with
      | none =>
        rw [hb] at hj
        cases hj
      | some s' =>
        rw [hb] at hj hf
        cases s
        cases s'
        cases hf
        cases hj
        rfl
  cases a
  cases b
  cases hsteps
  cases h
  rfl

end Flags

section Claim

variable {F : FreshIds} {tabs copy : List (PipelineTab κ δ)} {remap : String → Option String}

theorem getElem?_imported (h : rewriteImportPayload F remap tabs = .ok copy) (i : ℕ) :
    copy[i]? = tabs[i]?.map fun t => (copyTab F tabs remap i t).enabled := by
  rw [(rewriteImportPayload_iff.mp h).2, List.getElem?_mapIdx]

theorem imported_tab (h : rewriteImportPayload F remap tabs = .ok copy) {ρ : Renaming}
    (hρ : copy.map PipelineTab.flagged =
      (tabs.mapIdx (ρ.apply tabs fun d => (remap d).getD d)).map PipelineTab.flagged)
    {i : ℕ} {t : PipelineTab κ δ} (ht : tabs[i]? = some t) :
    (copyTab F tabs remap i t).enabled =
      (ρ.apply tabs (fun d => (remap d).getD d) i t).flagged := by
  have hi := congrArg (fun l : List (PipelineTab κ δ) => l[i]?) hρ
  simp only [List.getElem?_map, List.getElem?_mapIdx, getElem?_imported h, ht,
    Option.map_some, Option.some.injEq, flagged_enabled] at hi
  exact hi

theorem imported_applied (h : rewriteImportPayload F remap tabs = .ok copy)
    (hrenames : ImportRenames tabs remap copy) :
    ∀ t ∈ tabs, ∀ s ∈ t.steps, s.isApplied ≠ some false := by
  obtain ⟨ρ, -, hρ⟩ := hrenames
  intro t ht s hs hoff
  obtain ⟨i, hi⟩ := List.mem_iff_getElem?.mp ht
  obtain ⟨j, hj⟩ := List.mem_iff_getElem?.mp hs
  have hstep := congrArg (fun u : PipelineTab κ δ => u.steps[j]?.map PipelineStep.isApplied)
    (imported_tab h hρ hi)
  simp only [copyTab, Renaming.apply, PipelineTab.enabled, PipelineTab.flagged,
    PipelineStep.applied, List.getElem?_map, List.getElem?_mapIdx, hj, Option.map_some,
    hoff] at hstep
  simp at hstep

theorem copyTab_isApplied (i : ℕ) (t : PipelineTab κ δ) :
    (copyTab F tabs remap i t).steps.map PipelineStep.isApplied =
      t.steps.map PipelineStep.isApplied := by
  refine List.ext_getElem? fun j => ?_
  simp only [copyTab, remapStep, List.getElem?_map, List.getElem?_mapIdx, Option.map_map]
  rfl

theorem apply_isApplied (ρ : Renaming) (ext : String → String) (i : ℕ) (t : PipelineTab κ δ) :
    (ρ.apply tabs ext i t).steps.map PipelineStep.isApplied =
      t.steps.map PipelineStep.isApplied := by
  rw [Renaming.apply, List.map_map]
  rfl

theorem apply_flagged (ρ : Renaming) (ext : String → String) (i : ℕ) {t : PipelineTab κ δ}
    (happlied : ∀ s ∈ t.steps, s.isApplied ≠ some false) :
    (ρ.apply tabs ext i t).flagged = (ρ.apply tabs ext i t).enabled := by
  refine flagged_of_applied fun s hs => ?_
  have hmem := List.mem_map_of_mem (f := PipelineStep.isApplied) hs
  rw [apply_isApplied] at hmem
  obtain ⟨s', hs', he⟩ := List.mem_map.mp hmem
  rw [← he]
  exact happlied s' hs'

theorem imported_gives (h : rewriteImportPayload F remap tabs = .ok copy)
    (happlied : ∀ t ∈ tabs, ∀ s ∈ t.steps, s.isApplied ≠ some false) (ρ : Renaming) :
    copy.map PipelineTab.flagged =
      (tabs.mapIdx (ρ.apply tabs fun d => (remap d).getD d)).map PipelineTab.flagged ↔
      ρ.Gives F tabs remap := by
  constructor
  · intro hρ i t ht
    have hi := imported_tab h hρ ht
    rw [apply_flagged ρ _ i (happlied t (List.mem_of_getElem? ht))] at hi
    exact eq_of_enabled hi (by rw [copyTab_isApplied, apply_isApplied])
  · intro hρ
    refine List.ext_getElem? fun i => ?_
    rw [List.getElem?_map, List.getElem?_map, getElem?_imported h, List.getElem?_mapIdx]
    cases ht : tabs[i]? with
    | none => rfl
    | some t =>
      simp only [Option.map_some, flagged_enabled, hρ i t ht]
      rw [apply_flagged ρ _ i (happlied t (List.mem_of_getElem? ht))]

/-- An imported pipeline is a renaming of the given one with the same steps applied exactly when
the ids of the given one tell its parts apart and none of its steps is off. -/
theorem importRenames_iff (hF : F.Fresh tabs remap)
    (h : rewriteImportPayload F remap tabs = .ok copy) :
    ImportRenames tabs remap copy ↔
      Separate tabs ∧ ∀ t ∈ tabs, ∀ s ∈ t.steps, s.isApplied ≠ some false := by
  rw [← renames_iff hF (rewriteImportPayload_iff.mp h).1]
  constructor
  · intro hrenames
    have happlied := imported_applied h hrenames
    obtain ⟨ρ, hproper, hρ⟩ := hrenames
    exact ⟨⟨ρ, hproper, (imported_gives h happlied ρ).mp hρ⟩, happlied⟩
  · rintro ⟨⟨ρ, hproper, hρ⟩, happlied⟩
    exact ⟨ρ, hproper, (imported_gives h happlied ρ).mpr hρ⟩

end Claim

/-! ## An import -/

/-- A tab that filters a datasource, and one that joins the output of the first with it. -/
def joinedTabs : List (PipelineTab Unit Unit) :=
  [{ id := "A", name := "Orders", datasource := ⟨"D", none⟩, resultId := "X"
     steps := [⟨"F", "filter", { rest := () }, [], some true⟩], rest := () },
   { id := "B", name := "Joined", datasource := ⟨"X", some "A"⟩, resultId := "Y"
     steps :=
       [⟨"J", "join", { rightSource := some (.str "X"), rest := () }, [], some true⟩,
        ⟨"F", "filter", { rest := () }, ["J"], none⟩]
     parentId := some "A", rest := () }]

/-- The imported datasource `D` is the datasource `L`. -/
def lakeRemap (id : String) : Option String := if id = "D" then some "L" else none

theorem lakeRemap_fresh {tabs : List (PipelineTab Unit Unit)}
    (h : ∀ id ∈ names tabs, id.toList.head? ∉ [some 't', some 'o', some 's']) :
    numbered.Fresh tabs lakeRemap := by
  refine numbered_fresh h fun r d hd => ?_
  rw [lakeRemap] at hd
  split at hd
  · cases hd
    decide
  · cases hd

theorem importRenames_joined :
    ∃ copy, rewriteImportPayload numbered lakeRemap joinedTabs = .ok copy ∧
      ImportRenames joinedTabs lakeRemap copy :=
  ⟨_, rfl, (importRenames_iff (lakeRemap_fresh (by decide)) rfl).mpr
    ⟨by decide, by decide⟩⟩

/-- The first tab of the imported pipeline depends on a step of the second. -/
theorem not_importRenames_shared :
    ∃ copy, rewriteImportPayload numbered lakeRemap sharedTabs = .ok copy ∧
      ¬ ImportRenames sharedTabs lakeRemap copy := by
  refine ⟨_, rfl, fun h => ?_⟩
  have happlied := imported_applied rfl h
  obtain ⟨ρ, -, hρ⟩ := h
  have hsep := ((imported_gives rfl happlied ρ).mp hρ).agrees.separate (lakeRemap_fresh (by decide))
  exact absurd hsep (by decide)

end DataForge.Analyses

