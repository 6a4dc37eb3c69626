import DataForge.Analyses.Service
import DataForge.Effects.Except
import Mathlib.Data.List.ReduceOption

/-!
# What the payload check accepts

`_validate_analysis_payload` normalizes the step configurations, which keeps what they refer to,
and looks at the datasources, the references and the dependencies.
-/

namespace DataForge.Analyses

open Effects

variable {κ δ : Type} {R : Rules κ δ}

/-- A datasource of the input catalog. -/
def Visible (datasources : String → Option DataSource) (id : String) : Prop :=
  ∃ row, datasources id = some row ∧ row.isHidden = false

variable {v : View}

theorem requireVisible_ok {id : String} {row : DataSource} :
    v.requireVisible id = .ok row ↔ v.datasource id = some row ∧ row.isHidden = false := by
  unfold View.requireVisible
  cases h : v.datasource id with
  | none => simp
  | some row' =>
    cases hh : row'.isHidden with
    | true =>
      simp only [hh, if_pos, reduceCtorEq, Option.some.injEq, false_iff, not_and]
      rintro rfl hf
      rw [hh] at hf
      cases hf
    | false =>
      simp only [hh, Bool.false_eq_true, if_false, Except.ok.injEq, Option.some.injEq]
      exact ⟨fun h => ⟨h, h ▸ hh⟩, fun h => h.1⟩

theorem requireVisible_check {id : String} :
    (do let _ ← v.requireVisible id : Except Failure Unit) = .ok () ↔
      Visible v.datasource id := by
  rw [bind_ok]
  constructor
  · rintro ⟨row, h, -⟩
    exact ⟨row, requireVisible_ok.mp h⟩
  · rintro ⟨row, h⟩
    exact ⟨row, requireVisible_ok.mpr h, rfl⟩

/-- Normalizing a configuration keeps the sources that it refers to. -/
theorem references_normalize {stepType : String} {config config' : StepConfig κ}
    (h : normalizeStepConfig R stepType config = .ok config') :
    config'.references = config.references := by
  unfold normalizeStepConfig at h
  split at h
  case h_2 => cases h
  case h_1 rightSource sources rest hs _ =>
    cases h
    unfold normalizeSources at hs
    split at hs
    · split at hs
      · next h1 h2 =>
        cases hs
        simp [StepConfig.references, StepConfig.sourceIds, h1, h2, Value.str?]
      · next h1 h2 =>
        cases hs
        simp [StepConfig.references, StepConfig.sourceIds, h1, h2]
      · cases hs
    · split at hs
      · split at hs
        · next h1 h2 =>
          cases hs
          simp [StepConfig.references, StepConfig.sourceIds, h1, h2, Value.strings,
            List.reduceOption_nil]
        · next h1 h2 =>
          split at hs
          · cases hs
            simp [StepConfig.references, StepConfig.sourceIds, h1, h2]
          · cases hs
        · cases hs
      · split at hs
        · next hn =>
          cases hs
          simp [StepConfig.references, StepConfig.sourceIds, hn.1, hn.2]
        · cases hs

theorem tabOutputMap_some {tabs : List (PipelineTab κ δ)} {id output : String}
    (h : View.tabOutputMap tabs id = some output) :
    ∃ t ∈ tabs, t.id = id ∧ t.resultId = output := by
  rw [View.tabOutputMap, Option.map_eq_some_iff] at h
  obtain ⟨t, ht, rfl⟩ := h
  have hid := List.find?_some ht
  have hmem := List.mem_reverse.mp (List.mem_of_find?_eq_some ht)
  exact ⟨t, (List.mem_filter.mp hmem).1, by simpa using hid, rfl⟩

variable {analysisId : Option String}

theorem checkDatasource_derived {tabs : List (PipelineTab κ δ)} {walk : ℕ} {t : PipelineTab κ δ}
    {u : String} (hu : t.datasource.analysisTabId = some u) :
    v.checkDatasource analysisId tabs walk t = .ok () ↔
      View.tabOutputMap tabs u = some t.datasource.id := by
  simp only [View.checkDatasource, hu]
  split
  · next hne => exact iff_of_false (fun h => by cases h) hne
  · next heq => exact iff_of_true rfl (not_not.mp heq)

/-- The steps differ in their configurations only, and refer to the same sources. -/
structure SameStep (s s' : PipelineStep κ) : Prop where
  id : s'.id = s.id
  dependsOn : s'.dependsOn = s.dependsOn
  references : s'.config.references = s.config.references

/-- The tabs differ in the configurations of their steps only. -/
structure SameTab (t t' : PipelineTab κ δ) : Prop where
  id : t'.id = t.id
  datasource : t'.datasource = t.datasource
  resultId : t'.resultId = t.resultId
  steps : List.Forall₂ SameStep t.steps t'.steps

private theorem map_eq_of_forall₂ {α β : Type} {r : α → α → Prop} {f : α → β}
    (hr : ∀ a b, r a b → f b = f a) {l l' : List α} (h : List.Forall₂ r l l') :
    l'.map f = l.map f := by
  induction h with
  | nil => rfl
  | cons hab _ ih => rw [List.map_cons, List.map_cons, hr _ _ hab, ih]

theorem stepIds_same {steps steps' : List (PipelineStep κ)}
    (h : List.Forall₂ SameStep steps steps') : stepIds steps' = stepIds steps :=
  map_eq_of_forall₂ (fun _ _ hs => hs.id) h

section Same

variable {tabs tabs' : List (PipelineTab κ δ)} (h : List.Forall₂ SameTab tabs tabs')

include h

theorem ids_same : tabs'.map PipelineTab.id = tabs.map PipelineTab.id :=
  map_eq_of_forall₂ (fun _ _ ht => ht.id) h

theorem tabIds_same : tabIds tabs' = tabIds tabs := by
  rw [tabIds, ids_same h, tabIds]

theorem references_same : references tabs' = references tabs := by
  simp only [references, List.flatMap_def]
  congr 1
  refine map_eq_of_forall₂ (fun t t' ht => ?_) h
  congr 1
  exact map_eq_of_forall₂ (fun s s' hs => hs.references) ht.steps

theorem inputs_same : inputs tabs' = inputs tabs := by
  have hmap : ∀ l : List (PipelineTab κ δ), inputs l = (l.map PipelineTab.input).filterMap id :=
    fun l => by
      rw [List.filterMap_map]
      rfl
  rw [hmap, hmap, map_eq_of_forall₂ (fun t t' ht => ?_) h]
  rw [PipelineTab.input, ht.datasource, PipelineTab.input]

theorem foreign_same : foreign tabs' = foreign tabs := by
  rw [foreign, references_same h, tabIds_same h, foreign]

theorem external_same : external tabs' = external tabs := by
  rw [external, inputs_same h, foreign_same h, external]

end Same

/-- Every dependency names the step itself or an earlier one. -/
def Known : List String → List (PipelineStep κ) → Prop
  | _, [] => True
  | seen, step :: rest =>
    (∀ dep ∈ step.dependsOn, dep ∈ step.id :: seen) ∧ Known (step.id :: seen) rest

/-- A step with its configuration normalized. -/
def Normalizes (R : Rules κ δ) (s s' : PipelineStep κ) : Prop :=
  ∃ config, normalizeStepConfig R s.type s.config = .ok config ∧ s' = { s with config }

theorem checkSteps_iff {steps : List (PipelineStep κ)} :
    ∀ {seen : List String} {steps' : List (PipelineStep κ)},
      View.checkSteps R seen steps = .ok steps' ↔
        List.Forall₂ (Normalizes R) steps steps' ∧ Known seen steps ∧
          ∀ s ∈ steps, Compute.strip s.id ≠ "" := by
  induction steps with
  | nil =>
    intro seen steps'
    constructor
    · intro h
      cases h
      exact ⟨.nil, trivial, fun s hs => (List.not_mem_nil hs).elim⟩
    · rintro ⟨hsteps, -⟩
      cases hsteps
      rfl
  | cons step rest ih =>
    intro seen steps'
    unfold View.checkSteps
    split
    · next hblank =>
      refine iff_of_false (fun h => by cases h) fun ⟨_, _, hstrip⟩ => ?_
      exact hstrip step List.mem_cons_self hblank
    · next hblank =>
      rw [bind_ok]
      constructor
      · rintro ⟨config, hconfig, h⟩
        obtain ⟨⟨⟩, hdeps, h⟩ := bind_ok.mp h
        obtain ⟨rest', hrest, h⟩ := bind_ok.mp h
        cases h
        obtain ⟨hsame, hknown, hstrip⟩ := ih.mp hrest
        refine ⟨.cons ⟨config, hconfig, rfl⟩ hsame, ⟨fun dep hdep => ?_, hknown⟩,
          List.forall_mem_cons.mpr ⟨hblank, hstrip⟩⟩
        by_contra hn
        have hdep := forM_ok.mp hdeps dep hdep
        rw [if_neg hn] at hdep
        cases hdep
      · rintro ⟨hsteps, ⟨hdeps, hknown⟩, hstrip⟩
        cases hsteps with
        | cons hstep hrest =>
          obtain ⟨config, hconfig, rfl⟩ := hstep
          refine ⟨config, hconfig, bind_ok.mpr ⟨(), forM_ok.mpr fun dep hdep => ?_,
            bind_ok.mpr ⟨_, ih.mpr ⟨hrest, hknown, (List.forall_mem_cons.mp hstrip).2⟩, rfl⟩⟩⟩
          rw [if_pos (hdeps dep hdep)]

theorem Normalizes.same {s s' : PipelineStep κ} (h : Normalizes R s s') : SameStep s s' := by
  obtain ⟨config, hconfig, rfl⟩ := h
  exact ⟨rfl, rfl, references_normalize hconfig⟩

/-- What `_validate_analysis_payload` accepts and returns. -/
theorem validate_iff {tabs tabs' : List (PipelineTab κ δ)} {datasourceIds : List String} :
    v.validateAnalysisPayload R analysisId tabs = .ok (tabs', datasourceIds) ↔
      tabs ≠ [] ∧
      (∀ i tab, tabs[i]? = some tab → v.checkDatasource analysisId tabs i tab = .ok ()) ∧
      (∀ id ∈ foreign tabs, Visible v.datasource id) ∧
      List.Forall₂ (fun t t' => View.checkSteps R [] t.steps = .ok t'.steps ∧
        t' = { t with steps := t'.steps }) tabs tabs' ∧
      datasourceIds = external tabs := by
  unfold View.validateAnalysisPayload
  split
  · next hempty => exact iff_of_false (fun h => by cases h) fun h => h.1 hempty
  · next hempty =>
    rw [bind_ok]
    constructor
    · rintro ⟨⟨⟩, hds, h⟩
      obtain ⟨⟨⟩, hforeign, h⟩ := bind_ok.mp h
      obtain ⟨checked, hchecked, h⟩ := bind_ok.mp h
      cases h
      refine ⟨hempty, fun i tab hi => ?_, fun id hid => ?_, ?_, rfl⟩
      · exact forM_ok.mp hds (tab, i) (List.mem_zipIdx_iff_getElem?.mpr hi)
      · exact requireVisible_check.mp (forM_ok.mp hforeign id (List.mem_dedup.mpr hid))
      · refine (mapM_ok.mp hchecked).imp fun t t' ht => ?_
        obtain ⟨steps, hs, ht⟩ := bind_ok.mp ht
        cases ht
        exact ⟨hs, rfl⟩
    · rintro ⟨-, hds, hforeign, hsteps, rfl⟩
      refine ⟨(), forM_ok.mpr fun p hp => ?_, bind_ok.mpr ⟨(), forM_ok.mpr fun id hid => ?_,
        bind_ok.mpr ⟨tabs', mapM_ok.mpr (hsteps.imp fun t t' ht => ?_), rfl⟩⟩⟩
      · exact hds p.2 p.1 (List.mem_zipIdx_iff_getElem?.mp hp)
      · exact requireVisible_check.mpr (hforeign id (List.mem_dedup.mp hid))
      · obtain ⟨hs, he⟩ := ht
        rw [he]
        exact bind_ok.mpr ⟨_, hs, rfl⟩

/-- What `_validate_analysis_payload` makes sure of. -/
structure Accepted (v : View) (analysisId : Option String) (tabs tabs' : List (PipelineTab κ δ)) :
    Prop where
  nonempty : tabs ≠ []
  same : List.Forall₂ SameTab tabs tabs'
  datasource : ∀ i tab, tabs[i]? = some tab → v.checkDatasource analysisId tabs i tab = .ok ()
  visible : ∀ id ∈ foreign tabs, Visible v.datasource id
  known : ∀ tab ∈ tabs, Known [] tab.steps

theorem validate_ok {tabs tabs' : List (PipelineTab κ δ)} {datasourceIds : List String}
    (h : v.validateAnalysisPayload R analysisId tabs = .ok (tabs', datasourceIds)) :
    Accepted v analysisId tabs tabs' ∧ datasourceIds = external tabs := by
  obtain ⟨hempty, hds, hforeign, hsteps, hids⟩ := validate_iff.mp h
  have hchecked : List.Forall₂ (fun t t' => SameTab t t' ∧ Known [] t.steps) tabs tabs' := by
    refine hsteps.imp fun t t' ht => ?_
    obtain ⟨hs, he⟩ := ht
    obtain ⟨hnorm, hknown, -⟩ := checkSteps_iff.mp hs
    rw [he]
    exact ⟨⟨rfl, rfl, rfl, hnorm.imp fun _ _ hs => hs.same⟩, hknown⟩
  refine ⟨⟨hempty, hchecked.imp fun _ _ ht => ht.1, hds, hforeign, ?_⟩, hids⟩
  intro tab htab
  obtain ⟨tab', -, -, hknown⟩ := forall₂_left hchecked htab
  exact hknown

end DataForge.Analyses
