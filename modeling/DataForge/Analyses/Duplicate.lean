import DataForge.Analyses.Cycles
import DataForge.Analyses.Renaming

/-!
# Duplicating an analysis

`duplicate_analysis` rewrites the ids of a stored pipeline, names its outputs anew and creates an
analysis of the result, which is checked as a new one: its outputs are not datasources yet.
-/

namespace DataForge.Analyses

open Effects Relation

variable {κ δ : Type} {R : Rules κ δ}

/-- The names that the outputs of a copy get. -/
def Naming.outputNames (N : Naming δ) (name : String) (tabs : List (PipelineTab κ δ)) :
    List String :=
  tabs.mapIdx fun i t => N.defaultOutputName name t.name i

/-- The copy is a renaming of the pipeline, with a name of its own for each output. -/
def DuplicateRenames (N : Naming δ) (name : String) (tabs copy : List (PipelineTab κ δ)) : Prop :=
  (∃ ρ : Renaming, ρ.Proper tabs ∧
    copy = N.name name (tabs.mapIdx (ρ.apply tabs fun d => d))) ∧
    (N.outputNames name tabs).Nodup

/-- The ids that are drawn are ids, and no row has them. -/
structure FreshIds.Unused (F : FreshIds) (v : View) (newId : String) : Prop where
  tab_ne : ∀ i, F.tab i ≠ ""
  output_ne : ∀ i, F.output i ≠ ""
  step_ne : ∀ p, Compute.strip (F.step p) ≠ ""
  output_row : ∀ i, v.datasource (F.output i) = none
  analysis_row : ∀ d, v.source d ≠ some newId

/-- The configurations are as the schemas of the steps return them. -/
def NormalConfigs (R : Rules κ δ) (tabs : List (PipelineTab κ δ)) : Prop :=
  ∀ t ∈ tabs, ∀ s ∈ t.steps, normalizeStepConfig R s.type s.config = .ok s.config

/-- A pipeline whose copy refers to nothing outside itself that the pipeline does not: its ids
are separate, its parents are there, and no step names an output of it as a source. -/
structure Duplicable (tabs : List (PipelineTab κ δ)) : Prop where
  separate : Separate tabs
  parents : ∀ t ∈ tabs, ∀ p, t.parentId = some p → p ∈ tabs.map PipelineTab.id
  sources : ∀ t ∈ tabs, ∀ s ∈ t.steps, ∀ r ∈ s.config.named, r ∉ resultIds tabs

/-! ## Configurations with renamed sources -/

section Configs

variable {stepType : String} {config : StepConfig κ} {f g : String → String}

theorem mapSources_id (config : StepConfig κ) : config.mapSources id = config := by
  obtain ⟨rightSource, sources, rest⟩ := config
  rw [StepConfig.mapSources]
  congr 1
  · cases rightSource with
    | none => rfl
    | some v => cases v <;> rfl
  · cases sources with
    | none => rfl
    | some v =>
      cases v with
      | list items => simp
      | _ => rfl

theorem named_mapSources : (config.mapSources f).named = config.named.map f := by
  obtain ⟨rightSource, sources, rest⟩ := config
  rw [StepConfig.named, StepConfig.named, List.map_append]
  congr 1
  · cases rightSource with
    | none => rfl
    | some v => cases v <;> rfl
  · cases sources with
    | none => rfl
    | some v =>
      cases v with
      | str s => rfl
      | list items => exact List.reduceOption_map
      | other => rfl

theorem normalizeSources_mapped (f' : String → String)
    (h : normalizeSources stepType (config.mapSources f) =
      some ((config.mapSources g).rightSource, (config.mapSources g).sources)) :
    normalizeSources stepType (config.mapSources f') =
      some ((config.mapSources f').rightSource, (config.mapSources f').sources) := by
  obtain ⟨rightSource, sources, rest⟩ := config
  -- The three kinds of schemas, and each shape of the two fields.
  by_cases hjoin : stepType = "join" <;> by_cases hunion : stepType = "union_by_name" <;>
    rcases rightSource with _ | (r | items | _) <;>
    rcases sources with _ | (r' | items' | _) <;>
    simp_all [normalizeSources, StepConfig.mapSources]

theorem normalize_mapSources
    (h : normalizeStepConfig R stepType (config.mapSources f) = .ok (config.mapSources g))
    (f' : String → String) :
    normalizeStepConfig R stepType (config.mapSources f') = .ok (config.mapSources f') := by
  unfold normalizeStepConfig at h
  split at h
  case h_2 => cases h
  case h_1 rightSource' sources' rest' hs hr =>
    have he := Except.ok.inj h
    have hs' : normalizeSources stepType (config.mapSources f) =
        some ((config.mapSources g).rightSource, (config.mapSources g).sources) := by
      rw [hs, ← he]
    have hr' : R.normalizeRest stepType (config.mapSources f').rest = some config.rest := by
      rw [show some config.rest = some rest' from
        congrArg (fun c : StepConfig κ => some c.rest) he.symm]
      exact hr
    unfold normalizeStepConfig
    rw [normalizeSources_mapped f' hs', hr']
    rfl

theorem normalize_renamed (h : normalizeStepConfig R stepType config = .ok config)
    (f : String → String) :
    normalizeStepConfig R stepType (config.mapSources f) = .ok (config.mapSources f) := by
  rw [← mapSources_id config] at h
  exact normalize_mapSources h f

theorem normal_of_renamed
    (h : normalizeStepConfig R stepType (config.mapSources f) = .ok (config.mapSources g)) :
    normalizeStepConfig R stepType config = .ok config := by
  have hid := normalize_mapSources h id
  rw [mapSources_id] at hid
  exact hid

end Configs

/-! ## The copy and its check -/

section Copy

variable {N : Naming δ} {n : String} {F : FreshIds} {tabs copy : List (PipelineTab κ δ)}

theorem getElem?_name (i : ℕ) :
    (N.name n tabs)[i]? = tabs[i]?.map fun t =>
      { t with rest := N.setOutputName (N.defaultOutputName n t.name i) t.rest } := by
  rw [Naming.name, List.getElem?_mapIdx]

theorem map_name {α : Type} (f : PipelineTab κ δ → α)
    (hf : ∀ t rest, f { t with rest } = f t) : (N.name n tabs).map f = tabs.map f := by
  refine List.ext_getElem? fun i => ?_
  rw [List.getElem?_map, getElem?_name, List.getElem?_map, Option.map_map]
  congr 1
  funext t
  exact hf t _

theorem forall_name {p : PipelineTab κ δ → Prop} (hp : ∀ t rest, p { t with rest } ↔ p t) :
    (∀ t ∈ N.name n tabs, p t) ↔ ∀ t ∈ tabs, p t := by
  have hmap : (N.name n tabs).map p = tabs.map p :=
    map_name p fun t rest => propext (hp t rest)
  have hall (l : List (PipelineTab κ δ)) : (∀ t ∈ l, p t) ↔ ∀ q ∈ l.map p, q :=
    (List.forall_mem_map (P := fun q => q)).symm
  rw [hall, hmap, ← hall]

theorem sameIds_name : SameIds tabs (N.name n tabs) where
  ids := map_name _ fun _ _ => rfl
  outputs := map_name _ fun _ _ => rfl
  steps := map_name _ fun _ _ => rfl

/-- What `duplicate_analysis` makes of a pipeline before it is checked. -/
theorem duplicateTabs_iff :
    duplicateTabs N F n tabs = .ok copy ↔
      (∀ t ∈ tabs, Linked tabs t) ∧
        copy = N.name n (tabs.mapIdx (copyTab F tabs fun _ => none)) := by
  have hcopy : (N.name n tabs).mapIdx (copyTab F (N.name n tabs) fun _ => none) =
      N.name n (tabs.mapIdx (copyTab F tabs fun _ => none)) := by
    refine List.ext_getElem? fun i => ?_
    rw [List.getElem?_mapIdx, getElem?_name, getElem?_name, List.getElem?_mapIdx,
      Option.map_map, Option.map_map]
    congr 1
    funext t
    simp only [Function.comp_apply, copyTab, copyDatasource, remapStep, sameIds_name.tabIdMap,
      sameIds_name.outputIdMap, sameIds_name.allStepIdMap, sameIds_name.sourceIdMap]
  have hlinked : (∀ t ∈ N.name n tabs, Linked (N.name n tabs) t) ↔
      ∀ t ∈ tabs, Linked tabs t := by
    rw [forall_name fun t rest =>
      ⟨fun h => ⟨h.parent, h.upstream⟩, fun h => ⟨h.parent, h.upstream⟩⟩]
    exact forall₂_congr fun t _ => sameIds_name.linked rfl rfl
  rw [duplicateTabs, rewriteTabs_iff, hcopy, hlinked]

theorem tabOutputMap_of_nodup (hnodup : (tabs.map PipelineTab.id).Nodup) {t : PipelineTab κ δ}
    (ht : t ∈ tabs) (hne : t.id ≠ "") : View.tabOutputMap tabs t.id = some t.resultId := by
  rw [View.tabOutputMap, Option.map_eq_some_iff]
  cases h : (tabs.filter (·.id ≠ "")).reverse.find? (·.id = t.id) with
  | none =>
    have hmem : t ∈ (tabs.filter (·.id ≠ "")).reverse :=
      List.mem_reverse.mpr (List.mem_filter.mpr ⟨ht, by simpa using hne⟩)
    have hno := List.find?_eq_none.mp h t hmem
    simp at hno
  | some u =>
    have hid : u.id = t.id := by simpa using List.find?_some h
    have hmem := List.mem_reverse.mp (List.mem_of_find?_eq_some h)
    have hu : u ∈ tabs := (List.mem_filter.mp hmem).1
    rw [List.inj_on_of_nodup_map hnodup hu ht hid]
    exact ⟨t, rfl, rfl⟩

theorem checkDatasource_external {v : View} {analysisId : String} {walk : ℕ}
    {t : PipelineTab κ δ} (hu : t.datasource.analysisTabId = none) :
    v.checkDatasource (some analysisId) tabs walk t = .ok () ↔
      ∃ row, v.requireVisible t.datasource.id = .ok row ∧
        ∀ source, row.source = some source →
          v.assertNoAnalysisCycle walk analysisId source = .ok () := by
  simp only [View.checkDatasource, hu]
  rw [bind_ok]
  refine exists_congr fun row => and_congr_right fun _ => ?_
  cases row.source with
  | none => exact iff_of_true rfl fun source h => by cases h
  | some source =>
    constructor
    · intro h source' h'
      cases h'
      exact h
    · intro h
      exact h source rfl

theorem mem_references {id : String} :
    id ∈ references tabs ↔ ∃ t ∈ tabs, ∃ s ∈ t.steps, id ∈ s.config.named ∧ id ≠ "" := by
  have hconfig (config : StepConfig κ) :
      id ∈ config.references ↔ id ∈ config.named ∧ id ≠ "" := by
    rw [StepConfig.references, StepConfig.sourceIds, StepConfig.named]
    simp only [List.mem_filter, List.mem_append, decide_eq_true_eq]
    tauto
  simp only [references, List.mem_flatMap, hconfig]

theorem known_map (f : String → String) (g : PipelineStep κ → PipelineStep κ)
    (hid : ∀ s, (g s).id = f s.id) (hdeps : ∀ s, (g s).dependsOn = s.dependsOn.map f) :
    ∀ {steps : List (PipelineStep κ)} {seen : List String}, Known seen steps →
      Known (seen.map f) (steps.map g)
  | [], _, _ => trivial
  | s :: steps, seen, h => by
    refine ⟨fun dep hdep => ?_, ?_⟩
    · rw [hdeps] at hdep
      obtain ⟨d, hd, rfl⟩ := List.mem_map.mp hdep
      rw [hid, ← List.map_cons]
      exact List.mem_map_of_mem (h.1 d hd)
    · rw [hid, ← List.map_cons]
      exact known_map f g hid hdeps h.2

end Copy

/-! ## Renamed pipelines -/

section Renamed

variable {N : Naming δ} {n newId analysisId : String} {F : FreshIds}
  {tabs copy : List (PipelineTab κ δ)} {v : View}

/-- The pipeline renamed by the ids drawn for it. -/
def FreshIds.renamed (F : FreshIds) (N : Naming δ) (n : String)
    (tabs : List (PipelineTab κ δ)) : List (PipelineTab κ δ) :=
  N.name n (tabs.mapIdx ((F.renaming tabs).apply tabs fun d => d))

/-- A tab of the renamed pipeline. -/
def FreshIds.renamedTab (F : FreshIds) (N : Naming δ) (n : String)
    (tabs : List (PipelineTab κ δ)) (i : ℕ) (t : PipelineTab κ δ) : PipelineTab κ δ :=
  { (F.renaming tabs).apply tabs (fun d => d) i t with
    rest := N.setOutputName (N.defaultOutputName n t.name i) t.rest }

theorem getElem?_renamed (i : ℕ) :
    (F.renamed N n tabs)[i]? = tabs[i]?.map (F.renamedTab N n tabs i) := by
  rw [FreshIds.renamed, getElem?_name, List.getElem?_mapIdx, Option.map_map]
  rfl

theorem duplicateTabs_separate (hsep : Separate tabs) :
    duplicateTabs N F n tabs = .ok copy ↔
      (∀ t ∈ tabs, Linked tabs t) ∧ copy = F.renamed N n tabs := by
  rw [duplicateTabs_iff]
  refine and_congr_right fun hlinked => ?_
  have hcopy : tabs.mapIdx (copyTab F tabs fun _ => none) =
      tabs.mapIdx ((F.renaming tabs).apply tabs fun d => d) := by
    refine List.ext_getElem? fun i => ?_
    rw [List.getElem?_mapIdx, List.getElem?_mapIdx]
    cases ht : tabs[i]? with
    | none => rfl
    | some t =>
      rw [Option.map_some, Option.map_some,
        copyTab_renamed hsep ht (hlinked t (List.mem_of_getElem? ht))]
      rfl
  rw [hcopy, FreshIds.renamed]

theorem mem_renamed {t' : PipelineTab κ δ} :
    t' ∈ F.renamed N n tabs ↔
      ∃ (i : ℕ) (t : PipelineTab κ δ), tabs[i]? = some t ∧ F.renamedTab N n tabs i t = t' := by
  rw [List.mem_iff_getElem?]
  exact exists_congr fun i => by rw [getElem?_renamed, Option.map_eq_some_iff]

theorem renamedTab_id (hnodup : (tabs.map PipelineTab.id).Nodup) {i : ℕ} {t : PipelineTab κ δ}
    (ht : tabs[i]? = some t) : (F.renamedTab N n tabs i t).id = F.tab i :=
  renaming_tab_place hnodup ht

theorem ids_renamed (hnodup : (tabs.map PipelineTab.id).Nodup) {id : String}
    (h : id ∈ (F.renamed N n tabs).map PipelineTab.id) : ∃ i, id = F.tab i := by
  obtain ⟨t', ht', rfl⟩ := List.mem_map.mp h
  obtain ⟨i, t, ht, rfl⟩ := mem_renamed.mp ht'
  exact ⟨i, renamedTab_id hnodup ht⟩

theorem ids_renamed_nodup (hF : Function.Injective F.tab)
    (hnodup : (tabs.map PipelineTab.id).Nodup) :
    ((F.renamed N n tabs).map PipelineTab.id).Nodup := by
  refine nodup_places.mpr fun i j t' u' ht' hu' he => hF ?_
  rw [getElem?_renamed] at ht' hu'
  obtain ⟨t, ht, rfl⟩ := Option.map_eq_some_iff.mp ht'
  obtain ⟨u, hu, rfl⟩ := Option.map_eq_some_iff.mp hu'
  rw [renamedTab_id hnodup ht, renamedTab_id hnodup hu] at he
  exact he

section Checks

variable (hF : F.Fresh tabs fun _ => none) (hnew : F.Unused v newId) (hsep : Separate tabs)

include hnew in
theorem assertNoAnalysisCycle_new (walk : ℕ) {d source : String} (h : v.source d = some source) :
    v.assertNoAnalysisCycle walk newId source = .ok () := by
  rcases assertNoAnalysisCycle_iff v walk newId source with ⟨hp, -⟩ | ⟨-, hok⟩
  · rcases ReflTransGen.cases_tail hp with rfl | ⟨b, -, hedge⟩
    · exact absurd h (hnew.analysis_row d)
    · obtain ⟨d', -, hd'⟩ := List.mem_filterMap.mp hedge
      exact absurd hd' (hnew.analysis_row d')
  · exact hok

include hF hnew hsep in
/-- The inputs of the renamed tabs pass the check when those of the tabs do. -/
theorem checkDatasource_renamed {i : ℕ} {t : PipelineTab κ δ} (ht : tabs[i]? = some t)
    (h : v.checkDatasource (some analysisId) tabs i t = .ok ()) :
    v.checkDatasource (some newId) (F.renamed N n tabs) i (F.renamedTab N n tabs i t) =
      .ok () := by
  have hmem : t ∈ tabs := List.mem_of_getElem? ht
  cases hu : t.datasource.analysisTabId with
  | some u =>
    -- The tab and its output are at one place, so they get their new ids from it.
    obtain ⟨w, hw, rfl, hout⟩ := tabOutputMap_some ((checkDatasource_derived hu).mp h)
    obtain ⟨k, hk⟩ := List.mem_iff_getElem?.mp hw
    have hwid := renamedTab_id (F := F) (N := N) (n := n) hsep.tabs_nodup hk
    have houtput : t.datasource.id ∈ resultIds tabs := mem_resultIds.mpr ⟨k, w, hk, hout⟩
    have hmap := tabOutputMap_of_nodup (ids_renamed_nodup hF.tab_inj hsep.tabs_nodup)
      (mem_renamed.mpr ⟨k, w, hk, rfl⟩) (hwid ▸ hnew.tab_ne k)
    rw [checkDatasource_derived (u := (F.renamedTab N n tabs k w).id), hmap]
    · simp only [FreshIds.renamedTab, Renaming.apply, if_pos houtput, hout]
    · simp only [FreshIds.renamedTab, Renaming.apply, hu, Option.map_some]
  | none =>
    obtain ⟨row, hrow, hcycle⟩ := (checkDatasource_external hu).mp h
    have hid : (F.renamedTab N n tabs i t).datasource.id = t.datasource.id := by
      simp only [FreshIds.renamedTab, Renaming.apply,
        if_neg (ids_not_external hsep hmem hu)]
    refine (checkDatasource_external ?_).mpr ⟨row, hid ▸ hrow, fun source hsource => ?_⟩
    · simp only [FreshIds.renamedTab, Renaming.apply, hu, Option.map_none]
    · refine assertNoAnalysisCycle_new hnew i (d := t.datasource.id) ?_
      rw [View.source, (requireVisible_ok.mp hrow).1]
      exact hsource

theorem mem_references_renamed {id : String} :
    id ∈ references (F.renamed N n tabs) ↔
      ∃ t ∈ tabs, ∃ s ∈ t.steps, ∃ r ∈ s.config.named,
        (F.renaming tabs).source tabs (fun d => d) r = id ∧ id ≠ "" := by
  rw [mem_references]
  constructor
  · rintro ⟨t', ht', s', hs', hid, hne⟩
    obtain ⟨i, t, ht, rfl⟩ := mem_renamed.mp ht'
    obtain ⟨s, hs, rfl⟩ := List.mem_map.mp hs'
    rw [named_mapSources] at hid
    obtain ⟨r, hr, he⟩ := List.mem_map.mp hid
    exact ⟨t, List.mem_of_getElem? ht, s, hs, r, hr, he, hne⟩
  · rintro ⟨t, ht, s, hs, r, hr, he, hne⟩
    obtain ⟨i, hi⟩ := List.mem_iff_getElem?.mp ht
    refine ⟨_, mem_renamed.mpr ⟨i, t, hi, rfl⟩, _, List.mem_map_of_mem hs, ?_, hne⟩
    rw [named_mapSources, ← he]
    exact List.mem_map_of_mem hr

include hF hnew hsep in
/-- A renamed source that is not there is an output of the pipeline. -/
theorem foreign_renamed (hvisible : ∀ id ∈ foreign tabs, Visible v.datasource id) :
    (∀ id ∈ foreign (F.renamed N n tabs), Visible v.datasource id) ↔
      ∀ t ∈ tabs, ∀ s ∈ t.steps, ∀ r ∈ s.config.named, r ∉ resultIds tabs := by
  constructor
  · intro h t ht s hs r hr hown
    obtain ⟨k, u, hu, rfl⟩ := mem_resultIds.mp hown
    have hsource : (F.renaming tabs).source tabs (fun d => d) u.resultId = F.output k := by
      rw [Renaming.source, if_pos hown, renaming_output_place hsep.outputs_nodup hu]
    have hmem := mem_references_renamed (N := N) (n := n).mpr
      ⟨t, ht, s, hs, _, hr, hsource, hnew.output_ne k⟩
    have hforeign : F.output k ∈ foreign (F.renamed N n tabs) := by
      refine List.mem_filter.mpr ⟨hmem, decide_eq_true fun htab => ?_⟩
      obtain ⟨i, hi⟩ := ids_renamed hsep.tabs_nodup (List.mem_filter.mp htab).1
      exact hF.tab_ne_output i k hi.symm
    obtain ⟨row, hrow, -⟩ := h _ hforeign
    rw [hnew.output_row k] at hrow
    cases hrow
  · intro h id hid
    obtain ⟨hmem, hno⟩ := List.mem_filter.mp hid
    obtain ⟨t, ht, s, hs, r, hr, rfl, hne⟩ := mem_references_renamed.mp hmem
    have hnotab := of_decide_eq_true hno
    rw [Renaming.source, if_neg (h t ht s hs r hr)] at hne hnotab ⊢
    by_cases htab : r ∈ tabs.map PipelineTab.id
    · exfalso
      obtain ⟨k, u, hu, rfl⟩ := mem_ids.mp htab
      rw [if_pos htab, renaming_tab_place hsep.tabs_nodup hu] at hnotab
      refine hnotab (List.mem_filter.mpr ⟨?_, decide_eq_true (hnew.tab_ne k)⟩)
      rw [← renamedTab_id (N := N) (n := n) hsep.tabs_nodup hu]
      exact List.mem_map_of_mem (mem_renamed.mpr ⟨k, u, hu, rfl⟩)
    · rw [if_neg htab] at hne ⊢
      refine hvisible r (List.mem_filter.mpr ⟨mem_references.mpr ⟨t, ht, s, hs, hr, hne⟩, ?_⟩)
      exact decide_eq_true fun hin => htab (List.mem_filter.mp hin).1

include hnew hsep in
theorem checkSteps_renamed (hnormal : NormalConfigs R tabs) {i : ℕ} {t : PipelineTab κ δ}
    (ht : tabs[i]? = some t) (hknown : Known [] t.steps) :
    View.checkSteps R [] (F.renamedTab N n tabs i t).steps =
      .ok (F.renamedTab N n tabs i t).steps := by
  have hmem : t ∈ tabs := List.mem_of_getElem? ht
  refine checkSteps_iff.mpr ⟨List.forall₂_same.mpr fun s' hs' => ?_, ?_, fun s' hs' => ?_⟩
  · obtain ⟨s, hs, rfl⟩ := List.mem_map.mp hs'
    exact ⟨_, normalize_renamed (hnormal t hmem s hs) _, rfl⟩
  · exact known_map ((F.renaming tabs).step i) _ (fun _ => rfl) (fun _ => rfl) hknown
  · obtain ⟨s, hs, rfl⟩ := List.mem_map.mp hs'
    obtain ⟨j, hj⟩ := List.mem_iff_getElem?.mp hs
    show Compute.strip ((F.renaming tabs).step i s.id) ≠ ""
    rw [renaming_step_place ht hj (hsep.steps_nodup t hmem)]
    exact hnew.step_ne (i, j)

end Checks

theorem normalConfigs_renamed (h : NormalConfigs R tabs) :
    NormalConfigs R (F.renamed N n tabs) := by
  intro t' ht' s' hs'
  obtain ⟨i, t, ht, rfl⟩ := mem_renamed.mp ht'
  obtain ⟨s, hs, rfl⟩ := List.mem_map.mp hs'
  exact normalize_renamed (h t (List.mem_of_getElem? ht) s hs) _

theorem steps_of_normal {steps steps' : List (PipelineStep κ)}
    (hnormal : ∀ s ∈ steps, normalizeStepConfig R s.type s.config = .ok s.config)
    (h : List.Forall₂ (Normalizes R) steps steps') : steps' = steps := by
  induction h with
  | nil => rfl
  | cons hs _ ih =>
    obtain ⟨hnormal, hrest⟩ := List.forall_mem_cons.mp hnormal
    obtain ⟨config, hconfig, rfl⟩ := hs
    cases hnormal.symm.trans hconfig
    rw [ih hrest]

theorem validate_normal {id : Option String} {result : List (PipelineTab κ δ)}
    {datasourceIds : List String} (hnormal : NormalConfigs R tabs)
    (h : v.validateAnalysisPayload R id tabs = .ok (result, datasourceIds)) : result = tabs := by
  obtain ⟨-, -, -, hsteps, -⟩ := validate_iff.mp h
  obtain ⟨hlen, hget⟩ := List.forall₂_iff_get.mp hsteps
  refine List.ext_getElem hlen.symm fun i h1 h2 => ?_
  obtain ⟨hs, he⟩ := hget i h2 h1
  simp only [List.get_eq_getElem] at hs he
  rw [he, steps_of_normal (hnormal _ (List.getElem_mem h2)) (checkSteps_iff.mp hs).1]

end Renamed

/-! ## When a duplicate is a renaming -/

section Claim

variable {N : Naming δ} {name newId : String} {F : FreshIds}
  {tabs copy : List (PipelineTab κ δ)} {v : View}

theorem duplicateAnalysis_iff :
    duplicateAnalysis N R v F newId name tabs = .ok copy ↔
      ∃ rewritten, duplicateTabs N F name tabs = .ok rewritten ∧
        ∃ ids, v.validateAnalysisPayload R (some newId) rewritten = .ok (copy, ids) := by
  rw [duplicateAnalysis, bind_ok]
  refine exists_congr fun rewritten => and_congr_right fun _ => ?_
  rw [bind_ok]
  constructor
  · rintro ⟨⟨stored, ids⟩, h, hr⟩
    cases hr
    exact ⟨ids, h⟩
  · rintro ⟨ids, h⟩
    exact ⟨_, h, rfl⟩

/-- A valid pipeline that is duplicable and normal is copied to a renaming. -/
theorem duplicate_renamed {analysisId : String} (hF : F.Fresh tabs fun _ => none)
    (hnew : F.Unused v newId)
    (hvalid : ∃ r, v.validateAnalysisPayload R (some analysisId) tabs = .ok r)
    (hdup : Duplicable tabs) (hnormal : NormalConfigs R tabs) :
    duplicateAnalysis N R v F newId name tabs = .ok (F.renamed N name tabs) := by
  obtain ⟨⟨tabs', ids⟩, hvalid⟩ := hvalid
  obtain ⟨hempty, hds, hvisible, hsteps, -⟩ := validate_iff.mp hvalid
  have hsep := hdup.separate
  have hlinked : ∀ t ∈ tabs, Linked tabs t := by
    intro t ht
    refine ⟨hdup.parents t ht, fun u hu => ?_⟩
    obtain ⟨i, hi⟩ := List.mem_iff_getElem?.mp ht
    obtain ⟨w, hw, hid, hout⟩ := tabOutputMap_some ((checkDatasource_derived hu).mp (hds i t hi))
    exact ⟨List.mem_map.mpr ⟨w, hw, hid⟩, List.mem_map.mpr ⟨w, hw, hout⟩⟩
  refine duplicateAnalysis_iff.mpr ⟨_, (duplicateTabs_separate hsep).mpr ⟨hlinked, rfl⟩,
    external (F.renamed N name tabs), validate_iff.mpr ⟨?_, ?_, ?_, ?_, rfl⟩⟩
  · intro hnil
    have hlen := congrArg List.length hnil
    rw [FreshIds.renamed, Naming.name, List.length_mapIdx, List.length_mapIdx] at hlen
    exact hempty (List.length_eq_zero_iff.mp hlen)
  · intro i t' ht'
    rw [getElem?_renamed] at ht'
    obtain ⟨t, ht, rfl⟩ := Option.map_eq_some_iff.mp ht'
    exact checkDatasource_renamed hF hnew hsep ht (hds i t ht)
  · exact (foreign_renamed hF hnew hsep hvisible).mpr hdup.sources
  · refine List.forall₂_same.mpr fun t' ht' => ⟨?_, rfl⟩
    obtain ⟨i, t, ht, rfl⟩ := mem_renamed.mp ht'
    refine checkSteps_renamed hnew hsep hnormal ht ?_
    obtain ⟨t', -, hsteps, -⟩ := forall₂_left hsteps (List.mem_of_getElem? ht)
    exact (checkSteps_iff.mp hsteps).2.1

/-- The tabs of a copy and of a renaming that it is: they differ from the rewritten ones in the
configurations of their steps only. -/
theorem copied_tab {rewritten : List (PipelineTab κ δ)} {id : Option String} {ids : List String}
    (hrewritten : duplicateTabs N F name tabs = .ok rewritten)
    (hcopy : v.validateAnalysisPayload R id rewritten = .ok (copy, ids)) {ρ : Renaming}
    (hρ : copy = N.name name (tabs.mapIdx (ρ.apply tabs fun d => d))) {i : ℕ}
    {t : PipelineTab κ δ} (ht : tabs[i]? = some t) :
    List.Forall₂ (Normalizes R) (copyTab F tabs (fun _ => none) i t).steps
        (ρ.apply tabs (fun d => d) i t).steps ∧
      ρ.apply tabs (fun d => d) i t =
        { copyTab F tabs (fun _ => none) i t with
          steps := (ρ.apply tabs (fun d => d) i t).steps } := by
  obtain ⟨-, rfl⟩ := duplicateTabs_iff.mp hrewritten
  obtain ⟨-, -, -, hsteps, -⟩ := validate_iff.mp hcopy
  have hi : (N.name name (tabs.mapIdx (copyTab F tabs fun _ => none)))[i]? =
      some { copyTab F tabs (fun _ => none) i t with
        rest := N.setOutputName (N.defaultOutputName name t.name i) t.rest } := by
    rw [getElem?_name, List.getElem?_mapIdx, ht]
    rfl
  obtain ⟨t', ht', hchecked, he⟩ := forall₂_getElem? hsteps hi
  rw [hρ, getElem?_name, List.getElem?_mapIdx, ht] at ht'
  cases ht'
  refine ⟨(checkSteps_iff.mp hchecked).1, ?_⟩
  exact congrArg (fun u : PipelineTab κ δ => { u with rest := t.rest }) he

/-- The steps of a copy that is a renaming are normalized. -/
theorem copied_step {ρ : Renaming} {i j : ℕ} {t : PipelineTab κ δ} {s : PipelineStep κ}
    (h : List.Forall₂ (Normalizes R) (copyTab F tabs (fun _ => none) i t).steps
      (ρ.apply tabs (fun d => d) i t).steps) (hs : t.steps[j]? = some s) :
    ρ.step i s.id = F.step (i, j) ∧
      s.dependsOn.map (ρ.step i) =
        (s.dependsOn.map fun d => (allStepIdMap F tabs d).getD d) ∧
      normalizeStepConfig R s.type
          (s.config.mapSources fun r => (sourceIdMap F tabs (fun _ => none) r).getD r) =
        .ok (s.config.mapSources (ρ.source tabs fun d => d)) := by
  have hcopied : (copyTab F tabs (fun _ => none) i t).steps[j]? =
      some (remapStep F tabs (fun _ => none) { s with id := F.step (i, j) }) := by
    rw [copyTab, List.getElem?_mapIdx, hs]
    rfl
  obtain ⟨b, hb, config, hconfig, he⟩ := forall₂_getElem? h hcopied
  rw [Renaming.apply, List.getElem?_map, hs, Option.map_some, Option.some.injEq] at hb
  subst hb
  refine ⟨congrArg PipelineStep.id he, congrArg PipelineStep.dependsOn he, ?_⟩
  rw [show s.config.mapSources (ρ.source tabs fun d => d) = config from
    congrArg PipelineStep.config he]
  exact hconfig

/-- A copy is a renaming of the pipeline exactly when the ids of the pipeline are separate and
its configurations normal. -/
theorem copy_renames_iff (hF : F.Fresh tabs fun _ => none)
    (h : duplicateAnalysis N R v F newId name tabs = .ok copy) :
    (∃ ρ : Renaming, ρ.Proper tabs ∧
      copy = N.name name (tabs.mapIdx (ρ.apply tabs fun d => d))) ↔
      Separate tabs ∧ NormalConfigs R tabs := by
  obtain ⟨rewritten, hrewritten, ids, hcopy⟩ := duplicateAnalysis_iff.mp h
  constructor
  · rintro ⟨ρ, -, hρ⟩
    have htab (i t) (ht : tabs[i]? = some t) := copied_tab hrewritten hcopy hρ ht
    have hagrees : ρ.Agrees F tabs fun _ => none := by
      refine ⟨fun i t ht => congrArg PipelineTab.id (htab i t ht).2,
        fun i t ht => congrArg PipelineTab.resultId (htab i t ht).2, fun i t ht j s hs => ?_,
        fun t hmem hnone hd => ?_⟩
      · obtain ⟨hid, hdeps, -⟩ := copied_step (htab i t ht).1 hs
        exact ⟨hid, fun d hd => List.map_inj_left.mp hdeps d hd⟩
      · obtain ⟨i, ht⟩ := List.mem_iff_getElem?.mp hmem
        have hinput := congrArg (fun u => u.datasource.id) (htab i t ht).2
        simp only [copyTab, copyDatasource, Renaming.apply, hnone, Option.isSome_none,
          Bool.false_eq_true, if_false, if_pos hd] at hinput
        exact hinput
    refine ⟨hagrees.separate hF, fun t hmem s hs => ?_⟩
    obtain ⟨i, ht⟩ := List.mem_iff_getElem?.mp hmem
    obtain ⟨j, hj⟩ := List.mem_iff_getElem?.mp hs
    exact normal_of_renamed (copied_step (htab i t ht).1 hj).2.2
  · rintro ⟨hsep, hnormal⟩
    obtain ⟨-, rfl⟩ := (duplicateTabs_separate hsep).mp hrewritten
    exact ⟨_, renaming_proper hF hsep, validate_normal (normalConfigs_renamed hnormal) hcopy⟩

theorem copy_sources (hF : F.Fresh tabs fun _ => none) (hnew : F.Unused v newId)
    (hvisible : ∀ id ∈ foreign tabs, Visible v.datasource id) (hsep : Separate tabs)
    (h : duplicateAnalysis N R v F newId name tabs = .ok copy) : Duplicable tabs := by
  obtain ⟨rewritten, hrewritten, ids, hcopy⟩ := duplicateAnalysis_iff.mp h
  obtain ⟨hlinked, rfl⟩ := (duplicateTabs_separate hsep).mp hrewritten
  obtain ⟨-, -, hforeign, -, -⟩ := validate_iff.mp hcopy
  exact ⟨hsep, fun t ht => (hlinked t ht).parent,
    (foreign_renamed hF hnew hsep hvisible).mp hforeign⟩

/-- Of a pipeline that is still valid, `duplicate_analysis` makes a renaming with distinct output
names exactly when the pipeline is duplicable, its configurations are normal and the output names
distinct; and what it makes of any pipeline is such a renaming exactly when the ids are separate,
the configurations normal and the output names distinct. -/
theorem duplicateRenames_iff (analysisId : String) (hF : F.Fresh tabs fun _ => none)
    (hnew : F.Unused v newId) :
    ((∃ r, v.validateAnalysisPayload R (some analysisId) tabs = .ok r) →
      ((∃ copy, duplicateAnalysis N R v F newId name tabs = .ok copy ∧
          DuplicateRenames N name tabs copy) ↔
        Duplicable tabs ∧ NormalConfigs R tabs ∧ (N.outputNames name tabs).Nodup)) ∧
      ∀ copy, duplicateAnalysis N R v F newId name tabs = .ok copy →
        (DuplicateRenames N name tabs copy ↔
          Separate tabs ∧ NormalConfigs R tabs ∧ (N.outputNames name tabs).Nodup) := by
  have hcopied (copy) (h : duplicateAnalysis N R v F newId name tabs = .ok copy) :
      DuplicateRenames N name tabs copy ↔
        Separate tabs ∧ NormalConfigs R tabs ∧ (N.outputNames name tabs).Nodup := by
    rw [DuplicateRenames, copy_renames_iff hF h, and_assoc]
  refine ⟨fun hvalid => ⟨?_, ?_⟩, hcopied⟩
  · rintro ⟨copy, h, hrenames⟩
    obtain ⟨hsep, hnormal, hnames⟩ := (hcopied copy h).mp hrenames
    obtain ⟨⟨tabs', ids⟩, hvalid⟩ := hvalid
    obtain ⟨-, -, hvisible, -, -⟩ := validate_iff.mp hvalid
    exact ⟨copy_sources hF hnew hvisible hsep h, hnormal, hnames⟩
  · rintro ⟨hdup, hnormal, hnames⟩
    have h : duplicateAnalysis N R v F newId name tabs = .ok (F.renamed N name tabs) :=
      duplicate_renamed hF hnew hvalid hdup hnormal
    exact ⟨_, h, (hcopied _ h).mpr ⟨hdup.separate, hnormal, hnames⟩⟩

end Claim

/-! ## Two duplicates -/

/-- Outputs named with lower case, in a document that does not say so. -/
def plainNaming : Naming Unit := ⟨id, fun _ rest => rest⟩

/-- A tab on a datasource, and one that joins the first with the datasource. -/
def rateTabs : List (PipelineTab Unit Unit) :=
  [{ id := "A", name := "a", datasource := ⟨"rates", none⟩, resultId := "X", rest := () },
   { id := "B", name := "b", datasource := ⟨"X", some "A"⟩, resultId := "Y"
     steps :=
       [⟨"J", "join", joinWith "rates", [], some true⟩,
        ⟨"F", "filter", { rest := () }, ["J"], some false⟩]
     parentId := some "A", rest := () }]

theorem numbered_unused : numbered.Unused openCatalog.view "new" where
  tab_ne i h := by
    have hhead := congrArg (fun id : String => id.toList.head?) h
    simp [numbered] at hhead
  output_ne i h := by
    have hhead := congrArg (fun id : String => id.toList.head?) h
    simp [numbered] at hhead
  step_ne p h := by
    have hlist := congrArg String.toList h
    rw [Compute.strip, String.toList_ofList, numbered, String.toList_ofList,
      List.dropWhile_cons_of_neg (by decide)] at hlist
    have hspace := List.rdropWhile_eq_nil_iff.mp hlist 's' List.mem_cons_self
    exact absurd hspace (by decide)
  output_row i := by
    have hhead : (numbered.output i).toList.head? = some 'o' := numbered_head
    refine if_neg fun h => ?_
    rcases h with h | h <;>
    · rw [h] at hhead
      exact absurd hhead (by decide)
  analysis_row d := by
    rw [View.source, Db.view, openCatalog]
    dsimp only
    split
    · simp [DataSource.source]
    · simp

theorem rateTabs_normal : NormalConfigs plainRules rateTabs := by
  simp [NormalConfigs, rateTabs, normalizeStepConfig, normalizeSources, plainRules, joinWith]

theorem duplicateRenames_rates :
    ∃ copy, duplicateAnalysis plainNaming plainRules openCatalog.view numbered "new" "copy"
        rateTabs = .ok copy ∧ DuplicateRenames plainNaming "copy" rateTabs copy :=
  ((duplicateRenames_iff "old" (numbered_fresh (by decide) (by simp))
    numbered_unused).1 ⟨_, rfl⟩).mpr
      ⟨⟨by decide, by decide, by decide⟩, rateTabs_normal, by decide⟩

/-- A step of the first tab then depends on one of the second. -/
theorem not_duplicateRenames_shared :
    (∃ r, openCatalog.view.validateAnalysisPayload plainRules (some "old") sharedTabs = .ok r) ∧
      ¬ ∃ copy, duplicateAnalysis plainNaming plainRules openCatalog.view numbered "new" "copy"
        sharedTabs = .ok copy := by
  refine ⟨⟨_, rfl⟩, ?_⟩
  rintro ⟨copy, h⟩
  have herror : duplicateAnalysis plainNaming plainRules openCatalog.view numbered "new" "copy"
      sharedTabs = .error
        (.valueError ("Step depends on unknown step '" ++ numbered.step (1, 0) ++ "'")) := rfl
  rw [herror] at h
  cases h

end DataForge.Analyses
