import DataForge.Analyses.Remap
import Mathlib.Data.Nat.Pairing
import Mathlib.Data.Set.Function

/-!
# When a copy is a renaming

The copies of `rewriteTabs` against the renaming of a pipeline: one renaming of its tab ids, one
of its output ids and one of the step ids of each tab, applied to every reference.
-/

namespace DataForge.Analyses

open Effects

section Last

variable {β : Type} {entries : List (String × β)} {key : String} {value : β}

theorem last_mem (h : last entries key = some value) : (key, value) ∈ entries := by
  obtain ⟨l1, l2, heq, -⟩ := List.lookup_eq_some_iff.mp h
  rw [← List.mem_reverse, heq]
  simp

theorem last_none : last entries key = none ↔ ∀ value, (key, value) ∉ entries := by
  rw [last, List.lookup_eq_none_iff]
  constructor
  · intro h value hmem
    simpa using h _ (List.mem_reverse.mpr hmem)
  · intro h p hp
    rw [bne_iff_ne]
    rintro rfl
    exact h p.2 (List.mem_reverse.mp hp)

theorem last_of_unique (hmem : (key, value) ∈ entries)
    (h : ∀ value', (key, value') ∈ entries → value' = value) :
    last entries key = some value := by
  cases hlast : last entries key with
  | none => exact absurd hmem (last_none.mp hlast value)
  | some value' => rw [h value' (last_mem hlast)]

theorem last_sorted {r : β → β → Prop} (hr : ∀ b, r b b)
    (hsorted : entries.Pairwise fun p q => r p.2 q.2) (h : last entries key = some value)
    {value' : β} (hmem : (key, value') ∈ entries) : r value' value := by
  obtain ⟨l1, l2, heq, hno⟩ := List.lookup_eq_some_iff.mp h
  have hentries : entries = l2.reverse ++ (key, value) :: l1.reverse := by
    rw [← List.reverse_reverse entries, heq]
    simp
  rw [hentries] at hsorted hmem
  rcases List.mem_append.mp hmem with hmem | hmem
  · exact (List.pairwise_append.mp hsorted).2.2 _ hmem _ List.mem_cons_self
  · rcases List.mem_cons.mp hmem with he | hmem
    · cases he
      exact hr value
    · have hne := hno _ (List.mem_reverse.mp hmem)
      simp at hne

end Last

variable {κ δ : Type}

/-- The strings that a configuration names as sources, empty ones too. -/
def StepConfig.named (config : StepConfig κ) : List String :=
  (config.rightSource.bind Value.str?).toList ++ (config.sources.map Value.strings).getD []

/-- The ids that occur in a pipeline. -/
def names (tabs : List (PipelineTab κ δ)) : List String :=
  tabs.flatMap fun t =>
    t.id :: t.resultId :: t.datasource.id :: (t.parentId.toList ++
      t.datasource.analysisTabId.toList ++
        t.steps.flatMap fun s => s.id :: (s.dependsOn ++ s.config.named))

/-- The ids that are drawn are different from each other and from the ids that occur in the
pipeline or that its datasources are mapped to. -/
structure FreshIds.Fresh (F : FreshIds) (tabs : List (PipelineTab κ δ))
    (remap : String → Option String) : Prop where
  tab_inj : Function.Injective F.tab
  output_inj : Function.Injective F.output
  step_inj : Function.Injective F.step
  tab_ne_output : ∀ i j, F.tab i ≠ F.output j
  tab_new : ∀ i, F.tab i ∉ names tabs
  output_new : ∀ i, F.output i ∉ names tabs
  step_new : ∀ p, F.step p ∉ names tabs
  remap_new : ∀ r d, remap r = some d → ∀ i, F.output i ≠ d

/-- A renaming of tab ids, of output ids and of the step ids of each tab. -/
structure Renaming where
  tab : String → String
  output : String → String
  step : ℕ → String → String

/-- A source renamed: an output, a tab, or what stands for an external datasource. -/
def Renaming.source (ρ : Renaming) (tabs : List (PipelineTab κ δ)) (external : String → String)
    (r : String) : String :=
  if r ∈ resultIds tabs then ρ.output r
  else if r ∈ tabs.map PipelineTab.id then ρ.tab r
  else external r

/-- A tab renamed. -/
def Renaming.apply (ρ : Renaming) (tabs : List (PipelineTab κ δ)) (external : String → String)
    (place : ℕ) (t : PipelineTab κ δ) : PipelineTab κ δ :=
  { t with
    id := ρ.tab t.id
    resultId := ρ.output t.resultId
    parentId := t.parentId.map ρ.tab
    datasource :=
      { id := if t.datasource.id ∈ resultIds tabs then ρ.output t.datasource.id
          else external t.datasource.id
        analysisTabId := t.datasource.analysisTabId.map ρ.tab }
    steps := t.steps.map fun s =>
      { s with
        id := ρ.step place s.id
        dependsOn := s.dependsOn.map (ρ.step place)
        config := s.config.mapSources (ρ.source tabs external) } }

/-- The step ids of a tab and what its steps depend on. -/
def stepNames (steps : List (PipelineStep κ)) : Set String :=
  {id | id ∈ stepIds steps ∨ ∃ s ∈ steps, id ∈ s.dependsOn}

/-- A renaming is injective on the ids of a pipeline and gives it new ones. -/
structure Renaming.Proper (ρ : Renaming) (tabs : List (PipelineTab κ δ)) : Prop where
  tab_inj : Set.InjOn ρ.tab {id | id ∈ tabs.map PipelineTab.id}
  output_inj : Set.InjOn ρ.output {id | id ∈ resultIds tabs}
  step_inj : ∀ i t, tabs[i]? = some t → Set.InjOn (ρ.step i) (stepNames t.steps)
  tab_new : ∀ t ∈ tabs, ρ.tab t.id ∉ names tabs
  output_new : ∀ t ∈ tabs, ρ.output t.resultId ∉ names tabs
  step_new : ∀ i t, tabs[i]? = some t → ∀ s ∈ t.steps, ρ.step i s.id ∉ names tabs

/-- The parent and the tab that a tab is derived from are in the pipeline. -/
structure Linked (tabs : List (PipelineTab κ δ)) (t : PipelineTab κ δ) : Prop where
  parent : ∀ p, t.parentId = some p → p ∈ tabs.map PipelineTab.id
  upstream : ∀ u, t.datasource.analysisTabId = some u →
    u ∈ tabs.map PipelineTab.id ∧ t.datasource.id ∈ resultIds tabs

/-- The ids of a pipeline tell its tabs, outputs and steps apart: no two tabs share an id or
an output, no two steps of a tab share an id, no step depends on a step of its tab whose id a
later tab uses again, and no tab reads an output of the pipeline as if it were external. -/
structure Separate (tabs : List (PipelineTab κ δ)) : Prop where
  tabs_nodup : (tabs.map PipelineTab.id).Nodup
  outputs_nodup : (resultIds tabs).Nodup
  steps_nodup : ∀ t ∈ tabs, (stepIds t.steps).Nodup
  deps_last : ∀ (i : ℕ) (t : PipelineTab κ δ), tabs[i]? = some t → ∀ s ∈ t.steps,
    ∀ d ∈ s.dependsOn, d ∈ stepIds t.steps → ∀ (k : ℕ) (u : PipelineTab κ δ), i < k →
      tabs[k]? = some u → d ∉ stepIds u.steps
  inputs : ∀ t ∈ tabs, ∀ d, t.input = some d → d ∉ resultIds tabs

/-- Separate ids over the places of the tabs. -/
theorem separate_iff {tabs : List (PipelineTab κ δ)} :
    Separate tabs ↔ (tabs.map PipelineTab.id).Nodup ∧ (resultIds tabs).Nodup ∧
      (∀ t ∈ tabs, (stepIds t.steps).Nodup) ∧
      (∀ p ∈ tabs.zipIdx, ∀ q ∈ tabs.zipIdx, p.2 < q.2 → ∀ s ∈ p.1.steps, ∀ d ∈ s.dependsOn,
        d ∈ stepIds p.1.steps → d ∉ stepIds q.1.steps) ∧
      ∀ t ∈ tabs, t.datasource.analysisTabId = none → t.datasource.id ∉ resultIds tabs := by
  constructor
  · intro h
    refine ⟨h.tabs_nodup, h.outputs_nodup, h.steps_nodup, ?_, fun t ht hnone => ?_⟩
    · intro p hp q hq hlt s hs d hd hown
      exact h.deps_last p.2 p.1 (List.mem_zipIdx_iff_getElem?.mp hp) s hs d hd hown q.2 q.1 hlt
        (List.mem_zipIdx_iff_getElem?.mp hq)
    · exact h.inputs t ht _ (by rw [PipelineTab.input, if_pos hnone])
  · rintro ⟨htabs, houtputs, hsteps, hdeps, hinputs⟩
    refine ⟨htabs, houtputs, hsteps, ?_, fun t ht d hd => ?_⟩
    · intro i t ht s hs d hd hown k u hlt hu
      exact hdeps (t, i) (List.mem_zipIdx_iff_getElem?.mpr ht) (u, k)
        (List.mem_zipIdx_iff_getElem?.mpr hu) hlt s hs d hd hown
    · rw [PipelineTab.input] at hd
      split at hd
      · next hnone =>
        cases hd
        exact hinputs t ht hnone
      · cases hd

instance separateDecidable (tabs : List (PipelineTab κ δ)) : Decidable (Separate tabs) :=
  decidable_of_iff _ separate_iff.symm

/-! ## Places -/

section Places

variable {tabs : List (PipelineTab κ δ)}

variable {id : String}

theorem mem_tabPlaces {i : ℕ} :
    (id, i) ∈ tabPlaces tabs ↔ ∃ t, tabs[i]? = some t ∧ t.id = id := by
  rw [tabPlaces, List.mem_zipIdx_iff_getElem?, List.getElem?_map, Option.map_eq_some_iff]

theorem mem_outputPlaces {i : ℕ} :
    (id, i) ∈ outputPlaces tabs ↔ ∃ t, tabs[i]? = some t ∧ t.resultId = id := by
  rw [outputPlaces, resultIds, List.mem_zipIdx_iff_getElem?, List.getElem?_map,
    Option.map_eq_some_iff]

theorem mem_stepPlaces {p : ℕ × ℕ} :
    (id, p) ∈ stepPlaces tabs ↔
      ∃ t, tabs[p.1]? = some t ∧ ∃ s, t.steps[p.2]? = some s ∧ s.id = id := by
  rw [stepPlaces, List.mem_flatMap]
  constructor
  · rintro ⟨⟨t, i⟩, ht, hmem⟩
    obtain ⟨⟨s, j⟩, hs, he⟩ := List.mem_map.mp hmem
    cases he
    exact ⟨t, List.mem_zipIdx_iff_getElem?.mp ht, s, List.mem_zipIdx_iff_getElem?.mp hs, rfl⟩
  · rintro ⟨t, ht, s, hs, rfl⟩
    exact ⟨(t, p.1), List.mem_zipIdx_iff_getElem?.mpr ht,
      List.mem_map.mpr ⟨(s, p.2), List.mem_zipIdx_iff_getElem?.mpr hs, rfl⟩⟩

theorem stepPlaces_sorted :
    (stepPlaces tabs).Pairwise fun p q => p.2.1 ≤ q.2.1 := by
  have hlt : tabs.zipIdx.Pairwise fun p q => p.2 < q.2 := by
    rw [← List.pairwise_map, List.zipIdx_map_snd]
    exact List.pairwise_lt_range'
  rw [stepPlaces, List.pairwise_flatMap]
  constructor
  · intro p _
    rw [List.pairwise_map]
    exact List.pairwise_of_forall fun _ _ => le_refl p.2
  · refine hlt.imp fun hpq x hx y hy => ?_
    obtain ⟨_, _, rfl⟩ := List.mem_map.mp hx
    obtain ⟨_, _, rfl⟩ := List.mem_map.mp hy
    exact hpq.le

theorem mem_resultIds {d : String} :
    d ∈ resultIds tabs ↔ ∃ (i : ℕ) (t : PipelineTab κ δ), tabs[i]? = some t ∧ t.resultId = d := by
  rw [resultIds, List.mem_map]
  constructor
  · rintro ⟨t, ht, rfl⟩
    obtain ⟨i, hi⟩ := List.mem_iff_getElem?.mp ht
    exact ⟨i, t, hi, rfl⟩
  · rintro ⟨i, t, hi, rfl⟩
    exact ⟨t, List.mem_of_getElem? hi, rfl⟩

theorem mem_ids :
    id ∈ tabs.map PipelineTab.id ↔
      ∃ (i : ℕ) (t : PipelineTab κ δ), tabs[i]? = some t ∧ t.id = id := by
  rw [List.mem_map]
  constructor
  · rintro ⟨t, ht, rfl⟩
    obtain ⟨i, hi⟩ := List.mem_iff_getElem?.mp ht
    exact ⟨i, t, hi, rfl⟩
  · rintro ⟨i, t, hi, rfl⟩
    exact ⟨t, List.mem_of_getElem? hi, rfl⟩

end Places

/-! ## The copy -/

/-- Pipelines with the same ids. -/
structure SameIds (tabs tabs' : List (PipelineTab κ δ)) : Prop where
  ids : tabs'.map PipelineTab.id = tabs.map PipelineTab.id
  outputs : resultIds tabs' = resultIds tabs
  steps : (tabs'.map fun t => stepIds t.steps) = tabs.map fun t => stepIds t.steps

section SameIds

variable {tabs tabs' : List (PipelineTab κ δ)} (h : SameIds tabs tabs') (F : FreshIds)

theorem stepPlaces_eq : stepPlaces tabs =
    (tabs.map fun t => stepIds t.steps).zipIdx.flatMap fun p =>
      p.1.zipIdx.map fun q => (q.1, p.2, q.2) := by
  rw [stepPlaces, List.zipIdx_map, List.flatMap_map]
  congr 1
  funext p
  simp only [Prod.map, stepIds, List.zipIdx_map, List.map_map]
  rfl

include h

theorem SameIds.tabIdMap : tabIdMap F tabs' = tabIdMap F tabs := by
  funext id
  rw [Analyses.tabIdMap, tabPlaces, h.ids, Analyses.tabIdMap, tabPlaces]

theorem SameIds.outputIdMap : outputIdMap F tabs' = outputIdMap F tabs := by
  funext id
  rw [Analyses.outputIdMap, outputPlaces, h.outputs, Analyses.outputIdMap, outputPlaces]

theorem SameIds.allStepIdMap : allStepIdMap F tabs' = allStepIdMap F tabs := by
  funext id
  rw [Analyses.allStepIdMap, stepPlaces_eq, h.steps, Analyses.allStepIdMap, stepPlaces_eq]

theorem SameIds.sourceIdMap (remap : String → Option String) :
    sourceIdMap F tabs' remap = sourceIdMap F tabs remap := by
  funext id
  rw [Analyses.sourceIdMap, h.tabIdMap, h.outputIdMap, Analyses.sourceIdMap]

theorem SameIds.linked {t t' : PipelineTab κ δ} (hparent : t'.parentId = t.parentId)
    (hdatasource : t'.datasource = t.datasource) : Linked tabs' t' ↔ Linked tabs t := by
  constructor
  · rintro ⟨hp, hu⟩
    rw [h.ids, hparent] at hp
    rw [h.ids, h.outputs, hdatasource] at hu
    exact ⟨hp, hu⟩
  · rintro ⟨hp, hu⟩
    rw [← h.ids, ← hparent] at hp
    rw [← h.ids, ← h.outputs, ← hdatasource] at hu
    exact ⟨hp, hu⟩

end SameIds

section Copy

variable (F : FreshIds) (tabs : List (PipelineTab κ δ)) (remap : String → Option String)

/-- The input of a tab in the copy. -/
def copyDatasource (datasource : TabDatasource) : TabDatasource :=
  { id := if datasource.analysisTabId.isSome then
        (outputIdMap F tabs datasource.id).getD datasource.id
      else (remap datasource.id).getD datasource.id
    analysisTabId := datasource.analysisTabId.map fun u => (tabIdMap F tabs u).getD u }

/-- The copy of a tab whose parent and upstream tab are in the pipeline. -/
def copyTab (place : ℕ) (t : PipelineTab κ δ) : PipelineTab κ δ :=
  { t with
    id := F.tab place
    resultId := F.output place
    parentId := t.parentId.map fun p => (tabIdMap F tabs p).getD p
    datasource := copyDatasource F tabs remap t.datasource
    steps := t.steps.mapIdx fun j s =>
      remapStep F tabs remap { s with id := F.step (place, j) } }

variable {F tabs remap}

variable {id : String}

theorem tabIdMap_isSome :
    (∃ x, tabIdMap F tabs id = some x) ↔ id ∈ tabs.map PipelineTab.id := by
  rw [mem_ids, tabIdMap]
  cases h : last (tabPlaces tabs) id with
  | none =>
    refine iff_of_false ?_ ?_
    · rintro ⟨x, hx⟩
      cases hx
    · rintro ⟨i, t, hi⟩
      exact last_none.mp h i (mem_tabPlaces.mpr ⟨t, hi⟩)
  | some i =>
    obtain ⟨t, ht⟩ := mem_tabPlaces.mp (last_mem h)
    exact iff_of_true ⟨_, rfl⟩ ⟨i, t, ht⟩

theorem outputIdMap_isSome :
    (∃ x, outputIdMap F tabs id = some x) ↔ id ∈ resultIds tabs := by
  rw [mem_resultIds, outputIdMap]
  cases h : last (outputPlaces tabs) id with
  | none =>
    refine iff_of_false ?_ ?_
    · rintro ⟨x, hx⟩
      cases hx
    · rintro ⟨i, t, hi⟩
      exact last_none.mp h i (mem_outputPlaces.mpr ⟨t, hi⟩)
  | some i =>
    obtain ⟨t, ht⟩ := mem_outputPlaces.mp (last_mem h)
    exact iff_of_true ⟨_, rfl⟩ ⟨i, t, ht⟩

theorem outputIdMap_none (h : id ∉ resultIds tabs) :
    outputIdMap F tabs id = none := by
  cases hmap : outputIdMap F tabs id with
  | none => rfl
  | some x => exact absurd (outputIdMap_isSome.mp ⟨x, hmap⟩) h

theorem tabIdMap_none (h : id ∉ tabs.map PipelineTab.id) :
    tabIdMap F tabs id = none := by
  cases hmap : tabIdMap F tabs id with
  | none => rfl
  | some x => exact absurd (tabIdMap_isSome.mp ⟨x, hmap⟩) h

variable {w : Wording}

theorem remapParent_iff {p p' : Option String} :
    remapParent F tabs w p = .ok p' ↔
      (∀ q, p = some q → q ∈ tabs.map PipelineTab.id) ∧
        p' = p.map fun q => (tabIdMap F tabs q).getD q := by
  cases p with
  | none =>
    constructor
    · intro h
      cases h
      refine ⟨fun q hq => ?_, rfl⟩
      cases hq
    · rintro ⟨-, rfl⟩
      rfl
  | some q =>
    rw [remapParent, Option.map_some]
    cases h : tabIdMap F tabs q with
    | none =>
      refine iff_of_false (fun he => by cases he) fun ⟨hmem, _⟩ => ?_
      obtain ⟨x, hx⟩ := tabIdMap_isSome.mpr (hmem q rfl)
      rw [h] at hx
      cases hx
    | some x =>
      constructor
      · intro he
        cases he
        refine ⟨fun q' hq' => ?_, rfl⟩
        cases hq'
        exact tabIdMap_isSome.mp ⟨x, h⟩
      · rintro ⟨-, rfl⟩
        rfl

theorem remapDatasource_iff {d d' : TabDatasource} :
    remapDatasource F tabs remap w d = .ok d' ↔
      (∀ u, d.analysisTabId = some u →
        u ∈ tabs.map PipelineTab.id ∧ d.id ∈ resultIds tabs) ∧
        d' = copyDatasource F tabs remap d := by
  obtain ⟨id, u⟩ := d
  cases u with
  | none =>
    constructor
    · intro h
      cases h
      refine ⟨fun u hu => ?_, rfl⟩
      cases hu
    · rintro ⟨-, rfl⟩
      rfl
  | some u =>
    simp only [remapDatasource, copyDatasource, Option.map_some]
    cases ht : tabIdMap F tabs u with
    | none =>
      refine iff_of_false (fun he => by cases he) fun ⟨hmem, _⟩ => ?_
      obtain ⟨x, hx⟩ := tabIdMap_isSome.mpr (hmem u rfl).1
      rw [ht] at hx
      cases hx
    | some x =>
      cases ho : outputIdMap F tabs id with
      | none =>
        refine iff_of_false (fun he => by cases he) fun ⟨hmem, _⟩ => ?_
        obtain ⟨y, hy⟩ := outputIdMap_isSome.mpr (hmem u rfl).2
        rw [ho] at hy
        cases hy
      | some y =>
        constructor
        · intro he
          cases he
          refine ⟨fun u' hu' => ?_, rfl⟩
          cases hu'
          exact ⟨tabIdMap_isSome.mp ⟨x, ht⟩, outputIdMap_isSome.mp ⟨y, ho⟩⟩
        · rintro ⟨-, rfl⟩
          rfl

theorem rewriteTab_iff {place : ℕ} {t t' : PipelineTab κ δ} :
    rewriteTab F tabs remap w place t = .ok t' ↔
      Linked tabs t ∧ t' = copyTab F tabs remap place t := by
  rw [rewriteTab, bind_ok]
  constructor
  · rintro ⟨p, hp, h⟩
    obtain ⟨d, hd, h⟩ := bind_ok.mp h
    obtain ⟨hparent, rfl⟩ := remapParent_iff.mp hp
    obtain ⟨hupstream, rfl⟩ := remapDatasource_iff.mp hd
    cases h
    exact ⟨⟨hparent, hupstream⟩, rfl⟩
  · rintro ⟨hlinked, rfl⟩
    exact ⟨_, remapParent_iff.mpr ⟨hlinked.parent, rfl⟩,
      bind_ok.mpr ⟨_, remapDatasource_iff.mpr ⟨hlinked.upstream, rfl⟩, rfl⟩⟩

/-- A pipeline is copied when what its tabs refer to is in it. -/
theorem rewriteTabs_iff {copy : List (PipelineTab κ δ)} :
    rewriteTabs F tabs remap w = .ok copy ↔
      (∀ t ∈ tabs, Linked tabs t) ∧ copy = tabs.mapIdx (copyTab F tabs remap) := by
  rw [rewriteTabs, mapM_ok, List.forall₂_iff_get]
  constructor
  · rintro ⟨hlen, hget⟩
    rw [List.length_zipIdx] at hlen
    have hstep (i : ℕ) (hi : i < tabs.length) :=
      rewriteTab_iff.mp (hget i (by rw [List.length_zipIdx]; exact hi) (hlen ▸ hi))
    refine ⟨fun t ht => ?_, List.ext_getElem ?_ fun i h1 h2 => ?_⟩
    · obtain ⟨i, hi, rfl⟩ := List.getElem_of_mem ht
      have h := (hstep i hi).1
      simpa using h
    · rw [List.length_mapIdx, hlen]
    · have h := (hstep i (hlen ▸ h1)).2
      rw [List.getElem_mapIdx]
      simpa using h
  · rintro ⟨hlinked, rfl⟩
    refine ⟨by rw [List.length_zipIdx, List.length_mapIdx], fun i h1 h2 => ?_⟩
    rw [List.length_mapIdx] at h2
    refine rewriteTab_iff.mpr ⟨?_, ?_⟩
    · simpa using hlinked _ (List.getElem_mem h2)
    · simp

end Copy

/-! ## Pipelines whose copy is a renaming -/

section Renames

variable {F : FreshIds} {tabs : List (PipelineTab κ δ)} {remap : String → Option String}

theorem nodup_places {α : Type} {l : List α} {f : α → String} :
    (l.map f).Nodup ↔
      ∀ (i j : ℕ) (a b : α), l[i]? = some a → l[j]? = some b → f a = f b → i = j := by
  constructor
  · intro h i j a b hi hj hab
    obtain ⟨hlt, -⟩ := List.getElem?_eq_some_iff.mp hi
    refine (List.getElem?_inj (by rw [List.length_map]; exact hlt) h).mp ?_
    rw [List.getElem?_map, List.getElem?_map, hi, hj, Option.map_some, Option.map_some, hab]
  · intro h
    rw [List.nodup_iff_injective_get]
    intro i j hij
    have hi : (i : ℕ) < l.length := by simpa using i.isLt
    have hj : (j : ℕ) < l.length := by simpa using j.isLt
    refine Fin.ext (h i j l[i] l[j] (List.getElem?_eq_getElem hi)
      (List.getElem?_eq_getElem hj) ?_)
    simpa using hij

variable {t : PipelineTab κ δ} {i : ℕ}

theorem tabIdMap_place (hnodup : (tabs.map PipelineTab.id).Nodup) (ht : tabs[i]? = some t) :
    tabIdMap F tabs t.id = some (F.tab i) := by
  rw [tabIdMap, last_of_unique (mem_tabPlaces.mpr ⟨t, ht, rfl⟩), Option.map_some]
  intro k hk
  obtain ⟨u, hu, he⟩ := mem_tabPlaces.mp hk
  exact nodup_places.mp hnodup k i u t hu ht he

theorem outputIdMap_place (hnodup : (resultIds tabs).Nodup) (ht : tabs[i]? = some t) :
    outputIdMap F tabs t.resultId = some (F.output i) := by
  rw [outputIdMap, last_of_unique (mem_outputPlaces.mpr ⟨t, ht, rfl⟩), Option.map_some]
  intro k hk
  obtain ⟨u, hu, he⟩ := mem_outputPlaces.mp hk
  exact nodup_places.mp hnodup k i u t hu ht he

variable {s : PipelineStep κ}

/-- A dependency on a step of the same tab is renamed to it when no later tab has its id. -/
theorem allStepIdMap_place {i j : ℕ} (ht : tabs[i]? = some t) (hs : t.steps[j]? = some s)
    (hnodup : (stepIds t.steps).Nodup)
    (hlast : ∀ (k : ℕ) (u : PipelineTab κ δ), i < k → tabs[k]? = some u →
      s.id ∉ stepIds u.steps) :
    allStepIdMap F tabs s.id = some (F.step (i, j)) := by
  have hmem : (s.id, i, j) ∈ stepPlaces tabs := mem_stepPlaces.mpr ⟨t, ht, s, hs, rfl⟩
  rw [allStepIdMap]
  cases h : last (stepPlaces tabs) s.id with
  | none => exact absurd hmem (last_none.mp h (i, j))
  | some p =>
    obtain ⟨k, l⟩ := p
    obtain ⟨u, hu, s', hs', hid⟩ := mem_stepPlaces.mp (last_mem h)
    have hle : i ≤ k :=
      last_sorted (r := fun p q => p.1 ≤ q.1) (fun p => le_refl p.1) stepPlaces_sorted h hmem
    have hk : k = i := by
      by_contra hne
      refine hlast k u (by omega) hu ?_
      rw [stepIds, ← hid]
      exact List.mem_map_of_mem (List.mem_of_getElem? hs')
    subst hk
    cases ht.symm.trans hu
    rw [nodup_places.mp hnodup l j s' s hs' hs hid, Option.map_some]

theorem sourceIdMap_getD (r : String) :
    (sourceIdMap F tabs remap r).getD r =
      if r ∈ resultIds tabs then (outputIdMap F tabs r).getD r
      else if r ∈ tabs.map PipelineTab.id then (tabIdMap F tabs r).getD r
      else (remap r).getD r := by
  rw [sourceIdMap]
  by_cases ho : r ∈ resultIds tabs
  · obtain ⟨x, hx⟩ := outputIdMap_isSome (F := F).mpr ho
    rw [if_pos ho, hx, Option.some_or]
  · rw [if_neg ho, outputIdMap_none ho, Option.none_or]
    by_cases ht : r ∈ tabs.map PipelineTab.id
    · obtain ⟨x, hx⟩ := tabIdMap_isSome (F := F).mpr ht
      rw [if_pos ht, hx, Option.some_or]
    · rw [if_neg ht, tabIdMap_none ht, Option.none_or]

/-- What the dictionaries of a pipeline rename. -/
def FreshIds.renaming (F : FreshIds) (tabs : List (PipelineTab κ δ)) : Renaming where
  tab id := (tabIdMap F tabs id).getD id
  output id := (outputIdMap F tabs id).getD id
  step i id :=
    match tabs[i]? with
    | some t =>
      if id ∈ stepIds t.steps then F.step (i, (stepIds t.steps).idxOf id)
      else (allStepIdMap F tabs id).getD id
    | none => id

theorem renaming_step (ht : tabs[i]? = some t) (id : String) :
    (F.renaming tabs).step i id =
      if id ∈ stepIds t.steps then F.step (i, (stepIds t.steps).idxOf id)
      else (allStepIdMap F tabs id).getD id := by
  simp only [FreshIds.renaming, ht]

theorem renaming_tab_place (hnodup : (tabs.map PipelineTab.id).Nodup) (ht : tabs[i]? = some t) :
    (F.renaming tabs).tab t.id = F.tab i := by
  show (tabIdMap F tabs t.id).getD t.id = F.tab i
  rw [tabIdMap_place hnodup ht, Option.getD_some]

theorem renaming_output_place (hnodup : (resultIds tabs).Nodup) (ht : tabs[i]? = some t) :
    (F.renaming tabs).output t.resultId = F.output i := by
  show (outputIdMap F tabs t.resultId).getD t.resultId = F.output i
  rw [outputIdMap_place hnodup ht, Option.getD_some]

theorem renaming_step_place {i j : ℕ} (ht : tabs[i]? = some t) (hs : t.steps[j]? = some s)
    (hnodup : (stepIds t.steps).Nodup) :
    (F.renaming tabs).step i s.id = F.step (i, j) := by
  have hget : (stepIds t.steps)[j]? = some s.id := by
    rw [stepIds, List.getElem?_map, hs, Option.map_some]
  have hmem : s.id ∈ stepIds t.steps := List.mem_of_getElem? hget
  obtain ⟨hlt, he⟩ := List.getElem?_eq_some_iff.mp hget
  rw [renaming_step ht, if_pos hmem]
  congr 2
  rw [← he]
  exact hnodup.idxOf_getElem j hlt

theorem mem_names (ht : t ∈ tabs) {x : String}
    (hx : x ∈ t.id :: t.resultId :: t.datasource.id :: (t.parentId.toList ++
      t.datasource.analysisTabId.toList ++
        t.steps.flatMap fun s => s.id :: (s.dependsOn ++ s.config.named))) :
    x ∈ names tabs :=
  List.mem_flatMap.mpr ⟨t, ht, hx⟩

theorem dep_mem_names (ht : t ∈ tabs) (hs : s ∈ t.steps) {d : String} (hd : d ∈ s.id :: s.dependsOn)
    : d ∈ names tabs := by
  refine mem_names ht (List.mem_cons_of_mem _ (List.mem_cons_of_mem _ (List.mem_cons_of_mem _ ?_)))
  refine List.mem_append_right _ (List.mem_flatMap.mpr ⟨s, hs, ?_⟩)
  rcases List.mem_cons.mp hd with rfl | hd
  · exact List.mem_cons_self
  · exact List.mem_cons_of_mem _ (List.mem_append_left _ hd)

theorem ids_not_external (hsep : Separate tabs) (hmem : t ∈ tabs)
    (hnone : t.datasource.analysisTabId = none) : t.datasource.id ∉ resultIds tabs :=
  hsep.inputs t hmem _ (by rw [PipelineTab.input, if_pos hnone])

theorem copyDatasource_renamed (hsep : Separate tabs) (hmem : t ∈ tabs) (hlinked : Linked tabs t) :
    copyDatasource F tabs remap t.datasource =
      { id := if t.datasource.id ∈ resultIds tabs then (F.renaming tabs).output t.datasource.id
          else (remap t.datasource.id).getD t.datasource.id
        analysisTabId := t.datasource.analysisTabId.map (F.renaming tabs).tab } := by
  rw [copyDatasource]
  cases hu : t.datasource.analysisTabId with
  | none => rw [if_neg (ids_not_external hsep hmem hu)]; rfl
  | some u => rw [if_pos (hlinked.upstream u hu).2]; rfl

/-- A step of the copy is renamed. -/
theorem remapStep_renamed (hsep : Separate tabs) {i j : ℕ} (ht : tabs[i]? = some t)
    (hs : t.steps[j]? = some s) :
    remapStep F tabs remap { s with id := F.step (i, j) } =
      { s with
        id := (F.renaming tabs).step i s.id
        dependsOn := s.dependsOn.map ((F.renaming tabs).step i)
        config := s.config.mapSources
          ((F.renaming tabs).source tabs fun d => (remap d).getD d) } := by
  have hnodup := hsep.steps_nodup t (List.mem_of_getElem? ht)
  have hdeps : (s.dependsOn.map fun dep => (allStepIdMap F tabs dep).getD dep) =
      s.dependsOn.map ((F.renaming tabs).step i) := by
    refine List.map_congr_left fun d hd => ?_
    by_cases hown : d ∈ stepIds t.steps
    · obtain ⟨s', hs', rfl⟩ := List.mem_map.mp hown
      obtain ⟨k, hk⟩ := List.mem_iff_getElem?.mp hs'
      rw [renaming_step_place ht hk hnodup, allStepIdMap_place ht hk hnodup, Option.getD_some]
      exact hsep.deps_last i t ht s (List.mem_of_getElem? hs) _ hd hown
    · rw [renaming_step ht, if_neg hown]
  have hsources : (fun r => (sourceIdMap F tabs remap r).getD r) =
      (F.renaming tabs).source tabs fun d => (remap d).getD d := by
    funext r
    rw [sourceIdMap_getD]
    rfl
  rw [remapStep, hdeps, hsources, renaming_step_place ht hs hnodup]

/-- The copy of a pipeline with separate ids is a renaming of it. -/
theorem copyTab_renamed (hsep : Separate tabs) (ht : tabs[i]? = some t) (hlinked : Linked tabs t) :
    copyTab F tabs remap i t =
      (F.renaming tabs).apply tabs (fun d => (remap d).getD d) i t := by
  have hsteps : (t.steps.mapIdx fun j s =>
      remapStep F tabs remap { s with id := F.step (i, j) }) =
      t.steps.map fun s =>
        { s with
          id := (F.renaming tabs).step i s.id
          dependsOn := s.dependsOn.map ((F.renaming tabs).step i)
          config := s.config.mapSources
            ((F.renaming tabs).source tabs fun d => (remap d).getD d) } := by
    refine List.ext_getElem? fun j => ?_
    rw [List.getElem?_mapIdx, List.getElem?_map]
    cases hs : t.steps[j]? with
    | none => rfl
    | some s => rw [Option.map_some, Option.map_some, remapStep_renamed hsep ht hs]
  rw [copyTab, Renaming.apply, renaming_tab_place hsep.tabs_nodup ht,
    renaming_output_place hsep.outputs_nodup ht, hsteps,
    copyDatasource_renamed hsep (List.mem_of_getElem? ht) hlinked]
  rfl

theorem renaming_step_cases (ht : tabs[i]? = some t) (id : String) :
    (∃ p, (id, p) ∈ stepPlaces tabs ∧ (F.renaming tabs).step i id = F.step p) ∨
      (F.renaming tabs).step i id = id := by
  rw [renaming_step ht]
  by_cases hmem : id ∈ stepIds t.steps
  · rw [if_pos hmem]
    have hlt : (stepIds t.steps).idxOf id < t.steps.length := by
      simpa [stepIds] using List.idxOf_lt_length_of_mem hmem
    refine .inl ⟨_, mem_stepPlaces.mpr ⟨t, ht, _, List.getElem?_eq_getElem hlt, ?_⟩, rfl⟩
    simpa only [stepIds, List.getElem_map] using
      List.getElem_idxOf (List.idxOf_lt_length_of_mem hmem)
  · rw [if_neg hmem, allStepIdMap]
    cases h : last (stepPlaces tabs) id with
    | none => exact .inr rfl
    | some p => exact .inl ⟨p, last_mem h, rfl⟩

theorem stepNames_names (ht : t ∈ tabs) {x : String} (hx : x ∈ stepNames t.steps) :
    x ∈ names tabs := by
  rcases hx with hx | ⟨s, hs, hx⟩
  · obtain ⟨s, hs, rfl⟩ := List.mem_map.mp hx
    exact dep_mem_names ht hs List.mem_cons_self
  · exact dep_mem_names ht hs (List.mem_cons_of_mem _ hx)

theorem renaming_step_injOn (hF : F.Fresh tabs remap) (ht : tabs[i]? = some t) :
    Set.InjOn ((F.renaming tabs).step i) (stepNames t.steps) := by
  intro x hx y hy h
  have hmem : t ∈ tabs := List.mem_of_getElem? ht
  rcases renaming_step_cases (F := F) ht x with ⟨p, hp, hxp⟩ | hx'
  · rcases renaming_step_cases (F := F) ht y with ⟨q, hq, hyq⟩ | hy'
    · rw [hxp, hyq] at h
      cases hF.step_inj h
      obtain ⟨u, hu, s, hs, rfl⟩ := mem_stepPlaces.mp hp
      obtain ⟨u', hu', s', hs', rfl⟩ := mem_stepPlaces.mp hq
      cases hu.symm.trans hu'
      cases hs.symm.trans hs'
      rfl
    · rw [hxp, hy'] at h
      exact absurd (h ▸ stepNames_names hmem hy) (hF.step_new p)
  · rcases renaming_step_cases (F := F) ht y with ⟨q, hq, hyq⟩ | hy'
    · rw [hx', hyq] at h
      exact absurd (h ▸ stepNames_names hmem hx) (hF.step_new q)
    · rw [hx', hy'] at h
      exact h

/-- The renaming of a pipeline is proper. -/
theorem renaming_proper (hF : F.Fresh tabs remap) (hsep : Separate tabs) :
    (F.renaming tabs).Proper tabs where
  tab_inj := by
    intro x hx y hy h
    obtain ⟨i, t, hi, rfl⟩ := mem_ids.mp hx
    obtain ⟨j, u, hj, rfl⟩ := mem_ids.mp hy
    rw [renaming_tab_place hsep.tabs_nodup hi, renaming_tab_place hsep.tabs_nodup hj] at h
    cases hF.tab_inj h
    cases hi.symm.trans hj
    rfl
  output_inj := by
    intro x hx y hy h
    obtain ⟨i, t, hi, rfl⟩ := mem_resultIds.mp hx
    obtain ⟨j, u, hj, rfl⟩ := mem_resultIds.mp hy
    rw [renaming_output_place hsep.outputs_nodup hi,
      renaming_output_place hsep.outputs_nodup hj] at h
    cases hF.output_inj h
    cases hi.symm.trans hj
    rfl
  step_inj i t ht := renaming_step_injOn hF ht
  tab_new t ht := by
    obtain ⟨i, hi⟩ := List.mem_iff_getElem?.mp ht
    rw [renaming_tab_place hsep.tabs_nodup hi]
    exact hF.tab_new i
  output_new t ht := by
    obtain ⟨i, hi⟩ := List.mem_iff_getElem?.mp ht
    rw [renaming_output_place hsep.outputs_nodup hi]
    exact hF.output_new i
  step_new i t ht s hs := by
    obtain ⟨j, hj⟩ := List.mem_iff_getElem?.mp hs
    rw [renaming_step_place ht hj (hsep.steps_nodup t (List.mem_of_getElem? ht))]
    exact hF.step_new (i, j)

theorem input_eq_some {d : String} :
    t.input = some d ↔ t.datasource.analysisTabId = none ∧ t.datasource.id = d := by
  rw [PipelineTab.input]
  split
  · next h => simp [h]
  · next h => simp [h]

theorem datasource_mem_names (ht : t ∈ tabs) :
    t.datasource.id ∈ names tabs :=
  mem_names ht (List.mem_cons_of_mem _ (List.mem_cons_of_mem _ List.mem_cons_self))

/-- A renaming that the ids of the copy and its tab inputs agree with. -/
structure Renaming.Agrees (ρ : Renaming) (F : FreshIds) (tabs : List (PipelineTab κ δ))
    (remap : String → Option String) : Prop where
  tab : ∀ i t, tabs[i]? = some t → ρ.tab t.id = F.tab i
  output : ∀ i t, tabs[i]? = some t → ρ.output t.resultId = F.output i
  step : ∀ i t, tabs[i]? = some t → ∀ j s, t.steps[j]? = some s →
    ρ.step i s.id = F.step (i, j) ∧
      ∀ d ∈ s.dependsOn, ρ.step i d = (allStepIdMap F tabs d).getD d
  input : ∀ t ∈ tabs, t.datasource.analysisTabId = none → t.datasource.id ∈ resultIds tabs →
    ρ.output t.datasource.id = (remap t.datasource.id).getD t.datasource.id

/-- A renaming that gives the copy. -/
def Renaming.Gives (ρ : Renaming) (F : FreshIds) (tabs : List (PipelineTab κ δ))
    (remap : String → Option String) : Prop :=
  ∀ i t, tabs[i]? = some t →
    copyTab F tabs remap i t = ρ.apply tabs (fun d => (remap d).getD d) i t

theorem Renaming.Gives.agrees {ρ : Renaming} (hρ : ρ.Gives F tabs remap) :
    ρ.Agrees F tabs remap where
  tab i t ht := (congrArg PipelineTab.id (hρ i t ht)).symm
  output i t ht := (congrArg PipelineTab.resultId (hρ i t ht)).symm
  step i t ht j s hs := by
    have h := congrArg (fun u => u.steps[j]?) (hρ i t ht)
    simp only [copyTab, Renaming.apply, List.getElem?_mapIdx, List.getElem?_map, hs,
      Option.map_some, Option.some.injEq, remapStep] at h
    refine ⟨(congrArg PipelineStep.id h).symm, fun d hd => ?_⟩
    exact (List.map_inj_left.mp (congrArg PipelineStep.dependsOn h) d hd).symm
  input t hmem hnone hd := by
    obtain ⟨i, ht⟩ := List.mem_iff_getElem?.mp hmem
    have hds := congrArg (fun v => v.datasource.id) (hρ i t ht)
    simp only [copyTab, copyDatasource, Renaming.apply, hnone, Option.isSome_none,
      Bool.false_eq_true, if_false, if_pos hd] at hds
    exact hds.symm

/-- A pipeline whose copy agrees with a renaming has separate ids. -/
theorem Renaming.Agrees.separate {ρ : Renaming} (hρ : ρ.Agrees F tabs remap)
    (hF : F.Fresh tabs remap) : Separate tabs where
  tabs_nodup := by
    refine nodup_places.mpr fun i j t u ht hu he => hF.tab_inj ?_
    rw [← hρ.tab i t ht, ← hρ.tab j u hu, he]
  outputs_nodup := by
    refine nodup_places.mpr fun i j t u ht hu he => hF.output_inj ?_
    rw [← hρ.output i t ht, ← hρ.output j u hu, he]
  steps_nodup t hmem := by
    obtain ⟨i, ht⟩ := List.mem_iff_getElem?.mp hmem
    refine nodup_places.mpr fun j k s s' hs hs' he => ?_
    have hstep : F.step (i, j) = F.step (i, k) := by
      rw [← (hρ.step i t ht j s hs).1, ← (hρ.step i t ht k s' hs').1, he]
    cases hF.step_inj hstep
    rfl
  deps_last i t ht s hs d hd hown k u hlt hu hmem := by
    obtain ⟨l, hl⟩ := List.mem_iff_getElem?.mp hs
    obtain ⟨s', hs', rfl⟩ := List.mem_map.mp hown
    obtain ⟨j, hj⟩ := List.mem_iff_getElem?.mp hs'
    obtain ⟨s'', hs'', hid⟩ := List.mem_map.mp hmem
    obtain ⟨m, hm⟩ := List.mem_iff_getElem?.mp hs''
    have hplace : (s'.id, k, m) ∈ stepPlaces tabs := mem_stepPlaces.mpr ⟨u, hu, s'', hm, hid⟩
    have hdep := (hρ.step i t ht l s hl).2 s'.id hd
    rw [(hρ.step i t ht j s' hj).1, allStepIdMap] at hdep
    cases hlast : last (stepPlaces tabs) s'.id with
    | none => exact last_none.mp hlast _ hplace
    | some p =>
      have hle : k ≤ p.1 :=
        last_sorted (r := fun p q => p.1 ≤ q.1) (fun p => le_refl p.1) stepPlaces_sorted hlast
          hplace
      rw [hlast, Option.map_some, Option.getD_some] at hdep
      cases hF.step_inj hdep
      omega
  inputs t hmem d hinput hd := by
    obtain ⟨hnone, rfl⟩ := input_eq_some.mp hinput
    obtain ⟨k, u, hu, he⟩ := mem_resultIds.mp hd
    have hds := hρ.input t hmem hnone hd
    rw [← he, hρ.output k u hu, he] at hds
    cases hr : remap t.datasource.id with
    | none =>
      rw [hr, Option.getD_none] at hds
      exact hF.output_new k (hds ▸ datasource_mem_names hmem)
    | some e =>
      rw [hr, Option.getD_some] at hds
      exact hF.remap_new _ e hr k hds

theorem renames_iff (hF : F.Fresh tabs remap) (hlinked : ∀ t ∈ tabs, Linked tabs t) :
    (∃ ρ : Renaming, ρ.Proper tabs ∧ ρ.Gives F tabs remap) ↔ Separate tabs := by
  constructor
  · rintro ⟨ρ, -, hρ⟩
    exact hρ.agrees.separate hF
  · intro hsep
    exact ⟨_, renaming_proper hF hsep, fun i t ht =>
      copyTab_renamed hsep ht (hlinked t (List.mem_of_getElem? ht))⟩

end Renames

/-! ## Numbered ids -/

/-- Ids numbered by their places. -/
def numbered : FreshIds where
  tab i := String.ofList ('t' :: List.replicate i '0')
  output i := String.ofList ('o' :: List.replicate i '0')
  step p := String.ofList ('s' :: List.replicate (Nat.pair p.1 p.2) '0')

theorem numbered_injective (c : Char) :
    Function.Injective fun i => String.ofList (c :: List.replicate i '0') := by
  intro i j h
  have hlen := congrArg String.length h
  simpa using hlen

theorem numbered_head {c : Char} {i : ℕ} :
    (String.ofList (c :: List.replicate i '0')).toList.head? = some c := by
  rw [String.toList_ofList, List.head?_cons]

theorem numbered_fresh {tabs : List (PipelineTab κ δ)} {remap : String → Option String}
    (hnames : ∀ id ∈ names tabs, id.toList.head? ∉ [some 't', some 'o', some 's'])
    (hremap : ∀ r d, remap r = some d → d.toList.head? ≠ some 'o') :
    numbered.Fresh tabs remap where
  tab_inj := numbered_injective 't'
  output_inj := numbered_injective 'o'
  step_inj p q h := by
    have hpair := Nat.pair_eq_pair.mp (numbered_injective 's' h)
    exact Prod.ext hpair.1 hpair.2
  tab_ne_output i j h := by
    have hhead := congrArg (fun id : String => id.toList.head?) h
    simp only [numbered, numbered_head] at hhead
    cases hhead
  tab_new i hmem := hnames _ hmem (by simp [numbered])
  output_new i hmem := hnames _ hmem (by simp [numbered])
  step_new p hmem := hnames _ hmem (by simp [numbered])
  remap_new r d hd i he := hremap r d hd (by rw [← he, numbered, numbered_head])

/-- Two tabs whose first steps have one id. -/
def sharedTabs : List (PipelineTab Unit Unit) :=
  [{ id := "A", name := "Orders", datasource := ⟨"rates", none⟩, resultId := "X"
     steps :=
       [⟨"V", "view", { rest := () }, [], some true⟩,
        ⟨"F", "filter", { rest := () }, ["V"], some true⟩]
     rest := () },
   { id := "B", name := "Customers", datasource := ⟨"rates", none⟩, resultId := "Y"
     steps := [⟨"V", "view", { rest := () }, [], some true⟩], rest := () }]

end DataForge.Analyses
