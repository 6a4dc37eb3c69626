import DataForge.Analyses.Links
import Mathlib.Data.List.Count

/-!
# Well-formed pipelines

What a stored pipeline is for: unique ids, steps that depend on earlier steps, tabs that derive
from tabs without a cycle, and references that lead somewhere. For each operation, exactly when it
keeps this.
-/

namespace DataForge.Analyses

variable {κ δ : Type} {R : Rules κ δ}

/-- Every dependency names an earlier step. -/
def Earlier : List String → List (PipelineStep κ) → Prop
  | _, [] => True
  | seen, step :: rest =>
    (∀ dep ∈ step.dependsOn, dep ∈ seen) ∧ Earlier (step.id :: seen) rest

/-- A tab derives from another. -/
def Derives (tabs : List (PipelineTab κ δ)) (a b : String) : Prop :=
  ∃ tab ∈ tabs, tab.id = a ∧ tab.datasource.analysisTabId = some b

/-- A well-formed pipeline, for a catalog of visible datasources. -/
structure WellFormed (visible : String → Prop) (tabs : List (PipelineTab κ δ)) : Prop where
  tabs_nodup : (tabs.map PipelineTab.id).Nodup
  steps_nodup : ∀ tab ∈ tabs, (stepIds tab.steps).Nodup
  earlier : ∀ tab ∈ tabs, Earlier [] tab.steps
  outputs : ∀ tab ∈ tabs, ∀ up, tab.datasource.analysisTabId = some up →
    ∃ parent ∈ tabs, parent.id = up ∧ parent.resultId = tab.datasource.id
  acyclic : Search.Acyclic (Derives tabs)
  sources : ∀ src ∈ references tabs, src ∈ tabIds tabs ∨ visible src
  inputs : ∀ src ∈ inputs tabs, visible src

section Earlier

theorem Earlier.mono {steps : List (PipelineStep κ)} : ∀ {seen seen' : List String},
    seen ⊆ seen' → Earlier seen steps → Earlier seen' steps := by
  induction steps with
  | nil => exact fun _ _ => trivial
  | cons step rest ih =>
    exact fun hsub h => ⟨fun dep hdep => hsub (h.1 dep hdep),
      ih (List.cons_subset_cons _ hsub) h.2⟩

theorem earlier_append {s1 s2 : List (PipelineStep κ)} : ∀ {seen : List String},
    Earlier seen (s1 ++ s2) ↔
      Earlier seen s1 ∧ Earlier ((stepIds s1).reverse ++ seen) s2 := by
  induction s1 with
  | nil => exact fun {seen} => ⟨fun h => ⟨trivial, h⟩, fun h => h.2⟩
  | cons step rest ih =>
    intro seen
    simp only [List.cons_append, Earlier, ih, stepIds, List.map_cons, List.reverse_cons,
      List.append_assoc, List.cons_append, List.nil_append, and_assoc]

theorem earlier_insert {s1 s2 : List (PipelineStep κ)} {step : PipelineStep κ}
    (h : Earlier [] (s1 ++ s2)) :
    Earlier [] (s1 ++ step :: s2) ↔ ∀ dep ∈ step.dependsOn, dep ∈ stepIds s1 := by
  obtain ⟨h1, h2⟩ := earlier_append.mp h
  simp only [earlier_append, Earlier, h1, true_and, List.append_nil, List.mem_reverse]
  exact ⟨fun h => h.1, fun h => ⟨h, Earlier.mono (List.subset_cons_self _ _) (by simpa using h2)⟩⟩

theorem earlier_congr {steps steps' : List (PipelineStep κ)}
    (h : List.Forall₂ (fun s s' => s'.id = s.id ∧ s'.dependsOn = s.dependsOn) steps steps') :
    ∀ {seen : List String}, Earlier seen steps' ↔ Earlier seen steps := by
  induction h with
  | nil => exact Iff.rfl
  | cons hs _ ih =>
    intro seen
    simp only [Earlier, hs.1, hs.2, ih]

theorem earlier_iff_of_known {steps : List (PipelineStep κ)} : ∀ {seen : List String},
    Known seen steps → (∀ s ∈ steps, s.id ∉ seen) → (stepIds steps).Nodup →
    (Earlier seen steps ↔ ∀ s ∈ steps, s.id ∉ s.dependsOn) := by
  induction steps with
  | nil => exact fun _ _ _ => ⟨(fun _ _ hs => (List.not_mem_nil hs).elim), fun _ => trivial⟩
  | cons step rest ih =>
    intro seen hknown hnew hnodup
    have hrest := ih hknown.2 (fun s hs => by
      have hne : s.id ≠ step.id := fun heq => (List.nodup_cons.mp hnodup).1
        (heq ▸ List.mem_map_of_mem hs)
      simpa [hne] using hnew s (List.mem_cons_of_mem _ hs)) (List.nodup_cons.mp hnodup).2
    simp only [Earlier, hrest, List.forall_mem_cons]
    refine and_congr_left fun _ => ⟨fun h hself => ?_, fun hself dep hdep => ?_⟩
    · exact hnew step List.mem_cons_self (h _ hself)
    · rcases List.mem_cons.mp (hknown.1 dep hdep) with rfl | hmem
      · exact absurd hdep hself
      · exact hmem

end Earlier

section Tabs

variable {visible : String → Prop} {l1 l2 : List (PipelineTab κ δ)} {tab : PipelineTab κ δ}

theorem WellFormed.mono {visible' : String → Prop} {tabs : List (PipelineTab κ δ)}
    (hv : ∀ src, visible src → visible' src) (h : WellFormed visible tabs) :
    WellFormed visible' tabs :=
  { h with
    sources := fun src hsrc => (h.sources src hsrc).imp id (hv src)
    inputs := fun src hsrc => hv src (h.inputs src hsrc) }

theorem mem_steps_split {t : PipelineTab κ δ} :
    t ∈ l1 ++ tab :: l2 ↔ t = tab ∨ t ∈ l1 ++ l2 := by
  simp only [List.mem_append, List.mem_cons]
  tauto

private theorem derives_steps {steps : List (PipelineStep κ)} {a b : String} :
    Derives (l1 ++ { tab with steps } :: l2) a b ↔ Derives (l1 ++ tab :: l2) a b := by
  simp only [Derives, mem_steps_split, or_and_right, exists_or, exists_eq_left]

/-- Changing the steps of a tab keeps a pipeline well formed exactly when the new steps are. -/
theorem wellFormed_steps (h : WellFormed visible (l1 ++ tab :: l2))
    {steps : List (PipelineStep κ)} :
    WellFormed visible (l1 ++ { tab with steps } :: l2) ↔ (stepIds steps).Nodup ∧
      Earlier [] steps ∧
      ∀ src ∈ stepReferences steps, src ∈ tabIds (l1 ++ tab :: l2) ∨ visible src := by
  have hmem : ∀ t : PipelineTab κ δ, t ∈ l1 ++ l2 → t ∈ l1 ++ tab :: l2 := fun t ht =>
    mem_steps_split.mpr (.inr ht)
  constructor
  · intro h'
    have htab : { tab with steps } ∈ l1 ++ { tab with steps } :: l2 :=
      mem_steps_split.mpr (.inl rfl)
    refine ⟨h'.steps_nodup _ htab, h'.earlier _ htab, fun src hsrc => ?_⟩
    rw [← tabIds_steps steps]
    exact h'.sources src (mem_references_split.mpr (.inr hsrc))
  · rintro ⟨hnodup, hearlier, hsources⟩
    refine ⟨?_, fun t ht => ?_, fun t ht => ?_, fun t ht up hup => ?_, ?_, fun src hsrc => ?_, ?_⟩
    · simpa using h.tabs_nodup
    · rcases mem_steps_split.mp ht with rfl | ht
      · exact hnodup
      · exact h.steps_nodup t (hmem t ht)
    · rcases mem_steps_split.mp ht with rfl | ht
      · exact hearlier
      · exact h.earlier t (hmem t ht)
    · have hparent : ∃ parent ∈ l1 ++ tab :: l2, parent.id = up ∧
          parent.resultId = t.datasource.id := by
        rcases mem_steps_split.mp ht with rfl | ht
        · exact h.outputs tab (mem_steps_split.mpr (.inl rfl)) up hup
        · exact h.outputs t (hmem t ht) up hup
      obtain ⟨parent, hparent, hid, hres⟩ := hparent
      rcases mem_steps_split.mp hparent with rfl | hparent
      · exact ⟨_, mem_steps_split.mpr (.inl rfl), hid, hres⟩
      · exact ⟨parent, mem_steps_split.mpr (.inr hparent), hid, hres⟩
    · have hderives : Derives (l1 ++ { tab with steps } :: l2) = Derives (l1 ++ tab :: l2) :=
        funext fun a => funext fun b => propext derives_steps
      rw [hderives]
      exact h.acyclic
    · rw [tabIds_steps]
      rcases mem_references_split.mp hsrc with hsrc | hsrc
      · exact h.sources src (mem_references_split.mpr (.inl hsrc))
      · exact hsources src hsrc
    · rw [inputs_steps]
      exact h.inputs

/-- A new tab keeps a pipeline well formed. -/
theorem WellFormed.insert (h : WellFormed visible (l1 ++ l2)) {newTab : PipelineTab κ δ}
    (hid : newTab.id ∉ (l1 ++ l2).map PipelineTab.id) (hnodup : (stepIds newTab.steps).Nodup)
    (hearlier : Earlier [] newTab.steps)
    (hup : ∀ up, newTab.datasource.analysisTabId = some up →
      ∃ parent ∈ l1 ++ l2, parent.id = up ∧ parent.resultId = newTab.datasource.id)
    (hsources : ∀ src ∈ stepReferences newTab.steps, src ∈ tabIds (l1 ++ l2) ∨ visible src)
    (hinput : ∀ src, newTab.input = some src → visible src) :
    WellFormed visible (l1 ++ newTab :: l2) := by
  have htabIds : ∀ src, src ∈ tabIds (l1 ++ l2) → src ∈ tabIds (l1 ++ newTab :: l2) := by
    intro src hsrc
    simp only [tabIds, List.mem_filter, List.mem_map] at hsrc ⊢
    obtain ⟨⟨t, ht, rfl⟩, hne⟩ := hsrc
    exact ⟨⟨t, mem_steps_split.mpr (.inr ht), rfl⟩, hne⟩
  refine ⟨?_, fun t ht => ?_, fun t ht => ?_, fun t ht up htup => ?_, ?_, fun src hsrc => ?_,
    fun src hsrc => ?_⟩
  · rw [List.map_append, List.map_cons, List.nodup_middle, ← List.map_append]
    exact List.nodup_cons.mpr ⟨hid, h.tabs_nodup⟩
  · rcases mem_steps_split.mp ht with rfl | ht
    exacts [hnodup, h.steps_nodup t ht]
  · rcases mem_steps_split.mp ht with rfl | ht
    exacts [hearlier, h.earlier t ht]
  · have hparent : ∃ parent ∈ l1 ++ l2, parent.id = up ∧ parent.resultId = t.datasource.id := by
      rcases mem_steps_split.mp ht with rfl | ht
      exacts [hup up htup, h.outputs t ht up htup]
    obtain ⟨parent, hparent, hp⟩ := hparent
    exact ⟨parent, mem_steps_split.mpr (.inr hparent), hp⟩
  · -- No tab derives from the new one, so no path leads back to it.
    have hnone : ∀ x, ¬ Derives (l1 ++ l2) x newTab.id := by
      rintro x ⟨t, ht, -, htup⟩
      obtain ⟨parent, hparent, hpid, -⟩ := h.outputs t ht _ htup
      exact hid (List.mem_map.mpr ⟨parent, hparent, hpid⟩)
    have hagree : ∀ x ≠ newTab.id, ∀ y,
        Derives (l1 ++ l2) x y ↔ Derives (l1 ++ newTab :: l2) x y := fun x hx y => by
      constructor
      · rintro ⟨t, ht, h⟩
        exact ⟨t, mem_steps_split.mpr (.inr ht), h⟩
      rintro ⟨t, ht, htid, htup⟩
      rcases mem_steps_split.mp ht with rfl | ht
      · exact absurd htid.symm hx
      · exact ⟨t, ht, htid, htup⟩
    refine (Search.acyclic_change_out h.acyclic hagree).mpr fun y hy hpath => ?_
    rcases Relation.ReflTransGen.cases_tail hpath with heq | ⟨x, -, hx⟩
    · obtain ⟨t, ht, -, htup⟩ := hy
      rw [← heq] at htup
      rcases mem_steps_split.mp ht with rfl | ht
      · obtain ⟨parent, hparent, hpid, -⟩ := hup _ htup
        exact hid (List.mem_map.mpr ⟨parent, hparent, hpid⟩)
      · exact hnone _ ⟨t, ht, rfl, htup⟩
    · exact hnone x hx
  · rcases mem_references_split.mp hsrc with hsrc | hsrc
    · exact (h.sources src hsrc).imp (htabIds src) id
    · exact (hsources src hsrc).imp (htabIds src) id
  · obtain ⟨t, ht, hin⟩ := List.mem_filterMap.mp hsrc
    rcases mem_steps_split.mp ht with rfl | ht
    · exact hinput src hin
    · exact h.inputs src (List.mem_filterMap.mpr ⟨t, ht, hin⟩)

end Tabs

section Payload

variable {tabs tabs' : List (PipelineTab κ δ)}

/-- What the payload check does not look at. -/
structure Distinct (tabs : List (PipelineTab κ δ)) : Prop where
  tabs_nodup : (tabs.map PipelineTab.id).Nodup
  steps_nodup : ∀ tab ∈ tabs, (stepIds tab.steps).Nodup
  not_self : ∀ tab ∈ tabs, ∀ step ∈ tab.steps, step.id ∉ step.dependsOn
  acyclic : Search.Acyclic (Derives tabs)

theorem exists_right {α β : Type} {r : α → β → Prop} {l : List α} {l' : List β}
    (h : List.Forall₂ r l l') {x : α} (hx : x ∈ l) : ∃ y ∈ l', r x y := by
  induction h with
  | nil => exact nomatch hx
  | cons hab _ ih =>
    rcases List.mem_cons.mp hx with rfl | hx
    · exact ⟨_, List.mem_cons_self, hab⟩
    · obtain ⟨y, hy, hr⟩ := ih hx
      exact ⟨y, List.mem_cons_of_mem _ hy, hr⟩

theorem exists_left {α β : Type} {r : α → β → Prop} {l : List α} {l' : List β}
    (h : List.Forall₂ r l l') {y : β} (hy : y ∈ l') : ∃ x ∈ l, r x y :=
  exists_right h.flip hy

private theorem derives_same (h : List.Forall₂ SameTab tabs tabs') :
    Derives tabs' = Derives tabs := by
  funext a b
  refine propext ⟨?_, ?_⟩
  · rintro ⟨t', ht', hid, hup⟩
    obtain ⟨t, ht, hs⟩ := exists_left h ht'
    exact ⟨t, ht, hs.id ▸ hid, hs.datasource ▸ hup⟩
  · rintro ⟨t, ht, hid, hup⟩
    obtain ⟨t', ht', hs⟩ := exists_right h ht
    exact ⟨t', ht', hs.id.trans hid, by rw [hs.datasource, hup]⟩

private theorem earlier_same {t t' : PipelineTab κ δ} (h : SameTab t t') :
    Earlier [] t'.steps ↔ Earlier [] t.steps :=
  earlier_congr (h.steps.imp fun _ _ hs => ⟨hs.id, hs.dependsOn⟩)

private theorem checkDatasource_input {v : View} {analysisId : Option String} {walk : ℕ}
    {tab : PipelineTab κ δ} {src : String} (hin : tab.input = some src)
    (h : v.checkDatasource analysisId tabs walk tab = .ok ()) : Visible v.datasource src := by
  unfold PipelineTab.input at hin
  split at hin
  · next hup =>
    cases hin
    unfold View.checkDatasource at h
    rw [hup] at h
    obtain ⟨row, hrow, -⟩ := Effects.bind_ok.mp h
    exact ⟨row, requireVisible_ok.mp hrow⟩
  · cases hin

/-- An accepted payload is well formed exactly when the parts that are not checked are. -/
theorem accepted_wellFormed_iff {v : View} {analysisId : Option String} {visible : String → Prop}
    (hv : ∀ src, Visible v.datasource src → visible src) (h : Accepted v analysisId tabs tabs') :
    WellFormed visible tabs' ↔ Distinct tabs := by
  have hids : ∀ {t t' : PipelineTab κ δ}, SameTab t t' → stepIds t'.steps = stepIds t.steps :=
    fun hs => stepIds_same hs.steps
  have hknown : ∀ t ∈ tabs, (stepIds t.steps).Nodup →
      (Earlier [] t.steps ↔ ∀ s ∈ t.steps, s.id ∉ s.dependsOn) := fun t ht hnodup =>
    earlier_iff_of_known (h.known t ht) (fun _ _ => List.not_mem_nil) hnodup
  constructor
  · intro hw
    have hnodup : ∀ t ∈ tabs, (stepIds t.steps).Nodup := fun t ht => by
      obtain ⟨t', ht', hs⟩ := exists_right h.same ht
      rw [← hids hs]
      exact hw.steps_nodup t' ht'
    refine ⟨?_, hnodup, fun t ht => ?_, ?_⟩
    · rw [← ids_same h.same]
      exact hw.tabs_nodup
    · obtain ⟨t', ht', hs⟩ := exists_right h.same ht
      exact (hknown t ht (hnodup t ht)).mp ((earlier_same hs).mp (hw.earlier t' ht'))
    · rw [← derives_same h.same]
      exact hw.acyclic
  · intro hd
    refine ⟨?_, fun t' ht' => ?_, fun t' ht' => ?_, fun t' ht' up hup => ?_, ?_, fun src hsrc => ?_,
      fun src hsrc => ?_⟩
    · rw [ids_same h.same]
      exact hd.tabs_nodup
    · obtain ⟨t, ht, hs⟩ := exists_left h.same ht'
      rw [hids hs]
      exact hd.steps_nodup t ht
    · obtain ⟨t, ht, hs⟩ := exists_left h.same ht'
      exact (earlier_same hs).mpr ((hknown t ht (hd.steps_nodup t ht)).mpr (hd.not_self t ht))
    · obtain ⟨t, ht, hs⟩ := exists_left h.same ht'
      obtain ⟨i, hi⟩ := List.mem_iff_getElem?.mp ht
      rw [hs.datasource] at hup
      obtain ⟨parent, hparent, hpid, hres⟩ :=
        tabOutputMap_some ((checkDatasource_derived hup).mp (h.datasource i t hi))
      obtain ⟨parent', hparent', hps⟩ := exists_right h.same hparent
      exact ⟨parent', hparent', hps.id.trans hpid, by rw [hps.resultId, hres, hs.datasource]⟩
    · rw [derives_same h.same]
      exact hd.acyclic
    · rw [references_same h.same] at hsrc
      rw [tabIds_same h.same]
      by_cases ht : src ∈ tabIds tabs
      · exact .inl ht
      · exact .inr (hv src (h.visible src (List.mem_filter.mpr ⟨hsrc, by simpa using ht⟩)))
    · rw [inputs_same h.same] at hsrc
      obtain ⟨t, ht, hin⟩ := List.mem_filterMap.mp hsrc
      obtain ⟨i, hi⟩ := List.mem_iff_getElem?.mp ht
      exact hv src (checkDatasource_input hin (h.datasource i t hi))

theorem WellFormed.distinct {visible : String → Prop} (h : WellFormed visible tabs) :
    Distinct tabs := by
  refine ⟨h.tabs_nodup, h.steps_nodup, fun t ht s hs hself => ?_, h.acyclic⟩
  obtain ⟨s1, s2, heq⟩ := List.append_of_mem hs
  have hearlier := h.earlier t ht
  have hnodup := h.steps_nodup t ht
  rw [heq, earlier_append] at hearlier
  rw [heq, stepIds, List.map_append, List.map_cons, List.nodup_middle, List.nodup_cons] at hnodup
  have hmem := hearlier.2.1 _ hself
  exact hnodup.1 (List.mem_append_left _ (by simpa [stepIds] using hmem))

end Payload

end DataForge.Analyses
