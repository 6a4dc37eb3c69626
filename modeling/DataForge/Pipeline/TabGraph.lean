import DataForge.Pipeline.Tabs
import Mathlib.Logic.Relation

/-!
# The tab-reference graph

With distinct ids and no circular reference, the chain of a tab is the chain of the tab upstream
of it followed by the tab, and what an analysis source yields depends neither on the sources
being loaded around it nor on the depth left.
-/

namespace DataForge.Pipeline

open ReadCommitted Relation

variable {κ δ π K F : Type} [StepSources κ]

/-- The tab that a reference reads. -/
def Ref.tab? : Ref δ → Option String
  | .analysis tabId => some tabId
  | .base source | .payload source => source.tab?
  | .outside _ => none

namespace AnalysisPipeline

variable (P : AnalysisPipeline κ δ)

/-- The tabs that a tab reads: the one upstream of it, and those its steps name. -/
def tabRefs (tab : Tab κ δ) : List String :=
  ((P.outputTab tab.source.id).map Tab.id).toList ++ tab.source.tab?.toList ++
    ((applySteps tab.steps).flatMap Step.sourceIds).filterMap fun id =>
      (P.sourceRef id).bind Ref.tab?

/-- The tabs that an analysis source reads. -/
def refs (tabId : String) : List String :=
  match P.selectTab (some tabId) with
  | .ok tab => P.tabRefs tab
  | .error _ => []

/-- The tab-reference graph has no cycle: no sequence of references descends forever, which for
finitely many tabs is the same. -/
def Acyclic : Prop := WellFounded fun r t => r ∈ P.refs t

/-- Ids name one thing each. The derived tabs are as `_validate_analysis_payload`
(`src/packages/backend/modules/analysis/service.py:326-333`) asks. -/
structure Apart : Prop where
  tabs : (P.tabs.map Tab.id).Nodup
  tab_ne : ∀ a ∈ P.tabs, a.id ≠ ""
  outputs : (P.tabs.map Tab.outputId).Nodup
  output_ne : ∀ a ∈ P.tabs, a.outputId ≠ ""
  source_ne : ∀ a ∈ P.tabs, a.source.id ≠ ""
  step_ne : ∀ a ∈ P.tabs, ∀ s ∈ a.steps, s.id ≠ ""
  step_output : ∀ a ∈ P.tabs, ∀ s ∈ a.steps, ∀ b ∈ P.tabs, s.id ≠ b.outputId
  step_source : ∀ a ∈ P.tabs, ∀ s ∈ a.steps, ∀ b ∈ P.tabs, ∀ s' ∈ b.steps, s.id ∉ s'.sourceIds
  derived : ∀ a ∈ P.tabs, ∀ t, a.source.analysisTabId = some t →
    ∃ b ∈ P.tabs, b.id = t ∧ b.outputId = a.source.id

variable {P}

omit [StepSources κ] in
private theorem find_nodup {β : Type} {f : β → String} {l : List β} (hd : (l.map f).Nodup) {a : β}
    (ha : a ∈ l) {q : β → Bool} (hq : ∀ b ∈ l, q b = true ↔ f b = f a) : l.find? q = some a := by
  induction l with
  | nil => cases ha
  | cons b rest ih =>
    rw [List.map_cons, List.nodup_cons] at hd
    rw [List.find?_cons]
    rcases List.mem_cons.mp ha with rfl | ha
    · rw [(hq a List.mem_cons_self).mpr rfl]
    · have hne : q b = false := by
        rw [Bool.eq_false_iff]
        intro hb
        rw [hq b List.mem_cons_self] at hb
        exact hd.1 (hb ▸ List.mem_map_of_mem ha)
      rw [hne]
      exact ih hd.2 ha fun c hc => hq c (List.mem_cons_of_mem _ hc)

omit [StepSources κ] in
private theorem find_reverse {β : Type} {f : β → String} {l : List β} (hd : (l.map f).Nodup)
    {a : β} (ha : a ∈ l) {q : β → Bool} (hq : ∀ b ∈ l, q b = true ↔ f b = f a) :
    l.reverse.find? q = some a := by
  refine find_nodup (f := f) ?_ (List.mem_reverse.mpr ha) fun b hb => hq b (List.mem_reverse.mp hb)
  rw [List.map_reverse]
  exact List.nodup_reverse.mpr hd

variable {a : Tab κ δ}

omit [StepSources κ] in
theorem outputTab_some {id : String} (ha : P.outputTab id = some a) :
    a ∈ P.tabs ∧ a.outputId = id := by
  unfold outputTab at ha
  have hm := List.mem_of_find?_eq_some ha
  have hp := List.find?_some ha
  rw [List.mem_reverse] at hm
  simp only [ne_eq, decide_eq_true_eq] at hp
  exact ⟨hm, hp.2.2⟩

section Find

variable (h : P.Apart)
include h

variable {a : Tab κ δ}

theorem find_tab (ha : a ∈ P.tabs) : P.tabs.find? (fun t => t.id = a.id) = some a :=
  find_nodup h.tabs ha (by simp)

theorem selectTab_eq (ha : a ∈ P.tabs) : P.selectTab (some a.id) = .ok a := by
  have hne : P.tabs ≠ [] := List.ne_nil_of_mem ha
  unfold selectTab resolveAnalysisTab
  simp [Option.filter, h.tab_ne a ha, find_tab h ha, hne]

theorem outputTab_eq (ha : a ∈ P.tabs) : P.outputTab a.outputId = some a := by
  unfold outputTab
  refine find_reverse h.outputs ha fun b hb => ?_
  simp [h.tab_ne b hb, h.output_ne b hb]

theorem tabInput_eq (ha : a ∈ P.tabs) : P.tabInput a.id = some a.source.id := by
  unfold tabInput
  have hfind : P.tabs.reverse.find? (fun t => t.id = a.id ∧ t.source.id ≠ "") = some a :=
    find_reverse h.tabs ha fun b hb => by simp [h.source_ne b hb]
  rw [hfind]
  rfl

theorem refs_tab (ha : a ∈ P.tabs) : P.refs a.id = P.tabRefs a := by
  unfold refs
  rw [selectTab_eq h ha]

theorem upstream_refs {a u : Tab κ δ} (ha : a ∈ P.tabs) (hu : P.outputTab a.source.id = some u) :
    u.id ∈ P.refs a.id := by
  rw [refs_tab h ha]
  unfold tabRefs
  simp [hu]

end Find

/-! ## Chains -/

/-- A set of distinct tab ids leaves room for the target. -/
private structure Room (P : AnalysisPipeline κ δ) (n : ℕ) (seen : List String)
    (current : String) : Prop where
  nodup : seen.Nodup
  subset : seen ⊆ P.tabs.map Tab.id
  room : P.tabs.length < n + seen.length
  below : ∀ x ∈ seen, TransGen (fun r t => r ∈ P.refs t) current x

omit [StepSources κ] in
private theorem length_le {l : List String} {P : AnalysisPipeline κ δ} (hd : l.Nodup)
    (hs : l ⊆ P.tabs.map Tab.id) : l.length ≤ P.tabs.length := by
  have hle := (List.subperm_of_subset hd hs).length_le
  rwa [List.length_map] at hle

theorem Acyclic.irrefl (hA : P.Acyclic) (t : String) :
    ¬ TransGen (fun r t => r ∈ P.refs t) t t :=
  fun ht => hA.transGen.irrefl.irrefl t ht

private theorem chainLoop_eq (h : P.Apart) (hA : P.Acyclic) (n : ℕ) :
    ∀ (n' : ℕ) (seen seen' : List String) (a : Tab κ δ), a ∈ P.tabs → Room P n seen a.id →
      Room P n' seen' a.id → P.chainLoop n seen a.id = P.chainLoop n' seen' a.id := by
  induction n with
  | zero =>
    intro n' seen seen' a _ hr _
    have := length_le hr.nodup hr.subset
    have := hr.room
    omega
  | succ n ih =>
    intro n' seen seen' a ha hr hr'
    cases n' with
    | zero =>
      have := length_le hr'.nodup hr'.subset
      have := hr'.room
      omega
    | succ n' =>
      have hnot : a.id ∉ seen := fun hm => hA.irrefl _ (hr.below _ hm)
      have hnot' : a.id ∉ seen' := fun hm => hA.irrefl _ (hr'.below _ hm)
      have hmem : a.id ∈ P.tabs.map Tab.id := List.mem_map_of_mem ha
      unfold chainLoop
      rw [if_neg (by simp [h.tab_ne a ha, hnot]), if_neg (by simp [h.tab_ne a ha, hnot']),
        find_tab h ha, tabInput_eq h ha]
      dsimp only [Option.bind]
      cases hu : P.outputTab a.source.id with
      | none => rfl
      | some u =>
        have hstep := upstream_refs h ha hu
        dsimp only
        rw [ih n' (a.id :: seen) (a.id :: seen') u (outputTab_some hu).1]
        · refine ⟨List.nodup_cons.mpr ⟨hnot, hr.nodup⟩, List.cons_subset.mpr ⟨hmem, hr.subset⟩,
            ?_, ?_⟩
          · have := hr.room
            rw [List.length_cons]
            omega
          · intro x hx
            rcases List.mem_cons.mp hx with rfl | hx
            · exact .single hstep
            · exact .head hstep (hr.below x hx)
        · refine ⟨List.nodup_cons.mpr ⟨hnot', hr'.nodup⟩,
            List.cons_subset.mpr ⟨hmem, hr'.subset⟩, ?_, ?_⟩
          · have := hr'.room
            rw [List.length_cons]
            omega
          · intro x hx
            rcases List.mem_cons.mp hx with rfl | hx
            · exact .single hstep
            · exact .head hstep (hr'.below x hx)

theorem resolveTabChain_eq (h : P.Apart) (hA : P.Acyclic) (ha : a ∈ P.tabs) :
    P.resolveTabChain a.id =
      ((P.outputTab a.source.id).elim [] fun u => P.resolveTabChain u.id) ++ [a] := by
  unfold resolveTabChain
  rw [chainLoop, if_neg (by simp [h.tab_ne a ha]), find_tab h ha, tabInput_eq h ha]
  dsimp only [Option.bind]
  cases hu : P.outputTab a.source.id with
  | none => rfl
  | some u =>
    have hstep := upstream_refs h ha hu
    have hpos : 0 < P.tabs.length := List.length_pos_of_mem ha
    dsimp only [Option.elim]
    rw [List.reverse_cons, chainLoop_eq h hA _ (P.tabs.length + 1) [a.id] [] u
      (outputTab_some hu).1]
    · exact ⟨by simp, by simpa using ⟨a, ha, rfl⟩, by simp, by simpa using .single hstep⟩
    · exact ⟨List.nodup_nil, by simp, by simp, by simp⟩

theorem mem_resolveTabChain (h : P.Apart) (hA : P.Acyclic) (ha : a ∈ P.tabs) :
    ∀ c ∈ P.resolveTabChain a.id, c ∈ P.tabs ∧
      (c = a ∨ TransGen (fun r t => r ∈ P.refs t) c.id a.id) := by
  induction hid : a.id using hA.induction generalizing a with
  | _ x ih =>
    subst hid
    intro c hc
    rw [resolveTabChain_eq h hA ha] at hc
    rcases List.mem_append.mp hc with hc | hc
    · cases hu : P.outputTab a.source.id with
      | none => simp [hu] at hc
      | some u =>
        rw [hu] at hc
        have hstep := upstream_refs h ha hu
        obtain ⟨hm, heq | hbelow⟩ := ih u.id hstep (outputTab_some hu).1 rfl c hc
        · exact ⟨hm, .inr (heq ▸ .single hstep)⟩
        · exact ⟨hm, .inr (hbelow.tail hstep)⟩
    · rw [List.mem_singleton] at hc
      exact ⟨hc ▸ ha, .inl hc⟩

end AnalysisPipeline

end DataForge.Pipeline
