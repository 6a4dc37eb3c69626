import DataForge.Pipeline.Inlined
import Mathlib.Data.List.Find

/-!
# What an inlined tab starts from

Building the tabs upstream leaves the output of each at hand. So an inlined tab starts from the
frame that a direct run of it loads, and finds under a source id what a direct run loads, if the
pipeline resolves the id at all.
-/

namespace DataForge.Pipeline

open ReadCommitted Relation

variable {κ δ π F : Type} [StepSources κ]

/-- What the two evaluators share: the operations, how datasources load as the tabs configure
them, and how those load that no tab names. Both resolve a datasource of a tab to one config:
its type is given and no analysis, no config overrides where it loads, and a direct run has no
frozen metadata of it. Converted parameters hold the right source as configured, and no
datasource has an empty id. -/
structure Shared (κ δ π F : Type) [StepSources κ] [StepParams π] where
  engine : Engine κ (Ref δ) π Unit F
  right : ∀ c b, engine.convert c = .ok b → b.rightSource = StepSources.rightSource c
  load : TabSource δ → Except String F
  outside : String → Option (Except String F)
  outside_empty : outside "" = none
  emptyFrame : F

namespace Shared

variable [StepParams π] (S : Shared κ δ π F) (P : AnalysisPipeline κ δ)

/-- What an analysis source yields. -/
def analysisFrame (tabId : String) : Except String F :=
  P.loadAnalysis S.engine S.load P.depth [] tabId

/-- What a reference yields. -/
def loadRef : Ref δ → Except String F :=
  AnalysisPipeline.loadRef (S.analysisFrame P) S.load S.outside

/-- What a direct run of a tab with its last step yields. -/
def directFrame (tab : Tab κ δ) : Except BuildError F :=
  (buildPipelineDetails S.engine (AnalysisPipeline.refWorld (S.loadRef P)) S.emptyFrame
    { kind := .other, rest := P.datasourceRef tab.source } tab.steps
    (P.additionalDatasources (fun id => (S.outside id).isSome) tab.steps) none).2.map Prod.fst

end Shared

/-! ## The cache of frames -/

omit [StepSources κ] in
theorem mem_applySteps {steps : List (Step κ)} {s : Step κ} (hs : s ∈ applySteps steps) :
    ∃ s' ∈ steps, s.id = s'.id ∧ s.body = s'.body := by
  unfold applySteps at hs
  dsimp only at hs
  obtain ⟨s', hs', rfl⟩ := List.mem_map.mp hs
  refine ⟨s', (List.mem_filter.mp hs').1, ?_⟩
  split <;> exact ⟨rfl, rfl⟩

namespace AnalysisPipeline

variable [StepParams π] {P : AnalysisPipeline κ δ}

omit [StepSources κ] in
private theorem get_foldlM_inlineStep {E : Engine κ (Ref δ) π Unit F} {additional : Table String F}
    {s : String} (steps : List (Step κ)) (hs : ∀ st ∈ steps, stepKeyOf st ≠ s) :
    ∀ c r : Table String F × F, steps.foldlM (inlineStep E additional) c = .ok r →
      r.1.get s = c.1.get s := by
  induction steps with
  | nil =>
    intro c r h
    cases h
    rfl
  | cons st rest ih =>
    intro c r h
    rw [List.foldlM_cons] at h
    cases hstep : inlineStep E additional c st with
    | error e =>
      rw [hstep] at h
      cases h
    | ok c' =>
      rw [hstep] at h
      rw [ih (fun st' h' => hs st' (List.mem_cons_of_mem _ h')) c' r h]
      unfold inlineStep at hstep
      split at hstep
      · cases hstep
      · split at hstep
        · cases hstep
        · cases hstep
          rw [Table.get_put, if_neg fun he => hs st List.mem_cons_self he.symm]

/-- The tabs upstream of a tab. -/
def upstream (P : AnalysisPipeline κ δ) (a : Tab κ δ) : List (Tab κ δ) :=
  (P.outputTab a.source.id).elim [] fun u => P.resolveTabChain u.id

/-- After building a chain, the output of each of its tabs is at hand, and beside outputs only
steps are. -/
structure Cached (P : AnalysisPipeline κ δ) (v : String → Except String F)
    (chain : List (Tab κ δ)) (cache : Table String F) : Prop where
  output : ∀ u ∈ chain, ∃ frame, v u.id = .ok frame ∧ cache.get u.outputId = some frame
  key : ∀ s frame, cache.get s = some frame →
    (∃ u ∈ chain, u.outputId = s) ∨ ∃ u ∈ P.tabs, ∃ st ∈ u.steps, st.id = s

private theorem buildChain_concat {load : Ref δ → Except String F}
    {E : Engine κ (Ref δ) π Unit F} (chain : List (Tab κ δ)) (a : Tab κ δ) :
    P.buildChain load E (chain ++ [a]) =
      match P.buildChain load E chain with
      | .error e => .error e
      | .ok c =>
        match P.buildTabPipeline load E c.1 a with
        | .error e => .error e
        | .ok r => .ok (r.1, some r.2) := by
  unfold buildChain
  rw [List.foldlM_append]
  change (P.buildChain load E chain >>= _) = match P.buildChain load E chain with
    | .error e => .error e
    | .ok c => _
  cases P.buildChain load E chain with
  | error e => rfl
  | ok c =>
    simp only [List.foldlM_cons, List.foldlM_nil, bind, Except.bind]
    cases P.buildTabPipeline load E c.1 a <;> rfl

section Chain

variable (h : P.Apart) (hA : P.Acyclic) (S : Shared κ δ π F)
include h hA

/-- How inlined tabs load references. -/
abbrev inlineLoad (P : AnalysisPipeline κ δ) (S : Shared κ δ π F) : Ref δ → Except String F :=
  loadRef (S.analysisFrame P) S.load fun _ => none

variable {a : Tab κ δ}

private theorem analysisFrame_chain (ha : a ∈ P.tabs) :
    S.analysisFrame P a.id =
      match P.buildChain (inlineLoad P S) S.engine (P.resolveTabChain a.id) with
      | .error e => .error e
      | .ok c => lastFrame c.2 := by
  have hreq : a.id ∈ P.requested := List.mem_append_left _ (List.mem_map_of_mem ha)
  have heq : S.analysisFrame P a.id = P.buildAnalysis (inlineLoad P S) S.engine (some a.id) :=
    loadAnalysis_eq h hA S.load hreq
  rw [heq]
  unfold buildAnalysis
  rw [selectTab_eq h ha]
  dsimp only [bind, Except.bind]
  cases P.buildChain (inlineLoad P S) S.engine (P.resolveTabChain a.id) with
  | error e => rfl
  | ok c =>
    dsimp only [raise]
    cases lastFrame c.2 <;> rfl

theorem analysisFrame_eq (ha : a ∈ P.tabs) :
    S.analysisFrame P a.id =
      match P.buildChain (inlineLoad P S) S.engine (P.upstream a) with
      | .error e => .error e
      | .ok c =>
        match P.buildTabPipeline (inlineLoad P S) S.engine c.1 a with
        | .error e => .error e
        | .ok r => .ok r.2 := by
  have hchain : P.resolveTabChain a.id = P.upstream a ++ [a] := resolveTabChain_eq h hA ha
  rw [analysisFrame_chain h hA S ha, hchain, buildChain_concat]
  cases P.buildChain (inlineLoad P S) S.engine (P.upstream a) with
  | error e => rfl
  | ok c =>
    dsimp only
    cases P.buildTabPipeline (inlineLoad P S) S.engine c.1 a <;> rfl

private theorem cached_buildTab (ha : a ∈ P.tabs) {cache : Table String F}
    (hc : Cached P (S.analysisFrame P) (P.upstream a) cache) {r : Table String F × F}
    (hr : P.buildTabPipeline (inlineLoad P S) S.engine cache a = .ok r)
    (hv : S.analysisFrame P a.id = .ok r.2) :
    Cached P (S.analysisFrame P) (P.resolveTabChain a.id) r.1 := by
  have hchain : P.resolveTabChain a.id = P.upstream a ++ [a] := resolveTabChain_eq h hA ha
  unfold buildTabPipeline at hr
  rw [if_neg (h.source_ne a ha)] at hr
  cases hbase : baseFrame (inlineLoad P S) cache a.source with
  | error e =>
    rw [hbase] at hr
    cases hr
  | ok base =>
    rw [hbase] at hr
    cases hcol : P.collectAnalysisSources (inlineLoad P S) (applySteps a.steps) cache with
    | error e =>
      rw [hcol] at hr
      cases hr
    | ok additional =>
      rw [hcol] at hr
      cases hfold : (applySteps a.steps).foldlM (inlineStep S.engine additional)
          (cache, base) with
      | error e =>
        dsimp only [bind, Except.bind] at hr
        rw [hfold] at hr
        cases hr
      | ok c =>
        dsimp only [bind, Except.bind] at hr
        rw [hfold] at hr
        dsimp only [raise, pure, Except.pure] at hr
        cases hr
        rw [if_neg (h.output_ne a ha)]
        dsimp only at hv ⊢
        have hkey : ∀ st ∈ applySteps a.steps, ∃ st' ∈ a.steps, stepKeyOf st = st'.id := by
          intro st hst
          obtain ⟨st', hst', hid, -⟩ := mem_applySteps hst
          exact ⟨st', hst', by rw [stepKeyOf, hid, if_neg (h.step_ne a ha st' hst')]⟩
        constructor
        · intro u hu
          rw [hchain] at hu
          by_cases hua : u = a
          · subst hua
            exact ⟨c.2, hv, by simp⟩
          · have hu' : u ∈ P.upstream a := by simpa [hua] using hu
            obtain ⟨frame, hframe, hget⟩ := hc.output u hu'
            have hm := (mem_resolveTabChain h hA ha u (hchain ▸ hu)).1
            have hne : u.outputId ≠ a.outputId := by
              intro he
              have h1 := outputTab_eq h hm
              rw [he, outputTab_eq h ha, Option.some_inj] at h1
              exact hua h1.symm
            refine ⟨frame, hframe, ?_⟩
            rw [Table.get_put, if_neg hne, get_foldlM_inlineStep _ (fun st hst he => ?_) _ _ hfold]
            · exact hget
            · obtain ⟨st', hst', hk⟩ := hkey st hst
              exact h.step_output a ha st' hst' u hm (hk ▸ he)
        · intro s frame hs
          rw [hchain]
          rw [Table.get_put] at hs
          split at hs
          case isTrue he => exact .inl ⟨a, by simp, he.symm⟩
          case isFalse =>
            by_cases hstep : ∃ st ∈ applySteps a.steps, stepKeyOf st = s
            · obtain ⟨st, hst, he⟩ := hstep
              obtain ⟨st', hst', hk⟩ := hkey st hst
              exact .inr ⟨a, ha, st', hst', hk ▸ he⟩
            · rw [get_foldlM_inlineStep _ (fun st hst he => hstep ⟨st, hst, he⟩) _ _ hfold] at hs
              rcases hc.key s frame hs with ⟨u, hu, he⟩ | hst
              · exact .inl ⟨u, List.mem_append_left _ hu, he⟩
              · exact .inr hst

omit h hA in
private theorem cached_upstream_of (ih : ∀ u, P.outputTab a.source.id = some u →
      ∀ c, P.buildChain (inlineLoad P S) S.engine (P.resolveTabChain u.id) = .ok c →
        Cached P (S.analysisFrame P) (P.resolveTabChain u.id) c.1) {c : Table String F × Option F}
    (hc : P.buildChain (inlineLoad P S) S.engine (P.upstream a) = .ok c) :
    Cached P (S.analysisFrame P) (P.upstream a) c.1 := by
  unfold upstream at hc ⊢
  cases hu : P.outputTab a.source.id with
  | none =>
    rw [hu] at hc
    cases hc
    exact ⟨by simp, by simp⟩
  | some u =>
    rw [hu] at hc
    exact ih u hu c hc

private theorem cached_chain (ha : a ∈ P.tabs) :
    ∀ c, P.buildChain (inlineLoad P S) S.engine (P.resolveTabChain a.id) = .ok c →
      Cached P (S.analysisFrame P) (P.resolveTabChain a.id) c.1 ∧
        S.analysisFrame P a.id = lastFrame c.2 := by
  induction hid : a.id using hA.induction generalizing a with
  | _ x ih =>
    subst hid
    intro c hc
    have hchain : P.resolveTabChain a.id = P.upstream a ++ [a] := resolveTabChain_eq h hA ha
    have hv := analysisFrame_eq h hA S ha
    rw [hchain, buildChain_concat] at hc
    have hup : ∀ c, P.buildChain (inlineLoad P S) S.engine (P.upstream a) = .ok c →
        Cached P (S.analysisFrame P) (P.upstream a) c.1 :=
      fun c => cached_upstream_of S fun u hu c hc =>
        (ih u.id (upstream_refs h ha hu) (outputTab_some hu).1 rfl c hc).1
    cases hbuild : P.buildChain (inlineLoad P S) S.engine (P.upstream a) with
    | error e =>
      rw [hbuild] at hc
      cases hc
    | ok c' =>
      rw [hbuild] at hc hv
      dsimp only at hc hv
      cases htab : P.buildTabPipeline (inlineLoad P S) S.engine c'.1 a with
      | error e =>
        rw [htab] at hc
        cases hc
      | ok r =>
        rw [htab] at hc hv
        cases hc
        exact ⟨cached_buildTab h hA S ha (hup c' hbuild) htab hv, hv⟩

theorem cached_upstream {c : Table String F × Option F}
    (hc : P.buildChain (inlineLoad P S) S.engine (P.upstream a) = .ok c) :
    Cached P (S.analysisFrame P) (P.upstream a) c.1 :=
  cached_upstream_of S (fun _ hu c hc => (cached_chain h hA S (outputTab_some hu).1 c hc).1) hc

/-! ### The frame a tab starts from -/

omit hA in
private theorem datasourceRef_output {a u : Tab κ δ} (ha : a ∈ P.tabs)
    (hu : P.outputTab a.source.id = some u) : P.datasourceRef a.source = .analysis u.id := by
  unfold datasourceRef
  cases hf : a.source.tab? with
  | none =>
    dsimp only
    rw [hu]
  | some t =>
    obtain ⟨b, hb, rfl, hout⟩ := h.derived a ha t (Option.filter_eq_some_iff.mp hf).1
    rw [← hout, outputTab_eq h hb, Option.some_inj] at hu
    rw [hu]

omit h hA in
private theorem loadRef_datasourceRef {source : TabSource δ} (hu : P.outputTab source.id = none) :
    inlineLoad P S (.base source) = S.loadRef P (P.datasourceRef source) ∧
      inlineLoad P S (.payload source) = S.loadRef P (P.datasourceRef source) := by
  unfold datasourceRef inlineLoad Shared.loadRef loadRef
  cases htab : source.tab? with
  | none =>
    dsimp only
    rw [hu]
    simp only [htab, and_self]
  | some t => simp only [htab, and_self]

/-- Both evaluators start a tab from the same frame. -/
theorem base_eq (ha : a ∈ P.tabs) :
    match P.buildChain (inlineLoad P S) S.engine (P.upstream a) with
    | .error e => S.loadRef P (P.datasourceRef a.source) = .error e
    | .ok c =>
      baseFrame (inlineLoad P S) c.1 a.source = S.loadRef P (P.datasourceRef a.source) := by
  cases hu : P.outputTab a.source.id with
  | none =>
    have hup : P.upstream a = [] := by
      unfold upstream
      rw [hu]
      rfl
    rw [hup]
    exact (loadRef_datasourceRef S hu).1
  | some u =>
    obtain ⟨hm, hout⟩ := outputTab_some hu
    have hup : P.upstream a = P.resolveTabChain u.id := by
      unfold upstream
      rw [hu]
      rfl
    rw [hup, datasourceRef_output h ha hu]
    have hv := analysisFrame_chain h hA S hm
    have hcached := cached_chain h hA S hm
    cases hbuild : P.buildChain (inlineLoad P S) S.engine (P.resolveTabChain u.id) with
    | error e =>
      rw [hbuild] at hv
      exact hv
    | ok c =>
      have hself : u ∈ P.resolveTabChain u.id := by
        rw [resolveTabChain_eq h hA hm]
        simp
      obtain ⟨frame, hframe, hget⟩ := (hcached c hbuild).1.output u hself
      dsimp only
      unfold baseFrame
      rw [← hout, hget]
      exact hframe.symm

/-! ### The sources that steps name -/

/-- What an inlined tab finds under a source id. -/
def sourceValue (P : AnalysisPipeline κ δ) (load : Ref δ → Except String F)
    (cache : Table String F) (s : String) : Except String F :=
  match cache.get s with
  | some frame => .ok frame
  | none =>
    match P.sourceRef s with
    | none => .error ("Analysis pipeline missing datasource config for " ++ s)
    | some ref => load ref

omit hA in
theorem sourceRef_eq (s : String) :
    P.sourceRef s = match P.outputTab s with
      | some tab => some (.analysis tab.id)
      | none => (P.datasourcePayload s).map .payload := by
  unfold sourceRef outputTab
  have hfind : P.tabs.reverse.find? (fun t => t.outputId ≠ "" ∧ t.outputId = s) =
      P.tabs.reverse.find? fun t => t.id ≠ "" ∧ t.outputId ≠ "" ∧ t.outputId = s := by
    refine List.find?_congr fun b hb => ?_
    simp [h.tab_ne b (List.mem_reverse.mp hb)]
  rewrite [hfind]
  rfl

omit hA in
/-- A source that the pipeline resolves is the same for both evaluators. -/
theorem sourceValue_eq {cache : Table String F} (hup : ∀ u ∈ P.upstream a, u ∈ P.tabs)
    (hc : Cached P (S.analysisFrame P) (P.upstream a) cache) {s : String}
    (hs : ∀ u ∈ P.tabs, ∀ st ∈ u.steps, st.id ≠ s) (found : String → Bool) :
    match P.sourceRef s with
    | none => cache.get s = none
    | some _ => ∃ ref, P.stepSourceRef found s = some ref ∧
        sourceValue P (inlineLoad P S) cache s = S.loadRef P ref := by
  have hhit : ∀ frame, cache.get s = some frame → ∃ u ∈ P.tabs, u.outputId = s ∧
      S.analysisFrame P u.id = .ok frame := by
    intro frame hget
    rcases hc.key s frame hget with ⟨u, hu, rfl⟩ | ⟨u, hu, st, hst, he⟩
    · obtain ⟨frame', hframe', hget'⟩ := hc.output u hu
      rw [hget, Option.some_inj] at hget'
      exact ⟨u, hup u hu, rfl, hget' ▸ hframe'⟩
    · exact absurd he (hs u hu st hst)
  unfold sourceValue stepSourceRef
  rw [sourceRef_eq h s]
  cases hu : P.outputTab s with
  | some u =>
    dsimp only
    refine ⟨_, rfl, ?_⟩
    cases hget : cache.get s with
    | none => rfl
    | some frame =>
      obtain ⟨u', hu', rfl, hv⟩ := hhit frame hget
      rw [outputTab_eq h hu', Option.some_inj] at hu
      rw [← hu]
      exact hv.symm
  | none =>
    have hnone : cache.get s = none := by
      cases hget : cache.get s with
      | none => rfl
      | some frame =>
        obtain ⟨u', hu', rfl, -⟩ := hhit frame hget
        rw [outputTab_eq h hu'] at hu
        cases hu
    dsimp only
    cases hp : P.datasourcePayload s with
    | none => exact hnone
    | some source =>
      have hid : source.id = s := by
        unfold datasourcePayload at hp
        obtain ⟨t, ht, rfl⟩ := Option.map_eq_some_iff.mp hp
        simpa using List.find?_some ht
      refine ⟨_, rfl, ?_⟩
      rw [hnone]
      exact (loadRef_datasourceRef S (hid ▸ hu)).2

end Chain

end AnalysisPipeline

end DataForge.Pipeline
