import DataForge.Effects.Related
import DataForge.Pipeline.TabGraph

/-!
# Loading an analysis source

What an analysis source yields depends only on the references its chain makes; so with distinct
ids and no circular reference it yields the same whatever is being loaded around it.
-/

namespace DataForge.Pipeline

open ReadCommitted Relation Effects

variable {κ δ π K F : Type} [StepSources κ] [StepParams π]

namespace AnalysisPipeline

variable {P : AnalysisPipeline κ δ} {E : Engine κ (Ref δ) π K F}

section Related

variable {m n : Type → Type} [Monad m] [Monad n] [MonadExceptOf String m]
  [MonadExceptOf String n]
  {R : ∀ α : Type, m α → n α → Prop} {load : Ref δ → m F}
  {load' : Ref δ → n F}

omit [StepSources κ] [StepParams π] in
private theorem related_collectSource (h : Related String m n R) {cache additional : Table String F}
    {id : String} (hload : ∀ ref, P.sourceRef id = some ref → R F (load ref) (load' ref)) :
    R _ (P.collectSource load cache additional id) (P.collectSource load' cache additional id) := by
  unfold collectSource
  split
  · exact h.pure _
  · split
    · exact h.pure _
    · split
      · exact h.throw _
      case h_2 ref href => exact h.bind (hload ref href) fun _ => h.pure _

omit [StepSources κ] [StepParams π] in
private theorem related_raise (h : Related String m n R) {α : Type} (x : Except String α) :
    R α (raise x : m α) (raise x : n α) := by
  unfold raise
  cases x with
  | ok a => exact h.pure a
  | error e => exact h.throw e

/-- The references that building a tab can load. -/
def tabLoads (P : AnalysisPipeline κ δ) (tab : Tab κ δ) : List (Ref δ) :=
  .base tab.source :: ((applySteps tab.steps).flatMap Step.sourceIds).filterMap P.sourceRef

private theorem related_buildTabPipeline [LawfulMonad m] [LawfulMonad n]
    (h : Related String m n R) {tab : Tab κ δ}
    (hload : ∀ ref ∈ P.tabLoads tab, R F (load ref) (load' ref)) (cache : Table String F) :
    R _ (P.buildTabPipeline load E cache tab) (P.buildTabPipeline load' E cache tab) := by
  have hcollect : R _ (P.collectAnalysisSources load (applySteps tab.steps) cache)
      (P.collectAnalysisSources load' (applySteps tab.steps) cache) := by
    refine h.foldlM _ (fun t id hid => related_collectSource h fun ref href => hload ref ?_) _
    exact List.mem_cons_of_mem _ (List.mem_filterMap.mpr ⟨id, hid, href⟩)
  have hbase : R _ (baseFrame load cache tab.source) (baseFrame load' cache tab.source) := by
    unfold baseFrame
    split
    · exact h.pure _
    · exact hload _ List.mem_cons_self
  unfold buildTabPipeline
  split
  · exact h.throw _
  · refine h.bind hbase fun base => h.bind hcollect fun additional => ?_
    exact h.bind (related_raise h _) fun c => h.pure _

private theorem related_buildChain [LawfulMonad m] [LawfulMonad n]
    (h : Related String m n R) {chain : List (Tab κ δ)}
    (hload : ∀ tab ∈ chain, ∀ ref ∈ P.tabLoads tab, R F (load ref) (load' ref)) :
    R _ (P.buildChain load E chain) (P.buildChain load' E chain) := by
  unfold buildChain
  refine h.foldlM _ (fun c tab htab => ?_) _
  exact h.bind (related_buildTabPipeline h (hload tab htab) c.1) fun r => h.pure _

theorem related_buildAnalysis [LawfulMonad m] [LawfulMonad n] (h : Related String m n R)
    {tabId : Option String}
    (hload : ∀ selected, P.selectTab tabId = .ok selected →
      ∀ tab ∈ P.resolveTabChain selected.id, ∀ ref ∈ P.tabLoads tab,
      R F (load ref) (load' ref)) :
    R _ (P.buildAnalysis load E tabId) (P.buildAnalysis load' E tabId) := by
  unfold buildAnalysis
  cases hsel : P.selectTab tabId with
  | error e => exact h.throw e
  | ok selected =>
    exact h.bind (related_buildChain h (hload selected hsel)) fun built => related_raise h _

end Related

/-! ## Nested analysis sources -/

omit [StepParams π] in
theorem mem_tabRefs {tab : Tab κ δ} {ref : Ref δ} (h : ref ∈ P.tabLoads tab) {r : String}
    (hr : ref.tab? = some r) : r ∈ P.tabRefs tab := by
  unfold tabLoads at h
  unfold tabRefs
  rcases List.mem_cons.mp h with rfl | h
  · refine List.mem_append_left _ (List.mem_append_right _ ?_)
    rw [Option.mem_toList]
    exact hr
  · obtain ⟨id, hid, hsource⟩ := List.mem_filterMap.mp h
    refine List.mem_append_right _ (List.mem_filterMap.mpr ⟨id, hid, ?_⟩)
    rw [hsource]
    exact hr

omit [StepParams π] in
/-- An analysis source is requested by the id of a tab, or by an id that a tab names. -/
theorem tabRefs_subset (tab : Tab κ δ) (htab : tab ∈ P.tabs) : P.tabRefs tab ⊆ P.requested := by
  have hout : ∀ {o u}, P.outputTab o = some u → u.id ∈ P.requested := fun h =>
    List.mem_append_left _ (List.mem_map_of_mem (outputTab_some h).1)
  have href : ∀ a ∈ P.tabs, ∀ r, a.source.tab? = some r → r ∈ P.requested := fun a ha r hr =>
    List.mem_append_right _ (List.mem_filterMap.mpr ⟨a, ha, (Option.filter_eq_some_iff.mp hr).1⟩)
  intro r hr
  unfold tabRefs at hr
  rcases List.mem_append.mp hr with hr | hr
  · rcases List.mem_append.mp hr with hr | hr
    · rw [Option.mem_toList, Option.map_eq_some_iff] at hr
      obtain ⟨u, hu, rfl⟩ := hr
      exact hout hu
    · rw [Option.mem_toList] at hr
      exact href tab htab r hr
  · obtain ⟨id, -, hid⟩ := List.mem_filterMap.mp hr
    rw [Option.bind_eq_some_iff] at hid
    obtain ⟨ref, href', hid⟩ := hid
    unfold sourceRef at href'
    split at href'
    case h_1 u hu =>
      cases href'
      cases hid
      have hm := List.mem_of_find?_eq_some hu
      exact List.mem_append_left _ (List.mem_map_of_mem (List.mem_reverse.mp hm))
    case h_2 =>
      unfold datasourcePayload at href'
      rw [Option.map_map, Option.map_eq_some_iff] at href'
      obtain ⟨a, ha, rfl⟩ := href'
      exact href a (List.mem_of_find?_eq_some ha) r hid

section Load

variable (h : P.Apart) (hA : P.Acyclic) (load : TabSource δ → Except String F)
include h hA

omit [StepParams π] in
private theorem below_of_chain {t : String} {selected tab : Tab κ δ}
    (hsel : P.selectTab (some t) = .ok selected) (hs : selected ∈ P.tabs)
    (htab : tab ∈ P.resolveTabChain selected.id) {r : String} (hr : r ∈ P.tabRefs tab) :
    tab ∈ P.tabs ∧ TransGen (fun r t => r ∈ P.refs t) r t := by
  have hrefs : P.refs t = P.refs selected.id := by
    unfold refs
    rw [hsel, selectTab_eq h hs]
  obtain ⟨hm, heq | hbelow⟩ := mem_resolveTabChain h hA hs tab htab
  · refine ⟨hm, .single ?_⟩
    rw [hrefs, refs_tab h hs, ← heq]
    exact hr
  · refine ⟨hm, ?_⟩
    have hstep : TransGen (fun r t => r ∈ P.refs t) r selected.id :=
      .head (refs_tab h hm ▸ hr) hbelow
    obtain ⟨x, hx, hlast⟩ := TransGen.tail'_iff.mp hstep
    exact TransGen.tail'_iff.mpr ⟨x, hx, hrefs ▸ hlast⟩

omit h hA [StepSources κ] in
theorem selectTab_mem {t : Option String} {a : Tab κ δ} (hsel : P.selectTab t = .ok a) :
    a ∈ P.tabs := by
  unfold selectTab resolveAnalysisTab at hsel
  split at hsel
  · cases hsel
  · split at hsel
    · cases hsel
    case h_2 tab hres =>
      split at hsel
      · cases hsel
      · cases hsel
        split at hres
        case h_1 tab' hfind =>
          cases hres
          rw [Option.bind_eq_some_iff] at hfind
          obtain ⟨_, -, hfind⟩ := hfind
          exact List.mem_of_find?_eq_some hfind
        case h_2 =>
          split at hres
          case h_1 tab' hfind =>
            cases hres
            exact List.mem_of_find?_eq_some hfind
          case h_2 => cases hres

omit h hA [StepSources κ] [StepParams π] in
private theorem loadRef_congr {nested nested' : String → Except String F}
    (outside : String → Option (Except String F)) {ref : Ref δ}
    (href : ∀ r, ref.tab? = some r → nested r = nested' r) :
    loadRef nested load outside ref = loadRef nested' load outside ref := by
  unfold Ref.tab? at href
  unfold loadRef
  cases ref with
  | analysis r => exact href r rfl
  | outside _ => rfl
  | base source | payload source =>
    cases htab : source.tab? with
    | none => simp only [htab]
    | some r => simpa only [htab] using href r htab

private theorem loadAnalysis_any (t : String) (ht : t ∈ P.requested) :
    ∀ (n : ℕ) (stack : List String), stack.Nodup → stack ⊆ P.requested →
      P.requested.length < n + stack.length →
      (∀ x ∈ stack, ¬ ReflTransGen (fun r t => r ∈ P.refs t) x t) →
      P.loadAnalysis E load n stack t =
        P.buildAnalysis (loadRef (P.loadAnalysis E load P.depth []) load fun _ => none) E
          (some t) := by
  induction t using hA.transGen.induction with
  | _ t ih =>
    intro n stack hd hs hlen hbelow
    cases n with
    | zero =>
      have hle := (List.subperm_of_subset hd hs).length_le
      omega
    | succ n =>
      have hnot : t ∉ stack := fun hm => hbelow t hm .refl
      rw [loadAnalysis, if_neg hnot]
      refine related_buildAnalysis related_eq fun selected hsel tab htab ref href => ?_
      have hnested : ∀ r, ref.tab? = some r →
          P.loadAnalysis E load n (t :: stack) r = P.loadAnalysis E load P.depth [] r := by
        intro r hread
        obtain ⟨hm, hr⟩ := below_of_chain h hA hsel (selectTab_mem hsel) htab
          (mem_tabRefs href hread)
        have hreq := tabRefs_subset tab hm (mem_tabRefs href hread)
        rw [ih r hr hreq n (t :: stack), ih r hr hreq P.depth [] List.nodup_nil (by simp)]
        · unfold depth
          simp
        · simp
        · exact List.nodup_cons.mpr ⟨hnot, hd⟩
        · exact List.cons_subset.mpr ⟨ht, hs⟩
        · rw [List.length_cons]
          omega
        · intro x hx hxr
          rcases List.mem_cons.mp hx with rfl | hx
          · exact hA.irrefl _ (TransGen.trans_right hxr hr)
          · exact hbelow x hx (hxr.trans hr.to_reflTransGen)
      exact loadRef_congr load _ hnested

theorem loadAnalysis_eq {t : String} (ht : t ∈ P.requested) :
    P.loadAnalysis E load P.depth [] t =
      P.buildAnalysis (loadRef (P.loadAnalysis E load P.depth []) load fun _ => none) E
        (some t) := by
  refine loadAnalysis_any h hA load t ht P.depth [] List.nodup_nil (by simp) ?_ (by simp)
  unfold depth
  simp

end Load

end AnalysisPipeline

end DataForge.Pipeline
