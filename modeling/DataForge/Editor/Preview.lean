import DataForge.Editor.Steps
import DataForge.Pipeline.Ancestors
import DataForge.Pipeline.Tabs

/-!
# Trimmed previews

`buildTargetPreviewPipelinePayload` (`src/packages/frontend/src/lib/utils/analysis-pipeline.ts`)
drops the steps behind the target of a preview; the worker then chooses the tab, the target and the
steps of the request from what is left (`src/packages/worker/runtime/compute_service.py`).
-/

namespace DataForge.Editor

open Pipeline

variable {κ δ : Type}

/-- A tab holds a step with the id. -/
def holds (target : String) (t : Pipeline.Tab κ δ) : Bool := t.steps.any (·.id = target)

variable (P : AnalysisPipeline κ δ) (tabId : Option String) (target : String)

/-- The steps of the tab at a place. -/
def stepsAt (i : ℕ) : List (Step κ) := (P.tabs[i]?.map Pipeline.Tab.steps).getD []

/-- `_select_pipeline_tab` (`compute_service.py:1015-1033`): the place of the tab. -/
def selectPipelineTab : Except String ℕ :=
  if P.tabs = [] then .error "analysis_pipeline missing tabs"
  else
    let requested := (truthy tabId).bind fun id => P.tabs.findIdx? (·.id = id)
    let selected :=
      if target = "source" then requested
      else (requested.filter fun i => (stepsAt P i).any (·.id = target)).or
        (P.tabs.findIdx? (holds target))
    .ok ((selected.or (P.tabs.findIdx? fun t => !t.steps.isEmpty)).getD 0)

/-- `selected` (`analysis-pipeline.ts:167-179`): the place of the tab. -/
def previewTab : Option ℕ :=
  let requested := (truthy tabId).bind fun id => P.tabs.findIdx? (·.id = id)
  let requestedMatches := requested.filter fun i =>
    target = "source" ∨ (stepsAt P i).any (·.id = target)
  let targetTab := if target = "source" then none else P.tabs.findIdx? (holds target)
  ((requestedMatches.or targetTab).or (P.tabs.findIdx? fun t => 0 < t.steps.length)).or
    (if P.tabs = [] then none else some 0)

/-- The steps through the first one with the id, or none. -/
def untilTarget (steps : List (Step κ)) : List (Step κ) :=
  if target = "source" then [] else steps.take (steps.findIdx (·.id = target) + 1)

/-- A tab with the given id, trimmed to as many steps. -/
def trimTab (selectedId : String) (n : ℕ) (t : Pipeline.Tab κ δ) : Pipeline.Tab κ δ :=
  if t.id = selectedId then { t with steps := t.steps.take n } else t

/-- The payload with trimmed tabs. -/
def trimTabs (selectedId : String) (n : ℕ) : AnalysisPipeline κ δ :=
  { P with tabs := P.tabs.map (trimTab selectedId n) }

/-- `buildTargetPreviewPipelinePayload` (`analysis-pipeline.ts:162-195`). -/
def buildTargetPreviewPipelinePayload : Option (AnalysisPipeline κ δ) :=
  match (previewTab P tabId target).bind (P.tabs[·]?) with
  | none => none
  | some selected =>
    if target = "source" then some (trimTabs P selected.id 0)
    else
      match selected.steps.findIdx? (·.id = target) with
      | none => none
      | some targetIndex => some (trimTabs P selected.id (targetIndex + 1))

/-! ## The same request -/

/-- The worker chooses the same tab, the same target and the same steps of both payloads. -/
structure SameRequest (P P' : AnalysisPipeline κ δ) (tabId : Option String) (target : String) :
    Prop where
  tab : selectPipelineTab P' tabId target = selectPipelineTab P tabId target
  resolved : ∀ i, selectPipelineTab P tabId target = .ok i →
    resolveAppliedTarget (stepsAt P' i) target = resolveAppliedTarget (stepsAt P i) target
  run : ∀ i, selectPipelineTab P tabId target = .ok i → ∀ hydrate,
    stepsThroughTarget hydrate (stepsAt P' i) (resolveAppliedTarget (stepsAt P' i) target) =
      stepsThroughTarget hydrate (stepsAt P i) (resolveAppliedTarget (stepsAt P i) target)

/-- Trimming preserves the request. -/
def PreservesRequest : Prop :=
  ∀ P', buildTargetPreviewPipelinePayload P tabId target = some P' → SameRequest P P' tabId target

/-- The place of the tab with the target: the requested one if it holds it, or else the first. -/
def targetPlace : Option ℕ :=
  (((truthy tabId).bind fun id => P.tabs.findIdx? (·.id = id)).filter fun i =>
    (stepsAt P i).any (·.id = target)).or (P.tabs.findIdx? (holds target))

/-- The applied steps through the first one with the id. -/
def throughApplied (steps : List (Step κ)) (r : String) : List (Step κ) :=
  (steps.filter Step.applied).take ((steps.filter Step.applied).findIdx (·.id = r) + 1)

/-- The steps behind the target change neither the applied step that the target stands for nor
the applied steps that those through it hang from. -/
structure Undisturbed (steps : List (Step κ)) (target : String) : Prop where
  resolved : ∀ r ≠ "source",
    ResolvesTo steps target r ↔ ResolvesTo (untilTarget target steps) target r
  wired : ∀ r ≠ "source", ResolvesTo (untilTarget target steps) target r →
    ∀ s ∈ throughApplied (untilTarget target steps) r, s.id ≠ "" → ∀ p,
      Leads (lastDependency steps) (· ∈ appliedIds steps) s.id p ↔
        Leads (lastDependency (untilTarget target steps))
          (· ∈ appliedIds (untilTarget target steps)) s.id p

/-- The tab is still found without its steps: it is requested, or the first one, and the only
one that has steps if any has. -/
def SourceKept : Prop :=
  (∃ id, truthy tabId = some id ∧ ∃ t ∈ P.tabs, t.id = id) ∨
    ∀ t ∈ P.tabs, t.steps ≠ [] →
      ∃ first, P.tabs.head? = some first ∧ t.id = first.id ∧ first.steps ≠ []

/-! ## The steps of the request -/

section Steps

variable {target : String} {steps pre post : List (Step κ)} {r : String}

theorem findIdx?_applied (h : r ∈ appliedIds steps) :
    (steps.filter Step.applied).findIdx? (·.id = r) =
      some ((steps.filter Step.applied).findIdx (·.id = r)) := by
  rw [List.findIdx?_eq_some_iff_findIdx_eq]
  obtain ⟨s, hs, rfl⟩ := List.mem_map.mp h
  exact ⟨List.findIdx_lt_length_of_exists ⟨s, hs, decide_eq_true rfl⟩, rfl⟩

theorem stepsThroughTarget_eq_contracted (h : r ∈ appliedIds steps) (hr : r ≠ "source")
    (hydrate : κ → Except String κ) :
    stepsThroughTarget hydrate steps r =
      ((throughApplied steps r).map (contracted steps)).mapM fun s =>
        return { s with body := ← hydrate s.body } := by
  have hidx : findStepIndex (applySteps steps) r =
      .ok ((steps.filter Step.applied).findIdx (·.id = r) : ℤ) := by
    have hcomp : (fun s : Step κ => decide (s.id = r)) ∘ contracted steps =
        fun s => decide (s.id = r) := by
      funext s
      rw [Function.comp_apply, id_contracted]
    rw [findStepIndex, if_neg hr, applySteps_eq_contracted, List.findIdx?_map, hcomp,
      findIdx?_applied h]
  unfold stepsThroughTarget
  rw [if_neg hr]
  dsimp only
  rw [hidx, applySteps_eq_contracted]
  change (((steps.filter Step.applied).map (contracted steps)).take _).mapM _ = _
  rw [← List.map_take]
  rfl

theorem throughApplied_append (h : r ∈ appliedIds pre) :
    throughApplied (pre ++ post) r = throughApplied pre r := by
  have hlt := (List.findIdx?_eq_some_iff_findIdx_eq.mp (findIdx?_applied h)).1
  unfold throughApplied
  rw [List.filter_append, List.findIdx_append, if_pos hlt, List.take_append_of_le_length hlt]

theorem mapM_plain (l : List (Step κ)) :
    (l.mapM fun s => return { s with body := ← (.ok s.body : Except String κ) }) = .ok l := by
  induction l with
  | nil => rfl
  | cons s l ih =>
    rw [List.mapM_cons, ih]
    rfl

variable (steps) in
theorem untilTarget_prefix (ht : target ≠ "source") :
    ∃ post, steps = untilTarget target steps ++ post := by
  rw [untilTarget, if_neg ht]
  exact ⟨_, (List.take_append_drop _ _).symm⟩

/-- The steps up to the target are run alike with and without those behind it, if these do not
disturb. -/
theorem undisturbed_iff (ht : target ≠ "source") :
    Undisturbed steps target ↔
      resolveAppliedTarget (untilTarget target steps) target =
          resolveAppliedTarget steps target ∧
        ∀ hydrate, stepsThroughTarget hydrate (untilTarget target steps)
            (resolveAppliedTarget (untilTarget target steps) target) =
          stepsThroughTarget hydrate steps (resolveAppliedTarget steps target) := by
  obtain ⟨post, hpost⟩ := untilTarget_prefix steps ht
  generalize hpre : untilTarget target steps = pre at hpost
  have hthrough : ∀ {r}, ResolvesTo pre target r → r ∈ appliedIds steps ∧
      throughApplied steps r = throughApplied pre r := by
    intro r hr
    have hmem := hr.mem
    rw [hpost, throughApplied_append hmem]
    refine ⟨?_, rfl⟩
    obtain ⟨s, hs, rfl⟩ := List.mem_map.mp hmem
    rw [appliedIds, List.filter_append]
    exact List.mem_map_of_mem (List.mem_append_left _ hs)
  constructor
  · intro h
    have hsame := h.resolved
    rw [hpre] at hsame
    have hresolve : resolveAppliedTarget pre target = resolveAppliedTarget steps target := by
      by_cases hr : resolveAppliedTarget steps target = "source"
      · by_contra hne
        rw [hr] at hne
        have hto := (hsame _ hne).mpr ((resolveAppliedTarget_eq_iff ht hne).mp rfl)
        exact hne (((resolveAppliedTarget_eq_iff ht hne).mpr hto).symm.trans hr)
      · exact (resolveAppliedTarget_eq_iff ht hr).mpr
          ((hsame _ hr).mp ((resolveAppliedTarget_eq_iff ht hr).mp rfl))
    refine ⟨hresolve, fun hydrate => ?_⟩
    rw [← hresolve]
    by_cases hr : resolveAppliedTarget pre target = "source"
    · rw [hr, stepsThroughTarget, if_pos rfl, stepsThroughTarget, if_pos rfl]
    have hto := (resolveAppliedTarget_eq_iff ht hr).mp rfl
    obtain ⟨hmem, htake⟩ := hthrough hto
    rw [stepsThroughTarget_eq_contracted hto.mem hr, stepsThroughTarget_eq_contracted hmem hr,
      htake]
    have hlists : (throughApplied pre (resolveAppliedTarget pre target)).map (contracted pre) =
        (throughApplied pre (resolveAppliedTarget pre target)).map (contracted steps) := by
      refine List.map_congr_left fun s hs => (contracted_eq_iff.mpr fun hid p => ?_).symm
      have hsteps := h.wired
      rw [hpre] at hsteps
      exact hsteps _ hr hto s hs hid p
    rw [hlists]
  · rintro ⟨hresolve, hsteps⟩
    refine ⟨fun r hr => ?_, fun r hr hto s hs hid p => ?_⟩
    · rw [hpre, ← resolveAppliedTarget_eq_iff ht hr, ← resolveAppliedTarget_eq_iff ht hr, hresolve]
    · rw [hpre] at hto hs ⊢
      have hr' : resolveAppliedTarget pre target = r := (resolveAppliedTarget_eq_iff ht hr).mpr hto
      obtain ⟨hmem, htake⟩ := hthrough hto
      have hrun := hsteps Except.ok
      rw [← hresolve, hr', stepsThroughTarget_eq_contracted hto.mem hr,
        stepsThroughTarget_eq_contracted hmem hr, htake, mapM_plain, mapM_plain,
        Except.ok.injEq] at hrun
      have hs' := List.map_inj_left.mp hrun s hs
      exact contracted_eq_iff.mp hs'.symm hid p

theorem mem_untilTarget (ht : target ≠ "source") (h : target ∈ steps.map Step.id) :
    target ∈ (untilTarget target steps).map Step.id := by
  obtain ⟨s, hs, hid⟩ := List.mem_map.mp h
  have hlt : steps.findIdx (·.id = target) < steps.length :=
    List.findIdx_lt_length_of_exists ⟨s, hs, decide_eq_true hid⟩
  rw [untilTarget, if_neg ht]
  refine List.mem_map.mpr ⟨steps[steps.findIdx (·.id = target)], ?_, ?_⟩
  · exact List.mem_take_iff_getElem.mpr ⟨_, by omega, rfl⟩
  · exact of_decide_eq_true (List.findIdx_getElem (p := fun s : Step κ => decide (s.id = target)))

theorem lastStep_append (h : r ∉ post.map Step.id) : lastStep (pre ++ post) r = lastStep pre r := by
  unfold lastStep
  have hnone : post.reverse.find? (·.id = r) = none := by
    refine List.find?_eq_none.mpr fun s hs hid => h ?_
    exact of_decide_eq_true hid ▸ List.mem_map_of_mem (List.mem_reverse.mp hs)
  rw [List.reverse_append, List.find?_append, hnone, Option.none_or]

/-- Steps with distinct ids, of which none up to the target depends on one behind it. -/
theorem undisturbed_of_earlier (ht : target ≠ "source") (hnodup : (steps.map Step.id).Nodup)
    (hdeps : ∀ s ∈ untilTarget target steps, ∀ q, s.dependency = some q → q ∈ steps.map Step.id →
      q ∈ (untilTarget target steps).map Step.id) : Undisturbed steps target := by
  have hmem : target ∈ steps.map Step.id → _ := mem_untilTarget ht
  obtain ⟨post, hpost⟩ := untilTarget_prefix steps ht
  generalize hpre : untilTarget target steps = pre at *
  subst hpost
  rw [List.map_append, List.nodup_append] at hnodup
  have hfront : ∀ {q}, q ∈ pre.map Step.id → q ∉ post.map Step.id :=
    fun hq hq' => hnodup.2.2 _ hq _ hq' rfl
  have hstep : ∀ q, q ∉ post.map Step.id → lastStep (pre ++ post) q = lastStep pre q :=
    fun q hq => lastStep_append hq
  have hparent : ∀ q, q ∉ post.map Step.id →
      lastDependency (pre ++ post) q = lastDependency pre q :=
    fun q hq => by rw [lastDependency, hstep q hq, lastDependency]
  -- no dependency leads behind the target
  have hnext : ∀ a q, a ∉ post.map Step.id → lastDependency pre a = some q →
      q ∉ post.map Step.id := by
    intro a q _ hq hback
    obtain ⟨s, hs, hsq⟩ := Option.bind_eq_some_iff.mp hq
    have hin : q ∈ (pre ++ post).map Step.id := by
      rw [List.map_append]
      exact List.mem_append_right _ hback
    exact hfront (hdeps s (lastStep_some hs).1 q hsq hin) hback
  have hleads : ∀ {A B : String → Prop}, (∀ q, q ∉ post.map Step.id → (A q ↔ B q)) → ∀ {id p},
      id ∉ post.map Step.id → (Leads (lastDependency (pre ++ post)) A id p ↔
        Leads (lastDependency pre) B id p) := by
    intro A B hAB id p hid
    constructor
    · exact Leads.congr hparent (fun a q ha hq => hnext a q ha (hparent a ha ▸ hq)) hAB hid
    · exact Leads.congr (fun q hq => (hparent q hq).symm) hnext (fun q hq => (hAB q hq).symm) hid
  refine ⟨fun r _ => ?_, fun r _ _ s hs _ p => ?_⟩
  · have htarget : target ∉ post.map Step.id := by
      intro hback
      refine hfront (hmem ?_) hback
      rw [List.map_append]
      exact List.mem_append_right _ hback
    have happlied : ∀ q, q ∉ post.map Step.id →
        (LastApplied (pre ++ post) q ↔ LastApplied pre q) := fun q hq => by
      unfold LastApplied
      rw [hstep q hq]
    rw [hpre]
    unfold ResolvesTo
    rw [hstep _ htarget, hleads happlied htarget]
  · rw [hpre] at hs ⊢
    refine hleads (fun q hq => ?_) (hfront ?_)
    · rw [appliedIds, List.filter_append, Pipeline.ids, List.map_append, List.mem_append,
        or_iff_left]
      · rfl
      · exact fun h => hq ((List.filter_sublist.map _).subset h)
    · exact List.mem_map_of_mem (List.mem_of_mem_filter (List.mem_of_mem_take hs))

end Steps

/-! ## The tab of the request -/

section Tabs

variable {P} {tabId} {target} {selectedId : String} {n i : ℕ}

theorem id_trimTab (t : Pipeline.Tab κ δ) : (trimTab selectedId n t).id = t.id := by
  unfold trimTab
  split <;> rfl

variable {t : Pipeline.Tab κ δ}

theorem holds_trimTab (h : holds target (trimTab selectedId n t) = true) :
    holds target t = true := by
  unfold trimTab at h
  split at h
  · obtain ⟨s, hs, hid⟩ := List.any_eq_true.mp h
    exact List.any_eq_true.mpr ⟨s, List.mem_of_mem_take hs, hid⟩
  · exact h

theorem stepsAt_eq (h : P.tabs[i]? = some t) : stepsAt P i = t.steps := by
  rw [stepsAt, h]
  rfl

theorem stepsAt_trimTabs (h : P.tabs[i]? = some t) :
    stepsAt (trimTabs P selectedId n) i = (trimTab selectedId n t).steps := by
  rw [stepsAt, trimTabs, List.getElem?_map, h]
  rfl

theorem findIdx?_ids_map {f : Pipeline.Tab κ δ → Pipeline.Tab κ δ} (hid : ∀ t, (f t).id = t.id)
    (id : String) :
    (P.tabs.map f).findIdx? (·.id = id) = P.tabs.findIdx? (·.id = id) := by
  rw [List.findIdx?_map]
  have hcomp : (fun t : Pipeline.Tab κ δ => decide (t.id = id)) ∘ f =
      fun t => decide (t.id = id) := by
    funext t
    rw [Function.comp_apply, hid]
  rw [hcomp]

theorem targetPlace_some (h : targetPlace P tabId target = some i) :
    ∃ t, P.tabs[i]? = some t ∧ holds target t = true := by
  have hany : ∀ j, (stepsAt P j).any (·.id = target) = true →
      ∃ t, P.tabs[j]? = some t ∧ holds target t = true := by
    intro j hj
    cases ht : P.tabs[j]? with
    | none =>
      rw [stepsAt, ht] at hj
      cases hj
    | some t =>
      rw [stepsAt_eq ht] at hj
      exact ⟨t, rfl, hj⟩
  rcases Option.or_eq_some_iff.mp h with h | ⟨-, h⟩
  · exact hany i (Option.filter_eq_some_iff.mp h).2
  · obtain ⟨hlt, hi, -⟩ := List.findIdx?_eq_some_iff_getElem.mp h
    exact ⟨_, List.getElem?_eq_getElem hlt, hi⟩

theorem targetPlace_none (h : targetPlace P tabId target = none) :
    ∀ t ∈ P.tabs, holds target t = false :=
  List.findIdx?_eq_none_iff.mp (Option.or_eq_none_iff.mp h).2

theorem selectPipelineTab_eq (ht : target ≠ "source") (h : targetPlace P tabId target = some i) :
    selectPipelineTab P tabId target = .ok i := by
  obtain ⟨t, hi, -⟩ := targetPlace_some h
  have hne : P.tabs ≠ [] := by
    rintro hnil
    rw [hnil] at hi
    cases hi
  unfold targetPlace at h
  unfold selectPipelineTab
  rw [if_neg hne]
  dsimp only
  rw [if_neg ht, h]
  rfl

theorem previewTab_eq (ht : target ≠ "source") :
    previewTab P tabId target =
      ((targetPlace P tabId target).or (P.tabs.findIdx? fun t => 0 < t.steps.length)).or
        (if P.tabs = [] then none else some 0) := by
  have hfilter : ∀ j, decide (target = "source" ∨ (stepsAt P j).any (·.id = target) = true) =
      (stepsAt P j).any (·.id = target) := by
    intro j
    rw [Bool.eq_iff_iff, decide_eq_true_iff, or_iff_right ht]
  unfold previewTab targetPlace
  simp only [hfilter, if_neg ht]

/-- The payload of a step target: the tab at the place of the target is trimmed to it. -/
theorem buildTargetPreviewPipelinePayload_eq_some_iff (ht : target ≠ "source")
    {P' : AnalysisPipeline κ δ} :
    buildTargetPreviewPipelinePayload P tabId target = some P' ↔
      ∃ i t, targetPlace P tabId target = some i ∧ P.tabs[i]? = some t ∧
        P' = trimTabs P t.id (t.steps.findIdx (·.id = target) + 1) := by
  unfold buildTargetPreviewPipelinePayload
  rw [previewTab_eq ht]
  cases hplace : targetPlace P tabId target with
  | none =>
    refine iff_of_false (fun h => ?_) (by rintro ⟨i, t, h, -⟩; cases h)
    cases hsel : ((Option.none.or (P.tabs.findIdx? fun t => 0 < t.steps.length)).or
        (if P.tabs = [] then none else some 0)).bind (P.tabs[·]?) with
    | none =>
      rw [hsel] at h
      cases h
    | some t =>
      obtain ⟨j, -, hj⟩ := Option.bind_eq_some_iff.mp hsel
      have hnone : t.steps.findIdx? (·.id = target) = none := by
        have hholds := targetPlace_none hplace t (List.mem_of_getElem? hj)
        rw [List.findIdx?_eq_none_iff]
        exact fun s hs => Bool.eq_false_iff.mpr (List.any_eq_false.mp hholds s hs)
      rw [hsel] at h
      dsimp only at h
      rw [if_neg ht, hnone] at h
      cases h
  | some i =>
    obtain ⟨t, hi, hholds⟩ := targetPlace_some hplace
    have hidx : t.steps.findIdx? (·.id = target) = some (t.steps.findIdx (·.id = target)) := by
      rw [List.findIdx?_eq_some_iff_findIdx_eq]
      obtain ⟨s, hs, hid⟩ := List.any_eq_true.mp hholds
      exact ⟨List.findIdx_lt_length_of_exists ⟨s, hs, hid⟩, rfl⟩
    rw [Option.some_or, Option.some_or, Option.bind_some, hi]
    dsimp only
    rw [if_neg ht, hidx, Option.some_inj]
    constructor
    · rintro rfl
      exact ⟨i, t, rfl, hi, rfl⟩
    · rintro ⟨j, u, hj, hu, rfl⟩
      cases hj
      obtain rfl := Option.some_inj.mp (hi.symm.trans hu)
      rfl

/-- The target keeps its place when its tab is trimmed to it. -/
theorem targetPlace_trim (hplace : targetPlace P tabId target = some i) (hi : P.tabs[i]? = some t) :
    targetPlace (trimTabs P t.id (t.steps.findIdx (·.id = target) + 1)) tabId target = some i := by
  generalize hn : t.steps.findIdx (·.id = target) + 1 = n
  obtain ⟨t', hi', hholds⟩ := targetPlace_some hplace
  obtain rfl := Option.some_inj.mp (hi.symm.trans hi')
  -- the tab still holds the target
  have hkept : holds target (trimTab t.id n t) = true := by
    obtain ⟨s, hs, hid⟩ := List.any_eq_true.mp hholds
    have hlt : t.steps.findIdx (·.id = target) < t.steps.length :=
      List.findIdx_lt_length_of_exists ⟨s, hs, hid⟩
    unfold trimTab
    rw [if_pos rfl]
    refine List.any_eq_true.mpr ⟨t.steps[t.steps.findIdx (·.id = target)], ?_, ?_⟩
    · rw [← hn]
      exact List.mem_take_iff_getElem.mpr ⟨_, by omega, rfl⟩
    · exact List.findIdx_getElem (p := fun s : Step κ => decide (s.id = target))
  have hany : ∀ j u, P.tabs[j]? = some u →
      (stepsAt (trimTabs P t.id n) j).any (·.id = target) = holds target (trimTab t.id n u) := by
    intro j u hj
    rw [stepsAt_trimTabs hj]
    rfl
  unfold targetPlace at hplace ⊢
  simp only [trimTabs, findIdx?_ids_map id_trimTab]
  rw [← trimTabs]
  rcases Option.or_eq_some_iff.mp hplace with h | ⟨hnone, h⟩
  · obtain ⟨hreq, -⟩ := Option.filter_eq_some_iff.mp h
    rw [hreq, Option.filter_some, if_pos (by rw [hany i t hi]; exact hkept), Option.some_or]
  · have hfilter : ((truthy tabId).bind fun id => P.tabs.findIdx? (·.id = id)).filter (fun j =>
        (stepsAt (trimTabs P t.id n) j).any (·.id = target)) = none := by
      rw [Option.filter_eq_none_iff] at hnone ⊢
      intro j hj hholds'
      refine hnone j hj ?_
      cases hu : P.tabs[j]? with
      | none =>
        rw [stepsAt, trimTabs, List.getElem?_map, hu] at hholds'
        cases hholds'
      | some u =>
        rw [hany j u hu] at hholds'
        rw [stepsAt_eq hu]
        exact holds_trimTab hholds'
    rw [hfilter, Option.none_or, List.findIdx?_map, List.findIdx?_eq_some_iff_getElem]
    obtain ⟨hlt, -, hbefore⟩ := List.findIdx?_eq_some_iff_getElem.mp h
    have hti : P.tabs[i] = t := Option.some_inj.mp ((List.getElem?_eq_getElem hlt).symm.trans hi)
    refine ⟨hlt, ?_, fun j hj hholds' => hbefore j hj (holds_trimTab hholds')⟩
    rw [Function.comp_apply, hti]
    exact hkept

/-! ## When trimming preserves the request -/

theorem preserves_step_iff (ht : target ≠ "source") :
    PreservesRequest P tabId target ↔
      ∀ i, targetPlace P tabId target = some i → Undisturbed (stepsAt P i) target := by
  have hsame : ∀ i t, targetPlace P tabId target = some i → P.tabs[i]? = some t →
      (SameRequest P (trimTabs P t.id (t.steps.findIdx (·.id = target) + 1)) tabId target ↔
        Undisturbed (stepsAt P i) target) := by
    intro i t hplace hi
    have hsel := selectPipelineTab_eq ht hplace
    have hsteps : stepsAt (trimTabs P t.id (t.steps.findIdx (·.id = target) + 1)) i =
        untilTarget target (stepsAt P i) := by
      rw [stepsAt_trimTabs hi, stepsAt_eq hi, trimTab, if_pos rfl, untilTarget, if_neg ht]
    rw [undisturbed_iff ht, ← hsteps]
    constructor
    · exact fun h => ⟨h.resolved i hsel, h.run i hsel⟩
    · rintro ⟨hresolved, hrun⟩
      refine ⟨?_, fun j hj => ?_, fun j hj => ?_⟩
      · rw [selectPipelineTab_eq ht (targetPlace_trim hplace hi), hsel]
      · obtain rfl := Except.ok.inj (hsel.symm.trans hj)
        exact hresolved
      · obtain rfl := Except.ok.inj (hsel.symm.trans hj)
        exact hrun
  constructor
  · intro h i hplace
    obtain ⟨t, hi, -⟩ := targetPlace_some hplace
    exact (hsame i t hplace hi).mp
      (h _ ((buildTargetPreviewPipelinePayload_eq_some_iff ht).mpr ⟨i, t, hplace, hi, rfl⟩))
  · intro h P' hP'
    obtain ⟨i, t, hplace, hi, rfl⟩ := (buildTargetPreviewPipelinePayload_eq_some_iff ht).mp hP'
    exact (hsame i t hplace hi).mpr (h i hplace)

/-- The place that a source target selects. -/
def sourcePlace (P : AnalysisPipeline κ δ) (tabId : Option String) : ℕ :=
  (((truthy tabId).bind fun id => P.tabs.findIdx? (·.id = id)).or
    (P.tabs.findIdx? fun t => !t.steps.isEmpty)).getD 0

theorem selectPipelineTab_source (hne : P.tabs ≠ []) :
    selectPipelineTab P tabId "source" = .ok (sourcePlace P tabId) := by
  rw [selectPipelineTab, if_neg hne]
  rfl

theorem previewTab_source (hne : P.tabs ≠ []) :
    previewTab P tabId "source" = some (sourcePlace P tabId) := by
  have hfilter : ∀ o : Option ℕ, (o.filter fun i =>
      decide ("source" = "source" ∨ (stepsAt P i).any (·.id = "source") = true)) = o := by
    intro o
    cases o with
    | none => rfl
    | some i => exact Option.filter_some_pos (decide_eq_true (.inl rfl))
  have hsteps : (fun t : Pipeline.Tab κ δ => decide (0 < t.steps.length)) =
      fun t => !t.steps.isEmpty := by
    funext t
    cases t.steps <;> rfl
  unfold previewTab sourcePlace
  dsimp only
  rw [hfilter, if_pos rfl, if_neg hne, Option.or_none, hsteps]
  cases ((truthy tabId).bind fun id => P.tabs.findIdx? (·.id = id)).or
    (P.tabs.findIdx? fun t => !t.steps.isEmpty) <;> rfl

theorem emptied_steps (t u : Pipeline.Tab κ δ) :
    (!(trimTab t.id 0 u).steps.isEmpty) = true ↔ u.id ≠ t.id ∧ u.steps ≠ [] := by
  unfold trimTab
  by_cases hid : u.id = t.id
  · simp [hid]
  · simp [hid]

/-- No other tab has steps, and the selected one is the first, when its place is still found. -/
theorem first_of_findIdx?_emptied {tabs : List (Pipeline.Tab κ δ)}
    (ht : tabs[(tabs.findIdx? fun t => !t.steps.isEmpty).getD 0]? = some t)
    (hsame : (tabs.findIdx? ((fun t => !t.steps.isEmpty) ∘ trimTab t.id 0)).getD 0 =
      (tabs.findIdx? fun t => !t.steps.isEmpty).getD 0) :
    ∀ u ∈ tabs, u.steps ≠ [] →
      ∃ first, tabs.head? = some first ∧ u.id = first.id ∧ first.steps ≠ [] := by
  intro u hu hne
  -- a tab found after the trimming would have another id than the one found before
  have hafter : tabs.findIdx? ((fun t => !t.steps.isEmpty) ∘ trimTab t.id 0) = none := by
    cases hj : tabs.findIdx? ((fun t => !t.steps.isEmpty) ∘ trimTab t.id 0) with
    | none => rfl
    | some j =>
      rw [hj, Option.getD_some] at hsame
      obtain ⟨hlt, hst, -⟩ := List.findIdx?_eq_some_iff_getElem.mp hj
      rw [← hsame, List.getElem?_eq_getElem hlt, Option.some_inj] at ht
      exact absurd (congrArg Pipeline.Tab.id ht) ((emptied_steps t _).mp hst).1
  rw [hafter, Option.getD_none] at hsame
  rw [← hsame] at ht
  have hid : u.id = t.id := by
    by_contra huid
    have hu' := List.findIdx?_eq_none_iff.mp hafter u hu
    rw [Function.comp_apply, Bool.eq_false_iff] at hu'
    exact hu' ((emptied_steps t u).mpr ⟨huid, hne⟩)
  refine ⟨t, by rw [List.head?_eq_getElem?, ht], hid, ?_⟩
  cases hbefore : tabs.findIdx? fun t => !t.steps.isEmpty with
  | none =>
    have hempty := List.findIdx?_eq_none_iff.mp hbefore u hu
    simp [hne] at hempty
  | some k =>
    rw [hbefore, Option.getD_some] at hsame
    obtain ⟨hlt, hst, -⟩ := List.findIdx?_eq_some_iff_getElem.mp hbefore
    subst hsame
    rw [List.getElem?_eq_getElem hlt, Option.some_inj] at ht
    rw [ht] at hst
    simpa using hst

theorem findIdx?_emptied_iff {tabs : List (Pipeline.Tab κ δ)}
    (ht : tabs[(tabs.findIdx? fun t => !t.steps.isEmpty).getD 0]? = some t) :
    (tabs.findIdx? ((fun t => !t.steps.isEmpty) ∘ trimTab t.id 0)).getD 0 =
        (tabs.findIdx? fun t => !t.steps.isEmpty).getD 0 ↔
      ∀ u ∈ tabs, u.steps ≠ [] →
        ∃ first, tabs.head? = some first ∧ u.id = first.id ∧ first.steps ≠ [] := by
  refine ⟨first_of_findIdx?_emptied ht, fun h => ?_⟩
  -- then a tab with steps has the id of the one that is found
  have hid : ∀ u ∈ tabs, u.steps ≠ [] → u.id = t.id ∧
      (tabs.findIdx? fun t => !t.steps.isEmpty) = some 0 := by
    intro u hu hne
    obtain ⟨first, hfirst, hid, hfne⟩ := h u hu hne
    rw [List.head?_eq_getElem?] at hfirst
    obtain ⟨hlt, hget⟩ := List.getElem?_eq_some_iff.mp hfirst
    have hbefore : (tabs.findIdx? fun t => !t.steps.isEmpty) = some 0 := by
      refine List.findIdx?_eq_some_iff_getElem.mpr ⟨hlt, ?_, fun j hj => by omega⟩
      rw [hget]
      simpa using hfne
    rw [hbefore, Option.getD_some, hfirst, Option.some_inj] at ht
    exact ⟨ht ▸ hid, hbefore⟩
  have hafter : tabs.findIdx? ((fun t => !t.steps.isEmpty) ∘ trimTab t.id 0) = none := by
    refine List.findIdx?_eq_none_iff.mpr fun v hv => ?_
    rw [Function.comp_apply, Bool.eq_false_iff]
    intro hst
    obtain ⟨hvid, hvne⟩ := (emptied_steps t v).mp hst
    exact hvid (hid v hv hvne).1
  rw [hafter]
  cases hbefore : tabs.findIdx? fun t => !t.steps.isEmpty with
  | none => rfl
  | some k =>
    obtain ⟨hlt, hst, -⟩ := List.findIdx?_eq_some_iff_getElem.mp hbefore
    have hzero := (hid _ (List.getElem_mem hlt) (by simpa using hst)).2
    rw [hbefore, Option.some_inj] at hzero
    rw [hzero]
    rfl

theorem preserves_source_iff : PreservesRequest P tabId "source" ↔ SourceKept P tabId := by
  by_cases hnil : P.tabs = []
  · have hnone : ∀ o : Option ℕ, o.bind (P.tabs[·]?) = none := by
      intro o
      rw [hnil]
      cases o <;> rfl
    have hbuild : buildTargetPreviewPipelinePayload P tabId "source" = none := by
      rw [buildTargetPreviewPipelinePayload, hnone]
    refine iff_of_true (fun P' h => ?_) (.inr fun t ht => ?_)
    · rw [hbuild] at h
      cases h
    · rw [hnil] at ht
      cases ht
  -- a tab is selected, and trimming it to nothing matters for the place only
  have hplace : sourcePlace P tabId < P.tabs.length := by
    unfold sourcePlace
    cases hor : ((truthy tabId).bind fun id => P.tabs.findIdx? (·.id = id)).or
        (P.tabs.findIdx? fun t => !t.steps.isEmpty) with
    | none => exact List.length_pos_iff.mpr hnil
    | some i =>
      rcases Option.or_eq_some_iff.mp hor with h | ⟨-, h⟩
      · obtain ⟨id, -, h⟩ := Option.bind_eq_some_iff.mp h
        exact (List.findIdx?_eq_some_iff_getElem.mp h).1
      · exact (List.findIdx?_eq_some_iff_getElem.mp h).1
  have ht := List.getElem?_eq_getElem hplace
  generalize P.tabs[sourcePlace P tabId] = t at ht
  have hbuild : buildTargetPreviewPipelinePayload P tabId "source" =
      some (trimTabs P t.id 0) := by
    rw [buildTargetPreviewPipelinePayload, previewTab_source hnil, Option.bind_some, ht]
    exact if_pos rfl
  have hnil' : (trimTabs P t.id 0).tabs ≠ [] := fun h => hnil (List.map_eq_nil_iff.mp h)
  have hpreserves : PreservesRequest P tabId "source" ↔
      sourcePlace (trimTabs P t.id 0) tabId = sourcePlace P tabId := by
    unfold PreservesRequest
    rw [hbuild]
    constructor
    · intro h
      have htab := (h _ rfl).tab
      rw [selectPipelineTab_source hnil', selectPipelineTab_source hnil] at htab
      exact Except.ok.inj htab
    · intro h P' hP'
      obtain rfl := Option.some_inj.mp hP'
      refine ⟨?_, fun i _ => ?_, fun i _ hydrate => ?_⟩
      · rw [selectPipelineTab_source hnil', selectPipelineTab_source hnil, h]
      · rfl
      · rfl
  rw [hpreserves]
  unfold sourcePlace SourceKept at *
  simp only [trimTabs, findIdx?_ids_map id_trimTab]
  rw [List.findIdx?_map]
  cases hreq : (truthy tabId).bind fun id => P.tabs.findIdx? (·.id = id) with
  | some r =>
    obtain ⟨id, hid, hfind⟩ := Option.bind_eq_some_iff.mp hreq
    obtain ⟨hlt, hr, -⟩ := List.findIdx?_eq_some_iff_getElem.mp hfind
    exact iff_of_true rfl (.inl ⟨id, hid, _, List.getElem_mem hlt, of_decide_eq_true hr⟩)
  | none =>
    rw [hreq] at ht
    rw [Option.none_or] at ht
    rw [Option.none_or, Option.none_or, or_iff_right]
    · exact findIdx?_emptied_iff ht
    · rintro ⟨id, hid, u, hu, rfl⟩
      rw [hid, Option.bind_some, List.findIdx?_eq_none_iff] at hreq
      exact absurd (hreq u hu) (by simp)

end Tabs

/-- Trimming preserves the request of the source exactly when the tab is still found without its
steps, and that of a step exactly when the steps behind it decide nothing. -/
theorem preservesRequest_iff :
    PreservesRequest P tabId target ↔
      if target = "source" then SourceKept P tabId
      else ∀ i, targetPlace P tabId target = some i → Undisturbed (stepsAt P i) target := by
  by_cases ht : target = "source"
  · rw [if_pos ht, ht]
    exact preserves_source_iff
  · rw [if_neg ht]
    exact preserves_step_iff ht

/-- Two tabs with a step each. -/
def twoTabs : AnalysisPipeline Unit Unit where
  analysisId := "analysis"
  tabs := [⟨"a", ⟨"first", none, ()⟩, "out-a", [⟨"s", [], none, ()⟩]⟩,
    ⟨"b", ⟨"second", none, ()⟩, "out-b", [⟨"t", [], none, ()⟩]⟩]

/-- Without a tab id the source of the first tab is previewed, but the worker loads that of the
second. -/
theorem not_preservesRequest_twoTabs : ¬ PreservesRequest twoTabs none "source" := by
  intro h
  have hsame := (h (trimTabs twoTabs "a" 0) rfl).tab
  cases hsame

end DataForge.Editor
