import DataForge.Editor.Store

/-!
# Answers that arrive late

What the editor needs of an answer, whenever it comes: one for an analysis that is no longer
viewed changes nothing, and edits that a save in flight has not seen survive its answer. The token
of `loadAnalysis` gives the first for loads. Saves have no token, so their answers meet it exactly
when they come in time.
-/

namespace DataForge.Editor

variable {κ δ : Type} (R : TabRules κ δ)

namespace AnalysisStore

variable (s : AnalysisStore κ δ)

@[simp] theorem applyTabs_loadId (tabs : List (Tab κ δ)) :
    (s.applyTabs R tabs).loadId = s.loadId := by
  unfold applyTabs
  split <;> rfl

@[simp] theorem applyTabs_current (tabs : List (Tab κ δ)) :
    (s.applyTabs R tabs).current = s.current := by
  unfold applyTabs
  split <;> rfl

@[simp] theorem receive_loadId (request : Request κ δ) (response : Response κ δ) :
    (s.receive R request response).loadId = s.loadId := by
  cases request <;> cases response <;> simp only [receive, applyDetail]
  case load.detail => split <;> simp
  case load.error => split <;> rfl
  case save.detail => simp

theorem receive_current {request : Request κ δ} {response : Response κ δ}
    {analysis : Analysis κ δ} (h : (s.receive R request response).current = some analysis) :
    s.current = some analysis ∨
      (∃ revision, response = .detail analysis revision) ∧
        ∀ token id, request = .load token id → token = s.loadId := by
  cases request <;> cases response <;> simp only [receive, applyDetail] at h
  case load.detail token id a revision =>
    split at h
    case isTrue => exact .inl h
    case isFalse ht =>
      simp only [applyTabs_current, Option.some.injEq] at h
      subst h
      refine .inr ⟨⟨revision, rfl⟩, fun token' id' heq => ?_⟩
      cases heq
      simpa using Eq.symm (by simpa using ht)
  case load.error => split at h <;> exact .inl h
  case save.detail a revision =>
    simp only [applyTabs_current, Option.some.injEq] at h
    subst h
    exact .inr ⟨⟨revision, rfl⟩, fun _ _ heq => by cases heq⟩
  all_goals exact .inl h

@[simp] theorem updateTabSteps_current (tabId : String) (steps : List (PipelineStep κ)) :
    (s.updateTabSteps tabId steps).current = s.current := rfl

@[simp] theorem updateTabSteps_loadId (tabId : String) (steps : List (PipelineStep κ)) :
    (s.updateTabSteps tabId steps).loadId = s.loadId := rfl

@[simp] theorem edit_loadId (e : Edit κ) : (s.edit e).loadId = s.loadId := by
  cases e <;> simp only [edit]
  case steps => split <;> [rfl; (split <;> rfl)]
  case updateStep => split <;> rfl

theorem edit_current (e : Edit κ) :
    (s.edit e).current.map Analysis.id = s.current.map Analysis.id := by
  cases e <;> simp only [edit]
  case steps => split <;> [rfl; (split <;> rfl)]
  case updateStep => split <;> rfl
  case update =>
    rw [Option.map_map]
    rfl

theorem isDirty_applyDetail [DecidableEq κ] [DecidableEq δ] {analysis : Analysis κ δ}
    {revision : String} (h : (R.sanitize (analysis.tabs.getD [])).isSome) :
    (s.applyDetail R analysis revision).isDirty = false := by
  obtain ⟨tabs, ht⟩ := Option.isSome_iff_exists.mp h
  simp [applyDetail, applyTabs, ht, isDirty, setTabs]

end AnalysisStore

variable [DecidableEq κ] [DecidableEq δ]

/-- A save that is answered by the stored analysis. -/
def Request.saves : Request κ δ → Response κ δ → Bool
  | .save _ _ _, .detail _ _ => true
  | _, _ => false

namespace System

/-- There are edits that the answer to the request must not undo: those made since the save was
sent, and for a load those made since some save in flight was sent. -/
def Edited (s : System κ δ) : Request κ δ → Prop
  | .save id draft edited => s.viewed = some id ∧ edited = true ∧ s.store.draft ≠ draft
  | .load _ _ => ∃ id draft, Request.save id draft true ∈ s.pending ∧ s.viewed = some id ∧
      s.store.draft ≠ draft

/-- The answer comes in time: a save is answered while its analysis is viewed, and no analysis
arrives over unsaved edits. -/
def Timely (s : System κ δ) : Request κ δ → Response κ δ → Prop
  | .save id draft edited, response =>
    s.viewed = some id ∧
      ((Request.save id draft edited).saves response → ¬ s.Edited (.save id draft edited))
  | .load token id, .detail _ _ => token = s.store.loadId → ¬ s.Edited (.load token id)
  | .load _ _, _ => True

/-- What an answer may do to the store. -/
structure Meets (s : System κ δ) (request : Request κ δ) (response : Response κ δ)
    (store : AnalysisStore κ δ) : Prop where
  stale : s.viewed ≠ some request.id → store = s.store
  kept : s.Edited request → store.draft = s.store.draft
  reported : s.Edited request →
    store.isDirty = (request.saves response || s.store.isDirty)

/-- What holds between two events: the loads in flight have older tokens, except for the last one,
and the current analysis is the one that was asked for last. -/
structure Inv (s : System κ δ) : Prop where
  tokens : ∀ token id, Request.load token id ∈ s.pending →
    token ≤ s.store.loadId ∧ (token = s.store.loadId → s.viewed = some id)
  current : ∀ analysis, s.store.current = some analysis → s.viewed = some analysis.id

/-- The states of the runs in which every answer comes in time. -/
inductive Reached : System κ δ → Prop
  | start : Reached {}
  | step {s s' : System κ δ} {event : Event κ δ} : Reached s → Step R s event s' →
    (∀ i request response, event = .respond i response → s.pending[i]? = some request →
      s.Timely request response) → Reached s'

end System

namespace System

variable {R} {s s' : System κ δ}

omit [DecidableEq κ] [DecidableEq δ] in
private theorem Inv.loadAnalysis (h : s.Inv) (id : String) : (s.loadAnalysis id).Inv where
  tokens token id' hmem := by
    simp only [System.loadAnalysis, List.mem_append, List.mem_map, List.mem_singleton] at hmem
    show token ≤ s.store.loadId + 1 ∧ (token = s.store.loadId + 1 → some id = some id')
    rcases hmem with ⟨r, hr, heq⟩ | heq
    · cases r <;> simp only [Request.mark, reduceCtorEq] at heq
      cases heq
      have ht := (h.tokens token id' hr).1
      omega
    · cases heq
      exact ⟨Nat.le_refl _, fun _ => rfl⟩
  current _ hc := by simp [System.loadAnalysis, AnalysisStore.reset] at hc

omit [DecidableEq κ] [DecidableEq δ] in
private theorem Inv.save (h : s.Inv) : (s.save R).Inv := by
  unfold System.save
  split
  · exact ⟨h.tokens, h.current⟩
  · dsimp only
    split
    · exact ⟨h.tokens, h.current⟩
    · split
      · exact ⟨h.tokens, h.current⟩
      · refine ⟨fun token id hmem => h.tokens token id ?_, h.current⟩
        simpa using hmem

private theorem Inv.edit (h : s.Inv) (e : Edit κ) : (s.edit e).Inv where
  tokens token id hmem := by
    have hp : Request.load token id ∈ s.pending := by
      simp only [System.edit] at hmem
      split at hmem
      · exact hmem
      · obtain ⟨r, hr, heq⟩ := List.mem_map.mp hmem
        cases r <;> simp only [Request.mark, reduceCtorEq] at heq
        rwa [← heq]
    simpa only [System.edit, AnalysisStore.edit_loadId] using h.tokens token id hp
  current a ha := by
    have hid := s.store.edit_current e
    rw [show (s.store.edit e).current = some a from ha] at hid
    obtain ⟨c, hc, hca⟩ := Option.map_eq_some_iff.mp hid.symm
    rw [show (s.edit e).viewed = s.viewed from rfl, h.current c hc, hca]

omit [DecidableEq κ] [DecidableEq δ] in
private theorem Inv.respond (h : s.Inv) {i : ℕ} {request : Request κ δ} {response : Response κ δ}
    (hi : s.pending[i]? = some request) (hfits : response.Fits request)
    (ht : s.Timely request response) : (s.respond R i request response).Inv where
  tokens token id hmem := by
    simpa only [System.respond, AnalysisStore.receive_loadId] using
      h.tokens token id (List.mem_of_mem_eraseIdx hmem)
  current a ha := by
    rcases s.store.receive_current R ha with hc | ⟨⟨revision, rfl⟩, htoken⟩
    · exact h.current a hc
    · have hid : a.id = request.id := hfits
      show s.viewed = some a.id
      rw [hid]
      cases request with
      | load token id =>
        exact (h.tokens token id (List.mem_of_getElem? hi)).2 (htoken token id rfl)
      | save id draft edited => exact ht.1

theorem Reached.inv (h : Reached R s) : s.Inv := by
  induction h with
  | start => exact ⟨(fun _ _ hmem => nomatch hmem), (fun _ hc => nomatch hc)⟩
  | step _ hs ht ih =>
    cases hs with
    | loadAnalysis id => exact ih.loadAnalysis id
    | save => exact ih.save
    | edit e => exact ih.edit e
    | respond hi hfits => exact ih.respond hi hfits (ht _ _ _ rfl hi)

private theorem Inv.meets_of_timely (h : s.Inv) {request : Request κ δ}
    {response : Response κ δ} (hr : request ∈ s.pending) (ht : s.Timely request response) :
    s.Meets request response (s.store.receive R request response) := by
  cases request with
  | load token id =>
    have htoken := (h.tokens token id hr).2
    cases response with
    | detail a revision =>
      by_cases heq : token = s.store.loadId
      · exact ⟨fun hv => absurd (htoken heq) hv, fun he => absurd he (ht heq),
          fun he => absurd he (ht heq)⟩
      · have hst : s.store.receive R (.load token id) (.detail a revision) = s.store :=
          if_pos fun hl => heq hl.symm
        rw [hst]
        exact ⟨fun _ => rfl, fun _ => rfl, fun _ => rfl⟩
    | notModified => exact ⟨fun _ => rfl, fun _ => rfl, fun _ => rfl⟩
    | error message =>
      by_cases heq : token = s.store.loadId
      · have hst : s.store.receive R (.load token id) (.error message) =
            { s.store with error := some message, loading := false } :=
          if_neg fun hl => hl heq.symm
        rw [hst]
        exact ⟨fun hv => absurd (htoken heq) hv, fun _ => rfl, fun _ => rfl⟩
      · have hst : s.store.receive R (.load token id) (.error message) = s.store :=
          if_pos fun hl => heq hl.symm
        rw [hst]
        exact ⟨fun _ => rfl, fun _ => rfl, fun _ => rfl⟩
  | save id draft edited =>
    obtain ⟨hv, hnot⟩ := ht
    cases response with
    | detail a revision =>
      exact ⟨fun hne => absurd hv hne, fun he => absurd he (hnot rfl),
        fun he => absurd he (hnot rfl)⟩
    | notModified => exact ⟨fun _ => rfl, fun _ => rfl, fun _ => rfl⟩
    | error message => exact ⟨fun hne => absurd hv hne, fun _ => rfl, fun _ => rfl⟩

private theorem Inv.timely_of_meets (h : s.Inv) {id : String}
    {draft : List (Tab κ δ) × Option (String × Option String)} {edited : Bool}
    {analysis : Analysis κ δ} {revision : String} (hid : analysis.id = id)
    (hs : (R.sanitize (analysis.tabs.getD [])).isSome)
    (hm : s.Meets (.save id draft edited) (.detail analysis revision)
      (s.store.applyDetail R analysis revision)) :
    s.Timely (.save id draft edited) (.detail analysis revision) := by
  refine ⟨?_, fun _ he => ?_⟩
  · by_contra hv
    have hc : (s.store.applyDetail R analysis revision).current = some analysis :=
      AnalysisStore.applyTabs_current R _ _
    rw [hm.stale hv] at hc
    exact hv (by rw [h.current analysis hc, hid])
  · have hd := hm.reported he
    rw [AnalysisStore.isDirty_applyDetail R _ hs] at hd
    simp [Request.saves] at hd

end System

/-- In every run whose answers come in time, the current analysis is the one viewed and every
answer that comes in time does only what it may. The answer of a save that brings well-formed tabs
does so exactly when it comes in time. -/
theorem answers_meet {R : TabRules κ δ} {s : System κ δ} (h : s.Reached R) :
    (∀ analysis, s.store.current = some analysis → s.viewed = some analysis.id) ∧
    ∀ i request response, s.pending[i]? = some request → response.Fits request →
      (s.Timely request response →
        s.Meets request response (s.respond R i request response).store) ∧
      (∀ analysis revision, response = .detail analysis revision →
        request.saves response → (R.sanitize (analysis.tabs.getD [])).isSome →
        s.Meets request response (s.respond R i request response).store →
        s.Timely request response) := by
  have hinv := h.inv
  refine ⟨hinv.current, fun i request response hi hfits =>
    ⟨hinv.meets_of_timely (List.mem_of_getElem? hi), ?_⟩⟩
  rintro analysis revision rfl hsaves hs hm
  cases request with
  | load token id => cases hsaves
  | save id draft edited => exact hinv.timely_of_meets hfits hs hm

/-- Tabs are kept as they are. -/
def plainRules : TabRules Unit Unit := ⟨some, fun _ => []⟩

/-- An analysis with one empty tab. -/
def sampleAnalysis (id : String) : Analysis Unit Unit := ⟨id, id, none, some [⟨"tab", [], ()⟩]⟩

/-- An analysis is loaded and answered. -/
def loadedOnce : System Unit Unit :=
  (({} : System Unit Unit).loadAnalysis "A").respond plainRules 0 (.load 1 "A")
    (.detail (sampleAnalysis "A") "1")

private theorem load_step : ({} : System Unit Unit).Step plainRules (.loadAnalysis "A")
    (({} : System Unit Unit).loadAnalysis "A") := .loadAnalysis "A"

private theorem answer_step : (({} : System Unit Unit).loadAnalysis "A").Step plainRules
    (.respond 0 (.detail (sampleAnalysis "A") "1")) loadedOnce :=
  .respond rfl (show "A" = "A" from rfl)

private theorem saved_reached : (loadedOnce.save plainRules).Reached plainRules := by
  refine .step (.step (.step .start load_step nofun) answer_step ?_) .save nofun
  intro i request response heq hi
  cases heq
  have hr : Request.load 1 "A" = request := Option.some.inj hi
  subst hr
  rintro - ⟨id, draft, hmem, -⟩
  simp [System.loadAnalysis] at hmem

theorem answers_meet_save :
    (loadedOnce.save plainRules).Meets (.save "A" loadedOnce.store.draft false)
      (.detail (sampleAnalysis "A") "2")
      ((loadedOnce.save plainRules).respond plainRules 0 (.save "A" loadedOnce.store.draft false)
        (.detail (sampleAnalysis "A") "2")).store :=
  ((answers_meet saved_reached).2 0 (.save "A" loadedOnce.store.draft false)
    (.detail (sampleAnalysis "A") "2") rfl (show "A" = "A" from rfl)).1
    ⟨rfl, fun _ he => Bool.noConfusion he.2.1⟩

/-- The answer to a save of the analysis that was left brings it back, and the answer to a save
that was sent before an edit undoes the edit. -/
theorem save_answer_clobbers :
    let saved := loadedOnce.save plainRules
    let request : Request Unit Unit := .save "A" loadedOnce.store.draft false
    let left := saved.loadAnalysis "B"
    let renamed := saved.edit (.update (some "new") none)
    let response : Response Unit Unit := .detail (sampleAnalysis "A") "2"
    saved.Reached plainRules ∧
    (left.Step plainRules (.respond 0 response) (left.respond plainRules 0 request response) ∧
      left.viewed = some "B" ∧
      (left.respond plainRules 0 request response).store.current.map Analysis.id = some "A") ∧
    renamed.Step plainRules (.respond 0 response)
        (renamed.respond plainRules 0 (request.mark true) response) ∧
      renamed.store.draft ≠ loadedOnce.store.draft ∧
      (renamed.respond plainRules 0 (request.mark true) response).store.draft =
        loadedOnce.store.draft ∧
      (renamed.respond plainRules 0 (request.mark true) response).store.isDirty = false := by
  refine ⟨saved_reached, ⟨.respond rfl (show "A" = "A" from rfl), rfl, rfl⟩,
    .respond ?_ (show "A" = "A" from rfl), ?_, ?_, ?_⟩
  · decide
  · decide
  · decide
  · decide

end DataForge.Editor

