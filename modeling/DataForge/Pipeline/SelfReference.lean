import DataForge.Effects.Except
import DataForge.Pipeline.Circular

/-!
# Sources that lead back to themselves

Loading an analysis source terminates, no source is evaluated inside itself, and a source that
leads back to itself yields no frame: the guard raises, unless something else raises before.
-/

namespace DataForge.Pipeline

open Effects ReadCommitted Relation

variable {κ δ π F K : Type} [StepSources κ] [StepParams π] [SourceEntries δ] [DecidableEq K]

namespace AnalysisPipeline

variable {P : AnalysisPipeline κ δ} {E : Engine κ (Ref δ) π Unit F}

/-! ## What a successful evaluation has loaded -/

section Loads

variable {load : Ref δ → Loading K F F} {keys : List String} {cache : Table String F}
  {s s' : Process K F}

/-- The keys of the frames at hand. -/
def Held (cache : Table String F) (keys : List String) : Prop :=
  ∀ id, (cache.get id).isSome ↔ id ∈ keys

omit [StepSources κ] [DecidableEq K] [StepParams π] in
theorem outcome_raise_ok {α : Type} {x : Except String α} {a : α}
    (h : outcome (raise x : Loading K F α) s = (.ok a, s')) : x = .ok a ∧ s = s' := by
  cases x with
  | ok b =>
    cases h
    exact ⟨rfl, rfl⟩
  | error e => cases h

omit [StepSources κ] [DecidableEq K] [StepParams π] [SourceEntries δ] in
theorem collectSource_runs (hheld : Held cache keys) {additional additional' : Table String F}
    {id : String} (h : outcome (P.collectSource load cache additional id) s =
      (.ok additional', s')) : RunAll load (P.idRequests keys id) s s' := by
  unfold collectSource at h
  unfold idRequests
  by_cases hid : id = ""
  · rw [if_pos hid] at h
    cases h
    rw [if_pos (.inl hid)]
    exact .nil s
  rw [if_neg hid] at h
  cases hget : cache.get id with
  | some frame =>
    rw [hget] at h
    cases h
    rw [if_pos (.inr ((hheld id).mp (by rw [hget]; rfl)))]
    exact .nil s
  | none =>
    have hkeys : id ∉ keys := by
      rw [← hheld id, hget]
      exact Bool.false_ne_true
    rw [if_neg (by rintro (h | h); exacts [hid h, hkeys h])]
    rw [hget] at h
    cases href : P.sourceRef id with
    | none =>
      rw [href] at h
      cases h
    | some ref =>
      rw [href] at h
      obtain ⟨frame, t, hload, h⟩ := outcome_bind_ok.mp h
      cases h
      exact .cons hload (.nil _)

omit [DecidableEq K] [StepParams π] [SourceEntries δ] in
theorem collectAnalysisSources_runs (hheld : Held cache keys) {steps : List (Step κ)}
    {additional : Table String F}
    (h : outcome (P.collectAnalysisSources load steps cache) s = (.ok additional, s')) :
    RunAll load ((steps.flatMap Step.sourceIds).flatMap (P.idRequests keys)) s s' := by
  unfold collectAnalysisSources at h
  generalize steps.flatMap Step.sourceIds = ids at *
  generalize (Table.empty : Table String F) = start at h
  induction ids generalizing start s with
  | nil =>
    cases h
    exact .nil _
  | cons id ids ih =>
    rw [List.foldlM_cons] at h
    obtain ⟨next, t, hid, h⟩ := outcome_bind_ok.mp h
    rw [List.flatMap_cons]
    exact (collectSource_runs hheld hid).append (ih _ h)

omit [StepSources κ] [SourceEntries δ] in
theorem held_inlineSteps {additional : Table String F} {steps : List (Step κ)}
    {c c' : Table String F × F} (hheld : Held c.1 keys)
    (h : steps.foldlM (inlineStep E additional) c = .ok c') :
    Held c'.1 (keys ++ steps.map stepKeyOf) := by
  induction steps generalizing c keys with
  | nil =>
    cases h
    rwa [List.map_nil, List.append_nil]
  | cons step steps ih =>
    rw [List.foldlM_cons] at h
    obtain ⟨next, hstep, h⟩ := bind_ok.mp h
    have hnext : Held next.1 (keys ++ [stepKeyOf step]) := by
      unfold inlineStep at hstep
      split at hstep
      · cases hstep
      · split at hstep
        · cases hstep
        · cases hstep
          intro id
          rw [Table.get_put, List.mem_append, List.mem_singleton]
          split_ifs with hid
          · exact iff_of_true rfl (.inr hid)
          · rw [hheld id, or_iff_left hid]
    have hrest := ih hnext h
    rwa [List.append_assoc] at hrest

omit [DecidableEq K] [SourceEntries δ] in
theorem buildTabPipeline_runs (hheld : Held cache keys) {tab : Tab κ δ}
    {r : Table String F × F}
    (h : outcome (P.buildTabPipeline load E cache tab) s = (.ok r, s')) :
    RunAll load (P.tabRequests keys tab) s s' ∧ Held r.1 (keys ++ tabKeys tab) := by
  unfold buildTabPipeline at h
  split at h
  · cases h
  obtain ⟨base, t, hbase, h⟩ := outcome_bind_ok.mp h
  obtain ⟨additional, u, hcollect, h⟩ := outcome_bind_ok.mp h
  obtain ⟨c, v, hraise, h⟩ := outcome_bind_ok.mp h
  obtain ⟨hsteps, rfl⟩ := outcome_raise_ok hraise
  cases h
  constructor
  · unfold tabRequests
    refine RunAll.append ?_ (collectAnalysisSources_runs hheld hcollect)
    unfold baseFrame at hbase
    cases hget : cache.get tab.source.id with
    | some frame =>
      rw [hget] at hbase
      cases hbase
      rw [if_pos ((hheld _).mp (by rw [hget]; rfl))]
      exact .nil s
    | none =>
      rw [hget] at hbase
      rw [if_neg (by rw [← hheld, hget]; exact Bool.false_ne_true)]
      exact .cons hbase (.nil _)
  · have hkeys := held_inlineSteps (c := (cache, base)) hheld hsteps
    unfold tabKeys
    dsimp only
    split_ifs
    · rwa [List.append_nil]
    · intro id
      rw [Table.get_put, ← List.append_assoc, List.mem_append, List.mem_singleton]
      split_ifs with hid
      · exact iff_of_true rfl (.inr hid)
      · rw [hkeys id, or_iff_left hid]

omit [DecidableEq K] [SourceEntries δ] in
theorem buildChain_runs {chain : List (Tab κ δ)} {r : Table String F × Option F}
    (h : outcome (P.buildChain load E chain) s = (.ok r, s')) :
    RunAll load (P.chainRequests [] chain) s s' := by
  unfold buildChain at h
  have hheld : Held ((Table.empty, none) : Table String F × Option F).1 [] := by
    intro id
    simp
  generalize ((Table.empty, none) : Table String F × Option F) = start at h hheld
  generalize ([] : List String) = keys at hheld
  induction chain generalizing start s keys with
  | nil =>
    cases h
    exact .nil _
  | cons tab rest ih =>
    rw [List.foldlM_cons] at h
    obtain ⟨next, t, htab, h⟩ := outcome_bind_ok.mp h
    obtain ⟨built, u, hbuild, htab⟩ := outcome_bind_ok.mp htab
    cases htab
    obtain ⟨hruns, hheld'⟩ := buildTabPipeline_runs hheld hbuild
    exact hruns.append (ih _ h _ hheld')

omit [DecidableEq K] in
theorem buildAnalysis_runs {tabId : Option String} {f : F}
    (h : outcome (P.buildAnalysis load E tabId) s = (.ok f, s')) :
    ∃ refs s'', RunAll load refs s s'' ∧ P.requests tabId = refs.filterMap P.nested? := by
  unfold buildAnalysis at h
  unfold requests
  cases hsel : P.selectTab tabId with
  | error e =>
    rw [hsel] at h
    cases h
  | ok selected =>
    rw [hsel] at h
    obtain ⟨built, t, hchain, -⟩ := outcome_bind_ok.mp h
    exact ⟨_, t, buildChain_runs hchain, rfl⟩

end Loads

/-! ## The cache of the process -/

/-- No frame of a source that leads back to itself is cached, for any pipeline. -/
def Fresh (digest : AnalysisPipeline κ δ → Option String → K) (p : Process K F) : Prop :=
  ∀ (P : AnalysisPipeline κ δ) tabId, P.LeadsBack tabId → p.cache.lookup (digest P tabId) = none

omit [StepSources κ] [StepParams π] in
theorem lookup_storeAnalysisCache {cache : List (K × F)} {key k : K} {frame : F}
    (hk : cache.lookup k = none) (hne : k ≠ key) :
    (storeAnalysisCache cache key frame).lookup k = none := by
  have happend : (cache ++ [(key, frame)]).lookup k = none := by
    rw [List.lookup_eq_none_iff] at hk ⊢
    intro e he
    rcases List.mem_append.mp he with he | he
    · exact hk e he
    · rw [List.mem_singleton.mp he]
      exact bne_iff_ne.mpr hne
  unfold storeAnalysisCache
  split_ifs
  · exact hk
  · exact happend
  · rw [List.lookup_eq_none_iff] at happend ⊢
    exact fun e he => happend e (List.mem_of_mem_tail he)

omit [StepParams π] in
theorem LeadsBack.request {tabId : Option String} (h : P.LeadsBack tabId) :
    ∃ r ∈ P.requests tabId, P.LeadsBack r := by
  obtain ⟨x, hreach, hcycle⟩ := h
  rcases ReflTransGen.cases_head hreach with rfl | ⟨r, hr, hreach⟩
  · obtain ⟨r, hr, hback⟩ := TransGen.head'_iff.mp hcycle
    exact ⟨r, hr, tabId, hback, hcycle⟩
  · exact ⟨r, hr, x, hreach, hcycle⟩

section Process

variable {digest : AnalysisPipeline κ δ → Option String → K}
  {load : TabSource δ → Except String F}

variable {I : Process K F → Prop}

omit [StepSources κ] [StepParams π] [DecidableEq K] in
theorem keeps_raise {α : Type} (x : Except String α) :
    Keeps I (raise x : Loading K F α) := by
  cases x with
  | ok a => exact fun s hs => hs
  | error e => exact fun s hs => hs

variable {nested : Option String → Loading K F F}

omit [StepSources κ] [StepParams π] [DecidableEq K] in
theorem keeps_loadIn (hnested : ∀ r, Keeps I (nested r)) (ref : Ref δ) :
    Keeps I (P.loadIn nested load ref) := by
  unfold loadIn
  split
  · exact fun s hs => hs
  · exact hnested _
  · exact keeps_raise _

omit [StepSources κ] [StepParams π] [DecidableEq K] in
theorem loadIn_nested {ref : Ref δ} {r : Option String} (h : P.nested? ref = some r) :
    P.loadIn nested load ref = nested r := by
  unfold nested? at h
  unfold loadIn
  split at h
  · next hd =>
    cases h
    rw [hd]
  · cases h

omit [DecidableEq K] in
theorem keeps_buildAnalysis (hnested : ∀ r, Keeps I (nested r)) (tabId : Option String) :
    Keeps I (P.buildAnalysis (P.loadIn nested load) E tabId) := by
  have h : P.buildAnalysis (P.loadIn nested load) E tabId =
      P.buildAnalysis (P.loadIn nested load) E tabId ∧
        Keeps I (P.buildAnalysis (P.loadIn nested load) E tabId) :=
    related_buildAnalysis (related_keeps I) fun _ _ _ _ ref _ => ⟨rfl, keeps_loadIn hnested ref⟩
  exact h.2

/-- Loading keeps the cache free of sources that lead back to themselves, and these yield no
frame: a frame needs one of each source that is requested for it. -/
theorem loadPipeline_fresh (hdigest : ∀ P P' t t', digest P t = digest P' t' → P = P' ∧ t = t')
    (n : ℕ) (stack : List (Option String)) (tabId : Option String) :
    Keeps (Fresh digest) (P.loadPipeline E load (digest P) n stack tabId) ∧
      ∀ s f s', Fresh digest s →
        outcome (P.loadPipeline E load (digest P) n stack tabId) s = (.ok f, s') →
          ¬ P.LeadsBack tabId := by
  induction n generalizing stack tabId with
  | zero => exact ⟨fun s hs => hs, fun s f s' _ h => by cases h⟩
  | succ n ih =>
    rw [loadPipeline]
    by_cases hid : P.analysisId = ""
    · rw [if_pos hid]
      exact ⟨fun s hs => hs, fun s f s' _ h => by cases h⟩
    rw [if_neg hid]
    by_cases hstack : tabId ∈ stack
    · rw [if_pos hstack]
      exact ⟨fun s hs => hs, fun s f s' _ h => by cases h⟩
    rw [if_neg hstack]
    have hkeeps : ∀ r, Keeps (Fresh digest)
        (P.loadPipeline E load (digest P) n (tabId :: stack) r) := fun r => (ih _ r).1
    have hbuild : ∀ s f s', Fresh digest s →
        outcome (P.buildAnalysis
          (P.loadIn (P.loadPipeline E load (digest P) n (tabId :: stack)) load) E tabId) s =
          (.ok f, s') → ¬ P.LeadsBack tabId := by
      intro s f s' hs h hback
      obtain ⟨r, hr, hrback⟩ := hback.request
      obtain ⟨refs, s'', hruns, hrequests⟩ := buildAnalysis_runs h
      rw [hrequests] at hr
      obtain ⟨ref, href, htab⟩ := List.mem_filterMap.mp hr
      obtain ⟨t, a, t', ht, hload⟩ :=
        hruns.exists (fun ref _ => keeps_loadIn hkeeps ref) hs href
      rw [loadIn_nested htab] at hload
      exact (ih _ r).2 t a t' ht hload hrback
    constructor
    · refine Keeps.bind (fun s hs => hs) fun cached => ?_
      cases cached with
      | some frame => exact fun s hs => hs
      | none =>
        refine Keeps.bind (fun s hs => hs) fun _ s hs => ?_
        have hkept : Fresh digest (outcome (P.buildAnalysis (P.loadIn (P.loadPipeline E load
            (digest P) n (tabId :: stack)) load) E tabId) s).2 :=
          keeps_buildAnalysis hkeeps tabId s hs
        rw [outcome_bind]
        rcases hrun : outcome (P.buildAnalysis (P.loadIn (P.loadPipeline E load (digest P) n
          (tabId :: stack)) load) E tabId) s with ⟨r, s'⟩
        rw [hrun] at hkept
        cases r with
        | error e => exact hkept
        | ok f =>
          intro P' t' hback
          refine lookup_storeAnalysisCache (hkept P' t' hback) fun heq => ?_
          obtain ⟨rfl, rfl⟩ := hdigest _ _ _ _ heq
          exact hbuild s f s' hs hrun hback
    · intro s f s' hs h hback
      obtain ⟨cached, t, hcached, h⟩ := outcome_bind_ok.mp h
      cases hcached
      rw [hs P tabId hback] at h
      obtain ⟨_, t, henter, h⟩ := outcome_bind_ok.mp h
      cases henter
      obtain ⟨frame, t', hrun, -⟩ := outcome_bind_ok.mp h
      refine hbuild _ frame t' ?_ hrun hback
      exact hs

/-- The sources that are being loaded are all different. -/
theorem loadPipeline_evaluations {digest : Option String → K} (n : ℕ)
    {stack : List (Option String)} (hstack : stack.Nodup) (tabId : Option String) :
    Keeps (fun p => ∀ chain ∈ p.evaluations, chain.Nodup)
      (P.loadPipeline E load digest n stack tabId) := by
  induction n generalizing stack tabId with
  | zero => exact fun s hs => hs
  | succ n ih =>
    rw [loadPipeline]
    by_cases hid : P.analysisId = ""
    · rw [if_pos hid]
      exact fun s hs => hs
    rw [if_neg hid]
    by_cases hmem : tabId ∈ stack
    · rw [if_pos hmem]
      exact fun s hs => hs
    rw [if_neg hmem]
    have hnodup : (tabId :: stack).Nodup := List.nodup_cons.mpr ⟨hmem, hstack⟩
    refine Keeps.bind (fun s hs => hs) fun cached => ?_
    cases cached with
    | some frame => exact fun s hs => hs
    | none =>
      refine Keeps.bind (fun s hs chain hchain => ?_) fun _ =>
        (keeps_buildAnalysis (ih hnodup) tabId).bind fun frame => fun s hs => hs
      rcases List.mem_append.mp hchain with hchain | hchain
      · exact hs chain hchain
      · rw [List.mem_singleton.mp hchain]
        exact hnodup

end Process

/-! ## The depth of nested sources -/

omit [StepSources κ] [StepParams π] [SourceEntries δ] in
theorem chainLoop_mem {n : ℕ} {seen : List String} {current : String} :
    ∀ tab ∈ P.chainLoop n seen current, tab ∈ P.tabs := by
  induction n generalizing seen current with
  | zero => exact fun tab h => (List.not_mem_nil h).elim
  | succ n ih =>
    unfold chainLoop
    split_ifs
    · exact fun tab h => (List.not_mem_nil h).elim
    · cases hfind : P.tabs.find? fun t => t.id = current with
      | none => exact fun tab h => (List.not_mem_nil h).elim
      | some found =>
        have hfound := List.mem_of_find?_eq_some hfind
        dsimp only
        split
        · intro tab h
          rwa [List.mem_singleton.mp h]
        · intro tab h
          rcases List.mem_cons.mp h with rfl | h
          · exact hfound
          · exact ih tab h

omit [StepSources κ] [StepParams π] [SourceEntries δ] in
/-- The walk upstream ends within the number of tabs. -/
theorem chainLoop_fuel {n m : ℕ} {seen : List String} (current : String) (hnodup : seen.Nodup)
    (hsub : seen ⊆ P.tabs.map Tab.id) (hn : P.tabs.length < n + seen.length)
    (hm : P.tabs.length < m + seen.length) :
    P.chainLoop n seen current = P.chainLoop m seen current := by
  have hlength : seen.length ≤ P.tabs.length := by
    have hle := (List.subperm_of_subset hnodup hsub).length_le
    rwa [List.length_map] at hle
  induction n generalizing m seen current with
  | zero => omega
  | succ n ih =>
    cases m with
    | zero => omega
    | succ m =>
      unfold chainLoop
      by_cases hstop : current = "" ∨ current ∈ seen
      · rw [if_pos hstop, if_pos hstop]
      rw [if_neg hstop, if_neg hstop]
      cases hfind : P.tabs.find? fun t => t.id = current with
      | none => rfl
      | some found =>
        dsimp only
        cases (P.tabInput current).bind P.outputTab with
        | none => rfl
        | some upstream =>
          have hmem : current ∈ P.tabs.map Tab.id := by
            have hid := List.find?_some hfind
            rw [← of_decide_eq_true hid]
            exact List.mem_map_of_mem (List.mem_of_find?_eq_some hfind)
          have hnodup' : (current :: seen).Nodup :=
            List.nodup_cons.mpr ⟨fun h => hstop (.inr h), hnodup⟩
          have hsub' := List.cons_subset.mpr ⟨hmem, hsub⟩
          have hle := (List.subperm_of_subset hnodup' hsub').length_le
          rw [List.length_map] at hle
          refine congrArg (found :: ·) (ih upstream.id hnodup' hsub' ?_ ?_ hle)
          · rw [List.length_cons]
            omega
          · rw [List.length_cons]
            omega

omit [StepSources κ] [StepParams π] in
theorem resolvePipelineDatasource_tabId {s : TabSource δ} {merged : Merged}
    (h : P.resolvePipelineDatasource s = .ok merged) :
    merged.tabId = (SourceEntries.ownTabId s.config).getD s.tab? := by
  unfold resolvePipelineDatasource at h
  split_ifs at h
  split at h
  · next htab =>
    cases h
    rw [htab]
    rfl
  · next htab _ =>
    cases h
    rw [htab]
    rfl
  · cases h

variable {r : Option String} {ref : Ref δ}

omit [StepSources κ] [StepParams π] in
theorem nested?_source {s : TabSource δ} (href : ref = .base s ∨ ref = .payload s)
    (h : P.nested? ref = some r) :
    r = (SourceEntries.ownTabId s.config).getD s.tab? := by
  have hmerged : ∃ merged, P.resolvePipelineDatasource s = .ok merged ∧ r = merged.tabId := by
    unfold nested? dispatch at h
    rcases href with rfl | rfl
    all_goals
      dsimp only at h
      cases hs : P.resolvePipelineDatasource s with
      | error e =>
        rw [hs] at h
        cases h
      | ok merged =>
        rw [hs] at h
        dsimp only at h
        refine ⟨merged, rfl, ?_⟩
        grind
  obtain ⟨merged, hs, rfl⟩ := hmerged
  exact resolvePipelineDatasource_tabId hs

omit [StepParams π] in
theorem nested?_mem {tab : Tab κ δ} (htab : tab ∈ P.tabs) (href : ref ∈ P.tabLoads tab)
    (h : P.nested? ref = some r) : r ∈ P.requestable := by
  have hsource : ∀ t ∈ P.tabs, ref = .base t.source ∨ ref = .payload t.source →
      r ∈ P.requestable := fun t ht heq => by
    refine List.mem_flatMap.mpr ⟨t, ht, ?_⟩
    rw [nested?_source heq h]
    exact List.mem_cons_of_mem _ List.mem_cons_self
  unfold tabLoads at href
  rcases List.mem_cons.mp href with heq | href
  · exact hsource tab htab (.inl heq)
  obtain ⟨id, -, hid⟩ := List.mem_filterMap.mp href
  unfold sourceRef at hid
  split at hid
  · next u hu =>
    cases hid
    cases h
    have hm := List.mem_reverse.mp (List.mem_of_find?_eq_some hu)
    exact List.mem_flatMap.mpr ⟨u, hm, List.mem_cons_self⟩
  · unfold datasourcePayload at hid
    rw [Option.map_map, Option.map_eq_some_iff] at hid
    obtain ⟨t, ht, heq⟩ := hid
    exact hsource t (List.mem_of_find?_eq_some ht) (.inr heq.symm)

/-- There is room on the stack: it holds different ids among the requested one and those that
the tabs name. -/
structure Spare (P : AnalysisPipeline κ δ) (start : Option String) (n : ℕ)
    (stack : List (Option String)) (tabId : Option String) : Prop where
  nodup : stack.Nodup
  subset : stack ⊆ start :: P.requestable
  mem : tabId ∈ start :: P.requestable
  length : P.requestable.length + 1 < n + stack.length

omit [StepSources κ] [StepParams π] in
theorem Spare.pos {start tabId : Option String} {n : ℕ} {stack : List (Option String)}
    (h : Spare P start n stack tabId) : 0 < n := by
  have hle := (List.subperm_of_subset h.nodup h.subset).length_le
  have hlength := h.length
  rw [List.length_cons] at hle
  omega

omit [StepParams π] in
theorem Spare.nested {start tabId : Option String} {n : ℕ} {stack : List (Option String)}
    (h : Spare P start (n + 1) stack tabId) (hstack : tabId ∉ stack) {tab : Tab κ δ}
    (htab : tab ∈ P.tabs) (href : ref ∈ P.tabLoads tab) (hr : P.nested? ref = some r) :
    Spare P start n (tabId :: stack) r := by
  refine ⟨List.nodup_cons.mpr ⟨hstack, h.nodup⟩, List.cons_subset.mpr ⟨h.mem, h.subset⟩,
    List.mem_cons_of_mem _ (nested?_mem htab href hr), ?_⟩
  have hlength := h.length
  rw [List.length_cons]
  omega

omit [StepSources κ] [StepParams π] [DecidableEq K] in
theorem loadIn_congr {load : TabSource δ → Except String F}
    {nested nested' : Option String → Loading K F F}
    (h : ∀ r, P.nested? ref = some r → nested r = nested' r) :
    P.loadIn nested load ref = P.loadIn nested' load ref := by
  unfold nested? at h
  unfold loadIn
  split
  · rfl
  · next hd => exact h _ (by rw [hd])
  · rfl

omit [StepSources κ] [StepParams π] [SourceEntries δ] in
theorem mem_tabs_of_chain {target : String} {tab : Tab κ δ} (h : tab ∈ P.resolveTabChain target) :
    tab ∈ P.tabs :=
  chainLoop_mem tab (List.mem_reverse.mp h)

section Depth

variable {digest : Option String → K} {load : TabSource δ → Except String F}

/-- Loading does not depend on a bound that leaves room. -/
theorem loadPipeline_depth {start tabId : Option String} {n m : ℕ}
    {stack : List (Option String)} (hn : Spare P start n stack tabId)
    (hm : Spare P start m stack tabId) :
    P.loadPipeline E load digest n stack tabId = P.loadPipeline E load digest m stack tabId := by
  induction n generalizing m stack tabId with
  | zero => exact (Nat.lt_irrefl 0 hn.pos).elim
  | succ n ih =>
    cases m with
    | zero => exact (Nat.lt_irrefl 0 hm.pos).elim
    | succ m =>
      rw [loadPipeline, loadPipeline]
      by_cases hid : P.analysisId = ""
      · rw [if_pos hid, if_pos hid]
      rw [if_neg hid, if_neg hid]
      by_cases hstack : tabId ∈ stack
      · rw [if_pos hstack, if_pos hstack]
      rw [if_neg hstack, if_neg hstack]
      have hbuild : P.buildAnalysis
          (P.loadIn (P.loadPipeline E load digest n (tabId :: stack)) load) E tabId =
          P.buildAnalysis
            (P.loadIn (P.loadPipeline E load digest m (tabId :: stack)) load) E tabId := by
        refine related_buildAnalysis related_eq fun selected _ tab htab ref href => ?_
        have htabs := mem_tabs_of_chain htab
        exact loadIn_congr fun r hr =>
          ih (hn.nested hstack htabs href hr) (hm.nested hstack htabs href hr)
      rw [hbuild]

end Depth

/-! ## Errors -/

section Errors

variable {load : TabSource δ → Except String F} {loadRef : Ref δ → Loading K F F}
  {B : String → Prop}

omit [StepSources κ] [StepParams π] [DecidableEq K] in
theorem raises_raise {α : Type} {x : Except String α} (h : ∀ e, x = .error e → B e) :
    Raises B (raise x : Loading K F α) := by
  cases x with
  | ok a => exact raises_pure a
  | error e => exact raises_throw (h e rfl)

omit [StepSources κ] [DecidableEq K] [SourceEntries δ] in
/-- The steps of a tab raise what one of them raises. -/
theorem inlineSteps_error {additional : Table String F} {steps : List (Step κ)}
    {c : Table String F × F} {e : String}
    (h : steps.foldlM (inlineStep E additional) c = .error e) :
    ∃ step ∈ steps, E.convert step.body = .error e ∨ ∃ b frame right,
      E.convert step.body = .ok b ∧
        E.apply b (stepKeyOf step) frame additional.get right = .error e := by
  induction steps generalizing c with
  | nil => cases h
  | cons step steps ih =>
    rw [List.foldlM_cons] at h
    cases hstep : inlineStep E additional c step with
    | ok next =>
      rw [hstep] at h
      obtain ⟨s, hs, hraises⟩ := ih h
      exact ⟨s, List.mem_cons_of_mem _ hs, hraises⟩
    | error e' =>
      rw [hstep] at h
      cases h
      refine ⟨step, List.mem_cons_self, ?_⟩
      unfold inlineStep at hstep
      split at hstep
      · next hconvert =>
        cases hstep
        exact .inl hconvert
      · next b hconvert =>
        split at hstep
        · next happly =>
          cases hstep
          exact .inr ⟨b, _, _, hconvert, happly⟩
        · cases hstep

variable {start t : Option String} {tab : Tab κ δ}

omit [DecidableEq K] in
/-- Building a tab raises what its loads raise, or another error. -/
theorem raises_buildTabPipeline (ht : P.Evaluates start t) (htab : P.Builds t tab)
    (hother : ∀ e, P.OtherError E load start e → B e) {cache : Table String F}
    (hload : ∀ ref ∈ P.tabLoads tab, Raises B (loadRef ref)) :
    Raises B (P.buildTabPipeline loadRef E cache tab) := by
  have hcollect : Raises B (P.collectAnalysisSources loadRef (applySteps tab.steps) cache) := by
    refine Raises.foldlM (fun additional id hid => ?_) _
    obtain ⟨step, hstep, hnamed⟩ := List.mem_flatMap.mp hid
    unfold collectSource
    split_ifs with hne
    · exact raises_pure _
    · cases cache.get id with
      | some frame => exact raises_pure _
      | none =>
        cases href : P.sourceRef id with
        | none =>
          exact raises_throw (hother _ (.missingConfig ht htab hstep hnamed hne href))
        | some ref =>
          refine (hload ref ?_).bind fun _ => raises_pure _
          exact List.mem_cons_of_mem _ (List.mem_filterMap.mpr ⟨id, hid, href⟩)
  have hbase : Raises B (baseFrame loadRef cache tab.source) := by
    unfold baseFrame
    cases cache.get tab.source.id with
    | some frame => exact raises_pure _
    | none => exact hload _ List.mem_cons_self
  unfold buildTabPipeline
  by_cases hid : tab.source.id = ""
  · rw [if_pos hid]
    exact raises_throw (hother _ (.missingDatasource ht htab hid))
  rw [if_neg hid]
  refine hbase.bind fun base => hcollect.bind fun additional => ?_
  refine (raises_raise fun e he => ?_).bind fun _ => raises_pure _
  obtain ⟨step, hstep, hconvert | ⟨b, frame, right, hconvert, happly⟩⟩ := inlineSteps_error he
  · exact hother e (.convert ht htab hstep hconvert)
  · exact hother e (.apply ht htab hstep hconvert happly)

omit [StepSources κ] [StepParams π] [SourceEntries δ] in
theorem resolveTabChain_ne_nil {selected : Tab κ δ} (hsel : P.selectTab t = .ok selected) :
    P.resolveTabChain selected.id ≠ [] := by
  have hid : selected.id ≠ "" := by
    unfold selectTab at hsel
    split at hsel
    · cases hsel
    · split at hsel
      · cases hsel
      · split at hsel
        · cases hsel
        · next hne =>
          cases hsel
          exact hne
  have hfind : (P.tabs.find? fun t => t.id = selected.id).isSome := by
    rw [List.find?_isSome]
    exact ⟨selected, selectTab_mem hsel, decide_eq_true rfl⟩
  obtain ⟨found, hfound⟩ := Option.isSome_iff_exists.mp hfind
  unfold resolveTabChain chainLoop
  rw [if_neg (by simp [hid]), hfound]
  dsimp only
  split <;> simp

omit [DecidableEq K] [SourceEntries δ] in
theorem buildChain_isSome {chain : List (Tab κ δ)} {r : Table String F × Option F}
    {s s' : Process K F} (h : outcome (P.buildChain loadRef E chain) s = (.ok r, s'))
    (hchain : chain ≠ []) : r.2.isSome := by
  unfold buildChain at h
  have hfold : ∀ (l : List (Tab κ δ)) (c : Table String F × Option F) (s : Process K F),
      (c.2.isSome ∨ l ≠ []) →
      outcome (l.foldlM (fun c tab => do
        let r ← P.buildTabPipeline loadRef E c.1 tab
        pure (r.1, some r.2)) c : Loading K F _) s = (.ok r, s') → r.2.isSome := by
    intro l
    induction l with
    | nil =>
      intro c s hc h
      cases h
      exact hc.resolve_right fun hne => hne rfl
    | cons tab rest ih =>
      intro c s _ h
      rw [List.foldlM_cons] at h
      obtain ⟨next, t, htab, h⟩ := outcome_bind_ok.mp h
      obtain ⟨built, u, -, htab⟩ := outcome_bind_ok.mp htab
      cases htab
      exact ih _ _ (.inl rfl) h
  exact hfold chain _ s (.inr hchain) h

omit [DecidableEq K] in
theorem raises_buildAnalysis (ht : P.Evaluates start t)
    (hother : ∀ e, P.OtherError E load start e → B e)
    (hload : ∀ tab, P.Builds t tab → ∀ ref ∈ P.tabLoads tab, Raises B (loadRef ref)) :
    Raises B (P.buildAnalysis loadRef E t) := by
  unfold buildAnalysis
  cases hsel : P.selectTab t with
  | error e => exact raises_throw (hother _ (.select ht hsel))
  | ok selected =>
    refine Raises.bind_ok ?_ fun built ⟨s, s', hbuilt⟩ => raises_raise fun e he => ?_
    · refine Raises.foldlM (fun c tab htab => ?_) _
      have hbuilds : P.Builds t tab := ⟨selected, hsel, htab⟩
      exact (raises_buildTabPipeline ht hbuilds hother (hload tab hbuilds)).bind fun _ =>
        raises_pure _
    · have hsome := buildChain_isSome hbuilt (resolveTabChain_ne_nil hsel)
      unfold lastFrame at he
      split at he
      · cases he
      · next hnone =>
        rw [hnone] at hsome
        cases hsome

/-- Loading raises the error of the guard, or another error: it does not run out of depth. -/
theorem raises_loadPipeline {digest : Option String → K} {n : ℕ} {stack : List (Option String)}
    (h : Spare P start n stack t) (ht : P.Evaluates start t) :
    Raises (fun e => e = circular ∨ P.OtherError E load start e)
      (P.loadPipeline E load digest n stack t) := by
  induction n generalizing stack t with
  | zero => exact (Nat.lt_irrefl 0 h.pos).elim
  | succ n ih =>
    rw [loadPipeline]
    by_cases hid : P.analysisId = ""
    · rw [if_pos hid]
      exact raises_throw (.inr (.analysisId hid))
    rw [if_neg hid]
    by_cases hstack : t ∈ stack
    · rw [if_pos hstack]
      exact raises_throw (.inl rfl)
    rw [if_neg hstack]
    refine Raises.bind (fun s e s' he => by cases he) fun cached => ?_
    cases cached with
    | some frame => exact raises_pure _
    | none =>
      refine Raises.bind (fun s e s' he => by cases he) fun _ => Raises.bind ?_ fun frame =>
        Raises.bind (fun s e s' he => by cases he) fun _ => raises_pure _
      refine raises_buildAnalysis ht (fun e he => .inr he) fun tab htab ref href => ?_
      have htabs : tab ∈ P.tabs := by
        obtain ⟨selected, -, hchain⟩ := htab
        exact mem_tabs_of_chain hchain
      unfold loadIn
      split
      · next hd => exact raises_throw (.inr (.dispatch ht htab href hd))
      · next r hd =>
        have hr : P.nested? ref = some r := by
          unfold nested?
          rw [hd]
        exact ih (h.nested hstack htabs href hr) (ht.tail ⟨tab, htab, ref, href, hr⟩)
      · next source hd =>
        exact raises_raise fun e he => .inr (.load ht htab href hd he)

end Errors

/-! ## Any call of the process -/

/-- The states of the process: it starts with nothing cached, and loads sources of pipelines
one after the other, each with the operations and the datasources of its time. -/
inductive Reached (digest : AnalysisPipeline κ δ → Option String → K) : Process K F → Prop
  | start : Reached digest ⟨[], []⟩
  | call {p : Process K F} (h : Reached digest p) (P : AnalysisPipeline κ δ)
      (E : Engine κ (Ref δ) π Unit F) (load : TabSource δ → Except String F)
      (tabId : Option String) :
      Reached digest (outcome (P.loadDatasource E load (digest P) tabId) p).2

section Reached

variable {digest : AnalysisPipeline κ δ → Option String → K} {p : Process K F}

theorem Reached.fresh (hdigest : ∀ P P' t t', digest P t = digest P' t' → P = P' ∧ t = t')
    (h : Reached (π := π) digest p) : Fresh digest p := by
  induction h with
  | start => exact fun _ _ _ => rfl
  | call _ P E load tabId ih => exact (loadPipeline_fresh hdigest _ _ _).1 _ ih

theorem Reached.evaluations (h : Reached (π := π) digest p) :
    ∀ chain ∈ p.evaluations, chain.Nodup := by
  induction h with
  | start => exact fun chain hchain => (List.not_mem_nil hchain).elim
  | call _ P E load tabId ih => exact loadPipeline_evaluations _ List.nodup_nil tabId _ ih

omit [StepSources κ] [StepParams π] [DecidableEq K] in
theorem Spare.start (P : AnalysisPipeline κ δ) (tabId : Option String) {n : ℕ}
    (hn : P.nesting ≤ n) : Spare P tabId n [] tabId := by
  refine ⟨List.nodup_nil, List.nil_subset _, List.mem_cons_self, ?_⟩
  unfold nesting at hn
  rw [List.length_nil]
  omega

variable (digest) in
/-- Loading an analysis source ends: the bounds on the nesting and on the walk upstream do not
matter, and it yields a frame, the error of the guard, or an error that something else raises.
No source is evaluated inside itself. A source from which requests lead to one that leads back
to itself yields no frame but an error, that of the guard if nothing else that is evaluated for
it can fail. -/
theorem loadDatasource_circular
    (hdigest : ∀ P P' t t', digest P t = digest P' t' → P = P' ∧ t = t')
    (hp : Reached (π := π) digest p) (P : AnalysisPipeline κ δ) (E : Engine κ (Ref δ) π Unit F)
    (load : TabSource δ → Except String F) (tabId : Option String) :
    (∀ n ≥ P.nesting, P.loadPipeline E load (digest P) n [] tabId =
        P.loadDatasource E load (digest P) tabId) ∧
      (∀ n > P.tabs.length, ∀ target,
        (P.chainLoop n [] target).reverse = P.resolveTabChain target) ∧
      (∀ e, (outcome (P.loadDatasource E load (digest P) tabId) p).1 = .error e →
        e = circular ∨ P.OtherError E load tabId e) ∧
      (∀ chain ∈ (outcome (P.loadDatasource E load (digest P) tabId) p).2.evaluations,
        chain.Nodup) ∧
      (P.LeadsBack tabId →
        (∃ e, (outcome (P.loadDatasource E load (digest P) tabId) p).1 = .error e ∧
          (e = circular ∨ P.OtherError E load tabId e)) ∧
        ((∀ e, ¬ P.OtherError E load tabId e) →
          (outcome (P.loadDatasource E load (digest P) tabId) p).1 = .error circular)) := by
  have hraises : ∀ e, (outcome (P.loadDatasource E load (digest P) tabId) p).1 = .error e →
      e = circular ∨ P.OtherError E load tabId e :=
    fun e he => raises_loadPipeline (Spare.start P tabId le_rfl) .refl p e _ (Prod.ext he rfl)
  refine ⟨fun n hn => loadPipeline_depth (Spare.start P tabId hn) (Spare.start P tabId le_rfl),
    fun n hn target => ?_, hraises, (hp.call P E load tabId).evaluations, fun hback => ?_⟩
  · refine congrArg List.reverse (chainLoop_fuel target List.nodup_nil (List.nil_subset _) ?_ ?_)
    · rw [List.length_nil]
      omega
    · rw [List.length_nil]
      omega
  · cases hrun : (outcome (P.loadDatasource E load (digest P) tabId) p).1 with
    | ok f =>
      exact ((loadPipeline_fresh hdigest _ _ _).2 p f _ (hp.fresh hdigest) (Prod.ext hrun rfl)
        hback).elim
    | error e =>
      refine ⟨⟨e, rfl, hraises e hrun⟩, fun hother => ?_⟩
      rw [(hraises e hrun).resolve_right (hother e)]

end Reached

/-! ## Two pipelines -/

/-- The sources that a step names. -/
structure Reading where
  sources : List String
deriving DecidableEq

instance : StepSources Reading := ⟨fun _ => none, Reading.sources⟩

instance : StepParams Reading :=
  ⟨fun _ => none, fun c => some c.sources, fun _ => true, fun _ => true⟩

deriving instance DecidableEq for Step, Tab, AnalysisPipeline

/-- Files, with no entries of their own. -/
instance : SourceEntries Unit where
  isDict _ := true
  hasBranch _ := true
  sourceType _ := some .file
  ownType _ := none
  ownAnalysisId _ := none
  ownTabId _ := none
  ownPipeline _ := false
  invalid _ := none

/-- Operations that count the steps applied. -/
def counting : Engine Reading (Ref Unit) Reading Unit ℕ where
  convert c := .ok ⟨"", c⟩
  apply _ _ frame _ _ := .ok (frame + 1)
  collects _ := true
  localPath _ := none
  hash _ := none

/-- A tab whose source is the tab itself. -/
def itself : AnalysisPipeline Reading Unit where
  analysisId := "analysis"
  tabs := [⟨"a", ⟨"out-a", some "a", ()⟩, "out-a", []⟩]

theorem loadDatasource_circular_itself :
    (outcome (itself.loadDatasource counting (fun _ => .ok 0) (Prod.mk itself) (some "a"))
      (⟨[], []⟩ : Process _ ℕ)).1 = .error circular := by
  have hself : some "a" ∈ itself.requests (some "a") := by decide
  have hselect : ∀ t, itself.Evaluates (some "a") t → t = some "a" := by
    intro t ht
    induction ht with
    | refl => rfl
    | tail _ h ih =>
      obtain ⟨tab, ⟨selected, hsel, htab⟩, ref, href, hr⟩ := h
      rw [ih] at hsel
      cases hsel
      rw [List.mem_singleton.mp htab] at href
      rw [List.mem_singleton.mp href] at hr
      cases hr
      rfl
  have hbuilds : ∀ t tab, itself.Evaluates (some "a") t → itself.Builds t tab →
      tab = ⟨"a", ⟨"out-a", some "a", ()⟩, "out-a", []⟩ := by
    rintro t tab ht ⟨selected, hsel, htab⟩
    rw [hselect t ht] at hsel
    cases hsel
    exact List.mem_singleton.mp htab
  refine ((loadDatasource_circular Prod.mk (fun _ _ _ _ h => Prod.mk.inj h) .start itself counting
    (fun _ => .ok 0) (some "a")).2.2.2.2 ⟨some "a", .refl, .single hself⟩).2 fun e he => ?_
  cases he with
  | analysisId h => exact absurd h (by decide)
  | select ht h =>
    rw [hselect _ ht] at h
    cases h
  | missingDatasource ht htab h =>
    rw [hbuilds _ _ ht htab] at h
    exact absurd h (by decide)
  | missingConfig ht htab hstep hid hne h =>
    rw [hbuilds _ _ ht htab] at hstep
    cases hstep
  | dispatch ht htab href h =>
    rw [hbuilds _ _ ht htab] at href
    rw [List.mem_singleton.mp href] at h
    cases h
  | load ht htab href hsource h => cases h
  | convert ht htab hstep h => cases h
  | apply ht htab hstep hconvert h => cases h

/-- Two tabs, each reading the output of the other as a datasource. -/
def eachOther : AnalysisPipeline Reading Unit where
  analysisId := "analysis"
  tabs := [⟨"a", ⟨"out-b", none, ()⟩, "out-a", []⟩, ⟨"b", ⟨"out-a", none, ()⟩, "out-b", []⟩]

/-- A tab whose source is a tab that the pipeline lacks. -/
def dangling : AnalysisPipeline Reading Unit where
  analysisId := "analysis"
  tabs := [⟨"a", ⟨"source", some "missing", ()⟩, "out-a", [⟨"step", [], none, ⟨[]⟩⟩]⟩]

/-- A tab that reads itself through outputs yields a frame; and an unknown tab id stands for the
first tab with steps, which is evaluated while it is being evaluated. -/
theorem loadDatasource_eachOther_dangling :
    (TransGen (fun r t => r ∈ eachOther.refs t) "a" "a" ∧
      (outcome (eachOther.loadDatasource counting (fun _ => .ok 0) (Prod.mk eachOther) (some "a"))
        (⟨[], []⟩ : Process _ ℕ)).1 = .ok 0) ∧
      [some "missing", some "a"] ∈ (outcome (dangling.loadDatasource counting (fun _ => .ok 0)
        (Prod.mk dangling) (some "a")) (⟨[], []⟩ : Process _ ℕ)).2.evaluations ∧
      dangling.selectTab (some "missing") = dangling.selectTab (some "a") := by
  have hb : "b" ∈ eachOther.refs "a" := by decide
  have ha : "a" ∈ eachOther.refs "b" := by decide
  refine ⟨⟨.tail (.single ha) hb, by rfl⟩, by decide, by rfl⟩

end AnalysisPipeline

end DataForge.Pipeline
