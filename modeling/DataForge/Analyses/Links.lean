import DataForge.Analyses.System

/-!
# Datasource links

The link rows of an analysis against the external datasources of its pipeline. Operations that
store a whole pipeline rewrite the rows. The others leave them, so they stay exact as long as no
step edit changes which datasources the pipeline refers to.
-/

namespace DataForge.Analyses

variable {κ δ : Type} {R : Rules κ δ}

section External

theorem mem_external {tabs : List (PipelineTab κ δ)} {d : String} :
    d ∈ external tabs ↔ d ∈ inputs tabs ∨ d ∈ references tabs ∧ d ∉ tabIds tabs := by
  simp [external, foreign]

/-- The sources that the steps of a tab refer to. -/
def stepReferences (steps : List (PipelineStep κ)) : List String :=
  steps.flatMap (·.config.references)

theorem mem_references_split {l1 l2 : List (PipelineTab κ δ)} {tab : PipelineTab κ δ}
    {d : String} : d ∈ references (l1 ++ tab :: l2) ↔
      d ∈ references (l1 ++ l2) ∨ d ∈ stepReferences tab.steps := by
  simp only [references, stepReferences, List.flatMap_append, List.flatMap_cons, List.mem_append]
  constructor
  · rintro (h | h | h)
    exacts [.inl (.inl h), .inr h, .inl (.inr h)]
  · rintro ((h | h) | h)
    exacts [.inl h, .inr (.inr h), .inr (.inl h)]

variable {l1 l2 : List (PipelineTab κ δ)} {tab : PipelineTab κ δ}

theorem tabIds_steps (steps : List (PipelineStep κ)) :
    tabIds (l1 ++ { tab with steps } :: l2) = tabIds (l1 ++ tab :: l2) := by
  simp [tabIds]

theorem inputs_steps (steps : List (PipelineStep κ)) :
    inputs (l1 ++ { tab with steps } :: l2) = inputs (l1 ++ tab :: l2) := by
  simp only [inputs, List.filterMap_append, List.filterMap_cons]
  rfl

theorem mem_external_steps {steps : List (PipelineStep κ)} {d : String} :
    d ∈ external (l1 ++ { tab with steps } :: l2) ↔ d ∈ inputs (l1 ++ tab :: l2) ∨
      (d ∈ references (l1 ++ l2) ∨ d ∈ stepReferences steps) ∧ d ∉ tabIds (l1 ++ tab :: l2) := by
  rw [mem_external, inputs_steps, tabIds_steps, mem_references_split]

/-- The pipeline without a step. -/
def without (tabs : List (PipelineTab κ δ)) (tabId stepId : String) : List (PipelineTab κ δ) :=
  editSteps tabs tabId fun steps => steps.eraseIdx (steps.findIdx (·.id = stepId))

private theorem eraseIdx_findIdx {steps s1 s2 : List (PipelineStep κ)} {step : PipelineStep κ}
    {stepId : String} (hs : steps = s1 ++ step :: s2) (hid : step.id = stepId)
    (hfirst : ∀ s ∈ s1, s.id ≠ stepId) :
    steps.eraseIdx (steps.findIdx (·.id = stepId)) = s1 ++ s2 := by
  rw [hs, findIdx_append_cons (by simpa using hid) (by simpa using hfirst), eraseIdx_append_cons]

variable {tabs tabs' : List (PipelineTab κ δ)}

theorem mem_external_addStep {check : String → Except Failure Unit} {tabId stepType : String}
    {config : StepConfig κ} {position : Option ℤ} {dependsOn : List String} {newId d : String}
    (h : addStep R check tabs tabId stepType config position dependsOn newId = .ok tabs') :
    d ∈ external tabs' ↔ d ∈ external tabs ∨ d ∈ config.references ∧ d ∉ tabIds tabs := by
  obtain ⟨l1, tab, l2, config', hat, href, -, -, rfl⟩ := addStep_ok h
  have hstep : d ∈ stepReferences (insertAt tab.steps (clampPosition position tab.steps.length)
      { id := newId, type := stepType, config := config', dependsOn }) ↔
        d ∈ stepReferences tab.steps ∨ d ∈ config.references := by
    simp only [stepReferences, insertAt, List.flatMap_append, List.flatMap_cons, List.mem_append,
      href]
    rw [← or_assoc, or_right_comm, ← List.mem_append, ← List.flatMap_append, List.take_append_drop]
  rw [mem_external_steps, hstep, mem_external, hat.eq, mem_references_split]
  simp only [or_and_right, or_assoc]

variable {tabId stepId d : String} {stepType : Option String}

theorem mem_external_updateStep {config : StepConfig κ}
    (h : updateStep R tabs tabId stepId (some config) stepType = .ok tabs') :
    (d ∈ external tabs' ↔ d ∈ external (without tabs tabId stepId) ∨
      d ∈ config.references ∧ d ∉ tabIds tabs) ∧
    (d ∈ external (without tabs tabId stepId) → d ∈ external tabs) := by
  obtain ⟨l1, tab, l2, s1, step, s2, type, config', hat, hs, hid, hfirst, href, rfl⟩ :=
    updateStep_ok h
  have hwithout : without tabs tabId stepId = l1 ++ { tab with steps := s1 ++ s2 } :: l2 := by
    rw [without, hat.edit, eraseIdx_findIdx hs hid hfirst]
  have hstep : ∀ x : PipelineStep κ, d ∈ stepReferences (s1 ++ x :: s2) ↔
      d ∈ stepReferences (s1 ++ s2) ∨ d ∈ x.config.references := fun x => by
    simp only [stepReferences, List.flatMap_append, List.flatMap_cons, List.mem_append]
    rw [or_right_comm, or_assoc]
  rw [hwithout, mem_external_steps, mem_external_steps, hstep, href, mem_external, hat.eq,
    mem_references_split, hs, hstep]
  constructor
  · simp only [Option.getD_some, or_and_right, or_assoc]
  · exact Or.imp_right (And.imp_left (Or.imp_right Or.inl))

theorem mem_external_without_of_input {config : Option (StepConfig κ)}
    (h : updateStep R tabs tabId stepId config stepType = .ok tabs') (hd : d ∈ inputs tabs) :
    d ∈ external (without tabs tabId stepId) := by
  obtain ⟨l1, tab, l2, s1, step, s2, type, config', hat, -⟩ := updateStep_ok h
  rw [without, hat.edit, mem_external_steps, ← hat.eq]
  exact .inl hd

theorem mem_external_retyped (h : updateStep R tabs tabId stepId none stepType = .ok tabs') :
    d ∈ external tabs' ↔ d ∈ external tabs := by
  obtain ⟨l1, tab, l2, s1, step, s2, type, config', hat, hs, -, -, href, rfl⟩ := updateStep_ok h
  rw [mem_external_steps, mem_external, hat.eq, mem_references_split, hs]
  simp only [stepReferences, List.flatMap_append, List.flatMap_cons, href, Option.getD_none]

theorem mem_external_removeStep (h : removeStep tabs tabId stepId = .ok tabs') :
    (d ∈ external tabs' ↔ d ∈ external (without tabs tabId stepId)) ∧
    (d ∈ external (without tabs tabId stepId) → d ∈ external tabs) := by
  obtain ⟨l1, tab, l2, s1, step, s2, hat, hs, hid, hfirst, rfl⟩ := removeStep_ok h
  have hwithout : without tabs tabId stepId = l1 ++ { tab with steps := s1 ++ s2 } :: l2 := by
    rw [without, hat.edit, eraseIdx_findIdx hs hid hfirst]
  have herase : stepReferences ((s1 ++ s2).map fun s =>
      { s with dependsOn := s.dependsOn.erase stepId }) = stepReferences (s1 ++ s2) := by
    rw [stepReferences, List.flatMap_map, stepReferences]
  rw [hwithout, mem_external_steps, mem_external_steps, herase, mem_external, hat.eq,
    mem_references_split, hs]
  refine ⟨Iff.rfl, ?_⟩
  simp only [stepReferences, List.flatMap_append, List.flatMap_cons, List.mem_append]
  exact Or.imp_right (And.imp_left (Or.imp_right (Or.imp_right Or.inr)))

private theorem mem_external_insert {newTab : PipelineTab κ δ} {d : String}
    (hfresh : newTab.id ∉ references (l1 ++ l2))
    (hsteps : newTab.id ∉ stepReferences newTab.steps) :
    d ∈ external (l1 ++ newTab :: l2) ↔ (newTab.input = some d ∨ d ∈ inputs (l1 ++ l2)) ∨
      (d ∈ references (l1 ++ l2) ∨ d ∈ stepReferences newTab.steps) ∧ d ∉ tabIds (l1 ++ l2) := by
  have htabs : d ≠ newTab.id → (d ∈ tabIds (l1 ++ newTab :: l2) ↔ d ∈ tabIds (l1 ++ l2)) := by
    intro hd
    simp only [tabIds, List.map_append, List.map_cons, List.filter_append, List.filter_cons,
      List.mem_append]
    split
    · simp [hd]
    · rfl
  have hin : d ∈ inputs (l1 ++ newTab :: l2) ↔ newTab.input = some d ∨ d ∈ inputs (l1 ++ l2) := by
    simp only [inputs, List.filterMap_append, List.filterMap_cons, List.mem_append]
    cases hi : newTab.input with
    | none => simp
    | some d' =>
      simp only [List.mem_cons, Option.some.injEq, eq_comm (a := d')]
      tauto
  rw [mem_external, hin, mem_references_split]
  refine or_congr Iff.rfl (and_congr_right fun hd => not_congr (htabs ?_))
  rintro rfl
  exact hd.elim hfresh hsteps

theorem mem_external_deriveTab {tabId name newTabId newStepId newResultId d : String}
    (hfresh : newTabId ∉ references tabs)
    (h : deriveTab R tabs tabId name newTabId newStepId newResultId = .ok tabs') :
    d ∈ external tabs' ↔ d ∈ external tabs := by
  obtain ⟨source, -, -, rfl⟩ := deriveTab_ok h
  have hview : stepReferences [PipelineStep.mk newStepId "view" { rest := R.viewConfig } []
      (some true)] = [] := rfl
  rw [mem_external_insert (by simpa using hfresh) (by simp [hview]), mem_external, List.append_nil,
    hview]
  simp [PipelineTab.input]

theorem stepReferences_copied {f : String → Option String}
    {steps steps' : List (PipelineStep κ)} (h : List.Forall₂ (Copied f) steps steps') :
    stepReferences steps' = stepReferences steps := by
  induction h with
  | nil => rfl
  | cons hs _ ih =>
    simp only [stepReferences, List.flatMap_cons] at ih ⊢
    rw [hs.config, ih]

theorem mem_external_duplicateTab {tabId name newTabId newResultId d : String}
    {newIds : List String} (hfresh : newTabId ∉ references tabs)
    (hlen : ∀ tab ∈ tabs, tab.id = tabId → newIds.length = tab.steps.length)
    (h : duplicateTab R tabs tabId name newTabId newResultId newIds = .ok tabs') :
    d ∈ external tabs' ↔ d ∈ external tabs := by
  obtain ⟨l1, source, l2, steps, rfl, -, -, hcopied, rfl⟩ := duplicateTab_ok hlen h
  have hrefs := stepReferences_copied hcopied
  have hsource : ∀ src, src ∈ stepReferences source.steps → src ∈ references (l1 ++ source :: l2) :=
    fun src h => mem_references_split.mpr (.inr h)
  have hin : source.input = some d → d ∈ inputs (l1 ++ source :: l2) := fun h =>
    List.mem_filterMap.mpr ⟨source, by simp, h⟩
  have hsplit : l1 ++ source :: l2 = (l1 ++ [source]) ++ l2 := by simp
  have happ : ∀ x, l1 ++ source :: x :: l2 = (l1 ++ [source]) ++ x :: l2 := fun x => by simp
  rw [happ, mem_external_insert (by rwa [← hsplit])
    (by dsimp only; rw [hrefs]; exact fun h => hfresh (hsource _ h)), ← hsplit, mem_external]
  have hinput : ({ source with
      id := newTabId, name, resultId := newResultId, steps
      rest := R.duplicatedRest name source.rest } : PipelineTab κ δ).input = source.input := rfl
  rw [hinput, hrefs, or_iff_right_of_imp hin, or_iff_left_of_imp (hsource d)]

end External

/-- The link rows of every analysis are the external datasources of its pipeline. -/
def Exact (db : Db κ δ) : Prop :=
  ∀ id tabs, db.tabsOf id = some tabs → ∀ d, d ∈ linked db.links id ↔ d ∈ external tabs

/-- A step edit that keeps the datasources that the pipeline refers to: those that a new
configuration names are there already, and those of the old one are still named. -/
def Op.KeepsExternal (db : Db κ δ) : Op κ δ → Prop
  | .addStep id _ _ config _ _ _ => ∀ tabs, db.tabsOf id = some tabs →
      ∀ d ∈ config.references, d ∈ tabIds tabs ∨ d ∈ external tabs
  | .updateStep id tabId stepId (some config) _ => ∀ tabs, db.tabsOf id = some tabs →
      (∀ d ∈ config.references, d ∈ tabIds tabs ∨ d ∈ external tabs) ∧
      ∀ d ∈ external tabs, d ∈ config.references ∨ d ∈ external (without tabs tabId stepId)
  | .removeStep id tabId stepId => ∀ tabs, db.tabsOf id = some tabs →
      ∀ d ∈ external tabs, d ∈ external (without tabs tabId stepId)
  | _ => True

/-- The step edits among the events keep the external datasources. -/
def LinksSafe (db : Db κ δ) : Event κ δ → Prop
  | .commit op _ => op.KeepsExternal db
  | _ => True

private theorem external_gain {tabs : List (PipelineTab κ δ)} {refs : List String} :
    (∀ d, (d ∈ external tabs ∨ d ∈ refs ∧ d ∉ tabIds tabs) ↔ d ∈ external tabs) ↔
      ∀ d ∈ refs, d ∈ tabIds tabs ∨ d ∈ external tabs := by
  constructor
  · intro h d hd
    by_cases ht : d ∈ tabIds tabs
    · exact .inl ht
    · exact .inr ((h d).mp (.inr ⟨hd, ht⟩))
  · exact fun h d => ⟨fun hd => hd.elim id fun hd => (h d hd.1).resolve_left hd.2, .inl⟩

private theorem Change.exact_iff {v : View} {db : Db κ δ} {op : Op κ δ}
    {tabs' : List (PipelineTab κ δ)} {links : Option (List String)} (hdb : Exact db)
    (hf : op.Fresh db) (h : Change R v db op tabs' links) :
    (∀ d, d ∈ (links.map List.dedup).getD (linked db.links op.analysisId) ↔ d ∈ external tabs') ↔
      op.KeepsExternal db := by
  have hkept : ∀ {tabs}, db.tabsOf op.analysisId = some tabs →
      ((∀ d, d ∈ linked db.links op.analysisId ↔ d ∈ external tabs') ↔
        ∀ d, d ∈ external tabs' ↔ d ∈ external tabs) := fun ht =>
    forall_congr' fun d => by rw [hdb _ _ ht d]; exact iff_comm
  have hone : ∀ {P : List (PipelineTab κ δ) → Prop} {tabs},
      db.tabsOf op.analysisId = some tabs →
      (P tabs ↔ ∀ tabs, db.tabsOf op.analysisId = some tabs → P tabs) := fun ht =>
    ⟨fun h tabs ht' => by rw [ht] at ht'; cases ht'; exact h, fun h => h _ ht⟩
  cases h with
  | create hacc =>
    exact iff_of_true (fun d => by simp [external_same hacc.same]) trivial
  | update _ hacc =>
    exact iff_of_true (fun d => by simp [external_same hacc.same]) trivial
  | restore _ _ hacc =>
    exact iff_of_true (fun d => by simp [external_same hacc.same]) trivial
  | rename ht => exact iff_of_true (fun d => hdb _ _ ht d) trivial
  | deriveTab ht h =>
    refine iff_of_true ((hkept ht).mpr fun d => ?_) trivial
    exact mem_external_deriveTab (hf.2 _ ht).2 h
  | duplicateTab ht h =>
    obtain ⟨-, hrefs, hlen⟩ := hf.2.2 _ ht
    refine iff_of_true ((hkept ht).mpr fun d => ?_) trivial
    exact mem_external_duplicateTab hrefs hlen h
  | addStep ht h =>
    refine (hkept ht).trans (Iff.trans ?_ (hone ht))
    exact (forall_congr' fun d => iff_congr (mem_external_addStep h) Iff.rfl).trans external_gain
  | @updateStep id tabId stepId config stepType tabs _ ht h =>
    refine (hkept ht).trans ?_
    cases config with
    | none => exact iff_of_true (fun d => mem_external_retyped h) trivial
    | some config =>
      refine Iff.trans ?_ (hone ht)
      constructor
      · refine fun hsame => ⟨fun d hd => ?_, fun d hd => ?_⟩
        · by_cases htab : d ∈ tabIds tabs
          · exact .inl htab
          · exact .inr ((hsame d).mp ((mem_external_updateStep h).1.mpr (.inr ⟨hd, htab⟩)))
        · rcases (mem_external_updateStep h).1.mp ((hsame d).mpr hd) with hd | hd
          · exact .inr hd
          · exact .inl hd.1
      · rintro ⟨hgain, hlose⟩ d
        rw [(mem_external_updateStep h).1]
        constructor
        · rintro (hd | ⟨hd, htab⟩)
          · exact (mem_external_updateStep h).2 hd
          · exact (hgain d hd).resolve_left htab
        · intro hd
          by_cases hw : d ∈ external (without tabs tabId stepId)
          · exact .inl hw
          · -- What only the old configuration named is named by the new one, and is no tab.
            have hnew := (hlose d hd).resolve_right hw
            refine .inr ⟨hnew, fun htab => ?_⟩
            rcases mem_external.mp hd with hin | hin
            · exact hw (mem_external_without_of_input h hin)
            · exact hin.2 htab
  | removeStep ht h =>
    refine (hkept ht).trans (Iff.trans ?_ (hone ht))
    refine forall_congr' fun d => ?_
    rw [(mem_external_removeStep h).1]
    exact ⟨fun h => h.mpr, fun h' => ⟨(mem_external_removeStep h).2, h'⟩⟩

/-- An event keeps the links exact exactly when it is safe. -/
theorem Step.exact_iff {s s' : Sys κ δ} {event : Event κ δ} (hdb : Exact s.db)
    (hs : Step R s event s') : LinksSafe s.db event ↔ Exact s'.db := by
  cases hs with
  | start op _ => exact iff_of_true trivial hdb
  | fail i => exact iff_of_true trivial hdb
  | register hr =>
    obtain ⟨row, rfl, -⟩ := register_ok hr
    exact iff_of_true trivial hdb
  | catalog _ => exact iff_of_true trivial hdb
  | @commit _ r v db _ _ hf happly =>
    obtain ⟨tabs', links, hchange, hst⟩ := apply_ok happly
    refine (hchange.exact_iff hdb hf).symm.trans ⟨fun h id tabs ht d => ?_, fun h d => ?_⟩
    · have ht := (hst.tabsOf id).symm.trans ht
      rw [show linked (Sys.commit _ db).db.links id = linked db.links id from rfl, hst.links id]
      split at ht
      · next heq =>
        cases ht
        rw [if_pos heq]
        exact h d
      · next hne =>
        rw [if_neg hne]
        exact hdb id tabs ht d
    · have hid : db.tabsOf r.op.analysisId = some tabs' := by rw [hst.tabsOf, if_pos rfl]
      have hlinks := hst.links r.op.analysisId
      rw [if_pos rfl] at hlinks
      rw [← hlinks]
      exact h _ _ hid d

/-- In every run whose step edits keep the external datasources, the link rows are exact, and an
event keeps them so exactly when it is such an edit or none. -/
theorem datasource_links_exact {s : Sys κ δ} (h : Reached R LinksSafe s) :
    Exact s.db ∧ ∀ event s', Step R s event s' → (LinksSafe s.db event ↔ Exact s'.db) := by
  have hexact : Exact s.db := by
    induction h with
    | init hempty =>
      intro id tabs ht
      rw [hempty.tabsOf] at ht
      cases ht
    | step _ hs hsafe ih => exact (hs.exact_iff ih).mp hsafe
  exact ⟨hexact, fun event s' hs => hs.exact_iff hexact⟩

/-- Two datasources that anybody may read. -/
def openCatalog : Db Unit Unit where
  datasources d := if d = "sales" ∨ d = "rates" then some { isHidden := false } else none
  analyses _ := none
  links := []
  versions _ := []

/-- A tab on a datasource. -/
def sampleTab (id datasource : String) (steps : List (PipelineStep Unit)) :
    PipelineTab Unit Unit :=
  ⟨id, id, ⟨datasource, none⟩, "out-" ++ id, steps, none, ()⟩

/-- A join with a source. -/
def joinWith (source : String) : StepConfig Unit :=
  { rightSource := some (.str source), rest := () }

/-- An analysis of one datasource. -/
def createSales : Op Unit Unit := .create "a" "A" none [sampleTab "tab" "sales" []]

/-- The tables after it. -/
def salesDb : Db Unit Unit :=
  ((createSales.apply plainRules openCatalog.view openCatalog).toOption).getD openCatalog

theorem openCatalog_empty : openCatalog.Empty where
  tabsOf _ := rfl
  versions _ := rfl
  links := rfl
  source d row h := by
    unfold openCatalog at h
    simp only at h
    split at h
    · cases h; rfl
    · cases h

theorem openCatalog_fresh (id name : String) (tabs : List (PipelineTab Unit Unit)) :
    (Op.create id name none tabs).Fresh openCatalog :=
  ⟨rfl, rfl, fun d row h heq => by
    have := openCatalog_empty.source d row h
    rw [heq] at this
    cases this⟩

theorem salesDb_reached {Safe : Db Unit Unit → Event Unit Unit → Prop}
    (hstart : Safe openCatalog (.start createSales))
    (hcommit : Safe openCatalog (.commit createSales openCatalog.view)) :
    Reached plainRules Safe { db := salesDb } :=
  (Reached.init openCatalog_empty).alone hstart (openCatalog_fresh _ _ _) rfl hcommit

theorem datasource_links_exact_create : Exact salesDb ∧
    (LinksSafe salesDb (.start createSales) ↔ Exact salesDb) :=
  let h := datasource_links_exact (salesDb_reached trivial trivial)
  ⟨h.1, h.2 _ _ (.start createSales fun _ hr => nomatch hr)⟩

/-- A join step that names another datasource. -/
def joinRates : Op Unit Unit :=
  .addStep "a" "tab" "join" (joinWith "rates") none [] "step"

/-- The tables after it. -/
def ratesDb : Db Unit Unit :=
  ((joinRates.apply plainRules salesDb.view salesDb).toOption).getD salesDb

/-- Adding a join leaves its datasource without a link. -/
theorem join_without_link : Reached plainRules (fun _ _ => True) { db := ratesDb } ∧
    ¬ Exact ratesDb := by
  have hfresh : joinRates.Fresh salesDb := by
    intro tabs ht
    cases ht
    decide
  refine ⟨(salesDb_reached trivial trivial).alone trivial hfresh rfl trivial, fun h => ?_⟩
  have hmem : "rates" ∈ linked ratesDb.links "a" :=
    (h "a" _ rfl "rates").mpr (by decide)
  revert hmem
  decide

end DataForge.Analyses
