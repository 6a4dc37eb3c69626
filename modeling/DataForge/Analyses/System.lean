import DataForge.Analyses.Edits

/-!
# Runs of the analysis service

Requests run at the same time: one reads what others have committed since it began, and changes the
tables when it commits. Before that, what a request that succeeds has done.
-/

namespace DataForge.Analyses

open Effects

variable {κ δ : Type} {R : Rules κ δ}

/-- The pipeline of an analysis. -/
def Db.tabsOf (db : Db κ δ) (analysisId : String) : Option (List (PipelineTab κ δ)) :=
  (db.analyses analysisId).map Analysis.tabs

/-- The new pipeline of a request, and the datasources that it links if it rewrites the links. -/
inductive Change (R : Rules κ δ) (v : View) (db : Db κ δ) :
    Op κ δ → List (PipelineTab κ δ) → Option (List String) → Prop
  | create {id name : String} {description : Option String} {tabs tabs' : List (PipelineTab κ δ)} :
    Accepted v (some id) tabs tabs' →
    Change R v db (.create id name description tabs) tabs' (some (external tabs))
  | rename {id : String} {name description : Option String} {tabs : List (PipelineTab κ δ)} :
    db.tabsOf id = some tabs → Change R v db (.update id name description none) tabs none
  | update {id : String} {name description : Option String}
    {old tabs tabs' : List (PipelineTab κ δ)} :
    db.tabsOf id = some old → Accepted v (some id) tabs tabs' →
    Change R v db (.update id name description (some tabs)) tabs' (some (external tabs))
  | addStep {id tabId stepType : String} {config : StepConfig κ} {position : Option ℤ}
    {dependsOn : List String} {newId : String} {tabs tabs' : List (PipelineTab κ δ)} :
    db.tabsOf id = some tabs →
    Analyses.addStep R (fun source => do let _ ← v.requireVisible source) tabs tabId stepType config
      position dependsOn newId = .ok tabs' →
    Change R v db (.addStep id tabId stepType config position dependsOn newId) tabs' none
  | updateStep {id tabId stepId : String} {config : Option (StepConfig κ)}
    {stepType : Option String} {tabs tabs' : List (PipelineTab κ δ)} :
    db.tabsOf id = some tabs →
    Analyses.updateStep R tabs tabId stepId config stepType = .ok tabs' →
    Change R v db (.updateStep id tabId stepId config stepType) tabs' none
  | removeStep {id tabId stepId : String} {tabs tabs' : List (PipelineTab κ δ)} :
    db.tabsOf id = some tabs → Analyses.removeStep tabs tabId stepId = .ok tabs' →
    Change R v db (.removeStep id tabId stepId) tabs' none
  | deriveTab {id tabId name newTabId newStepId newResultId : String}
    {tabs tabs' : List (PipelineTab κ δ)} :
    db.tabsOf id = some tabs →
    Analyses.deriveTab R tabs tabId name newTabId newStepId newResultId = .ok tabs' →
    Change R v db (.deriveTab id tabId name newTabId newStepId newResultId) tabs' none
  | duplicateTab {id tabId name newTabId newResultId : String} {newIds : List String}
    {tabs tabs' : List (PipelineTab κ δ)} :
    db.tabsOf id = some tabs →
    Analyses.duplicateTab R tabs tabId name newTabId newResultId newIds = .ok tabs' →
    Change R v db (.duplicateTab id tabId name newTabId newResultId newIds) tabs' none
  | restore {id : String} {version : ℕ} {old tabs' : List (PipelineTab κ δ)}
    {target : Version κ δ} :
    db.tabsOf id = some old → (db.versions id).find? (·.version = version) = some target →
    Accepted v (some id) target.tabs tabs' →
    Change R v db (.restore id version) tabs' (some (external target.tabs))

/-- What a request leaves in the tables. -/
structure Stored (db : Db κ δ) (id : String) (tabs : List (PipelineTab κ δ))
    (links : Option (List String)) (db' : Db κ δ) : Prop where
  tabsOf : ∀ id', db'.tabsOf id' = if id' = id then some tabs else db.tabsOf id'
  datasources : db'.datasources = db.datasources
  links : ∀ id', linked db'.links id' =
    if id' = id then (links.map List.dedup).getD (linked db.links id) else linked db.links id'
  versions : ∀ id' w, w ∈ db'.versions id' →
    w ∈ db.versions id' ∨ id' = id ∧ (db.tabsOf id = some w.tabs ∨ tabs = w.tabs)

theorem linked_replace (rows : List (String × String)) (id id' : String) (ids : List String) :
    linked (rows.filter (·.1 ≠ id) ++ ids.dedup.map fun d => (id, d)) id' =
      if id' = id then ids.dedup else linked rows id' := by
  unfold linked
  rw [List.filter_append, List.map_append, List.filter_filter]
  split
  · next h =>
    subst h
    have hnone : (rows.filter fun row => decide (row.1 = id') && decide (row.1 ≠ id')) = [] :=
      List.filter_eq_nil_iff.mpr fun row _ => by simp
    rw [hnone, List.filter_eq_self.mpr (by simp)]
    simp [Function.comp_def]
  · next h =>
    have hsame : (rows.filter fun row => decide (row.1 = id') && decide (row.1 ≠ id)) =
        rows.filter (·.1 = id') :=
      List.filter_congr fun row _ => by
        by_cases hr : row.1 = id'
        · simp [hr, h]
        · simp [hr]
    have hnone : ((ids.dedup.map fun d => (id, d)).filter fun row => decide (row.1 = id')) = [] :=
      List.filter_eq_nil_iff.mpr fun row hrow => by
        obtain ⟨d, -, rfl⟩ := List.mem_map.mp hrow
        simpa using Ne.symm h
    rw [hsame, hnone]
    simp

variable {id : String} {db : Db κ δ}

private theorem requireAnalysis_ok {analysis : Analysis κ δ}
    (h : db.requireAnalysis id = .ok analysis) : db.analyses id = some analysis := by
  unfold Db.requireAnalysis at h
  split at h
  · next h' => rw [h', Except.ok.inj h]
  · cases h

variable {tabs : List (PipelineTab κ δ)}

private theorem stored_save {analysis edited : Analysis κ δ} (h : db.analyses id = some analysis)
    (ht : edited.tabs = tabs) :
    Stored db id tabs none ((db.createVersion id analysis).store id edited) where
  tabsOf id' := by
    simp only [Db.tabsOf, Db.store, Db.createVersion, Function.update_apply, ← ht]
    split <;> rfl
  datasources := rfl
  links id' := by
    simp only [Db.store, Db.createVersion, Option.map_none, Option.getD_none]
    split
    · next heq => rw [heq]
    · rfl
  versions id' w hw := by
    simp only [Db.store, Db.createVersion, Function.update_apply] at hw
    split at hw
    · next heq =>
      subst heq
      rcases List.mem_append.mp hw with hw | hw
      · exact .inl hw
      · rw [List.mem_singleton.mp hw, Db.tabsOf, h]
        exact .inr ⟨rfl, .inl rfl⟩
    · exact .inl hw

private theorem stored_replace {analysis edited : Analysis κ δ} {ids : List String}
    (h : db.analyses id = some analysis) (ht : edited.tabs = tabs) :
    Stored db id tabs (some ids)
      (((db.createVersion id analysis).store id edited).replaceDatasourceLinks id ids) where
  tabsOf := (stored_save h ht).tabsOf
  datasources := rfl
  links id' := linked_replace db.links id id' ids
  versions := (stored_save h ht).versions

private theorem stored_create {analysis : Analysis κ δ} {ids : List String}
    (ht : analysis.tabs = tabs) :
    Stored db id tabs (some ids)
      (((db.store id analysis).replaceDatasourceLinks id ids).createVersion id analysis) where
  tabsOf id' := by
    simp only [Db.tabsOf, Db.createVersion, Db.replaceDatasourceLinks, Db.store,
      Function.update_apply, ← ht]
    split <;> rfl
  datasources := rfl
  links id' := linked_replace db.links id id' ids
  versions id' w hw := by
    simp only [Db.createVersion, Db.replaceDatasourceLinks, Db.store, Function.update_apply] at hw
    split at hw
    · next heq =>
      subst heq
      rcases List.mem_append.mp hw with hw | hw
      · exact .inl hw
      · rw [List.mem_singleton.mp hw]
        exact .inr ⟨rfl, .inr ht.symm⟩
    · exact .inl hw

/-- What a request does that succeeds. -/
theorem apply_ok {v : View} {db db' : Db κ δ} {op : Op κ δ} (h : op.apply R v db = .ok db') :
    ∃ tabs links, Change R v db op tabs links ∧ Stored db op.analysisId tabs links db' := by
  cases op with
  | create id name description tabs =>
    obtain ⟨⟨tabs', ids⟩, hv, h⟩ := bind_ok.mp h
    obtain ⟨hacc, rfl⟩ := validate_ok hv
    cases h
    exact ⟨tabs', _, .create hacc, stored_create rfl⟩
  | update id name description tabs =>
    obtain ⟨analysis, ha, h⟩ := bind_ok.mp h
    have ha := requireAnalysis_ok ha
    have hold : db.tabsOf id = some analysis.tabs := by rw [Db.tabsOf, ha]; rfl
    cases tabs with
    | none =>
      cases h
      exact ⟨analysis.tabs, none, .rename hold, stored_save ha rfl⟩
    | some tabs =>
      obtain ⟨⟨tabs', ids⟩, hv, h⟩ := bind_ok.mp h
      obtain ⟨hacc, rfl⟩ := validate_ok hv
      cases h
      exact ⟨tabs', _, .update hold hacc, stored_replace ha rfl⟩
  | addStep id tabId stepType config position dependsOn newId =>
    obtain ⟨analysis, ha, h⟩ := bind_ok.mp h
    obtain ⟨tabs', ht, h⟩ := bind_ok.mp h
    have ha := requireAnalysis_ok ha
    cases h
    exact ⟨tabs', none, .addStep (by rw [Db.tabsOf, ha]; rfl) ht, stored_save ha rfl⟩
  | updateStep id tabId stepId config stepType =>
    obtain ⟨analysis, ha, h⟩ := bind_ok.mp h
    obtain ⟨tabs', ht, h⟩ := bind_ok.mp h
    have ha := requireAnalysis_ok ha
    cases h
    exact ⟨tabs', none, .updateStep (by rw [Db.tabsOf, ha]; rfl) ht, stored_save ha rfl⟩
  | removeStep id tabId stepId =>
    obtain ⟨analysis, ha, h⟩ := bind_ok.mp h
    obtain ⟨tabs', ht, h⟩ := bind_ok.mp h
    have ha := requireAnalysis_ok ha
    cases h
    exact ⟨tabs', none, .removeStep (by rw [Db.tabsOf, ha]; rfl) ht, stored_save ha rfl⟩
  | deriveTab id tabId name newTabId newStepId newResultId =>
    obtain ⟨analysis, ha, h⟩ := bind_ok.mp h
    obtain ⟨tabs', ht, h⟩ := bind_ok.mp h
    have ha := requireAnalysis_ok ha
    cases h
    exact ⟨tabs', none, .deriveTab (by rw [Db.tabsOf, ha]; rfl) ht, stored_save ha rfl⟩
  | duplicateTab id tabId name newTabId newResultId newIds =>
    obtain ⟨analysis, ha, h⟩ := bind_ok.mp h
    obtain ⟨tabs', ht, h⟩ := bind_ok.mp h
    have ha := requireAnalysis_ok ha
    cases h
    exact ⟨tabs', none, .duplicateTab (by rw [Db.tabsOf, ha]; rfl) ht, stored_save ha rfl⟩
  | restore id version =>
    obtain ⟨analysis, ha, h⟩ := bind_ok.mp h
    have ha := requireAnalysis_ok ha
    simp only at h
    split at h
    · cases h
    · next target hfind =>
      obtain ⟨⟨tabs', ids⟩, hv, h⟩ := bind_ok.mp h
      obtain ⟨hacc, rfl⟩ := validate_ok hv
      cases h
      exact ⟨tabs', _, .restore (by rw [Db.tabsOf, ha]; rfl) hfind hacc, stored_replace ha rfl⟩

/-- The generated ids are new where they are used. -/
def Op.Fresh (db : Db κ δ) : Op κ δ → Prop
  | .create id .. => db.tabsOf id = none ∧ db.versions id = [] ∧
      ∀ d row, db.datasources d = some row → row.source ≠ some id
  | .addStep id _ _ _ _ _ newId => ∀ tabs, db.tabsOf id = some tabs →
      ∀ tab ∈ tabs, newId ∉ stepIds tab.steps
  | .deriveTab id _ _ newTabId _ _ => newTabId ≠ "" ∧ ∀ tabs, db.tabsOf id = some tabs →
      newTabId ∉ tabs.map PipelineTab.id ∧ newTabId ∉ references tabs
  | .duplicateTab id tabId _ newTabId _ newIds => newTabId ≠ "" ∧ newIds.Nodup ∧
      ∀ tabs, db.tabsOf id = some tabs →
        newTabId ∉ tabs.map PipelineTab.id ∧ newTabId ∉ references tabs ∧
        ∀ tab ∈ tabs, tab.id = tabId → newIds.length = tab.steps.length
  | _ => True

/-- A request that runs, with the tables as they were committed since it began. -/
structure Running (κ δ : Type) where
  op : Op κ δ
  snapshots : List (Db κ δ)

/-- A request reads what has been committed at some time since it began. -/
def Running.Sees (r : Running κ δ) (v : View) : Prop :=
  (∀ d, ∃ db ∈ r.snapshots, v.datasource d = db.datasources d) ∧
  ∀ walk id, ∃ db ∈ r.snapshots, linked (v.rows walk) id = linked db.links id

/-- The tables and the requests that run. -/
structure Sys (κ δ : Type) where
  db : Db κ δ
  running : List (Running κ δ) := []

/-- The tables after a commit. -/
def Sys.commit (s : Sys κ δ) (db : Db κ δ) : Sys κ δ where
  db
  running := s.running.map fun r => { r with snapshots := r.snapshots ++ [db] }

/-- Datasources of other kinds are added or shown. -/
def Grows (rows rows' : String → Option DataSource) : Prop :=
  (∀ d row, rows d = some row → ∃ row', rows' d = some row' ∧ row'.source = row.source ∧
    (row.isHidden = false → row'.isHidden = false)) ∧
  ∀ d row', rows d = none → rows' d = some row' → row'.source = none

/-- What happens to the service. -/
inductive Event (κ δ : Type) where
  | start (op : Op κ δ)
  | commit (op : Op κ δ) (v : View)
  | fail
  | register (resultId analysisId : String) (isAnalysisSource : Bool)
  | catalog (datasources : String → Option DataSource)

/-- One event. -/
inductive Step (R : Rules κ δ) : Sys κ δ → Event κ δ → Sys κ δ → Prop
  | start {s} (op : Op κ δ) : (∀ r ∈ s.running, r.op.analysisId ≠ op.analysisId) →
    Step R s (.start op) { s with running := s.running ++ [⟨op, [s.db]⟩] }
  | commit {s} {i : ℕ} {r : Running κ δ} {v : View} {db : Db κ δ} :
    s.running[i]? = some r → r.Sees v → r.op.Fresh s.db → r.op.apply R v s.db = .ok db →
    Step R s (.commit r.op v) ({ s with running := s.running.eraseIdx i }.commit db)
  | fail {s} (i : ℕ) : Step R s .fail { s with running := s.running.eraseIdx i }
  | register {s} {resultId analysisId : String} {isAnalysisSource : Bool} {db : Db κ δ} :
    s.db.register R resultId analysisId isAnalysisSource = .ok db →
    Step R s (.register resultId analysisId isAnalysisSource) (s.commit db)
  | catalog {s} {datasources : String → Option DataSource} : Grows s.db.datasources datasources →
    Step R s (.catalog datasources) (s.commit { s.db with datasources })

/-- The tables before the first analysis. -/
structure Db.Empty (db : Db κ δ) : Prop where
  tabsOf : ∀ id, db.tabsOf id = none
  versions : ∀ id, db.versions id = []
  links : db.links = []
  source : ∀ d row, db.datasources d = some row → row.source = none

/-- The states of the runs whose events all meet a condition on the tables before them. -/
inductive Reached (R : Rules κ δ) (Safe : Db κ δ → Event κ δ → Prop) : Sys κ δ → Prop
  | init {db : Db κ δ} : db.Empty → Reached R Safe { db }
  | step {s s' : Sys κ δ} {event : Event κ δ} : Reached R Safe s → Step R s event s' →
    Safe s.db event → Reached R Safe s'

/-- What a registration writes. -/
theorem register_ok {db db' : Db κ δ} {resultId analysisId : String} {isAnalysisSource : Bool}
    (h : db.register R resultId analysisId isAnalysisSource = .ok db') :
    ∃ row, db' = { db with datasources := Function.update db.datasources resultId (some row) } ∧
      row.source = (if isAnalysisSource then some analysisId else none) ∧
      ∀ old, db.datasources resultId = some old →
        row.isHidden = old.isHidden ∧ ∀ owner, old.source = some owner → owner = analysisId := by
  have hsource : ∀ row : DataSource, row.isAnalysisSource = isAnalysisSource →
      row.createdByAnalysisId = some analysisId →
      row.source = if isAnalysisSource then some analysisId else none := fun row h1 h2 => by
    rw [DataSource.source, h1, h2]
  have howner : ∀ old : DataSource, ∀ owner, old.source = some owner →
      old.createdByAnalysisId = some owner := fun old owner h => by
    unfold DataSource.source at h
    split at h
    · exact h
    · cases h
  unfold Db.register at h
  split at h
  · cases h
  · split at h
    · next hnone =>
      cases h
      exact ⟨_, rfl, hsource _ rfl rfl, fun old ho => by rw [hnone] at ho; cases ho⟩
    · next existing hexisting =>
      dsimp only at h
      split at h
      · next owner howned =>
        split at h
        · cases h
        · next heq =>
          cases h
          refine ⟨_, rfl, hsource _ rfl rfl, fun old ho => ?_⟩
          rw [hexisting] at ho
          cases ho
          refine ⟨rfl, fun owner' ho' => ?_⟩
          have := howner _ _ ho'
          rw [howned] at this
          cases this
          exact not_not.mp heq
      · next hfree =>
        split at h
        · cases h
        · cases h
          refine ⟨_, rfl, hsource _ rfl rfl, fun old ho => ?_⟩
          rw [hexisting] at ho
          cases ho
          refine ⟨rfl, fun owner' ho' => ?_⟩
          have := howner _ _ ho'
          rw [hfree] at this
          cases this

theorem Step.visible {s s' : Sys κ δ} {event : Event κ δ} (h : Step R s event s')
    (hv : Visible s.db.datasources id) : Visible s'.db.datasources id := by
  cases h with
  | start op _ => exact hv
  | fail i => exact hv
  | commit _ _ _ happly =>
    obtain ⟨tabs, links, -, hs⟩ := apply_ok happly
    simpa only [Sys.commit, hs.datasources] using hv
  | register hr =>
    obtain ⟨row, rfl, -, hold⟩ := register_ok hr
    obtain ⟨old, ho, hh⟩ := hv
    simp only [Visible, Sys.commit, Function.update_apply]
    split
    · next heq =>
      subst heq
      exact ⟨row, rfl, by rw [(hold old ho).1, hh]⟩
    · exact ⟨old, ho, hh⟩
  | catalog hg =>
    obtain ⟨old, ho, hh⟩ := hv
    obtain ⟨row', hr', -, hvis⟩ := hg.1 id old ho
    exact ⟨row', hr', hvis hh⟩

/-- What a running request has seen of the catalog is still there. -/
theorem Reached.visible {Safe : Db κ δ → Event κ δ → Prop} {s : Sys κ δ}
    (h : Reached R Safe s) : ∀ r ∈ s.running, ∀ db ∈ r.snapshots, ∀ id,
      Visible db.datasources id → Visible s.db.datasources id := by
  induction h with
  | init _ => exact fun r hr => nomatch hr
  | @step s s' event _ hs _ ih =>
    have hcommit : ∀ (running : List (Running κ δ)) (db : Db κ δ), (∀ r ∈ running, r ∈ s.running) →
        (∀ id, Visible s.db.datasources id → Visible db.datasources id) →
        ∀ r ∈ ({ s with running }.commit db).running, ∀ db' ∈ r.snapshots, ∀ id,
          Visible db'.datasources id → Visible db.datasources id := by
      intro running db hsub hmono r hr db' hdb' id hv
      obtain ⟨old, hold, rfl⟩ := List.mem_map.mp hr
      rcases List.mem_append.mp hdb' with hdb' | hdb'
      · exact hmono id (ih old (hsub old hold) db' hdb' id hv)
      · rwa [List.mem_singleton.mp hdb'] at hv
    have hmono : ∀ id, Visible s.db.datasources id → Visible s'.db.datasources id :=
      fun id => hs.visible
    cases hs with
    | start op _ =>
      intro r hr db hdb id hv
      rcases List.mem_append.mp hr with hr | hr
      · exact ih r hr db hdb id hv
      · rw [List.mem_singleton.mp hr] at hdb
        rwa [List.mem_singleton.mp hdb] at hv
    | fail i => exact fun r hr => ih r (List.mem_of_mem_eraseIdx hr)
    | commit _ _ _ _ => exact hcommit _ _ (fun r hr => List.mem_of_mem_eraseIdx hr) hmono
    | register _ => exact hcommit _ _ (fun r hr => hr) hmono
    | catalog _ => exact hcommit _ _ (fun r hr => hr) hmono

theorem Reached.alone {Safe : Db κ δ → Event κ δ → Prop} {db db' : Db κ δ}
    (h : Reached R Safe { db }) {op : Op κ δ} (hstart : Safe db (.start op)) (hf : op.Fresh db)
    (happly : op.apply R db.view db = .ok db') (hsafe : Safe db (.commit op db.view)) :
    Reached R Safe { db := db' } := by
  have hrunning := h.step (.start op fun r hr => nomatch hr) hstart
  have hsees : (Running.mk op [db]).Sees db.view :=
    ⟨fun d => ⟨db, List.mem_singleton_self db, rfl⟩,
      fun walk id => ⟨db, List.mem_singleton_self db, rfl⟩⟩
  exact hrunning.step (.commit (i := 0) rfl hsees hf happly) hsafe

end DataForge.Analyses
