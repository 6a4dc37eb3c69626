import DataForge.Analyses.WellFormed

/-!
# Pipelines stay well formed

For each operation on a well-formed pipeline, the requests that keep it so; and runs of such
requests.
-/

namespace DataForge.Analyses

variable {κ δ : Type} {R : Rules κ δ} {visible : String → Prop}
  {tabs tabs' : List (PipelineTab κ δ)}

private theorem WellFormed.unique (h : WellFormed visible tabs) {tabId : String}
    {l1 l2 : List (PipelineTab κ δ)} {tab : PipelineTab κ δ} (hat : TabAt tabs tabId l1 tab l2) :
    ∀ t ∈ tabs, t.id = tabId → t = tab := fun _ ht hid =>
  List.inj_on_of_nodup_map h.tabs_nodup ht (by rw [hat.eq]; simp) (hid.trans hat.id.symm)

variable {steps : List (PipelineStep κ)}

private theorem mem_stepReferences_insertAt {index : ℕ} {step : PipelineStep κ} {src : String} :
    src ∈ stepReferences (insertAt steps index step) ↔
      src ∈ stepReferences steps ∨ src ∈ step.config.references := by
  have hsplit : stepReferences steps =
      stepReferences (steps.take index) ++ stepReferences (steps.drop index) := by
    rw [stepReferences, stepReferences, stepReferences, ← List.flatMap_append,
      List.take_append_drop]
  rw [hsplit]
  simp only [stepReferences, insertAt, List.flatMap_append, List.flatMap_cons, List.mem_append]
  tauto

/-- `add_step` keeps a pipeline well formed exactly when the new step stands behind what it depends
on and refers to tabs and visible datasources. -/
theorem addStep_wellFormed_iff {check : String → Except Failure Unit}
    {tabId stepType : String} {config : StepConfig κ} {position : Option ℤ}
    {dependsOn : List String} {newId : String} (hw : WellFormed visible tabs)
    (hfresh : ∀ tab ∈ tabs, newId ∉ stepIds tab.steps)
    (h : addStep R check tabs tabId stepType config position dependsOn newId = .ok tabs') :
    WellFormed visible tabs' ↔
      (∀ tab ∈ tabs, tab.id = tabId → ∀ dep ∈ dependsOn,
        dep ∈ stepIds (tab.steps.take (clampPosition position tab.steps.length))) ∧
      ∀ src ∈ config.references, src ∈ tabIds tabs ∨ visible src := by
  obtain ⟨l1, tab, l2, config', hat, href, -, -, rfl⟩ := addStep_ok h
  have hmem : tab ∈ tabs := by rw [hat.eq]; simp
  have hone : (∀ t ∈ tabs, t.id = tabId → ∀ dep ∈ dependsOn,
        dep ∈ stepIds (t.steps.take (clampPosition position t.steps.length))) ↔
      ∀ dep ∈ dependsOn, dep ∈ stepIds (tab.steps.take (clampPosition position tab.steps.length)) :=
    ⟨fun h => h tab hmem hat.id, fun h t ht hid => by rwa [hw.unique hat t ht hid]⟩
  have hsteps : tab.steps = tab.steps.take (clampPosition position tab.steps.length) ++
      tab.steps.drop (clampPosition position tab.steps.length) := (List.take_append_drop _ _).symm
  have hnodup : ∀ step : PipelineStep κ, step.id = newId →
      (stepIds (insertAt tab.steps (clampPosition position tab.steps.length) step)).Nodup := by
    intro step hid
    rw [insertAt, stepIds, List.map_append, List.map_cons, List.nodup_middle, ← List.map_append,
      List.take_append_drop, hid]
    exact List.nodup_cons.mpr ⟨hfresh tab hmem, hw.steps_nodup tab hmem⟩
  have hearlier := hw.earlier tab hmem
  rw [hsteps] at hearlier
  rw [hone, wellFormed_steps (hat.eq ▸ hw), insertAt, earlier_insert hearlier, ← insertAt,
    ← hat.eq]
  constructor
  · rintro ⟨-, hdeps, hsrc⟩
    exact ⟨hdeps, fun src hs =>
      hsrc src (mem_stepReferences_insertAt.mpr (.inr (href.symm ▸ hs)))⟩
  · rintro ⟨hdeps, hsrc⟩
    refine ⟨hnodup _ rfl, hdeps, fun src hs => ?_⟩
    rcases mem_stepReferences_insertAt.mp hs with hs | hs
    · exact hw.sources src (hat.eq ▸ mem_references_split.mpr (.inr hs))
    · exact hsrc src (href ▸ hs)

private theorem stepReferences_middle {s1 s2 : List (PipelineStep κ)} {step : PipelineStep κ}
    {src : String} : src ∈ stepReferences (s1 ++ step :: s2) ↔
      src ∈ stepReferences (s1 ++ s2) ∨ src ∈ step.config.references := by
  simp only [stepReferences, List.flatMap_append, List.flatMap_cons, List.mem_append]
  tauto

/-- `update_step` keeps a pipeline well formed exactly when the new configuration refers to tabs and
visible datasources. -/
theorem updateStep_wellFormed_iff {tabId stepId : String} {config : Option (StepConfig κ)}
    {stepType : Option String} (hw : WellFormed visible tabs)
    (h : updateStep R tabs tabId stepId config stepType = .ok tabs') :
    WellFormed visible tabs' ↔
      ∀ c, config = some c → ∀ src ∈ c.references, src ∈ tabIds tabs ∨ visible src := by
  obtain ⟨l1, tab, l2, s1, step, s2, type, config', hat, hs, -, -, href, rfl⟩ := updateStep_ok h
  have hmem : tab ∈ tabs := by rw [hat.eq]; simp
  have hold : ∀ src ∈ stepReferences tab.steps, src ∈ tabIds tabs ∨ visible src := fun src hsrc =>
    hw.sources src (hat.eq ▸ mem_references_split.mpr (.inr hsrc))
  have hids : List.Forall₂ (fun s s' => s'.id = s.id ∧ s'.dependsOn = s.dependsOn) tab.steps
      (s1 ++ { step with type, config := config' } :: s2) := by
    rw [hs]
    have hrefl : ∀ l : List (PipelineStep κ),
        List.Forall₂ (fun s s' => s'.id = s.id ∧ s'.dependsOn = s.dependsOn) l l :=
      fun l => List.forall₂_same.mpr fun _ _ => ⟨rfl, rfl⟩
    exact List.rel_append (hrefl s1) (.cons ⟨rfl, rfl⟩ (hrefl s2))
  have hnodup : (stepIds (s1 ++ { step with type, config := config' } :: s2)).Nodup := by
    have hn := hw.steps_nodup tab hmem
    rw [hs] at hn
    simpa [stepIds] using hn
  rw [wellFormed_steps (hat.eq ▸ hw), earlier_congr hids, ← hat.eq]
  constructor
  · rintro ⟨-, -, hsrc⟩ c hc src hcs
    refine hsrc src (stepReferences_middle.mpr (.inr ?_))
    rw [show config'.references = _ from href, hc]
    exact hcs
  · refine fun hnew => ⟨hnodup, hw.earlier tab hmem, fun src hsrc => ?_⟩
    rcases stepReferences_middle.mp hsrc with hsrc | hsrc
    · exact hold src (hs ▸ stepReferences_middle.mpr (.inl hsrc))
    · rw [show config'.references = _ from href] at hsrc
      cases hc : config with
      | none =>
        rw [hc] at hsrc
        exact hold src (hs ▸ stepReferences_middle.mpr (.inr hsrc))
      | some c =>
        rw [hc] at hsrc
        exact hnew c hc src hsrc

private theorem earlier_erase {stepId : String} :
    ∀ {seen : List String}, stepId ∉ seen → stepId ∉ stepIds steps →
      Earlier (stepId :: seen) steps →
      (Earlier seen (steps.map fun s => { s with dependsOn := s.dependsOn.erase stepId }) ↔
        ∀ s ∈ steps, s.dependsOn.count stepId ≤ 1) := by
  induction steps with
  | nil => exact fun _ _ _ => ⟨(fun _ _ hs => (List.not_mem_nil hs).elim), fun _ => trivial⟩
  | cons step rest ih =>
    intro seen hseen hids hearlier
    have hne : stepId ≠ step.id := fun heq => hids (heq ▸ List.mem_cons_self)
    have hrest := ih (by simpa [hne] using hseen : stepId ∉ step.id :: seen)
      (fun hmem => hids (List.mem_cons_of_mem _ hmem))
      (hearlier.2.mono fun x hx => by simp only [List.mem_cons] at hx ⊢; tauto)
    rw [List.map_cons, Earlier, hrest, List.forall_mem_cons]
    refine and_congr_left fun _ => ⟨fun hdeps => ?_, fun hcount dep hdep => ?_⟩
    · have hnot : stepId ∉ step.dependsOn.erase stepId := fun hmem => hseen (hdeps _ hmem)
      have := List.count_eq_zero.mpr hnot
      rw [List.count_erase_self] at this
      omega
    · rcases List.mem_cons.mp (hearlier.1 dep (List.mem_of_mem_erase hdep)) with rfl | hmem
      · have := List.count_pos_iff.mpr hdep
        rw [List.count_erase_self] at this
        omega
      · exact hmem

/-- `remove_step` keeps a pipeline well formed exactly when no step names the removed one twice. -/
theorem removeStep_wellFormed_iff {tabId stepId : String} (hw : WellFormed visible tabs)
    (h : removeStep tabs tabId stepId = .ok tabs') :
    WellFormed visible tabs' ↔ ∀ tab ∈ tabs, tab.id = tabId → ∀ step ∈ tab.steps,
      step.dependsOn.count stepId ≤ 1 := by
  obtain ⟨l1, tab, l2, s1, step, s2, hat, hs, rfl, -, rfl⟩ := removeStep_ok h
  have hmem : tab ∈ tabs := by rw [hat.eq]; simp
  have hnodup := hw.steps_nodup tab hmem
  rw [hs, stepIds, List.map_append, List.map_cons, List.nodup_middle, ← List.map_append,
    List.nodup_cons] at hnodup
  have hearlier := hw.earlier tab hmem
  rw [hs, earlier_append] at hearlier
  obtain ⟨hearlier₁, hdeps, hearlier₂⟩ := hearlier
  have hself : step.dependsOn.count step.id = 0 := List.count_eq_zero.mpr fun hdep =>
    hnodup.1 (by simpa [stepIds] using Or.inl (by simpa [stepIds] using hdeps _ hdep))
  have hone : (∀ t ∈ tabs, t.id = tabId → ∀ s ∈ t.steps, s.dependsOn.count step.id ≤ 1) ↔
      ∀ s ∈ s1 ++ s2, s.dependsOn.count step.id ≤ 1 := by
    constructor
    · intro h s hmem'
      refine h tab hmem hat.id s ?_
      rw [hs]
      simp only [List.mem_append, List.mem_cons] at hmem' ⊢
      tauto
    · intro h t ht hid s hst
      rw [hw.unique hat t ht hid, hs] at hst
      simp only [List.mem_append, List.mem_cons] at hst h
      rcases hst with hst | rfl | hst
      · exact h s (.inl hst)
      · omega
      · exact h s (.inr hst)
  have hwith : Earlier [step.id] (s1 ++ s2) :=
    earlier_append.mpr ⟨hearlier₁.mono (List.nil_subset _), hearlier₂.mono fun x hx => by
      simp only [List.mem_cons, List.mem_append, List.mem_nil_iff, or_false] at hx ⊢
      tauto⟩
  have hids : stepIds ((s1 ++ s2).map fun s =>
      { s with dependsOn := s.dependsOn.erase step.id }) = stepIds (s1 ++ s2) := by
    rw [stepIds, List.map_map]
    rfl
  rw [hone, wellFormed_steps (hat.eq ▸ hw), hids,
    earlier_erase List.not_mem_nil hnodup.1 hwith, ← hat.eq]
  refine ⟨fun h => h.2.1, fun h => ⟨hnodup.2, h, fun src hsrc => ?_⟩⟩
  rw [stepReferences, List.flatMap_map] at hsrc
  refine hw.sources src (hat.eq ▸ mem_references_split.mpr (.inr ?_))
  rw [hs]
  exact stepReferences_middle.mpr (.inl hsrc)

theorem deriveTab_wellFormed {tabId name newTabId newStepId newResultId : String}
    (hw : WellFormed visible tabs) (hfresh : newTabId ∉ tabs.map PipelineTab.id)
    (h : deriveTab R tabs tabId name newTabId newStepId newResultId = .ok tabs') :
    WellFormed visible tabs' := by
  obtain ⟨source, hsource, hid, rfl⟩ := deriveTab_ok h
  have hview : stepReferences [PipelineStep.mk newStepId "view" { rest := R.viewConfig } []
      (some true)] = [] := rfl
  refine WellFormed.insert (by simpa using hw) (by simpa using hfresh) (by simp [stepIds])
    ⟨nofun, trivial⟩ ?_ ?_ nofun
  · rintro up hup
    cases hup
    exact ⟨source, by simpa using hsource, hid, rfl⟩
  · intro src hsrc
    rw [hview] at hsrc
    cases hsrc

private theorem stepIdMap_eq {newIds : List String} (hnodup : (stepIds steps).Nodup)
    (hlen : newIds.length = steps.length) {a b : String} (h : (a, b) ∈ (stepIds steps).zip newIds) :
    stepIdMap steps newIds a = some b := by
  have hkeys : (((stepIds steps).zip newIds).reverse.map Prod.fst).Nodup := by
    rw [List.map_reverse, List.nodup_reverse, List.map_fst_zip (by simp [stepIds, hlen])]
    exact hnodup
  unfold stepIdMap
  cases hl : ((stepIds steps).zip newIds).reverse.lookup a with
  | none =>
    rw [List.lookup_eq_none_iff] at hl
    simpa using hl (a, b) (List.mem_reverse.mpr h)
  | some b' =>
    obtain ⟨l1, l2, heq, -⟩ := List.lookup_eq_some_iff.mp hl
    have hmem : (a, b') ∈ ((stepIds steps).zip newIds).reverse := by rw [heq]; simp
    have := List.inj_on_of_nodup_map hkeys hmem (List.mem_reverse.mpr h) rfl
    rw [Prod.mk.injEq] at this
    rw [this.2]

private theorem earlier_copied {f : String → Option String} {steps steps' : List (PipelineStep κ)}
    (hcopied : List.Forall₂ (Copied f) steps steps') :
    (∀ p ∈ (stepIds steps).zip (stepIds steps'), f p.1 = some p.2) →
      ∀ {seen seen' : List String}, (∀ a ∈ seen, ∀ b, f a = some b → b ∈ seen') →
        Earlier seen steps → Earlier seen' steps' := by
  induction hcopied with
  | nil => exact fun _ _ _ _ _ => trivial
  | @cons s s' rest rest' hs _ ih =>
    intro hf seen seen' hseen hearlier
    have hid : f s.id = some s'.id := hf (s.id, s'.id) (by simp [stepIds])
    refine ⟨fun dep' hdep' => ?_, ih (fun p hp => hf p (List.mem_cons_of_mem _ hp)) ?_ hearlier.2⟩
    · obtain ⟨dep, hdep, hmap⟩ := exists_left hs.dependsOn hdep'
      exact hseen dep (hearlier.1 dep hdep) dep' hmap
    · intro a ha b hb
      rcases List.mem_cons.mp ha with rfl | ha
      · rw [hid] at hb
        cases hb
        exact List.mem_cons_self
      · exact List.mem_cons_of_mem _ (hseen a ha b hb)

/-- `duplicate_tab` keeps a pipeline well formed. -/
theorem duplicateTab_wellFormed {tabId name newTabId newResultId : String} {newIds : List String}
    (hw : WellFormed visible tabs) (hfresh : newTabId ∉ tabs.map PipelineTab.id)
    (hnodup : newIds.Nodup)
    (hlen : ∀ tab ∈ tabs, tab.id = tabId → newIds.length = tab.steps.length)
    (h : duplicateTab R tabs tabId name newTabId newResultId newIds = .ok tabs') :
    WellFormed visible tabs' := by
  obtain ⟨l1, source, l2, steps, heq, hid, hids, hcopied, rfl⟩ := duplicateTab_ok hlen h
  have hmem : source ∈ tabs := by rw [heq]; simp
  have hsplit : tabs = (l1 ++ [source]) ++ l2 := by rw [heq]; simp
  rw [show ∀ x, l1 ++ source :: x :: l2 = (l1 ++ [source]) ++ x :: l2 from fun x => by simp]
  have hmap : ∀ p ∈ (stepIds source.steps).zip (stepIds steps),
      stepIdMap source.steps newIds p.1 = some p.2 := fun p hp =>
    stepIdMap_eq (hw.steps_nodup source hmem) (hlen source hmem hid) (hids ▸ hp)
  refine WellFormed.insert (hsplit ▸ hw) (hsplit ▸ hfresh) (hids.symm ▸ hnodup)
    (earlier_copied hcopied hmap (by simp) (hw.earlier source hmem)) ?_ ?_ ?_
  · rw [← hsplit]
    exact fun up hup => hw.outputs source hmem up hup
  · intro src hsrc
    rw [← hsplit]
    refine hw.sources src (heq ▸ mem_references_split.mpr (.inr ?_))
    rwa [← stepReferences_copied hcopied]
  · exact fun src hin => hw.inputs src (List.mem_filterMap.mpr ⟨source, hmem, hin⟩)

/-- A request that keeps pipelines well formed. A payload must be sound in what is not checked; a
new step must stand behind what it depends on; new references must lead to tabs or visible
datasources; and a removed step must not be named twice. -/
def Op.KeepsForm (db : Db κ δ) : Op κ δ → Prop
  | .create _ _ _ tabs => Distinct tabs
  | .update _ _ _ (some tabs) => Distinct tabs
  | .addStep id tabId _ config position dependsOn _ => ∀ tabs, db.tabsOf id = some tabs →
      (∀ tab ∈ tabs, tab.id = tabId → ∀ dep ∈ dependsOn,
        dep ∈ stepIds (tab.steps.take (clampPosition position tab.steps.length))) ∧
      ∀ src ∈ config.references, src ∈ tabIds tabs ∨ Visible db.datasources src
  | .updateStep id _ _ config _ => ∀ tabs, db.tabsOf id = some tabs →
      ∀ c, config = some c → ∀ src ∈ c.references, src ∈ tabIds tabs ∨ Visible db.datasources src
  | .removeStep id tabId stepId => ∀ tabs, db.tabsOf id = some tabs →
      ∀ tab ∈ tabs, tab.id = tabId → ∀ step ∈ tab.steps, step.dependsOn.count stepId ≤ 1
  | _ => True

/-- The requests among the events keep pipelines well formed. -/
def FormSafe (db : Db κ δ) : Event κ δ → Prop
  | .commit op _ => op.KeepsForm db
  | _ => True

/-- The pipelines and their versions are well formed. -/
structure Sound (db : Db κ δ) : Prop where
  tabsOf : ∀ id tabs, db.tabsOf id = some tabs → WellFormed (Visible db.datasources) tabs
  versions : ∀ id, ∀ w ∈ db.versions id, WellFormed (Visible db.datasources) w.tabs

private theorem Change.wellFormed_iff {v : View} {db : Db κ δ} {op : Op κ δ}
    {links : Option (List String)} (hdb : Sound db)
    (hv : ∀ src, Visible v.datasource src → Visible db.datasources src) (hf : op.Fresh db)
    (h : Change R v db op tabs' links) :
    WellFormed (Visible db.datasources) tabs' ↔ op.KeepsForm db := by
  have hone : ∀ {P : List (PipelineTab κ δ) → Prop} {tabs},
      db.tabsOf op.analysisId = some tabs →
      (P tabs ↔ ∀ tabs, db.tabsOf op.analysisId = some tabs → P tabs) := fun ht =>
    ⟨fun h tabs ht' => by rw [ht] at ht'; cases ht'; exact h, fun h => h _ ht⟩
  cases h with
  | create hacc => exact accepted_wellFormed_iff hv hacc
  | update _ hacc => exact accepted_wellFormed_iff hv hacc
  | rename ht => exact iff_of_true (hdb.tabsOf _ _ ht) trivial
  | restore _ hfind hacc =>
    have htarget := hdb.versions _ _ (List.mem_of_find?_eq_some hfind)
    exact iff_of_true ((accepted_wellFormed_iff hv hacc).mpr htarget.distinct) trivial
  | addStep ht h =>
    refine Iff.trans ?_ (hone ht)
    exact addStep_wellFormed_iff (hdb.tabsOf _ _ ht) (hf _ ht) h
  | updateStep ht h =>
    refine Iff.trans ?_ (hone ht)
    exact updateStep_wellFormed_iff (hdb.tabsOf _ _ ht) h
  | removeStep ht h =>
    refine Iff.trans ?_ (hone ht)
    exact removeStep_wellFormed_iff (hdb.tabsOf _ _ ht) h
  | deriveTab ht h =>
    exact iff_of_true (deriveTab_wellFormed (hdb.tabsOf _ _ ht) (hf.2 _ ht).1 h) trivial
  | duplicateTab ht h =>
    obtain ⟨hid, -, hlen⟩ := hf.2.2 _ ht
    exact iff_of_true (duplicateTab_wellFormed (hdb.tabsOf _ _ ht) hid hf.2.1 hlen h) trivial

private theorem Sound.mono {db db' : Db κ δ} (h : Sound db) (ht : db'.tabsOf = db.tabsOf)
    (hw : db'.versions = db.versions)
    (hv : ∀ src, Visible db.datasources src → Visible db'.datasources src) : Sound db' where
  tabsOf id tabs htabs := (h.tabsOf id tabs (ht ▸ htabs)).mono hv
  versions id w hmem := (h.versions id w (hw ▸ hmem)).mono hv

private theorem Step.sound_iff {s s' : Sys κ δ} {event : Event κ δ}
    (hseen : ∀ r ∈ s.running, ∀ db ∈ r.snapshots, ∀ id,
      Visible db.datasources id → Visible s.db.datasources id)
    (hdb : Sound s.db) (hs : Step R s event s') : FormSafe s.db event ↔ Sound s'.db := by
  have hvisible : ∀ src, Visible s.db.datasources src → Visible s'.db.datasources src :=
    fun src => hs.visible
  cases hs with
  | start op _ => exact iff_of_true trivial hdb
  | fail i => exact iff_of_true trivial hdb
  | register hr =>
    obtain ⟨row, rfl, -⟩ := register_ok hr
    exact iff_of_true trivial (hdb.mono rfl rfl hvisible)
  | catalog _ => exact iff_of_true trivial (hdb.mono rfl rfl hvisible)
  | @commit _ r v db hi hsees hf happly =>
    obtain ⟨tabs', links, hchange, hst⟩ := apply_ok happly
    have hv : ∀ src, Visible v.datasource src → Visible s.db.datasources src := by
      rintro src ⟨row, hrow, hh⟩
      obtain ⟨db', hdb', heq⟩ := hsees.1 src
      exact hseen r (List.mem_of_getElem? hi) db' hdb' src ⟨row, heq ▸ hrow, hh⟩
    refine (hchange.wellFormed_iff hdb hv hf).symm.trans ⟨fun hw => ⟨fun id tabs ht => ?_,
      fun id w hmem => ?_⟩, fun h => ?_⟩
    · show WellFormed (Visible db.datasources) tabs
      rw [hst.datasources]
      have ht := (hst.tabsOf id).symm.trans ht
      split at ht
      · cases ht
        exact hw
      · exact hdb.tabsOf id tabs ht
    · show WellFormed (Visible db.datasources) w.tabs
      rw [hst.datasources]
      rcases hst.versions id w hmem with hmem | ⟨rfl, hold | hnew⟩
      · exact hdb.versions id w hmem
      · exact hdb.tabsOf _ _ hold
      · exact hnew ▸ hw
    · have := h.tabsOf r.op.analysisId tabs' ((hst.tabsOf _).trans (if_pos rfl))
      rwa [show (Sys.commit _ db).db.datasources = s.db.datasources from hst.datasources] at this

/-- In every run whose requests are safe, every pipeline is well formed, and an event keeps them so
exactly when it is safe. -/
theorem pipelines_well_formed {s : Sys κ δ} (h : Reached R FormSafe s) :
    Sound s.db ∧ ∀ event s', Step R s event s' → (FormSafe s.db event ↔ Sound s'.db) := by
  have hsound : Sound s.db := by
    induction h with
    | init hempty =>
      refine ⟨fun id tabs ht => ?_, fun id w hw => ?_⟩
      · rw [hempty.tabsOf] at ht
        cases ht
      · rw [hempty.versions] at hw
        cases hw
    | step hr hs hsafe ih => exact (Step.sound_iff hr.visible ih hs).mp hsafe
  exact ⟨hsound, fun event s' hs => Step.sound_iff h.visible hsound hs⟩

theorem pipelines_well_formed_create : Sound salesDb := by
  refine (pipelines_well_formed (salesDb_reached trivial ⟨by decide, ?_, ?_, ?_⟩)).1
  · decide
  · decide
  · rintro a hcycle
    obtain ⟨b, ⟨tab, htab, -, hup⟩, -⟩ := Relation.TransGen.head'_iff.mp hcycle
    rw [List.mem_singleton.mp htab] at hup
    cases hup

/-- An analysis whose step depends on itself. -/
def createSelf : Op Unit Unit :=
  .create "a" "A" none [sampleTab "tab" "sales" [⟨"s", "view", { rest := () }, ["s"], some true⟩]]

/-- The tables after it. -/
def selfDb : Db Unit Unit :=
  ((createSelf.apply plainRules openCatalog.view openCatalog).toOption).getD openCatalog

/-- A payload is accepted whose step depends on itself. -/
theorem self_dependency_accepted : Reached plainRules (fun _ _ => True) { db := selfDb } ∧
    ¬ Sound selfDb := by
  have hfresh : createSelf.Fresh openCatalog := openCatalog_fresh _ _ _
  refine ⟨(Reached.init openCatalog_empty).alone trivial hfresh rfl trivial, fun h => ?_⟩
  have hw := (h.tabsOf "a" _ rfl).earlier _ List.mem_cons_self
  exact List.not_mem_nil (hw.1 "s" List.mem_cons_self)

end DataForge.Analyses
