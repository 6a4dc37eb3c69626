import DataForge.Analyses.Links

/-!
# Analyses that read each other

`assert_no_analysis_cycle` walks the link rows and ends with the right answer about them. Whether
the analyses stay without a cycle depends on more: on references that are not checked, on link rows
that are missing or came too late for the walk, and on registrations that turn a datasource into
the output of an analysis.
-/

namespace DataForge.Analyses

open Relation

variable {κ δ : Type} {R : Rules κ δ}

section Walk

variable (v : View) (walk : ℕ)

/-- The link graph that a walk sees. -/
def View.Edge (a b : String) : Prop := Search.Edge (v.next walk) a b

/-- The walk ends, and raises exactly when there is a path of links. -/
theorem assertNoAnalysisCycle_iff (analysisId sourceAnalysisId : String) :
    (ReflTransGen (v.Edge walk) sourceAnalysisId analysisId ∧
      ∃ text, v.assertNoAnalysisCycle walk analysisId sourceAnalysisId = .error (.cycle text)) ∨
    (¬ ReflTransGen (v.Edge walk) sourceAnalysisId analysisId ∧
      v.assertNoAnalysisCycle walk analysisId sourceAnalysisId = .ok ()) := by
  unfold View.assertNoAnalysisCycle
  split
  · next heq => exact .inl ⟨heq ▸ .refl, _, rfl⟩
  · -- The walk stays among the source and what the link rows lead to.
    let U : Finset String :=
      insert sourceAnalysisId ((v.rows walk).filterMap fun row => v.source row.2).toFinset
    have hU : ∀ x ∈ U, ∀ y ∈ v.next walk x, y ∈ U := by
      intro x _ y hy
      obtain ⟨d, hd, hsource⟩ := List.mem_filterMap.mp hy
      obtain ⟨row, hrow, rfl⟩ := List.mem_map.mp hd
      have hmem : row ∈ v.rows walk := (List.mem_filter.mp hrow).1
      exact Finset.mem_insert_of_mem
        (List.mem_toFinset.mpr (List.mem_filterMap.mpr ⟨row, hmem, hsource⟩))
    have hcard : U.card < (v.rows walk).length + 2 := by
      have h1 : U.card ≤ _ + 1 := Finset.card_insert_le _ _
      have h2 := List.toFinset_card_le ((v.rows walk).filterMap fun row => v.source row.2)
      have h3 := List.length_filterMap_le (fun row : String × String => v.source row.2)
        (v.rows walk)
      omega
    obtain ⟨found, visited, hr, hfound⟩ :=
      Search.reaches_iff hU (Finset.mem_insert_self _ _) hcard
    dsimp only
    rw [hr]
    cases found with
    | true => exact .inl ⟨hfound.mp rfl, _, rfl⟩
    | false => exact .inr ⟨fun hp => Bool.false_ne_true (hfound.mpr hp), rfl⟩

end Walk

/-- The analysis that a datasource comes from. -/
def Db.sourceOf (db : Db κ δ) (d : String) : Option String :=
  (db.datasources d).bind DataSource.source

/-- An analysis refers to a datasource. -/
def RefersTo (db : Db κ δ) (a d : String) : Prop :=
  ∃ tabs, db.tabsOf a = some tabs ∧ d ∈ external tabs

/-- An analysis reads another. -/
def Reads (db : Db κ δ) (a b : String) : Prop :=
  ∃ d, RefersTo db a d ∧ db.sourceOf d = some b

/-- The tabs that a request has checked. -/
def Op.payload (db : Db κ δ) : Op κ δ → List (PipelineTab κ δ)
  | .create _ _ _ tabs => tabs
  | .update _ _ _ tabs => tabs.getD []
  | .restore id version =>
    (((db.versions id).find? (·.version = version)).map Version.tabs).getD []
  | _ => []

/-- The references of a request that are not checked for cycles. -/
def Op.unchecked (db : Db κ δ) : Op κ δ → List String
  | .addStep id _ _ config _ _ _ => config.references.filter (· ∉ tabIds ((db.tabsOf id).getD []))
  | .updateStep id _ _ config _ =>
    ((config.map StepConfig.references).getD []).filter (· ∉ tabIds ((db.tabsOf id).getD []))
  | op => foreign (op.payload db)

/-- No unchecked reference leads back, and where a tab input does, the walk has seen it. A
registration makes no analysis an input of one that it reads. -/
def CycleSafe (db : Db κ δ) : Event κ δ → Prop
  | .commit op v =>
    (∀ d ∈ op.unchecked db, ∀ b, db.sourceOf d = some b →
      ¬ ReflTransGen (Reads db) b op.analysisId) ∧
    ∀ i tab d, (op.payload db)[i]? = some tab → tab.input = some d →
      ∀ b, db.sourceOf d = some b → ReflTransGen (Reads db) b op.analysisId →
        ∃ b', v.source d = some b' ∧ ReflTransGen (v.Edge i) b' op.analysisId
  | .register resultId analysisId true =>
    ∀ a, RefersTo db a resultId → ¬ ReflTransGen (Reads db) analysisId a
  | _ => True

private theorem checkDatasource_source {v : View} {analysisId : String} {walk : ℕ}
    {tabs : List (PipelineTab κ δ)} {tab : PipelineTab κ δ} {d b : String}
    (hin : tab.input = some d) (hb : v.source d = some b)
    (h : v.checkDatasource (some analysisId) tabs walk tab = .ok ()) :
    ¬ ReflTransGen (v.Edge walk) b analysisId := by
  unfold PipelineTab.input at hin
  split at hin
  · next hup =>
    cases hin
    unfold View.checkDatasource at h
    rw [hup] at h
    obtain ⟨row, hrow, h⟩ := Effects.bind_ok.mp h
    have hsource : row.source = some b := by
      rw [View.source, (requireVisible_ok.mp hrow).1] at hb
      exact hb
    rw [hsource] at h
    rcases assertNoAnalysisCycle_iff v walk analysisId b with ⟨-, text, herr⟩ | ⟨hno, -⟩
    · rw [show v.assertNoAnalysisCycle walk analysisId b = .ok () from h] at herr
      cases herr
    · exact hno
  · cases hin

private theorem accepted_safe_iff {v : View} {db : Db κ δ} {id : String}
    {tabs tabs' : List (PipelineTab κ δ)} (h : Accepted v (some id) tabs tabs') :
    (∀ d ∈ external tabs', ∀ b, db.sourceOf d = some b → ¬ ReflTransGen (Reads db) b id) ↔
      (∀ d ∈ foreign tabs, ∀ b, db.sourceOf d = some b → ¬ ReflTransGen (Reads db) b id) ∧
      ∀ i tab d, tabs[i]? = some tab → tab.input = some d →
        ∀ b, db.sourceOf d = some b → ReflTransGen (Reads db) b id →
          ∃ b', v.source d = some b' ∧ ReflTransGen (v.Edge i) b' id := by
  rw [external_same h.same]
  constructor
  · intro hall
    refine ⟨fun d hd => hall d (List.mem_append_right _ hd), fun i tab d hi hin b hb hp => ?_⟩
    have hd : d ∈ external tabs := List.mem_append_left _
      (List.mem_filterMap.mpr ⟨tab, List.mem_of_getElem? hi, hin⟩)
    exact absurd hp (hall d hd b hb)
  · rintro ⟨hforeign, hinputs⟩ d hd b hb hp
    rcases List.mem_append.mp hd with hd | hd
    · obtain ⟨tab, htab, hin⟩ := List.mem_filterMap.mp hd
      obtain ⟨i, hi⟩ := List.mem_iff_getElem?.mp htab
      obtain ⟨b', hb', hp'⟩ := hinputs i tab d hi hin b hb hp
      exact checkDatasource_source hin hb' (h.datasource i tab hi) hp'
    · exact hforeign d hd b hb hp

private theorem not_back_of_refersTo {db : Db κ δ} (hacyc : Search.Acyclic (Reads db))
    {id d b : String} (hd : RefersTo db id d) (hb : db.sourceOf d = some b) :
    ¬ ReflTransGen (Reads db) b id := fun hp =>
  hacyc id (.head' ⟨d, hd, hb⟩ hp)

private theorem Change.safe_iff {v : View} {db : Db κ δ} {op : Op κ δ}
    {tabs' : List (PipelineTab κ δ)} {links : Option (List String)}
    (hacyc : Search.Acyclic (Reads db)) (hf : op.Fresh db) (h : Change R v db op tabs' links) :
    (∀ d ∈ external tabs', ∀ b, db.sourceOf d = some b →
      ¬ ReflTransGen (Reads db) b op.analysisId) ↔ CycleSafe db (.commit op v) := by
  have hnone : ∀ {tabs}, db.tabsOf op.analysisId = some tabs →
      (∀ d, d ∈ external tabs' → d ∈ external tabs) → ∀ d ∈ external tabs', ∀ b,
        db.sourceOf d = some b → ¬ ReflTransGen (Reads db) b op.analysisId :=
    fun ht hsub d hd b hb => not_back_of_refersTo hacyc ⟨_, ht, hsub d hd⟩ hb
  have hadd : ∀ {tabs} {refs : List String}, db.tabsOf op.analysisId = some tabs →
      (∀ d ∈ external tabs', d ∈ external tabs ∨ d ∈ refs ∧ d ∉ tabIds tabs) →
      (∀ d ∈ refs, d ∉ tabIds tabs → d ∈ external tabs') →
      ((∀ d ∈ external tabs', ∀ b, db.sourceOf d = some b →
        ¬ ReflTransGen (Reads db) b op.analysisId) ↔
        ∀ d ∈ refs.filter (· ∉ tabIds ((db.tabsOf op.analysisId).getD [])), ∀ b,
          db.sourceOf d = some b → ¬ ReflTransGen (Reads db) b op.analysisId) := by
    intro tabs refs ht hsub hsup
    rw [ht, Option.getD_some]
    constructor
    · intro h d hd
      obtain ⟨hd, hn⟩ := List.mem_filter.mp hd
      exact h d (hsup d hd (by simpa using hn))
    · intro h d hd b hb
      rcases hsub d hd with hd | ⟨hd, hn⟩
      · exact not_back_of_refersTo hacyc ⟨tabs, ht, hd⟩ hb
      · exact h d (List.mem_filter.mpr ⟨hd, by simpa using hn⟩) b hb
  have hempty : ∀ {P : ℕ → PipelineTab κ δ → String → Prop} (i : ℕ) (tab : PipelineTab κ δ)
      (d : String), ([] : List (PipelineTab κ δ))[i]? = some tab → P i tab d :=
    fun i tab d hi => by simp at hi
  cases h with
  | create hacc => exact accepted_safe_iff hacc
  | update _ hacc => exact accepted_safe_iff hacc
  | restore _ hfind hacc =>
    have hpayload : ∀ id version, (Op.restore id version : Op κ δ).payload db =
        (((db.versions id).find? (·.version = version)).map Version.tabs).getD [] :=
      fun _ _ => rfl
    simp only [CycleSafe, Op.unchecked, hpayload, hfind, Option.map_some, Option.getD_some]
    exact accepted_safe_iff hacc
  | rename ht =>
    refine iff_of_true (hnone ht fun d hd => hd) ⟨fun d hd => ?_, fun i tab d hi => ?_⟩
    · cases hd
    · simp [Op.payload] at hi
  | deriveTab ht h =>
    refine iff_of_true (hnone ht fun d => (mem_external_deriveTab (hf.2 _ ht).2 h).mp)
      ⟨fun d hd => ?_, fun i tab d hi => ?_⟩
    · cases hd
    · simp [Op.payload] at hi
  | duplicateTab ht h =>
    obtain ⟨-, hrefs, hlen⟩ := hf.2.2 _ ht
    refine iff_of_true (hnone ht fun d => (mem_external_duplicateTab hrefs hlen h).mp)
      ⟨fun d hd => ?_, fun i tab d hi => ?_⟩
    · cases hd
    · simp [Op.payload] at hi
  | removeStep ht h =>
    refine iff_of_true (hnone ht fun d hd => ?_) ⟨fun d hd => ?_, fun i tab d hi => ?_⟩
    · exact (mem_external_removeStep h).2 ((mem_external_removeStep h).1.mp hd)
    · cases hd
    · simp [Op.payload] at hi
  | addStep ht h =>
    refine (hadd ht (fun d hd => (mem_external_addStep h).mp hd)
      fun d hd hn => (mem_external_addStep h).mpr (.inr ⟨hd, hn⟩)).trans ?_
    exact ⟨fun h => ⟨h, fun i tab d hi => by simp [Op.payload] at hi⟩, fun h => h.1⟩
  | @updateStep id tabId stepId config stepType tabs _ ht h =>
    cases config with
    | none =>
      refine iff_of_true (hnone ht fun d => (mem_external_retyped h).mp)
        ⟨fun d hd => ?_, fun i tab d hi => ?_⟩
      · simp [Op.unchecked] at hd
      · simp [Op.payload] at hi
    | some config =>
      have hmem := fun d => @mem_external_updateStep _ _ _ _ _ _ _ d _ _ h
      refine (hadd ht (fun d hd => ?_) fun d hd hn => (hmem d).1.mpr (.inr ⟨hd, hn⟩)).trans ?_
      · exact ((hmem d).1.mp hd).imp (hmem d).2 fun hd => hd
      · exact ⟨fun h => ⟨h, fun i tab d hi => by simp [Op.payload] at hi⟩, fun h => h.1⟩

/-- An event keeps the analyses without a cycle exactly when it is safe. -/
theorem Step.acyclic_iff {s s' : Sys κ δ} {event : Event κ δ}
    (hacyc : Search.Acyclic (Reads s.db)) (hs : Step R s event s') :
    CycleSafe s.db event ↔ Search.Acyclic (Reads s'.db) := by
  cases hs with
  | start op _ => exact iff_of_true trivial hacyc
  | fail i => exact iff_of_true trivial hacyc
  | @commit i r v db _ _ hf happly =>
    obtain ⟨tabs', links, hchange, hst⟩ := apply_ok happly
    have hsource : db.sourceOf = s.db.sourceOf := by
      funext d
      rw [Db.sourceOf, hst.datasources, Db.sourceOf]
    have hown : ∀ d, RefersTo db r.op.analysisId d ↔ d ∈ external tabs' := fun d => by
      simp only [RefersTo, hst.tabsOf, if_pos, Option.some.injEq, exists_eq_left']
    have hother : ∀ x ≠ r.op.analysisId, ∀ y, Reads s.db x y ↔ Reads db x y := fun x hx y => by
      simp only [Reads, RefersTo, hst.tabsOf, if_neg hx, hsource]
    refine ((hchange.safe_iff hacyc hf).symm.trans ?_).trans
      (Search.acyclic_change_out hacyc hother).symm
    constructor
    · rintro h y ⟨d, hd, hy⟩
      exact h d ((hown d).mp hd) y (hsource ▸ hy)
    · exact fun h d hd b hb => h b ⟨d, (hown d).mpr hd, hsource ▸ hb⟩
  | @register resultId analysisId isAnalysisSource db hr =>
    obtain ⟨row, rfl, hrow, hold⟩ := register_ok hr
    have hsource : ∀ d, ({ s.db with
        datasources := Function.update s.db.datasources resultId (some row) } : Db κ δ).sourceOf d =
          if d = resultId then (if isAnalysisSource then some analysisId else none)
          else s.db.sourceOf d := fun d => by
      simp only [Db.sourceOf, Function.update_apply]
      split
      · exact hrow
      · rfl
    have howner : ∀ y, s.db.sourceOf resultId = some y → y = analysisId := by
      intro y hy
      obtain ⟨old, ho, hy⟩ := Option.bind_eq_some_iff.mp hy
      exact (hold old ho).2 y hy
    have hother : ∀ x, ∀ y ≠ analysisId, Reads s.db x y ↔ Reads { s.db with
        datasources := Function.update s.db.datasources resultId (some row) } x y := by
      intro x y hy
      refine exists_congr fun d => and_congr_right fun _ => ?_
      rw [hsource]
      split
      · next heq =>
        subst heq
        constructor
        · exact fun h => absurd (howner y h) hy
        · split
          · exact fun h => absurd (Option.some.inj h).symm hy
          · exact fun h => nomatch h
      · exact Iff.rfl
    refine Iff.trans ?_ (Search.acyclic_change_in hacyc hother).symm
    cases isAnalysisSource with
    | false =>
      refine iff_of_true trivial fun x ⟨d, hd, hx⟩ hp => ?_
      rw [hsource] at hx
      split at hx
      · cases hx
      · exact hacyc analysisId (.tail' hp ⟨d, hd, hx⟩)
    | true =>
      constructor
      · rintro h x ⟨d, hd, hx⟩ hp
        rw [hsource] at hx
        split at hx
        · next heq => exact h x (heq ▸ hd) hp
        · exact hacyc analysisId (.tail' hp ⟨d, hd, hx⟩)
      · exact fun h a ha => h a ⟨resultId, ha, by rw [hsource, if_pos rfl, if_pos rfl]⟩
  | @catalog datasources hg =>
    have hsource : ({ s.db with datasources } : Db κ δ).sourceOf = s.db.sourceOf := by
      funext d
      rw [Db.sourceOf, Db.sourceOf]
      show (datasources d).bind _ = _
      cases hd : s.db.datasources d with
      | none =>
        cases hd' : datasources d with
        | none => rfl
        | some row' => exact hg.2 d row' hd hd'
      | some row =>
        obtain ⟨row', hd', hrow, -⟩ := hg.1 d row hd
        rw [hd']
        exact hrow
    refine iff_of_true trivial ?_
    have : Reads { s.db with datasources } = Reads s.db := by
      funext a b
      rw [Reads, hsource]
      rfl
    exact this.symm ▸ hacyc

/-- In every run whose events are safe the analyses have no cycle, and an event keeps them so
exactly when it is safe. The walk over the link rows ends, and raises exactly when they have a
path. -/
theorem no_cyclic_analyses {s : Sys κ δ} (h : Reached R CycleSafe s) :
    Search.Acyclic (Reads s.db) ∧
    (∀ event s', Step R s event s' → (CycleSafe s.db event ↔ Search.Acyclic (Reads s'.db))) ∧
    ∀ (v : View) (walk : ℕ) (analysisId sourceAnalysisId : String),
      (ReflTransGen (v.Edge walk) sourceAnalysisId analysisId ∧
        ∃ text, v.assertNoAnalysisCycle walk analysisId sourceAnalysisId =
          .error (.cycle text)) ∨
      (¬ ReflTransGen (v.Edge walk) sourceAnalysisId analysisId ∧
        v.assertNoAnalysisCycle walk analysisId sourceAnalysisId = .ok ()) := by
  have hacyc : Search.Acyclic (Reads s.db) := by
    induction h with
    | init hempty =>
      intro a hcycle
      obtain ⟨b, ⟨d, ⟨tabs, ht, -⟩, -⟩, -⟩ := TransGen.head'_iff.mp hcycle
      rw [hempty.tabsOf] at ht
      cases ht
    | step _ hs hsafe ih => exact (hs.acyclic_iff ih).mp hsafe
  exact ⟨hacyc, fun event s' hs => hs.acyclic_iff hacyc, assertNoAnalysisCycle_iff⟩

theorem cycleSafe_of_exact {db : Db κ δ} (hdb : Exact db) {op : Op κ δ}
    (h : ∀ d ∈ op.unchecked db, ∀ b, db.sourceOf d = some b →
      ¬ ReflTransGen (Reads db) b op.analysisId) : CycleSafe db (.commit op db.view) := by
  have hedge : ∀ i x y, Reads db x y → db.view.Edge i x y := by
    rintro i x y ⟨d, ⟨tabs, ht, hd⟩, hy⟩
    exact List.mem_filterMap.mpr ⟨d, (hdb x tabs ht d).mpr hd, hy⟩
  exact ⟨h, fun i tab d _ _ b hb hp => ⟨b, hb, ReflTransGen.mono (hedge i) _ _ hp⟩⟩

theorem no_cyclic_analyses_create : Search.Acyclic (Reads salesDb) ∧
    openCatalog.view.assertNoAnalysisCycle 0 "a" "b" = .ok () := by
  have hsafe : CycleSafe openCatalog (.commit createSales openCatalog.view) := by
    refine cycleSafe_of_exact (fun id tabs ht => ?_) fun d hd => ?_
    · rw [openCatalog_empty.tabsOf] at ht
      cases ht
    · simp [Op.unchecked, Op.payload, createSales, foreign, references, sampleTab] at hd
  obtain ⟨hacyc, -, hwalk⟩ := no_cyclic_analyses (salesDb_reached trivial hsafe)
  refine ⟨hacyc, ?_⟩
  rcases hwalk openCatalog.view 0 "a" "b" with ⟨-, text, herr⟩ | ⟨-, hok⟩
  · have : openCatalog.view.assertNoAnalysisCycle 0 "a" "b" = .ok () := rfl
    rw [this] at herr
    cases herr
  · exact hok

/-- An analysis that joins two datasources. -/
def createJoin : Op Unit Unit :=
  .create "a" "A" none [sampleTab "tab" "sales" [⟨"step", "join", joinWith "rates", [], some true⟩]]

/-- The tables after it. -/
def joinDb : Db Unit Unit :=
  ((createJoin.apply plainRules openCatalog.view openCatalog).toOption).getD openCatalog

/-- The output of the analysis is registered. -/
def outputDb : Db Unit Unit := ((joinDb.register plainRules "out" "a" true).toOption).getD joinDb

/-- The join is pointed at the output. -/
def joinOutput : Op Unit Unit := .updateStep "a" "tab" "step" (some (joinWith "out")) none

/-- The tables after that. -/
def cyclicDb : Db Unit Unit :=
  ((joinOutput.apply plainRules outputDb.view outputDb).toOption).getD outputDb

/-- An analysis can join its own output. -/
theorem join_reads_itself : Reached plainRules (fun _ _ => True) { db := cyclicDb } ∧
    Reads cyclicDb "a" "a" := by
  have hfresh : createJoin.Fresh openCatalog := openCatalog_fresh _ _ _
  have hjoin : Reached plainRules (fun _ _ => True) { db := joinDb } :=
    (Reached.init openCatalog_empty).alone trivial hfresh rfl trivial
  have houtput : Reached plainRules (fun _ _ => True) { db := outputDb } :=
    hjoin.step (.register (show joinDb.register plainRules "out" "a" true = .ok outputDb from rfl))
      trivial
  have hupdate : joinOutput.Fresh outputDb := trivial
  exact ⟨houtput.alone trivial hupdate rfl trivial, "out", ⟨_, rfl, by decide⟩, rfl⟩

end DataForge.Analyses
