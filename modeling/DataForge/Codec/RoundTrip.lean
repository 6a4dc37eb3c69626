import DataForge.Codec.Pipeline

/-!
# Round trips of pipeline definitions

`from_dict` inverts `to_dict`, and what it makes of any document is stable.
-/

namespace DataForge.Codec

open Documents Effects

variable {ν : Type} (repr : Json ν → String)

theorem PipelineStep.fromDict_toDict (s : PipelineStep ν) :
    PipelineStep.fromDict repr s.toDict = s := rfl

theorem TabDatasource.fromDict_toDict (d : TabDatasource ν) :
    TabDatasource.fromDict repr d.toDict = d := rfl

theorem TabOutput.toDict_eq {o : TabOutput ν} (h : o.Plain) :
    o.toDict = [("result_id", .str o.resultId), ("format", .str o.format),
      ("filename", .str o.filename)] ++ o.extra :=
  Fields.update_new o.nodup h

theorem TabOutput.fromDict_toDict {o : TabOutput ν} (h : o.Plain) :
    TabOutput.fromDict repr o.toDict = o := by
  have hfilter : (o.toDict.filter fun e => e.1 ∉ namedKeys) = o.extra := by
    rw [toDict_eq h, List.filter_append, List.filter_eq_nil_iff.mpr, List.nil_append,
      List.filter_eq_self]
    · intro e he
      exact decide_eq_true (h e.1 (List.mem_map_of_mem he))
    · simp [namedKeys]
  have hextra : Fields.update [] (o.toDict.filter fun e => e.1 ∉ namedKeys) = o.extra := by
    rw [hfilter, Fields.update_new o.nodup fun _ _ => List.not_mem_nil]
    rfl
  have hkeys := toDict_eq h
  refine TabOutput.ext ?_ ?_ ?_ hextra
  · rw [hkeys]
    rfl
  · rw [hkeys]
    rfl
  · rw [hkeys]
    rfl

theorem TabOutput.plain_fromDict (data : Fields ν) : (TabOutput.fromDict repr data).Plain := by
  have hupdate : ∀ (l new : Fields ν) (k : String),
      k ∈ Fields.keys (Fields.update l new) → k ∈ Fields.keys l ∨ k ∈ Fields.keys new := by
    intro l new
    induction new generalizing l with
    | nil => exact fun k hk => .inl hk
    | cons e new ih =>
      intro k hk
      rcases ih (Fields.put l e) k hk with hk | hk
      · rcases Fields.mem_keys_put.mp hk with rfl | hk
        · exact .inr List.mem_cons_self
        · exact .inl hk
      · exact .inr (List.mem_cons_of_mem _ hk)
  intro k hk
  rcases hupdate _ _ k hk with hk | hk
  · cases hk
  · exact of_decide_eq_true
      (Fields.mem_keys_filter (p := fun k => decide (k ∉ namedKeys)).mp hk).2

private theorem getDicts_arr {α : Type} (data : Fields ν) (key : String) (f : α → Fields ν)
    (l : List α) (h : data.get? key = some (.arr (l.map fun a => .obj (f a)))) :
    getDicts data key = .ok (l.map f) := by
  rw [getDicts, h]
  change Except.ok (List.filterMap _ (l.map _)) = _
  rw [List.filterMap_map]
  exact congrArg Except.ok (congrFun List.filterMap_eq_map l)

private theorem PipelineTab.get?_toDict (t : PipelineTab ν) :
    t.toDict.get? "id" = some (.str t.id) ∧ t.toDict.get? "name" = some (.str t.name) ∧
      t.toDict.get? "datasource" = some (.obj t.datasource.toDict) ∧
      t.toDict.get? "output" = some (.obj t.output.toDict) ∧
      t.toDict.get? "steps" = some (.arr (t.steps.map fun s => .obj s.toDict)) ∧
      get t.toDict "parent_id" = t.parentId := by
  rw [toDict]
  split
  · next hnull =>
    rw [hnull]
    exact ⟨rfl, rfl, rfl, rfl, rfl, rfl⟩
  · exact ⟨rfl, rfl, rfl, rfl, rfl, rfl⟩

theorem PipelineTab.fromDict_toDict {t : PipelineTab ν} (h : t.output.Plain) :
    PipelineTab.fromDict repr t.toDict = .ok t := by
  obtain ⟨hid, hname, hdatasource, houtput, hsteps, hparent⟩ := t.get?_toDict
  have hall : (t.steps.map PipelineStep.toDict).map (PipelineStep.fromDict repr) = t.steps := by
    rw [List.map_map]
    exact List.map_id t.steps
  rw [fromDict, getDicts_arr _ "steps" _ _ hsteps]
  change Except.ok (PipelineTab.mk _ _ _ _ _ _) = _
  rw [getStr, hid, getStr, hname, getDict, get, hdatasource, getDict, get, houtput, hparent, hall]
  change Except.ok (PipelineTab.mk t.id t.name t.datasource
    (TabOutput.fromDict repr t.output.toDict) t.steps t.parentId) = _
  rw [TabOutput.fromDict_toDict repr h]

theorem PipelineDefinition.fromDict_toDict {p : PipelineDefinition ν} (h : p.Plain) :
    PipelineDefinition.fromDict repr p.toDict = .ok p := by
  have htabs : (p.tabs.map PipelineTab.toDict).mapM (PipelineTab.fromDict repr) =
      .ok p.tabs := by
    rw [mapM_ok, List.forall₂_map_left_iff, List.forall₂_same]
    exact fun t ht => PipelineTab.fromDict_toDict repr (h t ht)
  rw [toDict, fromDict, getDicts_arr _ "tabs" PipelineTab.toDict p.tabs rfl]
  change (do
    let tabs ← (p.tabs.map PipelineTab.toDict).mapM (PipelineTab.fromDict repr)
    return ({ tabs } : PipelineDefinition ν)) = _
  rw [htabs]
  rfl

theorem PipelineDefinition.plain_fromDict {d : Json ν} {p : PipelineDefinition ν}
    (h : PipelineDefinition.fromDict repr d = .ok p) : p.Plain := by
  cases d with
  | obj data =>
    obtain ⟨rawTabs, -, h⟩ := bind_ok.mp h
    obtain ⟨tabs, htabs, h⟩ := bind_ok.mp h
    cases h
    intro t ht
    obtain ⟨raw, -, hraw⟩ := forall₂_left (mapM_ok.mp htabs).flip ht
    obtain ⟨rawSteps, -, hraw⟩ := bind_ok.mp hraw
    cases hraw
    exact TabOutput.plain_fromDict repr _
  | null | bool | int | float | str | arr => cases h

/-- `from_dict` inverts `to_dict`, `to_dict` after `from_dict` leaves what the type has
produced, and `from_dict` followed by `to_dict` is idempotent. -/
theorem pipeline_codec :
    (∀ p : PipelineDefinition ν, p.Plain →
      PipelineDefinition.fromDict repr p.toDict = .ok p ∧
        recode repr p.toDict = .ok p.toDict) ∧
    ∀ d d' : Json ν, recode repr d = .ok d' → recode repr d' = .ok d' := by
  have hproduced : ∀ p : PipelineDefinition ν, p.Plain →
      recode repr p.toDict = .ok p.toDict := by
    intro p hp
    rw [recode, PipelineDefinition.fromDict_toDict repr hp]
    rfl
  refine ⟨fun p hp => ⟨PipelineDefinition.fromDict_toDict repr hp, hproduced p hp⟩, ?_⟩
  intro d d' hd
  rw [recode] at hd
  cases hfrom : PipelineDefinition.fromDict repr d with
  | error e =>
    rw [hfrom] at hd
    cases hd
  | ok p =>
    rw [hfrom] at hd
    cases hd
    exact hproduced p (PipelineDefinition.plain_fromDict repr hfrom)

/-- A pipeline with an output that has an extra key. -/
def icebergPipeline : PipelineDefinition Unit where
  tabs := [{
    id := "tab", name := "Tab", datasource := { id := "ds", config := [] }
    output := { resultId := "out", format := "parquet", filename := "rows"
                extra := [("iceberg", .obj [])], nodup := List.nodup_singleton _ }
    steps := [{ id := "a", type := "view", config := [("limit", .int 5)],
                dependsOn := [.str "b"], isApplied := .bool false }] }]

/-- A document with malformed entries. -/
def malformedPipeline : Json Unit :=
  .obj [("tabs", .arr [.int 3, .obj [("id", .null), ("steps", .arr [.str "a", .obj []])]])]

theorem pipeline_codec_iceberg :
    recode (fun _ => "") icebergPipeline.toDict = .ok icebergPipeline.toDict ∧
      ∃ d', recode (fun _ => "") malformedPipeline = .ok d' ∧
        recode (fun _ => "") d' = .ok d' := by
  have hplain : icebergPipeline.Plain := by
    intro t ht
    rw [List.mem_singleton.mp ht]
    change ∀ k ∈ ["iceberg"], k ∉ namedKeys
    decide
  refine ⟨((pipeline_codec _).1 icebergPipeline hplain).2, _, rfl, ?_⟩
  exact (pipeline_codec _).2 malformedPipeline _ rfl

end DataForge.Codec
