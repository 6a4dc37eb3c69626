import DataForge.Datasources.Lineage

/-!
# What a lineage contains

The graph that `build_lineage` collects has one node for each datasource and each analysis and one
edge for each link, and its two modes return what reaches the target, or what it reaches, along
the edges of the types that are asked for.
-/

namespace DataForge.Lineage

open Relation

/-! ## Keys -/

private theorem append_right_injective {a b c : String} (h : a ++ b = a ++ c) : b = c := by
  have := congrArg String.toList h
  rw [String.toList_append, String.toList_append, List.append_cancel_left_eq] at this
  exact String.toList_injective this

theorem datasourceKey_inj {a b : String} (h : datasourceKey a = datasourceKey b) : a = b :=
  append_right_injective h

theorem analysisKey_inj {a b : String} (h : analysisKey a = analysisKey b) : a = b :=
  append_right_injective h

theorem datasourceKey_ne_analysisKey (a b : String) : datasourceKey a ≠ analysisKey b := by
  intro h
  have hhead : ("datasource:" ++ a).toList.head? = ("analysis:" ++ b).toList.head? :=
    congrArg (fun s => s.toList.head?) h
  rw [String.toList_append, String.toList_append] at hhead
  exact absurd (Option.some.inj hhead) (by decide)

/-! ## Lookups -/

section Lookups

variable {T : Tables}

private theorem find?_key {α : Type} {l : List α} {f : α → String} (h : (l.map f).Nodup)
    {id : String} {a : α} : l.find? (f · = id) = some a ↔ a ∈ l ∧ f a = id := by
  constructor
  · intro hf
    have hid := List.find?_some hf
    exact ⟨List.mem_of_find?_eq_some hf, of_decide_eq_true hid⟩
  · rintro ⟨ha, hid⟩
    cases hf : l.find? (f · = id) with
    | none => exact absurd (decide_eq_true hid) (List.find?_eq_none.mp hf a ha)
    | some b =>
      have hb := List.find?_some hf
      rw [List.inj_on_of_nodup_map h (List.mem_of_find?_eq_some hf) ha
        ((of_decide_eq_true hb).trans hid.symm)]

theorem Tables.analysis?_eq_some {id : String} {a : Analysis} :
    T.analysis? id = some a ↔ a ∈ T.analyses ∧ a.id = id := find?_key T.nodup_analyses

theorem Tables.datasource?_eq_some {id : String} {ds : DataSource} :
    T.datasource? id = some ds ↔ ds ∈ T.datasources ∧ ds.id = id := find?_key T.nodup_datasources

end Lookups

/-! ## The whole graph -/

/-- The nodes of the tables. -/
def Tables.nodes (T : Tables) (target branch : Option String) : List LineageNode :=
  T.datasources.map (datasourceNode T target branch) ++ T.analyses.map analysisNode

/-- The links of the tables. -/
inductive Tables.Edge (T : Tables) : LineageEdge → Prop
  | producing {ds : DataSource} {analysis : Analysis} (hds : ds ∈ T.datasources)
      (ha : analysis ∈ T.analyses) (hby : nonempty? ds.createdByAnalysisId = some analysis.id) :
      T.Edge (producingEdge T ds analysis)
  | consuming {ds : DataSource} {analysis : Analysis} {dep : AnalysisDataSource}
      (hds : ds ∈ T.datasources) (ha : analysis ∈ T.analyses) (hdep : dep ∈ T.deps)
      (hd : ds.id = dep.datasourceId) (hby : analysis.id = dep.analysisId) :
      T.Edge (consumingEdge T ds analysis)

/-- Data flows along an edge of the types that are asked for. -/
def Tables.Flows (T : Tables) (includeInternals : Bool) (a b : String) : Prop :=
  ∃ e, T.Edge e ∧ lineageTypes includeInternals e.type = true ∧ e.source = a ∧ e.target = b

section Graph

variable {T : Tables} {target branch : Option String} {g : LineageGraph}

theorem Tables.nodup_nodes : ((T.nodes target branch).map LineageNode.id).Nodup := by
  rw [Tables.nodes, List.map_append, List.map_map, List.map_map]
  refine List.nodup_append.mpr ⟨?_, ?_, ?_⟩
  · have := T.nodup_datasources.map fun _ _ h => datasourceKey_inj h
    rwa [List.map_map] at this
  · have := T.nodup_analyses.map fun _ _ h => analysisKey_inj h
    rwa [List.map_map] at this
  · intro a ha b hb hab
    obtain ⟨ds, -, rfl⟩ := List.mem_map.mp ha
    obtain ⟨an, -, rfl⟩ := List.mem_map.mp hb
    exact datasourceKey_ne_analysisKey ds.id an.id hab

@[simp] theorem LineageGraph.edges_addNode (node : LineageNode) :
    (g.addNode node).edges = g.edges := by
  rw [addNode]
  split <;> rfl

@[simp] theorem LineageGraph.nodes_addEdge (edge : LineageEdge) :
    (g.addEdge edge).nodes = g.nodes := by
  rw [addEdge]
  split <;> rfl

theorem LineageGraph.mem_nodes_addNode {node n : LineageNode} (h : n ∈ (g.addNode node).nodes) :
    n ∈ g.nodes ∨ n = node := by
  rw [addNode] at h
  split at h
  · exact Or.inl h
  · exact (List.mem_append.mp h).imp_right List.mem_singleton.mp

theorem LineageGraph.mem_ids_addNode {node : LineageNode} {id : String} :
    id ∈ (g.addNode node).ids ↔ id ∈ g.ids ∨ id = node.id := by
  rw [addNode]
  split
  · next h =>
    refine ⟨Or.inl, ?_⟩
    rintro (hid | rfl)
    · exact hid
    · exact h
  · rw [ids, List.map_append, List.mem_append, List.map_singleton, List.mem_singleton]
    rfl

theorem LineageGraph.mem_edges_addEdge {edge e : LineageEdge} :
    e ∈ (g.addEdge edge).edges ↔ e ∈ g.edges ∨ e = edge := by
  rw [addEdge]
  split
  · next h =>
    refine ⟨Or.inl, ?_⟩
    rintro (he | rfl)
    · exact he
    · exact h
  · rw [List.mem_append, List.mem_singleton]

/-- A graph under construction: its nodes and edges are those of the tables, and its edges join
its nodes. -/
structure Tables.Partial (T : Tables) (target branch : Option String) (g : LineageGraph) : Prop
    where
  nodes : ∀ n ∈ g.nodes, n ∈ T.nodes target branch
  edges : ∀ e ∈ g.edges, T.Edge e
  between : ∀ e ∈ g.edges, e.source ∈ g.ids ∧ e.target ∈ g.ids

theorem Tables.Partial.addNode (h : T.Partial target branch g) {node : LineageNode}
    (hnode : node ∈ T.nodes target branch) : T.Partial target branch (g.addNode node) where
  nodes n hn := (LineageGraph.mem_nodes_addNode hn).elim (h.nodes n) fun he => he ▸ hnode
  edges e he := h.edges e (by rwa [LineageGraph.edges_addNode] at he)
  between e he := by
    rw [LineageGraph.edges_addNode] at he
    have hb := h.between e he
    exact ⟨LineageGraph.mem_ids_addNode.mpr (Or.inl hb.1),
      LineageGraph.mem_ids_addNode.mpr (Or.inl hb.2)⟩

theorem Tables.Partial.addEdge (h : T.Partial target branch g) {edge : LineageEdge}
    (hedge : T.Edge edge) (hs : edge.source ∈ g.ids) (ht : edge.target ∈ g.ids) :
    T.Partial target branch (g.addEdge edge) where
  nodes n hn := h.nodes n (by rwa [LineageGraph.nodes_addEdge] at hn)
  edges e he := (LineageGraph.mem_edges_addEdge.mp he).elim (h.edges e) fun heq => heq ▸ hedge
  between e he := by
    rw [LineageGraph.ids, LineageGraph.nodes_addEdge]
    rcases LineageGraph.mem_edges_addEdge.mp he with he | rfl
    · exact h.between e he
    · exact ⟨hs, ht⟩

theorem datasourceNode_mem {ds : DataSource} (h : ds ∈ T.datasources) :
    datasourceNode T target branch ds ∈ T.nodes target branch :=
  List.mem_append_left _ (List.mem_map_of_mem h)

theorem analysisNode_mem {analysis : Analysis} (h : analysis ∈ T.analyses) :
    analysisNode analysis ∈ T.nodes target branch :=
  List.mem_append_right _ (List.mem_map_of_mem h)

theorem producer_eq_some {ds : DataSource} {analysis : Analysis} :
    (nonempty? ds.createdByAnalysisId).bind T.analysis? = some analysis ↔
      analysis ∈ T.analyses ∧ nonempty? ds.createdByAnalysisId = some analysis.id := by
  rw [Option.bind_eq_some_iff]
  constructor
  · rintro ⟨id, hid, ha⟩
    obtain ⟨hmem, rfl⟩ := Tables.analysis?_eq_some.mp ha
    exact ⟨hmem, hid⟩
  · rintro ⟨ha, hid⟩
    exact ⟨analysis.id, hid, Tables.analysis?_eq_some.mpr ⟨ha, rfl⟩⟩

theorem Tables.Partial.addDatasource (h : T.Partial target branch g) {ds : DataSource}
    (hds : ds ∈ T.datasources) : T.Partial target branch (addDatasource T target branch g ds) := by
  have hnode := h.addNode (datasourceNode_mem hds)
  rw [Lineage.addDatasource]
  cases hp : (nonempty? ds.createdByAnalysisId).bind T.analysis? with
  | none => exact hnode
  | some analysis =>
    obtain ⟨ha, hby⟩ := producer_eq_some.mp hp
    refine (hnode.addNode (analysisNode_mem ha)).addEdge (.producing hds ha hby) ?_ ?_
    · exact LineageGraph.mem_ids_addNode.mpr (Or.inr rfl)
    · exact LineageGraph.mem_ids_addNode.mpr
        (Or.inl (LineageGraph.mem_ids_addNode.mpr (Or.inr rfl)))

theorem Tables.Partial.addDep (h : T.Partial target branch g) {dep : AnalysisDataSource}
    (hdep : dep ∈ T.deps) : T.Partial target branch (addDep T target branch g dep) := by
  rw [Lineage.addDep]
  split
  · next ds analysis hds ha =>
    obtain ⟨hds, hd⟩ := Tables.datasource?_eq_some.mp hds
    obtain ⟨ha, hby⟩ := Tables.analysis?_eq_some.mp ha
    refine ((h.addNode (datasourceNode_mem hds)).addNode (analysisNode_mem ha)).addEdge
      (.consuming hds ha hdep hd hby) ?_ ?_
    · exact LineageGraph.mem_ids_addNode.mpr
        (Or.inl (LineageGraph.mem_ids_addNode.mpr (Or.inr rfl)))
    · exact LineageGraph.mem_ids_addNode.mpr (Or.inr rfl)
  · exact h

/-- The second graph has all of the first one. -/
def LineageGraph.Extends (g' g : LineageGraph) : Prop :=
  (∀ id ∈ g.ids, id ∈ g'.ids) ∧ ∀ e ∈ g.edges, e ∈ g'.edges

theorem LineageGraph.Extends.refl : g.Extends g := ⟨fun _ h => h, fun _ h => h⟩

theorem LineageGraph.Extends.trans {g' g'' : LineageGraph} (h' : g''.Extends g')
    (h : g'.Extends g) : g''.Extends g :=
  ⟨fun id hid => h'.1 id (h.1 id hid), fun e he => h'.2 e (h.2 e he)⟩

theorem LineageGraph.addNode_extends (node : LineageNode) : (g.addNode node).Extends g :=
  ⟨fun _ h => mem_ids_addNode.mpr (Or.inl h), fun e h => by rwa [edges_addNode]⟩

theorem LineageGraph.addEdge_extends (edge : LineageEdge) : (g.addEdge edge).Extends g :=
  ⟨fun id h => by rwa [ids, nodes_addEdge], fun _ h => mem_edges_addEdge.mpr (Or.inl h)⟩

theorem addDatasource_extends (ds : DataSource) :
    (addDatasource T target branch g ds).Extends g := by
  rw [addDatasource]
  split
  · exact LineageGraph.addNode_extends _
  · exact (LineageGraph.addEdge_extends _).trans ((LineageGraph.addNode_extends _).trans
      (LineageGraph.addNode_extends _))

theorem addDep_extends (dep : AnalysisDataSource) : (addDep T target branch g dep).Extends g := by
  rw [addDep]
  split
  · exact (LineageGraph.addEdge_extends _).trans ((LineageGraph.addNode_extends _).trans
      (LineageGraph.addNode_extends _))
  · exact .refl

theorem foldl_extends {α : Type} {f : LineageGraph → α → LineageGraph}
    (hf : ∀ g a, (f g a).Extends g) (l : List α) : (l.foldl f g).Extends g := by
  induction l generalizing g with
  | nil => exact .refl
  | cons a l ih => exact ih.trans (hf g a)

theorem foldl_reaches {α : Type} {f : LineageGraph → α → LineageGraph}
    (hf : ∀ g a, (f g a).Extends g) {l : List α} {a : α} (ha : a ∈ l) :
    ∃ g', (l.foldl f g).Extends (f g' a) := by
  induction l generalizing g with
  | nil => cases ha
  | cons b l ih =>
    cases ha with
    | head => exact ⟨g, foldl_extends hf l⟩
    | tail _ ha => exact ih ha

theorem foldl_partial {α : Type} {f : LineageGraph → α → LineageGraph} {l : List α}
    (hf : ∀ g, ∀ a ∈ l, T.Partial target branch g → T.Partial target branch (f g a))
    (h : T.Partial target branch g) : T.Partial target branch (l.foldl f g) := by
  induction l generalizing g with
  | nil => exact h
  | cons a l ih =>
    exact ih (fun g b hb => hf g b (List.mem_cons_of_mem a hb)) (hf g a List.mem_cons_self h)

theorem partial_fullGraph : T.Partial target branch (fullGraph T target branch) := by
  have hempty : T.Partial target branch .empty := ⟨by simp [LineageGraph.empty],
    by simp [LineageGraph.empty], by simp [LineageGraph.empty]⟩
  refine foldl_partial (fun g dep hdep h => h.addDep hdep) ?_
  refine foldl_partial (fun g node hnode h => h.addNode ?_) ?_
  · exact List.mem_append_right _ hnode
  · exact foldl_partial (fun g ds hds h => h.addDatasource hds) hempty

private theorem fullGraph_extends_datasources : (fullGraph T target branch).Extends
    (T.datasources.foldl (addDatasource T target branch) .empty) :=
  (foldl_extends (fun _ => addDep_extends) _).trans
    (foldl_extends (fun _ => LineageGraph.addNode_extends) _)

theorem mem_ids_fullGraph {node : LineageNode} (h : node ∈ T.nodes target branch) :
    node.id ∈ (fullGraph T target branch).ids := by
  rcases List.mem_append.mp h with h | h
  · obtain ⟨ds, hds, rfl⟩ := List.mem_map.mp h
    obtain ⟨g', hg'⟩ := foldl_reaches (f := addDatasource T target branch)
      (g := .empty) (fun _ => addDatasource_extends) hds
    refine fullGraph_extends_datasources.1 _ (hg'.1 _ ?_)
    rw [addDatasource]
    split
    · exact LineageGraph.mem_ids_addNode.mpr (Or.inr rfl)
    · exact ((LineageGraph.addEdge_extends _).trans (LineageGraph.addNode_extends _)).1 _
        (LineageGraph.mem_ids_addNode.mpr (Or.inr rfl))
  · obtain ⟨g', hg'⟩ := foldl_reaches
      (g := T.datasources.foldl (addDatasource T target branch) .empty)
      (fun g => LineageGraph.addNode_extends) h
    exact (foldl_extends (fun _ => addDep_extends) _).1 _
      (hg'.1 _ (LineageGraph.mem_ids_addNode.mpr (Or.inr rfl)))

theorem mem_nodes_fullGraph {node : LineageNode} :
    node ∈ (fullGraph T target branch).nodes ↔ node ∈ T.nodes target branch := by
  refine ⟨partial_fullGraph.nodes node, fun h => ?_⟩
  obtain ⟨node', hnode', hid⟩ := List.mem_map.mp (mem_ids_fullGraph h)
  rwa [← List.inj_on_of_nodup_map Tables.nodup_nodes (partial_fullGraph.nodes _ hnode') h hid]

/-- The edges of the whole graph are the links of the tables. -/
theorem mem_edges_fullGraph {e : LineageEdge} :
    e ∈ (fullGraph T target branch).edges ↔ T.Edge e := by
  refine ⟨partial_fullGraph.edges e, fun h => ?_⟩
  cases h with
  | @producing ds analysis hds ha hby =>
    obtain ⟨g', hg'⟩ := foldl_reaches (f := addDatasource T target branch)
      (g := .empty) (fun _ => addDatasource_extends) hds
    refine fullGraph_extends_datasources.2 _ (hg'.2 _ ?_)
    rw [addDatasource, producer_eq_some.mpr ⟨ha, hby⟩]
    exact LineageGraph.mem_edges_addEdge.mpr (Or.inr rfl)
  | @consuming ds analysis dep hds ha hdep hd hby =>
    obtain ⟨g', hg'⟩ := foldl_reaches (f := addDep T target branch)
      (g := (T.analyses.map analysisNode).foldl LineageGraph.addNode
        (T.datasources.foldl (addDatasource T target branch) .empty))
      (fun _ => addDep_extends) hdep
    refine hg'.2 _ ?_
    rw [addDep, Tables.datasource?_eq_some.mpr ⟨hds, hd⟩, Tables.analysis?_eq_some.mpr ⟨ha, hby⟩]
    exact LineageGraph.mem_edges_addEdge.mpr (Or.inr rfl)

end Graph

/-! ## What is returned -/

section Returned

variable {T : Tables} {target branch : Option String} {includeInternals upstream : Bool}

/-- Upstream, the datasource is reachable from the node; downstream, the node from it. -/
def Tables.Leads (T : Tables) (includeInternals upstream : Bool) (datasource id : String) : Prop :=
  if upstream then ReflTransGen (T.Flows includeInternals) id (datasourceKey datasource)
  else ReflTransGen (T.Flows includeInternals) (datasourceKey datasource) id

theorem mem_neighbors {edges : List LineageEdge} {a b : String} :
    b ∈ neighbors upstream includeInternals edges a ↔
      ∃ e ∈ edges, lineageTypes includeInternals e.type = true ∧
        (if upstream then e.source = b ∧ e.target = a else e.source = a ∧ e.target = b) := by
  cases upstream
  · simp [neighbors, and_assoc, and_left_comm]
  · simp [neighbors, and_assoc, and_left_comm, and_comm]

theorem edge_neighbors (a b : String) :
    Search.Edge (neighbors upstream includeInternals (fullGraph T target branch).edges) a b ↔
      if upstream then T.Flows includeInternals b a else T.Flows includeInternals a b := by
  rw [Search.Edge, mem_neighbors]
  cases upstream <;> simp only [mem_edges_fullGraph] <;> rfl

theorem reachable_iff {id b : String} :
    ReflTransGen (Search.Edge (neighbors upstream includeInternals
      (fullGraph T target branch).edges)) (datasourceKey id) b ↔
      T.Leads includeInternals upstream id b := by
  have hedge : Search.Edge (neighbors upstream includeInternals
      (fullGraph T target branch).edges) =
      if upstream then Function.swap (T.Flows includeInternals) else T.Flows includeInternals := by
    funext a b
    rw [edge_neighbors]
    cases upstream <;> rfl
  rw [hedge, Tables.Leads]
  cases upstream
  · rfl
  · exact reflTransGen_swap

variable (target branch includeInternals upstream) in
/-- The part of the graph around a datasource of the tables. -/
theorem exists_closed {ds : DataSource} (hds : ds ∈ T.datasources) :
    ∃ g, (∀ fuel, T.datasources.length + T.analyses.length ≤ fuel →
        (fullGraph T target branch).closed upstream includeInternals ds.id fuel = some g) ∧
      (∀ n, n ∈ g.nodes ↔
        n ∈ T.nodes target branch ∧ T.Leads includeInternals upstream ds.id n.id) ∧
      ∀ e, e ∈ g.edges ↔ T.Edge e ∧ T.Leads includeInternals upstream ds.id e.source ∧
        T.Leads includeInternals upstream ds.id e.target := by
  have htarget : datasourceKey ds.id ∈ (fullGraph T target branch).ids :=
    mem_ids_fullGraph (datasourceNode_mem hds)
  have hids : ∀ a ∈ (fullGraph T target branch).ids,
      ∀ b ∈ neighbors upstream includeInternals (fullGraph T target branch).edges a,
        b ∈ (fullGraph T target branch).ids := by
    intro a _ b hb
    obtain ⟨e, he, -, hends⟩ := mem_neighbors.mp hb
    have hbetween := partial_fullGraph.between e he
    cases upstream
    · exact hends.2 ▸ hbetween.2
    · exact hends.1 ▸ hbetween.1
  have hlen : (fullGraph T target branch).ids.length ≤
      T.datasources.length + T.analyses.length := by
    have hsub : ∀ id ∈ (fullGraph T target branch).ids,
        id ∈ (T.nodes target branch).map LineageNode.id := by
      intro id hid
      obtain ⟨n, hn, rfl⟩ := List.mem_map.mp hid
      exact List.mem_map_of_mem (mem_nodes_fullGraph.mp hn)
    have hle := ((fullGraph T target branch).nodup_nodes.subperm hsub).length_le
    rwa [List.length_map, List.length_map, Tables.nodes, List.length_append, List.length_map,
      List.length_map, ← List.length_map (f := LineageNode.id)] at hle
  obtain ⟨r, hr, hmem⟩ := Search.closure_start hids htarget (Nat.le_refl _)
  refine ⟨(fullGraph T target branch).restrict (fun n => n.id ∈ r)
    fun e => e.source ∈ r && e.target ∈ r, ?_, ?_, ?_⟩
  · intro fuel hfuel
    rw [LineageGraph.closed, if_neg (not_not_intro htarget),
      Search.closure_mono hr (Nat.le_trans hlen hfuel)]
    rfl
  · intro n
    rw [LineageGraph.restrict, List.mem_filter, mem_nodes_fullGraph, decide_eq_true_eq, hmem,
      reachable_iff]
  · intro e
    rw [LineageGraph.restrict, List.mem_filter, mem_edges_fullGraph, Bool.and_eq_true,
      decide_eq_true_eq, decide_eq_true_eq, hmem, hmem, reachable_iff, reachable_iff]

theorem mem_nodes_hideInternals {g : LineageGraph} {n : LineageNode} :
    n ∈ g.hideInternals.nodes ↔ n ∈ g.nodes ∧ n.nodeKind ≠ .internal := by
  rw [LineageGraph.hideInternals, LineageGraph.restrict, List.mem_filter, decide_eq_true_eq]
  refine and_congr_right fun hn => not_congr ⟨fun h => ?_, fun h => ?_⟩
  · obtain ⟨n', hn', hid⟩ := List.mem_map.mp h
    rw [List.mem_filter, decide_eq_true_eq] at hn'
    rw [← List.inj_on_of_nodup_map g.nodup_nodes hn'.1 hn hid]
    exact hn'.2
  · exact List.mem_map_of_mem (List.mem_filter.mpr ⟨hn, decide_eq_true h⟩)

theorem mem_ids_hideInternals {g : LineageGraph} {id : String} (h : id ∈ g.ids) :
    id ∈ g.hideInternals.ids ↔
      id ∉ (g.nodes.filter (·.nodeKind = .internal)).map LineageNode.id := by
  rw [LineageGraph.ids, List.mem_map]
  constructor
  · rintro ⟨n, hn, rfl⟩
    exact of_decide_eq_true (List.mem_filter.mp hn).2
  · intro hid
    obtain ⟨n, hn, rfl⟩ := List.mem_map.mp h
    exact ⟨n, List.mem_filter.mpr ⟨hn, decide_eq_true hid⟩, rfl⟩

theorem lineageTypes_false (type : LineageEdgeType) :
    lineageTypes false type = true ↔ type ∉ [LineageEdgeType.chains, .consumesInternal] := by
  cases type <;> decide

theorem mem_edges_hideInternals {g : LineageGraph} {e : LineageEdge}
    (hs : e ∈ g.edges → e.source ∈ g.ids) (ht : e ∈ g.edges → e.target ∈ g.ids) :
    e ∈ g.hideInternals.edges ↔ e ∈ g.edges ∧ lineageTypes false e.type = true ∧
      e.source ∈ g.hideInternals.ids ∧ e.target ∈ g.hideInternals.ids := by
  rw [LineageGraph.hideInternals, LineageGraph.restrict, List.mem_filter, Bool.and_eq_true,
    Bool.and_eq_true, decide_eq_true_eq, decide_eq_true_eq, decide_eq_true_eq,
    ← lineageTypes_false, and_assoc]
  refine and_congr_right fun he => and_congr_right fun _ => ?_
  exact and_congr (mem_ids_hideInternals (hs he)).symm (mem_ids_hideInternals (ht he)).symm

/-- What the mode selects around the target. -/
def Tables.Selects (T : Tables) (includeInternals : Bool) (mode : String) (target : Option String)
    (id : String) : Prop :=
  ∀ datasource, target = some datasource →
    (mode = "upstream" → T.Leads includeInternals true datasource id) ∧
      (mode = "downstream" → T.Leads includeInternals false datasource id)

/-- The nodes of the tables that the mode selects, without the internal datasources if they are
not asked for, and the links of the types that are asked for between these nodes. -/
structure IsLineage (T : Tables) (target branch : Option String) (includeInternals : Bool)
    (mode : String) (g : LineageGraph) : Prop where
  nodes : ∀ n, n ∈ g.nodes ↔ n ∈ T.nodes target branch ∧
    (includeInternals = false → n.nodeKind ≠ .internal) ∧
      T.Selects includeInternals mode target n.id
  edges : ∀ e, e ∈ g.edges ↔ T.Edge e ∧ lineageTypes includeInternals e.type = true ∧
    e.source ∈ g.ids ∧ e.target ∈ g.ids

variable (target branch) in
theorem Tables.Edge.ends {e : LineageEdge} (h : T.Edge e) :
    e.source ∈ (T.nodes target branch).map LineageNode.id ∧
      e.target ∈ (T.nodes target branch).map LineageNode.id := by
  cases h with
  | producing hds ha hby =>
    exact ⟨List.mem_map_of_mem (analysisNode_mem ha), List.mem_map_of_mem (datasourceNode_mem hds)⟩
  | consuming hds ha hdep hd hby =>
    exact ⟨List.mem_map_of_mem (datasourceNode_mem hds), List.mem_map_of_mem (analysisNode_mem ha)⟩

/-- The selected part of the whole graph. -/
def Selected (T : Tables) (target branch : Option String) (includeInternals : Bool) (mode : String)
    (g : LineageGraph) : Prop :=
  (∀ n, n ∈ g.nodes ↔
    n ∈ T.nodes target branch ∧ T.Selects includeInternals mode target n.id) ∧
  ∀ e, e ∈ g.edges ↔ T.Edge e ∧ e.source ∈ g.ids ∧ e.target ∈ g.ids

theorem mem_ids_iff {mode : String} {g : LineageGraph}
    (h : ∀ n, n ∈ g.nodes ↔
      n ∈ T.nodes target branch ∧ T.Selects includeInternals mode target n.id) {id : String}
    (hid : id ∈ (T.nodes target branch).map LineageNode.id) :
    id ∈ g.ids ↔ T.Selects includeInternals mode target id := by
  rw [LineageGraph.ids, List.mem_map]
  constructor
  · rintro ⟨n, hn, rfl⟩
    exact ((h n).mp hn).2
  · intro hsel
    obtain ⟨n, hn, rfl⟩ := List.mem_map.mp hid
    exact ⟨n, (h n).mpr ⟨hn, hsel⟩, rfl⟩

theorem selected_of_edges {mode : String} {g : LineageGraph}
    (hn : ∀ n, n ∈ g.nodes ↔
      n ∈ T.nodes target branch ∧ T.Selects includeInternals mode target n.id)
    (he : ∀ e, e ∈ g.edges ↔ T.Edge e ∧ T.Selects includeInternals mode target e.source ∧
      T.Selects includeInternals mode target e.target) :
    Selected T target branch includeInternals mode g := by
  refine ⟨hn, fun e => (he e).trans (and_congr_right fun h => ?_)⟩
  have hends := h.ends target branch
  exact and_congr (mem_ids_iff hn hends.1).symm (mem_ids_iff hn hends.2).symm

theorem selected_fullGraph {mode : String}
    (h : ∀ id, T.Selects includeInternals mode target id) :
    Selected T target branch includeInternals mode (fullGraph T target branch) := by
  refine selected_of_edges (fun n => ?_) fun e => ?_
  · rw [mem_nodes_fullGraph, and_iff_left (h n.id)]
  · rw [mem_edges_fullGraph, and_iff_left ⟨h e.source, h e.target⟩]

theorem selects_some {mode : String} {datasource id : String}
    (hmode : mode = "upstream" ∨ mode = "downstream") :
    T.Selects includeInternals mode (some datasource) id ↔
      T.Leads includeInternals (mode = "upstream") datasource id := by
  rcases hmode with rfl | rfl
  · constructor
    · exact fun h => (h datasource rfl).1 rfl
    · rintro h _ ⟨⟩
      exact ⟨fun _ => h, fun hm => absurd hm (by decide)⟩
  · constructor
    · exact fun h => (h datasource rfl).2 rfl
    · rintro h _ ⟨⟩
      exact ⟨fun hm => absurd hm (by decide), fun _ => h⟩

variable (branch includeInternals) in
/-- The search selects what the mode does. -/
theorem exists_select (h : ∀ id, target = some id → ∃ ds ∈ T.datasources, ds.id = id)
    (mode : String) :
    ∃ g, (∀ fuel, T.datasources.length + T.analyses.length ≤ fuel →
        (fullGraph T target branch).select mode target includeInternals fuel = some g) ∧
      Selected T target branch includeInternals mode g := by
  cases target with
  | none =>
    exact ⟨_, fun _ _ => rfl, selected_fullGraph fun _ _ hd => by cases hd⟩
  | some id =>
    by_cases hmode : mode = "upstream" ∨ mode = "downstream"
    · obtain ⟨ds, hds, rfl⟩ := h id rfl
      obtain ⟨g, hg, hnodes, hedges⟩ := exists_closed (some ds.id) branch
        includeInternals (decide (mode = "upstream")) hds
      refine ⟨g, fun fuel hfuel => ?_, selected_of_edges (fun n => ?_) fun e => ?_⟩
      · rw [LineageGraph.select, if_pos hmode, hg fuel hfuel]
      · rw [hnodes, selects_some hmode]
      · rw [hedges, selects_some hmode, selects_some hmode]
    · refine ⟨_, fun fuel _ => if_neg hmode, selected_fullGraph fun _ _ _ => ?_⟩
      exact ⟨fun hm => absurd (Or.inl hm) hmode, fun hm => absurd (Or.inr hm) hmode⟩

theorem isLineage_hideInternals {mode : String} {g : LineageGraph}
    (h : Selected T target branch false mode g) :
    IsLineage T target branch false mode g.hideInternals where
  nodes n := by
    rw [mem_nodes_hideInternals, h.1, and_assoc]
    exact and_congr_right fun _ => ⟨fun hn => ⟨fun _ => hn.2, hn.1⟩, fun hn => ⟨hn.2, hn.1 rfl⟩⟩
  edges e := by
    rw [mem_edges_hideInternals (fun he => ((h.2 e).mp he).2.1) fun he => ((h.2 e).mp he).2.2, h.2]
    constructor
    · rintro ⟨⟨he, -, -⟩, hrest⟩
      exact ⟨he, hrest⟩
    · rintro ⟨he, ht, hs, htarget⟩
      have hids : ∀ id ∈ g.hideInternals.ids, id ∈ g.ids := by
        intro id hid
        obtain ⟨n, hn, rfl⟩ := List.mem_map.mp hid
        exact List.mem_map_of_mem (mem_nodes_hideInternals.mp hn).1
      exact ⟨⟨he, hids _ hs, hids _ htarget⟩, ht, hs, htarget⟩

theorem isLineage_of_selected {mode : String} {g : LineageGraph}
    (h : Selected T target branch true mode g) : IsLineage T target branch true mode g where
  nodes n := by
    rw [h.1]
    exact and_congr_right fun _ => ⟨fun hs => ⟨fun hf => (by cases hf), hs⟩, fun hs => hs.2⟩
  edges e := by
    have htype : lineageTypes true e.type = true := by cases e.type <;> rfl
    rw [h.2, and_iff_right (a := lineageTypes true e.type = true) htype]

end Returned

/-- `build_lineage` ends, with a graph that has no node and no edge twice and whose edges join its
nodes. A target that is missing or of another namespace has no lineage; otherwise the graph is what
the mode selects along the edges of the types that are asked for. -/
theorem buildLineage_spec (T : Tables) (ns : String) (targetDatasourceId branch : Option String)
    (includeInternals : Bool) (mode : String) :
    ∃ g, (∀ fuel, T.datasources.length + T.analyses.length ≤ fuel →
        buildLineage T ns targetDatasourceId branch includeInternals mode fuel = some g) ∧
      g.ids.Nodup ∧ g.edges.Nodup ∧ (∀ e ∈ g.edges, e.source ∈ g.ids ∧ e.target ∈ g.ids) ∧
      if targetHidden T ns (nonempty? targetDatasourceId) then g = .empty
      else IsLineage T (nonempty? targetDatasourceId) (nonempty? (branch.map Compute.strip))
        includeInternals mode g := by
  generalize hb : nonempty? (branch.map Compute.strip) = branch'
  generalize ht : nonempty? targetDatasourceId = target
  by_cases hhidden : targetHidden T ns target = true
  · refine ⟨.empty, fun fuel _ => ?_, List.nodup_nil, List.nodup_nil, by simp [LineageGraph.empty],
      ?_⟩
    · rw [buildLineage, ht]
      simp only [hhidden, if_true]
    · rw [if_pos hhidden]
  · have htarget : ∀ id, target = some id → ∃ ds ∈ T.datasources, ds.id = id := by
      rintro id rfl
      cases hds : T.datasource? id with
      | none =>
        refine absurd ?_ hhidden
        rw [targetHidden, Option.any_some, hds]
      | some ds => exact ⟨ds, Tables.datasource?_eq_some.mp hds⟩
    obtain ⟨g, hg, hsel⟩ := exists_select branch' includeInternals htarget mode
    have hbuild : ∀ fuel, T.datasources.length + T.analyses.length ≤ fuel →
        buildLineage T ns targetDatasourceId branch includeInternals mode fuel =
          some (if includeInternals then g else g.hideInternals) := by
      intro fuel hfuel
      rw [buildLineage, ht, hb]
      simp only [hhidden, hg fuel hfuel]
      cases includeInternals <;> rfl
    have hlineage : IsLineage T target branch' includeInternals mode
        (if includeInternals then g else g.hideInternals) := by
      cases includeInternals
      · exact isLineage_hideInternals hsel
      · exact isLineage_of_selected hsel
    refine ⟨_, hbuild, LineageGraph.nodup_nodes _, LineageGraph.nodup_edges _, fun e he => ?_, ?_⟩
    · exact ((hlineage.edges e).mp he).2.2
    · rw [if_neg hhidden]
      exact hlineage

/-- Datasources, analyses and links: `a` makes the datasource `internal` and reads it, `b` reads it
too and makes the datasource `output`. -/
def sharedInternal : Tables where
  datasources := [⟨"internal", "internal", "iceberg", some "a", none, none⟩,
    ⟨"output", "output", "iceberg", some "b", none, none⟩]
  analyses := [⟨"a", "a", "draft"⟩, ⟨"b", "b", "draft"⟩]
  deps := [⟨"a", "internal"⟩, ⟨"b", "internal"⟩]
  nodup_datasources := by decide
  nodup_analyses := by decide

private theorem sharedInternal_ids :
    (buildLineage sharedInternal "default" (some "output") none false "upstream" 4).map
      LineageGraph.ids = some ["datasource:output", "analysis:b"] := by
  decide +kernel

private theorem sharedInternal_leads :
    sharedInternal.Leads true true "output" (analysisNode ⟨"a", "a", "draft"⟩).id := by
  have hmake : sharedInternal.Flows true "analysis:a" "datasource:internal" :=
    ⟨_, @Tables.Edge.producing _ ⟨"internal", "internal", "iceberg", some "a", none, none⟩
      ⟨"a", "a", "draft"⟩ (.head _) (.head _) (by decide), by decide, rfl, rfl⟩
  have huse : sharedInternal.Flows true "datasource:internal" "analysis:b" :=
    ⟨_, @Tables.Edge.consuming _ ⟨"internal", "internal", "iceberg", some "a", none, none⟩
      ⟨"b", "b", "draft"⟩ ⟨"b", "internal"⟩ (.head _) (.tail _ (.head _))
      (.tail _ (.head _)) rfl rfl, by decide, rfl, rfl⟩
  have houtput : sharedInternal.Flows true "analysis:b" "datasource:output" :=
    ⟨_, @Tables.Edge.producing _ ⟨"output", "output", "iceberg", some "b", none, none⟩
      ⟨"b", "b", "draft"⟩ (.tail _ (.head _)) (.tail _ (.head _)) (by decide),
      by decide, rfl, rfl⟩
  exact .head hmake (.head huse (.single houtput))

/-- Upstream of the output, without internal datasources, the analysis `a` is missing: the search
does not follow the edge by which it makes the datasource that `b` reads. -/
theorem sharedInternal_hides : ¬ ∀ g,
    buildLineage sharedInternal "default" (some "output") none false "upstream" 4 = some g →
      ∀ n, n ∈ g.nodes ↔ n ∈ sharedInternal.nodes (some "output") none ∧
        n.nodeKind ≠ .internal ∧ sharedInternal.Leads true true "output" n.id := by
  intro h
  obtain ⟨g, hg, hids⟩ := Option.map_eq_some_iff.mp sharedInternal_ids
  have hmem : analysisNode ⟨"a", "a", "draft"⟩ ∈ g.nodes := by
    refine (h g hg _).mpr ⟨analysisNode_mem (.head _), ?_, sharedInternal_leads⟩
    intro hkind
    cases hkind
  have hid : "analysis:a" ∈ g.ids := List.mem_map_of_mem hmem
  rw [hids] at hid
  exact absurd hid (by decide)

end DataForge.Lineage
