import DataForge.Compute.Identity
import DataForge.Forest.Closure

/-!
# Lineage of datasources

`build_lineage` (`src/packages/backend/modules/datasource/service_lineage.py`): the graph of
datasources and analyses, what is upstream or downstream of a datasource, and the graph without
internal datasources.
-/

namespace DataForge.Lineage

/-- `LineageNodeType` (lines 12-14). -/
inductive LineageNodeType where
  | datasource
  | analysis
  deriving DecidableEq

/-- `LineageNodeKind` (lines 17-21). -/
inductive LineageNodeKind where
  | internal
  | output
  | source
  | analysis
  deriving DecidableEq

/-- `LineageEdgeType` (lines 24-28). -/
inductive LineageEdgeType where
  | chains
  | produces
  | consumesInternal
  | uses
  deriving DecidableEq

/-- A row of `datasources`; `config` as far as the lineage reads it. -/
structure DataSource where
  id : String
  name : String
  sourceType : String
  createdByAnalysisId : Option String := none
  namespaceName : Option String := none
  branch : Option String := none

/-- A row of `analyses`. -/
structure Analysis where
  id : String
  name : String
  status : String

/-- A row of `analysis_datasources`. -/
structure AnalysisDataSource where
  analysisId : String
  datasourceId : String

/-- The tables. -/
structure Tables where
  datasources : List DataSource
  analyses : List Analysis
  deps : List AnalysisDataSource
  nodup_datasources : (datasources.map DataSource.id).Nodup
  nodup_analyses : (analyses.map Analysis.id).Nodup

/-- A node of the graph. -/
structure LineageNode where
  id : String
  type : LineageNodeType
  nodeKind : LineageNodeKind
  name : String
  sourceType : Option String
  branch : Option String
  status : Option String

/-- An edge of the graph. -/
structure LineageEdge where
  source : String
  target : String
  type : LineageEdgeType
  deriving DecidableEq

/-- A graph: no node and no edge comes twice. -/
structure LineageGraph where
  nodes : List LineageNode
  edges : List LineageEdge
  nodup_nodes : (nodes.map LineageNode.id).Nodup
  nodup_edges : edges.Nodup

/-- The ids of the nodes. -/
def LineageGraph.ids (g : LineageGraph) : List String := g.nodes.map LineageNode.id

/-- `{'nodes': [], 'edges': []}`. -/
def LineageGraph.empty : LineageGraph := ⟨[], [], List.nodup_nil, List.nodup_nil⟩

/-- `datasource_key` (lines 75-76). -/
def datasourceKey (id : String) : String := "datasource:" ++ id

/-- `analysis_key` (lines 78-79). -/
def analysisKey (id : String) : String := "analysis:" ++ id

/-- The text, if there is one. -/
def nonempty? (text : Option String) : Option String := text.filter (· ≠ "")

section Build

variable (T : Tables) (target : Option String) (branch : Option String)

/-- `ds_to_consumers.get(ds.id, set())` has the analysis (lines 64-66). -/
def Tables.consumes (datasourceId analysisId : String) : Bool :=
  T.deps.any fun dep => dep.datasourceId = datasourceId && dep.analysisId = analysisId

/-- The datasource is in `internal_ids` (line 68). -/
def Tables.isInternal (ds : DataSource) : Bool :=
  (nonempty? ds.createdByAnalysisId).any (T.consumes ds.id)

/-- `analysis_map.get` (line 49). -/
def Tables.analysis? (id : String) : Option Analysis := T.analyses.find? (·.id = id)

/-- `datasource_map.get` (line 48). -/
def Tables.datasource? (id : String) : Option DataSource := T.datasources.find? (·.id = id)

/-- `classify_datasource` (lines 81-86). -/
def Tables.classifyDatasource (ds : DataSource) : LineageNodeKind :=
  if T.isInternal ds then .internal
  else if (nonempty? ds.createdByAnalysisId).isSome then .output
  else .source

/-- `datasource_branch` (lines 88-92). -/
def datasourceBranch (ds : DataSource) : Option String :=
  if target = some ds.id ∧ branch.isSome then branch else ds.branch

/-- The node of a datasource. -/
def datasourceNode (ds : DataSource) : LineageNode where
  id := datasourceKey ds.id
  type := .datasource
  nodeKind := T.classifyDatasource ds
  name := ds.name
  sourceType := some ds.sourceType
  branch := datasourceBranch target branch ds
  status := none

/-- The node of an analysis. -/
def analysisNode (analysis : Analysis) : LineageNode where
  id := analysisKey analysis.id
  type := .analysis
  nodeKind := .analysis
  name := analysis.name
  sourceType := none
  branch := none
  status := some analysis.status

/-- `if node_id in nodes: return`, else add the node. -/
def LineageGraph.addNode (g : LineageGraph) (node : LineageNode) : LineageGraph :=
  if h : node.id ∈ g.ids then g
  else { g with
    nodes := g.nodes ++ [node]
    nodup_nodes := by
      rw [List.map_append, List.map_singleton]
      refine List.nodup_append.mpr ⟨g.nodup_nodes, List.nodup_singleton _, ?_⟩
      rintro a ha b hb rfl
      exact h (List.mem_singleton.mp hb ▸ ha) }

/-- `add_edge` (lines 125-130). -/
def LineageGraph.addEdge (g : LineageGraph) (edge : LineageEdge) : LineageGraph :=
  if h : edge ∈ g.edges then g
  else { g with
    edges := g.edges ++ [edge]
    nodup_edges := by
      refine List.nodup_append.mpr ⟨g.nodup_edges, List.nodup_singleton _, ?_⟩
      rintro a ha b hb rfl
      exact h (List.mem_singleton.mp hb ▸ ha) }

/-- The edge from the analysis that made a datasource (lines 132-142). -/
def producingEdge (ds : DataSource) (analysis : Analysis) : LineageEdge :=
  ⟨analysisKey analysis.id, datasourceKey ds.id,
    if T.isInternal ds then .chains else .produces⟩

/-- The edge from a datasource to an analysis that reads it (lines 147-156). -/
def consumingEdge (ds : DataSource) (analysis : Analysis) : LineageEdge :=
  ⟨datasourceKey ds.id, analysisKey analysis.id,
    if T.isInternal ds ∧ ds.createdByAnalysisId = some analysis.id then .consumesInternal
    else .uses⟩

/-- The loop over the datasources (lines 132-142). -/
def addDatasource (g : LineageGraph) (ds : DataSource) : LineageGraph :=
  let g := g.addNode (datasourceNode T target branch ds)
  match (nonempty? ds.createdByAnalysisId).bind T.analysis? with
  | none => g
  | some analysis => (g.addNode (analysisNode analysis)).addEdge (producingEdge T ds analysis)

/-- The loop over the dependencies (lines 147-156). -/
def addDep (g : LineageGraph) (dep : AnalysisDataSource) : LineageGraph :=
  match T.datasource? dep.datasourceId, T.analysis? dep.analysisId with
  | some ds, some analysis =>
    ((g.addNode (datasourceNode T target branch ds)).addNode (analysisNode analysis)).addEdge
      (consumingEdge T ds analysis)
  | _, _ => g

/-- The graph of all nodes and edges (lines 132-156). -/
def fullGraph : LineageGraph :=
  let g := T.datasources.foldl (addDatasource T target branch) .empty
  let g := (T.analyses.map analysisNode).foldl LineageGraph.addNode g
  T.deps.foldl (addDep T target branch) g

/-- `lineage_types` (lines 163-165). -/
def lineageTypes (includeInternals : Bool) : LineageEdgeType → Bool
  | .uses | .produces => true
  | .chains | .consumesInternal => includeInternals

/-- `reverse_adj` and `forward_adj` (lines 167-172) at a node. -/
def neighbors (upstream includeInternals : Bool) (edges : List LineageEdge) (id : String) :
    List String :=
  let edges := edges.filter fun e => lineageTypes includeInternals e.type
  if upstream then (edges.filter (·.target = id)).map LineageEdge.source
  else (edges.filter (·.source = id)).map LineageEdge.target

/-- The nodes that pass a test, and the edges that do. -/
def LineageGraph.restrict (g : LineageGraph) (node : LineageNode → Bool)
    (edge : LineageEdge → Bool) : LineageGraph where
  nodes := g.nodes.filter node
  edges := g.edges.filter edge
  nodup_nodes := g.nodup_nodes.sublist (List.filter_sublist.map _)
  nodup_edges := g.nodup_edges.filter _

/-- The part of the graph that the search reaches (lines 174-187), in at most `fuel` rounds. -/
def LineageGraph.closed (g : LineageGraph) (upstream includeInternals : Bool) (target : String)
    (fuel : ℕ) : Option LineageGraph :=
  let targetNodeId := datasourceKey target
  if targetNodeId ∉ g.ids then some .empty
  else
    (Search.closure (neighbors upstream includeInternals g.edges) fuel
      ([targetNodeId], [targetNodeId])).map fun reachable =>
        g.restrict (fun n => n.id ∈ reachable) fun e => e.source ∈ reachable && e.target ∈ reachable

/-- What the mode selects (lines 158-187). -/
def LineageGraph.select (g : LineageGraph) (mode : String) (target : Option String)
    (includeInternals : Bool) (fuel : ℕ) : Option LineageGraph :=
  match target with
  | none => some g
  | some id =>
    if mode = "upstream" ∨ mode = "downstream" then
      g.closed (mode = "upstream") includeInternals id fuel
    else some g

/-- The graph without internal datasources (lines 189-198). -/
def LineageGraph.hideInternals (g : LineageGraph) : LineageGraph :=
  let internalNodeIds := (g.nodes.filter (·.nodeKind = .internal)).map LineageNode.id
  g.restrict (fun n => n.id ∉ internalNodeIds) fun e =>
    e.type ∉ [LineageEdgeType.chains, .consumesInternal] && e.source ∉ internalNodeIds &&
      e.target ∉ internalNodeIds

end Build

/-- The target is given, and missing or of another namespace (lines 54-60). -/
def targetHidden (T : Tables) (ns : String) (target : Option String) : Bool :=
  target.any fun id =>
    match T.datasource? id with
    | none => true
    | some ds => (nonempty? ds.namespaceName).any (· ≠ ns)

/-- `build_lineage` (lines 37-200), where a search may take `fuel` rounds. -/
def buildLineage (T : Tables) (ns : String) (targetDatasourceId branch : Option String)
    (includeInternals : Bool) (mode : String) (fuel : ℕ) : Option LineageGraph :=
  let branch := nonempty? (branch.map Compute.strip)
  let target := nonempty? targetDatasourceId
  if targetHidden T ns target then some .empty
  else
    let g := (fullGraph T target branch).select mode target includeInternals fuel
    if includeInternals then g else g.map LineageGraph.hideInternals

end DataForge.Lineage
