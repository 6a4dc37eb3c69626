import DataForge.Documents.Json
import DataForge.Effects.Except

/-!
# The codec of pipeline definitions

`backend_core/domain/analysis/pipeline_types.py:7-134`: the records of a stored pipeline with
their `from_dict` and `to_dict`. `from_dict` checks neither the elements of `depends_on` nor
the values of `is_applied`, `analysis_tab_id` and `parent_id`, which are JSON values here;
a missing value is null.
-/

namespace DataForge.Codec

open Documents Effects

variable {ν : Type}

/-- What `from_dict` raises: a document without `get`, or a value that is no iterable. -/
inductive CodecError
  | attributeError
  | typeError
deriving DecidableEq, Repr

/-- `str(value)`, with the representation of floats, lists and dictionaries. -/
def str (repr : Json ν → String) : Json ν → String
  | .null => "None"
  | .bool true => "True"
  | .bool false => "False"
  | .int n => toString n
  | .str s => s
  | j => repr j

/-- `data.get(key)`. -/
def get (data : Fields ν) (key : String) : Json ν := (data.get? key).getD .null

/-- `str(data.get(key, ''))`. -/
def getStr (repr : Json ν → String) (data : Fields ν) (key : String) : String :=
  str repr ((data.get? key).getD (.str ""))

/-- `raw if isinstance(raw, dict) else {}` for the value of a key. -/
def getDict (data : Fields ν) (key : String) : Fields ν :=
  (get data key).entries?.getD []

/-- The dictionaries among the elements of an iterable, `[]` where the key is missing. -/
def getDicts (data : Fields ν) (key : String) : Except CodecError (List (Fields ν)) :=
  match (data.get? key).getD (.arr []) with
  | .arr items => .ok (items.filterMap Json.entries?)
  | .str _ | .obj _ => .ok []
  | _ => .error .typeError

/-- `PipelineStep`. -/
structure PipelineStep (ν : Type) where
  id : String
  type : String
  config : Fields ν
  dependsOn : List (Json ν) := []
  isApplied : Json ν := .null

/-- `PipelineStep.from_dict`. -/
def PipelineStep.fromDict (repr : Json ν → String) (data : Fields ν) : PipelineStep ν where
  id := getStr repr data "id"
  type := getStr repr data "type"
  config := getDict data "config"
  dependsOn :=
    match get data "depends_on" with
    | .arr items => items
    | _ => []
  isApplied := get data "is_applied"

/-- `PipelineStep.to_dict`. -/
def PipelineStep.toDict (s : PipelineStep ν) : Fields ν :=
  [("id", .str s.id), ("type", .str s.type), ("config", .obj s.config),
    ("depends_on", .arr s.dependsOn), ("is_applied", s.isApplied)]

/-- `TabDatasource`. -/
structure TabDatasource (ν : Type) where
  id : String
  config : Fields ν
  analysisTabId : Json ν := .null

/-- `TabDatasource.from_dict`. -/
def TabDatasource.fromDict (repr : Json ν → String) (data : Fields ν) : TabDatasource ν where
  id := getStr repr data "id"
  config := getDict data "config"
  analysisTabId := get data "analysis_tab_id"

/-- `TabDatasource.to_dict`. -/
def TabDatasource.toDict (d : TabDatasource ν) : Fields ν :=
  [("id", .str d.id), ("config", .obj d.config), ("analysis_tab_id", d.analysisTabId)]

/-- `TabOutput`; `extra` is a dictionary. -/
@[ext]
structure TabOutput (ν : Type) where
  resultId : String
  format : String
  filename : String
  extra : Fields ν := []
  nodup : (Fields.keys extra).Nodup

/-- The keys of an output that have a field of their own. -/
def namedKeys : List String := ["result_id", "format", "filename"]

/-- `TabOutput.from_dict`. -/
def TabOutput.fromDict (repr : Json ν → String) (data : Fields ν) : TabOutput ν where
  resultId := getStr repr data "result_id"
  format := getStr repr data "format"
  filename := getStr repr data "filename"
  extra := Fields.update [] (data.filter fun e => e.1 ∉ namedKeys)
  nodup := Fields.nodup_update (l := []) List.nodup_nil _

/-- `TabOutput.to_dict`. -/
def TabOutput.toDict (o : TabOutput ν) : Fields ν :=
  Fields.update
    [("result_id", .str o.resultId), ("format", .str o.format), ("filename", .str o.filename)]
    o.extra

/-- `PipelineTab`. -/
structure PipelineTab (ν : Type) where
  id : String
  name : String
  datasource : TabDatasource ν
  output : TabOutput ν
  steps : List (PipelineStep ν) := []
  parentId : Json ν := .null

/-- `PipelineTab.from_dict`. -/
def PipelineTab.fromDict (repr : Json ν → String) (data : Fields ν) :
    Except CodecError (PipelineTab ν) := do
  let rawSteps ← getDicts data "steps"
  return {
    id := getStr repr data "id"
    name := getStr repr data "name"
    datasource := .fromDict repr (getDict data "datasource")
    output := .fromDict repr (getDict data "output")
    steps := rawSteps.map (.fromDict repr)
    parentId := get data "parent_id" }

/-- `PipelineTab.to_dict`. -/
def PipelineTab.toDict (t : PipelineTab ν) : Fields ν :=
  let result : Fields ν :=
    [("id", .str t.id), ("name", .str t.name), ("datasource", .obj t.datasource.toDict),
      ("output", .obj t.output.toDict), ("steps", .arr (t.steps.map fun s => .obj s.toDict))]
  match t.parentId with
  | .null => result
  | parentId => Fields.put result ("parent_id", parentId)

/-- `PipelineDefinition`. -/
structure PipelineDefinition (ν : Type) where
  tabs : List (PipelineTab ν) := []

/-- `PipelineDefinition.from_dict`. -/
def PipelineDefinition.fromDict (repr : Json ν → String) :
    Json ν → Except CodecError (PipelineDefinition ν)
  | .obj data => do
    let rawTabs ← getDicts data "tabs"
    return { tabs := ← rawTabs.mapM (PipelineTab.fromDict repr) }
  | _ => .error .attributeError

/-- `PipelineDefinition.to_dict`. -/
def PipelineDefinition.toDict (p : PipelineDefinition ν) : Json ν :=
  .obj [("tabs", .arr (p.tabs.map fun t => .obj t.toDict))]

/-- `from_dict` followed by `to_dict`. -/
def recode (repr : Json ν → String) (d : Json ν) : Except CodecError (Json ν) :=
  PipelineDefinition.toDict <$> PipelineDefinition.fromDict repr d

/-- The extras of an output do not reuse the named keys. -/
def TabOutput.Plain (o : TabOutput ν) : Prop := ∀ k ∈ Fields.keys o.extra, k ∉ namedKeys

/-- No output of the pipeline has extras that reuse the named keys. -/
def PipelineDefinition.Plain (p : PipelineDefinition ν) : Prop :=
  ∀ t ∈ p.tabs, t.output.Plain

end DataForge.Codec
