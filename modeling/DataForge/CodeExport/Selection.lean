import DataForge.Analyses.Pipeline
import DataForge.Forest.Kahn
import Mathlib

/-!
# The tabs of a code export

What code is generated for and in which order (`modules/export/generators.py:103-189`). The
dictionaries by tab id keep the last tab of an id. Sets are lists here, run through in the order
of their elements; what is selected does not depend on that order.
-/

namespace DataForge.CodeExport

open Analyses Relation Search

variable {κ δ : Type}

/-! ## Dependencies -/

/-- `StepTypes.dependency_config_keys` (`step_types.py:215-217`). -/
def dependencyConfigKeys (stepType : String) : List String :=
  if stepType = "join" then ["right_source"]
  else if stepType = "union_by_name" then ["sources"]
  else []

/-- `config.get(key)`, for the keys that name sources. -/
def configGet (config : StepConfig κ) (key : String) : Option Value :=
  if key = "right_source" then config.rightSource
  else if key = "sources" then config.sources
  else none

/-- `StepTypes.dependency_values` (`step_types.py:219-227`). -/
def dependencyValues (stepType : String) (config : StepConfig κ) : List String :=
  (dependencyConfigKeys stepType).flatMap fun key =>
    match configGet config key with
    | some (.str s) => [s].filter (· ≠ "")
    | some value => value.strings.filter (· ≠ "")
    | none => []

/-- `_upstream_tab_id`. -/
def upstreamTabId (tab : PipelineTab κ δ) : Option String :=
  tab.datasource.analysisTabId.filter (· ≠ "")

/-- `_tab_dependencies`. -/
def tabDependencies (tab : PipelineTab κ δ) : List String :=
  ((upstreamTabId tab).toList ++ tab.steps.flatMap fun s => dependencyValues s.type s.config).dedup

/-! ## The selection -/

/-- `ExportSelection`. -/
structure ExportSelection (κ δ : Type) where
  orderedTabs : List (PipelineTab κ δ)
  targetTab : PipelineTab κ δ

variable (tabs : List (PipelineTab κ δ))

/-- `tab_map.get(id)`. -/
def tabMap (id : String) : Option (PipelineTab κ δ) := tabs.reverse.find? (·.id = id)

/-- `order_index[id]`: where the last tab of an id stands. -/
def orderIndex (id : String) : ℕ := tabs.length - 1 - tabs.reverse.findIdx (·.id = id)

/-- The dependencies of a tab among some tabs. -/
def dependenciesIn (ids : List String) (id : String) : List String :=
  match tabMap tabs id with
  | some tab => (tabDependencies tab).filter (· ∈ ids)
  | none => []

/-- `sorted(ids, key=lambda tid: order_index[tid])`. -/
def sorted (ids : List String) : List String :=
  ids.insertionSort fun a b => orderIndex tabs a ≤ orderIndex tabs b

/-- `required`, when a tab is asked for: what the loop over `stack` collects. -/
def requiredTabs (tabId : String) : Option (List String) :=
  let ids := (tabs.map (·.id)).dedup
  visit (dependenciesIn tabs ids)
    (1 + (ids.map fun id => (dependenciesIn tabs ids id).length).sum) [tabId] []

/-- `ordered_ids`: by the queue of the tabs with no dependency left, then the others. -/
def orderedIds (required : List String) : Option (List String) :=
  let graph := fun dep => required.filter fun tid => dep ∈ dependenciesIn tabs required tid
  let inDegree := fun tid => ((dependenciesIn tabs required tid).length : ℤ)
  let queue := sorted tabs (required.filter fun tid => inDegree tid = 0)
  (kahn (fun tid => sorted tabs (graph tid)) required.length (inDegree, queue) []).map fun ids =>
    ids ++ sorted tabs (required.filter (· ∉ ids))

/-- `select_tabs`; the loops never run out of fuel (`selectTabs_spec`). -/
def selectTabs (tabId : Option String) : Except Failure (ExportSelection κ δ) :=
  match tabs.getLast? with
  | none => .error (.valueError "Analysis has no tabs to export")
  | some last =>
    let select (targetTab : PipelineTab κ δ) (required : Option (List String)) :=
      match required.bind (orderedIds tabs) with
      | some ids => .ok { orderedTabs := ids.filterMap (tabMap tabs), targetTab }
      | none => .error .endless
    match tabId.filter (· ≠ "") with
    | none => select last (some (tabs.map (·.id)).dedup)
    | some id =>
      match tabMap tabs id with
      | some targetTab => select targetTab (requiredTabs tabs id)
      | none => .error (.valueError ("Tab " ++ id ++ " not found"))

/-! ## What is selected -/

/-- The tabs that a tab depends on. -/
def dependencies : String → List String := dependenciesIn tabs (tabs.map (·.id)).dedup

/-- The tabs to export: the target and what it depends on, however far, or all of them. -/
def Wanted (tabId : Option String) (id : String) : Prop :=
  id ∈ tabs.map (·.id) ∧
    ∀ target, tabId.filter (· ≠ "") = some target →
      ReflTransGen (Edge (dependencies tabs)) target id

variable {tabs} {required : List String} {id : String} {tab : PipelineTab κ δ}

theorem id_of_tabMap (h : tabMap tabs id = some tab) : tab.id = id := by
  simpa using List.find?_some h

theorem mem_of_tabMap (h : tabMap tabs id = some tab) : tab ∈ tabs :=
  List.mem_reverse.mp (List.mem_of_find?_eq_some h)

theorem tabMap_of_mem (h : id ∈ tabs.map (·.id)) : ∃ tab, tabMap tabs id = some tab := by
  obtain ⟨t, ht, hid⟩ := List.mem_map.mp h
  refine Option.isSome_iff_exists.mp (List.find?_isSome.mpr ⟨t, List.mem_reverse.mpr ht, ?_⟩)
  exact decide_eq_true hid

theorem mem_ids_of_dependencies {d : String} (h : d ∈ dependencies tabs id) :
    d ∈ tabs.map (·.id) := by
  rw [dependencies, dependenciesIn] at h
  split at h
  · exact List.mem_dedup.mp (of_decide_eq_true (List.mem_filter.mp h).2)
  · cases h

theorem perm_sorted (ids : List String) : (sorted tabs ids).Perm ids := List.perm_insertionSort _ _

theorem pairwise_sorted (ids : List String) :
    (sorted tabs ids).Pairwise fun a b => orderIndex tabs a ≤ orderIndex tabs b := by
  have : Std.Total fun a b : String => orderIndex tabs a ≤ orderIndex tabs b :=
    ⟨fun a b => Nat.le_total _ _⟩
  have : IsTrans String fun a b => orderIndex tabs a ≤ orderIndex tabs b :=
    ⟨fun _ _ _ => Nat.le_trans⟩
  exact List.pairwise_insertionSort _ _

/-- Some tabs with everything they depend on. -/
structure Closed (tabs : List (PipelineTab κ δ)) (required : List String) : Prop where
  nodup : required.Nodup
  known : ∀ c ∈ required, c ∈ tabs.map (·.id)
  closed : ∀ c ∈ required, ∀ d ∈ dependencies tabs c, d ∈ required

theorem Closed.dependenciesIn_eq (h : Closed tabs required) {c : String} (hc : c ∈ required) :
    dependenciesIn tabs required c = dependencies tabs c := by
  have hclosed := h.closed c hc
  obtain ⟨tab, htab⟩ := tabMap_of_mem (h.known c hc)
  rw [dependencies, dependenciesIn, htab] at hclosed ⊢
  rw [dependenciesIn, htab]
  refine List.filter_congr fun d hd => ?_
  rw [decide_eq_decide, List.mem_dedup]
  refine ⟨h.known d, fun hin => hclosed d (List.mem_filter.mpr ⟨hd, ?_⟩)⟩
  rw [decide_eq_true_eq, List.mem_dedup]
  exact hin

theorem Closed.dependencies (h : Closed tabs required) :
    Dependencies required (dependencies tabs) fun d => sorted tabs
      (required.filter fun c => d ∈ dependenciesIn tabs required c) where
  nodup := h.nodup
  mem := h.closed
  deps_nodup c := by
    rw [CodeExport.dependencies, dependenciesIn]
    split
    · exact (List.nodup_dedup _).filter _
    · exact List.nodup_nil
  children_nodup d := (perm_sorted _).nodup_iff.mpr (h.nodup.filter _)
  mem_children c d := by
    rw [(perm_sorted _).mem_iff, List.mem_filter, decide_eq_true_eq]
    exact and_congr_right fun hc => by rw [h.dependenciesIn_eq hc]

theorem Closed.sorting (h : Closed tabs required) :
    Sorting required (CodeExport.dependencies tabs)
      (fun c => ((dependenciesIn tabs required c).length : ℤ), sorted tabs (required.filter fun c =>
        ((dependenciesIn tabs required c).length : ℤ) = 0)) [] where
  nodup := (perm_sorted _).nodup_iff.mpr (h.nodup.filter _)
  mem c := by
    rw [List.nil_append, (perm_sorted _).mem_iff, List.mem_filter, decide_eq_true_eq]
    refine and_congr_right fun hc => ?_
    rw [h.dependenciesIn_eq hc, Int.natCast_eq_zero, List.length_eq_zero_iff,
      List.eq_nil_iff_forall_not_mem]
    exact forall_congr' fun d => by simp
  degree c hc := by simp [h.dependenciesIn_eq hc]
  before c hc := by cases hc

/-- The order of a closed selection: each tab once, those that no cycle is reached from behind
what they depend on, the others at the end as the analysis has them. -/
structure DependencyOrder (tabs : List (PipelineTab κ δ)) (required ready rest : List String) :
    Prop where
  nodup : (ready ++ rest).Nodup
  mem : ∀ c, c ∈ ready ++ rest ↔ c ∈ required
  before : ∀ c ∈ ready, ∀ d ∈ dependencies tabs c, List.Sublist [d, c] ready
  entangled : ∀ c ∈ required, c ∈ rest ↔ Entangled (dependencies tabs) c
  stable : rest.Pairwise fun a b => orderIndex tabs a ≤ orderIndex tabs b

theorem Closed.orderedIds (h : Closed tabs required) :
    ∃ ready rest, orderedIds tabs required = some (ready ++ rest) ∧
      DependencyOrder tabs required ready rest := by
  obtain ⟨ready, degree, hkahn, hsorted⟩ := kahn_of_sorting h.dependencies h.sorting
    (Nat.le_refl (required.length + 0))
  have hin := hsorted.mem
  have hnodup := hsorted.nodup
  rw [List.append_nil] at hin hnodup
  have hrest : ∀ c, c ∈ sorted tabs (required.filter (· ∉ ready)) ↔ c ∈ required ∧ c ∉ ready := by
    intro c
    rw [(perm_sorted _).mem_iff, List.mem_filter, decide_eq_true_eq]
  refine ⟨ready, sorted tabs (required.filter (· ∉ ready)), ?_, ?_, ?_, hsorted.before, ?_, ?_⟩
  · rw [CodeExport.orderedIds, hkahn]
    rfl
  · refine List.nodup_append.mpr
      ⟨hnodup, (perm_sorted _).nodup_iff.mpr (h.nodup.filter _), ?_⟩
    rintro c hc _ hout rfl
    exact ((hrest c).mp hout).2 hc
  · intro c
    rw [List.mem_append, hrest]
    have hsub : c ∈ ready → c ∈ required := fun hc => ((hin c).mp hc).1
    tauto
  · intro c hc
    rw [hrest, hsorted.mem_iff h.dependencies hc, not_not]
    exact and_iff_right hc
  · exact pairwise_sorted _

theorem closed_all : Closed tabs (tabs.map (·.id)).dedup where
  nodup := List.nodup_dedup _
  known _ hc := List.mem_dedup.mp hc
  closed _ _ _ hd := List.mem_dedup.mpr (mem_ids_of_dependencies hd)

theorem closed_requiredTabs (hid : id ∈ tabs.map (·.id)) :
    ∃ required, requiredTabs tabs id = some required ∧ Closed tabs required ∧
      ∀ c, c ∈ required ↔ ReflTransGen (Edge (dependencies tabs)) id c := by
  have hpoints : ∀ a ∈ (tabs.map (·.id)).dedup, ∀ d ∈ dependencies tabs a,
      d ∈ (tabs.map (·.id)).dedup := fun _ _ _ hd =>
    List.mem_dedup.mpr (mem_ids_of_dependencies hd)
  obtain ⟨required, hvisit, hnodup, hmem⟩ :=
    visit_start hpoints (List.nodup_dedup _) (List.mem_dedup.mpr hid)
  refine ⟨required, hvisit, ⟨hnodup, fun c hc => ?_, fun c hc d hd => ?_⟩, hmem⟩
  · rcases ((hmem c).mp hc).cases_tail with rfl | ⟨b, -, hb⟩
    · exact hid
    · exact mem_ids_of_dependencies hb
  · exact (hmem d).mpr (((hmem c).mp hc).tail hd)

theorem filterMap_tabMap {ids : List String} (h : ∀ c ∈ ids, c ∈ tabs.map (·.id)) :
    (ids.filterMap (tabMap tabs)).map (·.id) = ids := by
  induction ids with
  | nil => rfl
  | cons c ids ih =>
    obtain ⟨tab, htab⟩ := tabMap_of_mem (h c List.mem_cons_self)
    rw [List.filterMap_cons_some htab, List.map_cons, id_of_tabMap htab,
      ih fun d hd => h d (List.mem_cons_of_mem _ hd)]

/-- What a successful selection consists of. -/
structure Selected (tabs : List (PipelineTab κ δ)) (tabId : Option String)
    (sel : ExportSelection κ δ) (ready rest : List String) : Prop where
  ids : sel.orderedTabs.map (·.id) = ready ++ rest
  order : DependencyOrder tabs (ready ++ rest) ready rest
  mem : ∀ c, c ∈ ready ++ rest ↔ Wanted tabs tabId c
  lookup : ∀ t ∈ sel.orderedTabs, tabMap tabs t.id = some t
  target : sel.targetTab ∈ sel.orderedTabs
  named : ∀ id, tabId.filter (· ≠ "") = some id → sel.targetTab.id = id

theorem selectTabs_spec {tabId : Option String} (hne : tabs ≠ [])
    (hid : ∀ id, tabId = some id → id ≠ "" → id ∈ tabs.map (·.id)) :
    ∃ sel ready rest, selectTabs tabs tabId = .ok sel ∧ Selected tabs tabId sel ready rest := by
  have hselect : ∀ required target, Closed tabs required → tabMap tabs target.id = some target →
      target.id ∈ required → (∀ c, c ∈ required ↔ Wanted tabs tabId c) →
      (∀ id, tabId.filter (· ≠ "") = some id → target.id = id) →
      ∃ ids ready rest, orderedIds tabs required = some ids ∧
        Selected tabs tabId ⟨ids.filterMap (tabMap tabs), target⟩ ready rest := by
    intro required target hclosed htarget hmem hwanted hnamed
    obtain ⟨ready, rest, hids, horder⟩ := hclosed.orderedIds
    have hknown : ∀ c ∈ ready ++ rest, c ∈ tabs.map (·.id) := fun c hc =>
      hclosed.known c ((horder.mem c).mp hc)
    refine ⟨_, ready, rest, hids, filterMap_tabMap hknown, ?_, ?_, ?_, ?_, hnamed⟩
    · exact ⟨horder.nodup, fun _ => Iff.rfl, horder.before,
        fun c hc => horder.entangled c ((horder.mem c).mp hc), horder.stable⟩
    · exact fun c => (horder.mem c).trans (hwanted c)
    · intro t ht
      obtain ⟨c, -, hc⟩ := List.mem_filterMap.mp ht
      rwa [id_of_tabMap hc]
    · exact List.mem_filterMap.mpr ⟨_, (horder.mem _).mpr hmem, htarget⟩
  obtain ⟨last, hgetLast⟩ := Option.isSome_iff_exists.mp (List.getLast?_isSome.mpr hne)
  have hlast : tabMap tabs last.id = some last := by
    obtain ⟨front, hfront⟩ := List.head?_eq_some_iff.mp (List.head?_reverse.trans hgetLast)
    rw [tabMap, hfront, List.find?_cons_of_pos (by exact decide_eq_true rfl)]
  rw [selectTabs, hgetLast]
  cases hfilter : tabId.filter (· ≠ "") with
  | none =>
    obtain ⟨ids, ready, rest, hids, hsel⟩ := hselect _ last closed_all hlast
      (List.mem_dedup.mpr (List.mem_map_of_mem (mem_of_tabMap hlast)))
      (fun c => by
        rw [Wanted, List.mem_dedup, hfilter]
        simp)
      (fun id h => by cases hfilter.symm.trans h)
    refine ⟨_, ready, rest, ?_, hsel⟩
    simp only [Option.bind_some, hids]
  | some target =>
    obtain ⟨htarget, hne⟩ := Option.filter_eq_some_iff.mp hfilter
    have hin := hid target htarget (of_decide_eq_true hne)
    obtain ⟨tab, htab⟩ := tabMap_of_mem hin
    obtain ⟨required, hreq, hclosed, hreach⟩ := closed_requiredTabs hin
    have hself : tab.id ∈ required := (hreach _).mpr (id_of_tabMap htab ▸ .refl)
    obtain ⟨ids, ready, rest, hids, hsel⟩ := hselect required tab hclosed
      (id_of_tabMap htab ▸ htab) hself
      (fun c => by
        rw [hreach, Wanted, hfilter]
        refine ⟨fun hpath => ⟨hclosed.known c ((hreach c).mpr hpath), ?_⟩, fun h => h.2 _ rfl⟩
        rintro _ ⟨⟩
        exact hpath)
      (fun id h => (id_of_tabMap htab).trans (Option.some_inj.mp (hfilter.symm.trans h)))
    refine ⟨_, ready, rest, ?_, hsel⟩
    simp only [htab, hreq, Option.bind_some, hids]

/-- A code export puts every tab behind the tabs it depends on: it has exactly the wanted tabs,
each once; those from which no cycle of dependencies is reached come first, each behind all its
dependencies, and the others follow as the analysis has them. A tab that is asked for is the
target. -/
theorem tabs_in_dependency_order (tabs : List (PipelineTab κ δ)) (tabId : Option String)
    (hne : tabs ≠ []) (hid : ∀ id, tabId = some id → id ≠ "" → id ∈ tabs.map (·.id)) :
    ∃ sel ready rest, selectTabs tabs tabId = .ok sel ∧
      sel.orderedTabs.map (·.id) = ready ++ rest ∧ (ready ++ rest).Nodup ∧
      (∀ c, c ∈ ready ++ rest ↔ Wanted tabs tabId c) ∧
      (∀ c ∈ ready, ∀ d ∈ dependencies tabs c, List.Sublist [d, c] ready) ∧
      (∀ c, c ∈ rest ↔ Wanted tabs tabId c ∧ Entangled (dependencies tabs) c) ∧
      (rest.Pairwise fun a b => orderIndex tabs a ≤ orderIndex tabs b) ∧
      (∀ t ∈ sel.orderedTabs, tabMap tabs t.id = some t) ∧ sel.targetTab ∈ sel.orderedTabs ∧
      ∀ id, tabId.filter (· ≠ "") = some id → sel.targetTab.id = id := by
  obtain ⟨sel, ready, rest, hok, h⟩ := selectTabs_spec hne hid
  refine ⟨sel, ready, rest, hok, h.ids, h.order.nodup, h.mem, h.order.before, fun c => ?_,
    h.order.stable, h.lookup, h.target, h.named⟩
  rw [← h.mem c]
  constructor
  · intro hc
    have hin : c ∈ ready ++ rest := List.mem_append_right _ hc
    exact ⟨hin, (h.order.entangled c hin).mp hc⟩
  · rintro ⟨hin, hcycle⟩
    exact (h.order.entangled c hin).mpr hcycle

/-- A tab that reads another one. -/
def sampleTab (id : String) (upstream : Option String) : PipelineTab Unit Unit where
  id
  name := id
  datasource := { id := "orders", analysisTabId := upstream }
  resultId := id
  rest := ()

theorem tabs_in_dependency_order_reversed :
    ∃ sel ready rest,
      selectTabs [sampleTab "b" (some "a"), sampleTab "a" none] (some "b") = .ok sel ∧
      sel.orderedTabs.map (·.id) = ready ++ rest ∧
      ∀ c ∈ ready, ∀ d ∈ dependencies [sampleTab "b" (some "a"), sampleTab "a" none] c,
        List.Sublist [d, c] ready := by
  obtain ⟨sel, ready, rest, hok, hids, -, -, hbefore, -⟩ := tabs_in_dependency_order
    [sampleTab "b" (some "a"), sampleTab "a" none] (some "b") (by simp)
    (by rintro _ ⟨⟩ -; decide)
  exact ⟨sel, ready, rest, hok, hids, hbefore⟩

example : (selectTabs [sampleTab "c" (some "c"), sampleTab "b" (some "a"), sampleTab "a" none]
    none).toOption.map (·.orderedTabs.map (·.id)) = some ["a", "b", "c"] := by decide

end DataForge.CodeExport
