import DataForge.Pipeline.Applied
import DataForge.Pipeline.Required

/-!
# Step requests

A step request runs the applied steps up to the target, in list order, and takes the frame of
the last step in breadth-first order. That frame is the one of the target exactly when the
target's ancestors stand before it in the list and its path is the greatest among the steps
before it.
-/

namespace DataForge.Pipeline

open ReadCommitted

variable {κ ρ π F : Type} [StepParams π]

/-- Operations that never raise. -/
structure Operations (κ ρ π F : Type) where
  hydrate : κ → κ
  convert : κ → BackendStep π
  apply : BackendStep π → String → F → (String → Option F) → Option F → F
  load : SourceConfig ρ → F

namespace Operations

variable (ops : Operations κ ρ π F)

/-- The engine with these operations. -/
def engine : Engine κ ρ π Unit F where
  convert body := .ok (ops.convert body)
  apply b id frame rights right := .ok (ops.apply b id frame rights right)
  collects _ := true
  localPath _ := none
  hash _ := none

/-- Storage whose sources all load. -/
def world : World ρ F where
  resolveIceberg _ := none
  stat _ := none
  load config := .ok (ops.load config)

/-- The operation of a step, next to additional sources. -/
def run (additional : Table String (SourceConfig ρ)) (id : String) (body : κ) (frame : F) : F :=
  let b := ops.convert body
  let rights := fun source => (additional.get source).map ops.load
  ops.apply b id frame rights (b.rightSource.bind rights)

/-- The operation of a step of a list, by its id. -/
def runOf (additional : Table String (SourceConfig ρ)) (steps : List (Step κ)) (frame : F)
    (id : String) : F :=
  match steps.find? fun s => s.id = id with
  | some s => ops.run additional id s.body frame
  | none => frame

end Operations

/-! ## Running a plan without a cache -/

section Total

variable (ops : Operations κ ρ π F) (additional : Table String (SourceConfig ρ))

omit [StepParams π] in
private theorem foldlM_load (required : List String) (l : List (String × SourceConfig ρ)) :
    ∀ t : Table String F, l.foldlM (fun t e =>
        if (none : Option (PreviewCache Unit F)).isSome ∧ e.1 ∉ required then .ok t
        else
          match loadSource ops.world (none : Option (PreviewCache Unit F))
            (((Table.empty : Table String (Option Unit)).get e.1).getD none) e.2 with
          | .ok frame => .ok (t.put e.1 (some frame))
          | .error message => .error (BuildError.additionalSource e.1 message)) t =
      Except.ok ((l.map fun e => (e.1, ops.load e.2)).foldl
        (fun t e => t.put e.1 (some e.2)) t) := by
  induction l with
  | nil => exact fun t => rfl
  | cons e rest ih =>
    intro t
    rw [List.foldlM_cons, List.map_cons, List.foldl_cons, ← ih]
    rfl

omit [StepParams π] in
theorem loadRightSources_total (config : SourceConfig ρ) (required : List String) :
    ∃ rights, loadRightSources ops.world (none : Option (PreviewCache Unit F))
      (.none config additional) required = .ok rights ∧
      ∀ id, rights.get id = (additional.get id).map ops.load := by
  let rows := additional.rows.map fun e => (e.1, ops.load e.2)
  refine ⟨_, foldlM_load ops required additional.rows .empty, fun id => ?_⟩
  have hrows := Table.rows_foldl_put (Table.empty : Table String F) rows (by
    simpa [rows, Table.empty, Function.comp_def] using additional.nodup)
  have hmem : ∀ v, (rows.foldl (fun t e => t.put e.1 (some e.2)) Table.empty).get id = some v ↔
      (additional.get id).map ops.load = some v := by
    intro v
    rw [← Table.mem_rows_iff, hrows, Option.map_eq_some_iff]
    simp [rows, Table.empty, ← Table.mem_rows_iff]
  exact Option.ext hmem

variable {steps : List (Step κ)} {E : Forest String} {g : Graph}

/-- Without a cache the loop computes, for each required step, the composition along its
path. -/
theorem buildLoop_total (hw : Wired steps E.parent) (hnodes : E.nodes = ids steps)
    (hg : ∀ id ∈ E.nodes, g.parent id = E.parent id) {required : List String}
    (hreq : Required ⟨buildStepMap steps, g, E.order⟩ (fun _ => false) required)
    (config : SourceConfig ρ) (rights : Table String F)
    (hrights : ∀ id, rights.get id = (additional.get id).map ops.load) (base : F) :
    ∀ (l2 l1 : List String) (frames : Table String F), E.order = l1 ++ l2 →
      (∀ id, id ∈ l1 → id ∈ required →
        frames.get id = some ((E.path id).foldl (ops.runOf additional steps) base)) →
      ∃ frames', buildLoop ops.engine ⟨buildStepMap steps, g, E.order⟩
          (.none config additional) required base rights l2 (none, frames) =
          (none, .ok frames') ∧
        ∀ id ∈ E.order, id ∈ required →
          frames'.get id = some ((E.path id).foldl (ops.runOf additional steps) base) := by
  intro l2
  induction l2 with
  | nil =>
    intro l1 frames hl h
    rw [List.append_nil] at hl
    exact ⟨frames, rfl, fun id hid => h id (hl ▸ hid)⟩
  | cons x l2 ih =>
    intro l1 frames hl h
    have hx : x ∈ E.nodes := Forest.order_perm.subset (by simp [hl])
    have hl' : E.order = (l1 ++ [x]) ++ l2 := by rw [hl, List.append_assoc]; rfl
    rw [buildLoop]
    by_cases hr : x ∈ required
    · obtain ⟨s, hs, rfl⟩ := List.mem_map.mp (hnodes ▸ hx)
      have hfind := find?_id hw.unique hs
      have hrun : ∀ frame, ops.apply (ops.convert s.body) s.id frame rights.get
          ((ops.convert s.body).rightSource.bind rights.get) =
          ops.runOf additional steps frame s.id := by
        intro frame
        have hfun : rights.get = fun source => (additional.get source).map ops.load :=
          funext hrights
        rw [Operations.runOf, hfind, hfun]
        rfl
      have hparent : g.input base frames s.id =
          some ((E.path s.id).dropLast.foldl (ops.runOf additional steps) base) := by
        rw [Graph.input, hg _ hx]
        cases hp : E.parent s.id with
        | none => simp [Forest.path_root hx hp]
        | some p =>
          have hp1 := Forest.parent_mem_of_order hl hp
          have hpr := hreq.parent s.id hr rfl p (by rw [hg _ hx, hp])
          rw [Forest.path_child hx hp, List.dropLast_concat]
          exact h p hp1 hpr
      have hstep : buildStep ops.engine ⟨buildStepMap steps, g, E.order⟩
          (.none config additional) required base rights (none, frames) s.id =
          .ok (none, frames.put s.id
            (some ((E.path s.id).foldl (ops.runOf additional steps) base))) := by
        have hlast := Forest.getLast?_path hx
        obtain ⟨l, hl⟩ := List.getLast?_eq_some_iff.mp hlast
        unfold buildStep
        rw [hl, List.dropLast_concat] at hparent
        simp only [hr, not_true_eq_false, Lookup.none, Table.get_empty, Option.isSome_none,
          Bool.false_eq_true, or_self, if_false, get_buildStepMap hw.unique hw.named hs,
          Operations.engine, hparent, hrun, hl, List.foldl_append, List.foldl_cons,
          List.foldl_nil]
      rw [hstep]
      refine ih (l1 ++ [s.id]) _ hl' fun id hid hir => ?_
      rw [Table.get_put]
      by_cases he : id = s.id
      · rw [if_pos he, he]
      · rw [if_neg he]
        refine h id ?_ hir
        simpa [he] using hid
    · have hskip : buildStep ops.engine ⟨buildStepMap steps, g, E.order⟩
          (.none config additional) required base rights (none, frames) x = .ok (none, frames) := by
        simp [buildStep, hr]
      rw [hskip]
      refine ih (l1 ++ [x]) frames hl' fun id hid hir => ?_
      have hne : id ≠ x := fun he => hr (he ▸ hir)
      exact h id (by simpa [hne] using hid) hir

/-- Without a cache the result is the composition along the path of the last step in
breadth-first order. -/
theorem buildPipelineDetails_total (hw : Wired (applySteps steps) E.parent)
    (hnodes : E.nodes = ids (applySteps steps)) (emptyFrame : F) (config : SourceConfig ρ) :
    (buildPipelineDetails ops.engine ops.world emptyFrame config steps additional none).2.map
      Prod.fst = .ok (((E.order.getLast?.map E.path).getD []).foldl
        (ops.runOf additional (applySteps steps)) (ops.load config)) := by
  obtain ⟨g, hplan, hg, hkids⟩ := planOf_eq E hw hnodes
  have hrows : (buildStepMap (applySteps steps)).rows.map Prod.fst = E.nodes := by
    rw [rows_buildStepMap hw.unique hw.named, map_fst_rowsOf, hnodes]
  have hreq := requiredSteps_spec ⟨buildStepMap (applySteps steps), g, E.order⟩ (fun _ => false)
    (by
      intro x hx q hq
      rw [hrows] at hx ⊢
      exact E.closed x hx q (by rw [← hg x hx]; exact hq))
  obtain ⟨rights, hload, hrights⟩ := loadRightSources_total ops additional config
    (requiredSources ops.engine ⟨buildStepMap (applySteps steps), g, E.order⟩
      (.none config additional) (requiredSteps ⟨buildStepMap (applySteps steps), g, E.order⟩
        fun _ => false))
  have hbase : loadBase ops.world emptyFrame ⟨buildStepMap (applySteps steps), g, E.order⟩
      (none : Option (PreviewCache Unit F)) (.none config additional)
      (requiredSteps ⟨buildStepMap (applySteps steps), g, E.order⟩ fun _ => false) =
      .ok (ops.load config) := by
    unfold loadBase
    rw [if_pos]
    · rfl
    · cases hlast : E.order.getLast? with
      | none => exact Or.inl (List.getLast?_eq_none_iff.mp hlast)
      | some e =>
        have he : e ∈ E.nodes := Forest.order_perm.subset (List.mem_of_getLast? hlast)
        have hroot : ∀ x ∈ E.nodes, x ∈ requiredSteps
            ⟨buildStepMap (applySteps steps), g, E.order⟩ (fun _ => false) →
            ∃ r ∈ requiredSteps ⟨buildStepMap (applySteps steps), g, E.order⟩ fun _ => false,
              g.parent r = none := by
          apply Forest.descend
          · intro x hx hp hr
            exact ⟨x, hr, by rw [hg x hx, hp]⟩
          · intro x hx q _ hp ih hr
            exact ih (hreq.parent x hr rfl q (by rw [hg x hx, hp]))
        have hleaf := hreq.leaf e (by rw [hrows]; exact he) (by
          rw [hkids]
          exact Forest.kids_last hlast)
        obtain ⟨r, hr, hp⟩ := hroot e he hleaf
        exact Or.inr ⟨r, hr, hp, rfl⟩
  obtain ⟨frames, hloop, hframes⟩ := buildLoop_total ops additional hw hnodes hg hreq config
    rights hrights (ops.load config) E.order [] .empty rfl (by simp)
  have hbuild : buildPipelineDetails ops.engine ops.world emptyFrame config steps additional
      none = buildFrames ops.engine ops.world emptyFrame
        ⟨buildStepMap (applySteps steps), g, E.order⟩ none (.none config additional) := by
    unfold buildPipelineDetails
    rw [hplan]
  have hfun : (fun id => ((Lookup.none config additional :
      Lookup ρ Unit F).cachedFrames.get id).isSome) = fun _ => false := rfl
  rw [hbuild]
  unfold buildFrames
  rw [hfun]
  dsimp only
  rw [hbase]
  dsimp only
  rw [hload]
  dsimp only
  cases hlast : E.order.getLast? with
  | none => rfl
  | some e =>
    have he : e ∈ E.order := List.mem_of_getLast? hlast
    have hleaf := hreq.leaf e (by rw [hrows]; exact Forest.order_perm.subset he) (by
      rw [hkids]
      exact Forest.kids_last hlast)
    dsimp only
    rw [show (Lookup.none config additional : Lookup ρ Unit F).cachedFrames = .empty from rfl,
      hloop]
    dsimp only
    rw [hframes e he hleaf]
    rfl

end Total

/-! ## The steps up to the target -/

/-- A step with library code attached. -/
def Step.hydrated (f : κ → κ) (s : Step κ) : Step κ := { s with body := f s.body }

/-- The applied steps up to a step, in list order. -/
def upTo (steps : List (Step κ)) (id : String) : List (Step κ) :=
  (applySteps steps).take ((appliedIds steps).idxOf id + 1)

/-- The path of a step as list positions. -/
def trail (steps : List (Step κ)) (id : String) : List ℕ :=
  (dependencyPath steps id).map fun y => (ids steps).idxOf y

/-- The ancestors of the resolved target stand before it in the list, and every other step up to
it has a shorter path, or one of the same length that is earlier at the first difference. The
ids of the target and of the resolved target are not the word for the source. -/
def TargetLast (steps : List (Step κ)) (target : String) : Prop :=
  ∀ r, (requestPath steps target).getLast? = some r →
    target ≠ "source" ∧ r ≠ "source" ∧ requestPath steps target ⊆ ids (upTo steps r) ∧
    ∀ id ∈ ids (upTo steps r), id ≠ r →
      List.Shortlex (· < ·) (trail (upTo steps r) id) (trail (upTo steps r) r)

/-- For all operations, the request for a step gives the composition of the operations of the
applied steps on the dependency path of the step, applied to the source. -/
def ComputesTarget (steps : List (Step κ)) (target : String) : Prop :=
  ∀ (ρ π F : Type) [StepParams π] (ops : Operations κ ρ π F) (emptyFrame : F)
    (config : SourceConfig ρ) (additional : Table String (SourceConfig ρ)),
    ∃ run, stepsThroughTarget (fun body => .ok (ops.hydrate body)) steps
        (resolveAppliedTarget steps target) = .ok run ∧
      (buildPipelineDetails ops.engine ops.world emptyFrame config run additional none).2.map
        Prod.fst =
      .ok ((requestPath steps target).foldl
        (ops.runOf additional (steps.map (Step.hydrated ops.hydrate))) (ops.load config))

variable {steps : List (Step κ)}

@[simp] theorem ids_hydrated (f : κ → κ) : ids (steps.map (Step.hydrated f)) = ids steps :=
  ids_map (Step.hydrated f) (fun _ => rfl) steps

@[simp] theorem dependencyOf_hydrated (f : κ → κ) (id : String) :
    dependencyOf (steps.map (Step.hydrated f)) id = dependencyOf steps id :=
  dependencyOf_map (Step.hydrated f) (fun _ => rfl) (fun _ => rfl) steps id

theorem dependencyPath_hydrated (f : κ → κ) (id : String) :
    dependencyPath (steps.map (Step.hydrated f)) id = dependencyPath steps id := by
  have hfun : dependencyOf (steps.map (Step.hydrated f)) = dependencyOf steps :=
    funext (dependencyOf_hydrated f)
  rw [dependencyPath, dependencyPath, hfun, ids_hydrated]

theorem Proper.hydrated (h : Proper steps) (f : κ → κ) :
    Proper (steps.map (Step.hydrated f)) :=
  h.map (Step.hydrated f) (fun _ => rfl) fun _ => rfl

section UpTo

variable (h : Proper steps) (r : String)

include h

theorem ids_upTo :
    ids (upTo steps r) = (appliedIds steps).take ((appliedIds steps).idxOf r + 1) := by
  rw [upTo, ids, List.map_take]
  change (ids (applySteps steps)).take _ = _
  rw [h.ids_applySteps]

theorem mem_upTo {s : Step κ} (hs : s ∈ upTo steps r) : ∃ x ∈ steps, x.applied = true ∧
    s = { x with dependsOn := (nearest steps x.id).toList } := by
  have hs := List.mem_of_mem_take hs
  rw [h.applySteps_eq] at hs
  obtain ⟨x, hx, rfl⟩ := List.mem_map.mp hs
  exact ⟨x, (List.mem_filter.mp hx).1, (List.mem_filter.mp hx).2, rfl⟩

theorem dependencyOf_upTo {id : String} (hid : id ∈ ids (upTo steps r)) :
    dependencyOf (upTo steps r) id = (nearest steps id).filter (· ∈ ids (upTo steps r)) := by
  cases hfind : (upTo steps r).find? fun s => s.id = id with
  | none =>
    obtain ⟨s, hs, rfl⟩ := List.mem_map.mp hid
    have hnone := List.find?_eq_none.mp hfind s hs
    simp at hnone
  | some s =>
    obtain ⟨x, hx, ha, rfl⟩ := mem_upTo h r (List.mem_of_find?_eq_some hfind)
    have hxid : x.id = id := by simpa using List.find?_some hfind
    rw [dependencyOf, hfind, Option.bind_some, Step.dependency, ← hxid]
    cases hn : nearest steps x.id with
    | none => rfl
    | some p =>
      have hp := (h.reaches_nearest (List.mem_map_of_mem hx) hn).1
      obtain ⟨y, hy, rfl⟩ := List.mem_map.mp (appliedIds_subset hp)
      have hne : y.id ≠ "" := h.named y hy
      simp [Option.filter, hne]

theorem proper_upTo : Proper (upTo steps r) where
  unique := by
    rw [ids_upTo h]
    exact h.appliedForest.nodup.sublist (List.take_sublist _ _)
  named s hs := by
    obtain ⟨x, hx, -, rfl⟩ := mem_upTo h r hs
    exact h.named x hx
  single s hs := by
    obtain ⟨x, hx, -, rfl⟩ := mem_upTo h r hs
    cases nearest steps x.id <;> simp
  acyclic id hc := by
    have hsub : ids (upTo steps r) ⊆ appliedIds steps := by
      rw [ids_upTo h]
      exact (List.take_sublist _ _).subset
    have hstep : ∀ {a b : String}, dependencyOf (upTo steps r) a = some b →
        a ∈ appliedIds steps ∧ nearest steps a = some b := by
      intro a b hab
      have ha : a ∈ ids (upTo steps r) := by
        cases hfind : (upTo steps r).find? fun s => s.id = a with
        | none => simp [dependencyOf, hfind] at hab
        | some s =>
          have hsa : s.id = a := by simpa using List.find?_some hfind
          exact hsa ▸ List.mem_map_of_mem (List.mem_of_find?_eq_some hfind)
      rw [dependencyOf_upTo h r ha] at hab
      exact ⟨hsub ha, (Option.filter_eq_some_iff.mp hab).1⟩
    obtain ⟨b, hb, -⟩ := Relation.TransGen.head'_iff.mp hc
    exact h.appliedForest.acyclic id (hstep hb).1
      (Relation.TransGen.mono (fun _ _ hab => (hstep hab).2) _ _ hc)

theorem appliedIds_upTo : appliedIds (upTo steps r) = ids (upTo steps r) := by
  unfold appliedIds
  rw [List.filter_eq_self.mpr]
  intro s hs
  obtain ⟨x, -, ha, rfl⟩ := mem_upTo h r hs
  exact ha

/-- Where the ancestors of a step are among the steps up to the target, its path is that among
all applied steps. -/
theorem dependencyPath_upTo : ∀ x ∈ appliedIds steps,
    h.appliedForest.path x ⊆ ids (upTo steps r) →
    dependencyPath (upTo steps r) x = h.appliedForest.path x := by
  have hP := proper_upTo h r
  change ∀ x ∈ h.appliedForest.nodes, _
  apply Forest.descend
  · intro x hx hp hsub
    rw [Forest.path_root hx hp] at hsub ⊢
    have hxP : x ∈ ids (upTo steps r) := hsub (by simp)
    have hn : nearest steps x = none := hp
    have hroot : dependencyOf (upTo steps r) x = none := by
      rw [dependencyOf_upTo h r hxP, hn]
      rfl
    exact Forest.path_root (F := hP.forest) hxP hroot
  · intro x hx p hpn hp ih hsub
    rw [Forest.path_child hx hp] at hsub ⊢
    have hxP : x ∈ ids (upTo steps r) := hsub (by simp)
    have hpp := Forest.getLast?_path hpn
    have hpP : p ∈ ids (upTo steps r) :=
      hsub (List.mem_append_left _ (List.mem_of_getLast? hpp))
    have hn : nearest steps x = some p := hp
    have hchild : dependencyOf (upTo steps r) x = some p := by
      rw [dependencyOf_upTo h r hxP, hn]
      simp [Option.filter, hpP]
    have hpath : dependencyPath (upTo steps r) x = dependencyPath (upTo steps r) p ++ [x] :=
      Forest.path_child (F := hP.forest) hxP hchild
    rw [hpath, ih fun y hy => hsub (List.mem_append_left _ hy)]

end UpTo

/-! ## Step requests -/

private theorem mapM_hydrate (f : κ → κ) (l : List (Step κ)) :
    (l.mapM fun s => (do return { s with body := ← (.ok (f s.body) : Except String κ) })) =
      Except.ok (l.map (Step.hydrated f)) := by
  induction l with
  | nil => rfl
  | cons s rest ih =>
    rw [List.mapM_cons, ih]
    rfl

theorem findIdx?_ids (l : List (Step κ)) {id : String} (h : id ∈ ids l) :
    l.findIdx? (fun s => s.id = id) = some ((ids l).idxOf id) := by
  induction l with
  | nil => cases h
  | cons s rest ih =>
    rw [List.findIdx?_cons]
    by_cases hs : s.id = id
    · simp [hs, ids]
    · have hrest : id ∈ ids rest := by simpa [ids, Ne.symm hs] using h
      have hidx : (ids (s :: rest)).idxOf id = (ids rest).idxOf id + 1 := by
        simp only [ids, List.map_cons]
        rw [List.idxOf_cons_ne _ hs]
      simp [hs, ih hrest, hidx]

theorem stepsThroughTarget_applied (hids : ids (applySteps steps) = appliedIds steps)
    (hydrate : κ → Except String κ) {r : String} (hr : r ∈ appliedIds steps) (hs : r ≠ "source") :
    stepsThroughTarget hydrate steps r =
      (upTo steps r).mapM fun s => (do return { s with body := ← hydrate s.body }) := by
  have hidx : findStepIndex (applySteps steps) r = .ok ((appliedIds steps).idxOf r : ℤ) := by
    rw [findStepIndex, if_neg hs, findIdx?_ids _ (hids ▸ hr), hids]
  unfold stepsThroughTarget
  rw [if_neg hs]
  dsimp only
  rw [hidx]
  rfl

theorem stepsThroughTarget_eq (hids : ids (applySteps steps) = appliedIds steps) (f : κ → κ)
    {r : String} (hr : r ∈ appliedIds steps) (hs : r ≠ "source") :
    stepsThroughTarget (fun body => .ok (f body)) steps r =
      .ok ((upTo steps r).map (Step.hydrated f)) :=
  (stepsThroughTarget_applied hids _ hr hs).trans (mapM_hydrate f _)

theorem buildPipelineDetails_nil (ops : Operations κ ρ π F) (emptyFrame : F)
    (config : SourceConfig ρ) (additional : Table String (SourceConfig ρ)) :
    (buildPipelineDetails ops.engine ops.world emptyFrame config [] additional none).2.map
      Prod.fst = .ok (ops.load config) := by
  let E : Forest String := ⟨[], fun _ => none, List.nodup_nil, by simp, by simp⟩
  have hw : Wired (applySteps ([] : List (Step κ))) E.parent :=
    ⟨List.nodup_nil, by simp [applySteps], by simp [applySteps], by simp [applySteps, ids]⟩
  exact buildPipelineDetails_total ops additional hw rfl emptyFrame config

/-- Steps whose parameters name no source. -/
instance : StepParams Unit where
  rightSource _ := none
  sources _ := none
  cacheEnabled _ := true
  literalColumns _ := true

/-- Operations that write down the ids of the steps that were applied. -/
def recorder (b : BackendStep Unit) : Operations κ Unit Unit (List String) where
  hydrate body := body
  convert _ := b
  apply _ id frame _ _ := frame ++ [id]
  load _ := []

private theorem foldl_recorder (b : BackendStep Unit)
    (additional : Table String (SourceConfig Unit)) (l : List String)
    (hl : ∀ id ∈ l, id ∈ ids steps) (start : List String) :
    l.foldl ((recorder b).runOf additional steps) start = start ++ l := by
  induction l generalizing start with
  | nil => simp
  | cons id rest ih =>
    have hrun : (recorder b).runOf additional steps start id = start ++ [id] := by
      unfold Operations.runOf
      cases hfind : steps.find? fun s => s.id = id with
      | some s => rfl
      | none =>
        obtain ⟨s, hs, rfl⟩ := List.mem_map.mp (hl id List.mem_cons_self)
        have hnone := List.find?_eq_none.mp hfind s hs
        simp at hnone
    rw [List.foldl_cons, hrun, ih fun x hx => hl x (List.mem_cons_of_mem _ hx)]
    simp

theorem runOf_eq (ops : Operations κ ρ π F) (additional : Table String (SourceConfig ρ))
    (hu : (ids steps).Nodup) {s : Step κ} (hs : s ∈ steps) (frame : F) :
    ops.runOf additional steps frame s.id = ops.run additional s.id s.body frame := by
  rw [Operations.runOf, find?_id hu hs]

@[simp] theorem appliedIds_hydrated (f : κ → κ) :
    appliedIds (steps.map (Step.hydrated f)) = appliedIds steps := by
  have happ : Step.applied ∘ Step.hydrated f = (Step.applied : Step κ → Bool) := rfl
  rw [appliedIds, List.filter_map, happ, ids_hydrated]
  rfl

theorem path_appliedForest (h : Proper steps) (ha : appliedIds steps = ids steps)
    {x : String} (hx : x ∈ ids steps) : h.appliedForest.path x = dependencyPath steps x := by
  have hreq : requestPath steps x = dependencyPath steps x := by
    refine List.filter_eq_self.mpr fun y hy => ?_
    rw [ha]
    exact decide_eq_true (Forest.mem_of_mem_path (F := h.forest) x hx y hy)
  have hlast : (dependencyPath steps x).getLast? = some x :=
    Forest.getLast?_path (F := h.forest) hx
  have heq := h.requestPath_eq x hx
  rw [hreq, hlast] at heq
  exact heq.symm

private theorem runOf_applySteps {run : List (Step κ)} (hP : Proper run)
    (hall : appliedIds run = ids run) (ops : Operations κ ρ π F)
    (additional : Table String (SourceConfig ρ)) {x : String} (hx : x ∈ ids run) (frame : F) :
    ops.runOf additional (applySteps run) frame x = ops.runOf additional run frame x := by
  rw [← hall] at hx
  obtain ⟨s, hs, rfl⟩ := List.mem_map.mp hx
  have hmem : { s with dependsOn := (nearest run s.id).toList } ∈ applySteps run := by
    rw [hP.applySteps_eq]
    exact List.mem_map_of_mem hs
  have hleft := runOf_eq ops additional hP.wired_applySteps.unique hmem frame
  have hright := runOf_eq ops additional hP.unique (List.mem_filter.mp hs).1 frame
  exact hleft.trans hright.symm

/-- The step with the greatest path, which comes last in breadth-first order. -/
structure LastStep (run : List (Step κ)) (id : String) : Prop where
  mem : id ∈ ids run
  greatest : ∀ x ∈ ids run, x ≠ id → List.Shortlex (· < ·) (trail run x) (trail run id)

theorem lastStep_iff {run : List (Step κ)} (hP : Proper run) (hall : appliedIds run = ids run)
    {r : String} (hr : r ∈ ids run) :
    hP.appliedForest.order.getLast? = some r ↔ LastStep run r := by
  have hnodes : hP.appliedForest.nodes = ids run := hall
  have hchain : ∀ x ∈ ids run, hP.appliedForest.chain x = trail run x := by
    intro x hx
    rw [Forest.chain, path_appliedForest hP hall hx, hnodes]
    rfl
  rw [Forest.getLast?_order_iff (F := hP.appliedForest) (hnodes ▸ hr), hnodes]
  have hsame : (∀ y ∈ ids run, y ≠ r →
      List.Shortlex (· < ·) (hP.appliedForest.chain y) (hP.appliedForest.chain r)) ↔
      ∀ y ∈ ids run, y ≠ r → List.Shortlex (· < ·) (trail run y) (trail run r) := by
    refine forall_congr' fun y => forall_congr' fun hy => ?_
    rw [hchain y hy, hchain r hr]
  exact hsame.trans ⟨fun h => ⟨hr, h⟩, fun h => h.greatest⟩

/-- What a list of applied steps computes: the composition along the path of its last step. -/
theorem build_eq {run : List (Step κ)} (hP : Proper run) (hall : appliedIds run = ids run)
    (hne : ids run ≠ []) (ops : Operations κ ρ π F) (emptyFrame : F) (config : SourceConfig ρ)
    (additional : Table String (SourceConfig ρ)) :
    ∃ e ∈ ids run, (∀ r ∈ ids run, e = r ↔ LastStep run r) ∧
      (buildPipelineDetails ops.engine ops.world emptyFrame config run additional none).2.map
        Prod.fst =
      .ok ((dependencyPath run e).foldl (ops.runOf additional run) (ops.load config)) := by
  have hnodes : hP.appliedForest.nodes = ids run := hall
  cases hlast : hP.appliedForest.order.getLast? with
  | none =>
    refine absurd ?_ hne
    have hperm := Forest.order_perm (F := hP.appliedForest)
    rw [List.getLast?_eq_none_iff.mp hlast, hnodes] at hperm
    exact hperm.symm.eq_nil
  | some e =>
    have he : e ∈ ids run := hnodes ▸ Forest.order_perm.subset (List.mem_of_getLast? hlast)
    refine ⟨e, he, fun r hr => ?_, ?_⟩
    · rw [← lastStep_iff hP hall hr, hlast, Option.some_inj]
    · rw [buildPipelineDetails_total ops additional hP.wired_applySteps hP.ids_applySteps.symm,
        hlast, Option.map_some, Option.getD_some, path_appliedForest hP hall he]
      congr 1
      refine List.foldl_ext _ _ _ fun frame x hx => ?_
      exact runOf_applySteps hP hall ops additional
        (Forest.mem_of_mem_path (F := hP.forest) e he x hx) frame

private theorem runOf_upTo (h : Proper steps) {r : String} (ops : Operations κ ρ π F)
    (additional : Table String (SourceConfig ρ)) {x : String} (hx : x ∈ ids (upTo steps r))
    (frame : F) :
    ops.runOf additional ((upTo steps r).map (Step.hydrated ops.hydrate)) frame x =
      ops.runOf additional (steps.map (Step.hydrated ops.hydrate)) frame x := by
  have hP := (proper_upTo h r).hydrated ops.hydrate
  obtain ⟨s, hs, rfl⟩ := List.mem_map.mp hx
  obtain ⟨y, hy, -, rfl⟩ := mem_upTo h r hs
  have hleft := runOf_eq ops additional hP.unique
    (List.mem_map_of_mem (f := Step.hydrated ops.hydrate) hs) frame
  have hright := runOf_eq ops additional (h.hydrated ops.hydrate).unique
    (List.mem_map_of_mem (f := Step.hydrated ops.hydrate) hy) frame
  exact hleft.trans hright.symm

theorem trail_hydrated (f : κ → κ) (id : String) :
    trail (steps.map (Step.hydrated f)) id = trail steps id := by
  rw [trail, trail, dependencyPath_hydrated, ids_hydrated]

/-- What a request for an applied step computes. -/
theorem request_eq (h : Proper steps) {r : String} (hr : r ∈ appliedIds steps)
    (ops : Operations κ ρ π F) (emptyFrame : F) (config : SourceConfig ρ)
    (additional : Table String (SourceConfig ρ)) :
    ∃ e ∈ ids (upTo steps r),
      (e = r ↔ ∀ id ∈ ids (upTo steps r), id ≠ r →
        List.Shortlex (· < ·) (trail (upTo steps r) id) (trail (upTo steps r) r)) ∧
      (buildPipelineDetails ops.engine ops.world emptyFrame config
        ((upTo steps r).map (Step.hydrated ops.hydrate)) additional none).2.map Prod.fst =
      .ok ((dependencyPath (upTo steps r) e).foldl
        (ops.runOf additional (steps.map (Step.hydrated ops.hydrate))) (ops.load config)) := by
  have hall : appliedIds ((upTo steps r).map (Step.hydrated ops.hydrate)) =
      ids ((upTo steps r).map (Step.hydrated ops.hydrate)) := by
    rw [appliedIds_hydrated, ids_hydrated, appliedIds_upTo h]
  have hrP : r ∈ ids (upTo steps r) := by
    rw [ids_upTo h, List.mem_take_iff_idxOf_lt hr]
    exact Nat.lt_succ_self _
  obtain ⟨e, he, hlast, hbuild⟩ := build_eq ((proper_upTo h r).hydrated ops.hydrate) hall
    (List.ne_nil_of_mem (ids_hydrated ops.hydrate ▸ hrP)) ops emptyFrame config additional
  rw [ids_hydrated] at he hlast
  refine ⟨e, he, (hlast r hrP).trans ⟨fun hr => ?_, fun hr => ⟨?_, ?_⟩⟩, ?_⟩
  · simpa only [ids_hydrated, trail_hydrated] using hr.greatest
  · rwa [ids_hydrated]
  · simpa only [ids_hydrated, trail_hydrated] using hr
  · rw [hbuild, dependencyPath_hydrated]
    congr 1
    refine List.foldl_ext _ _ _ fun frame x hx => ?_
    exact runOf_upTo h ops additional
      (Forest.mem_of_mem_path (F := (proper_upTo h r).forest) e he x hx) frame

private theorem requestPath_subset (h : Proper steps) {target : String}
    (ht : target ∈ ids steps) : ∀ x ∈ requestPath steps target, x ∈ ids steps :=
  fun x hx => Forest.mem_of_mem_path (F := h.forest) target ht x (List.mem_filter.mp hx).1

/-- A step request computes the requested step, for all operations, exactly when the resolved
target comes last among the steps up to it. -/
theorem step_request_iff (h : Proper steps) {target : String} (ht : target ∈ ids steps) :
    ComputesTarget steps target ↔ TargetLast steps target := by
  let b : BackendStep Unit := ⟨"view", ()⟩
  let config : SourceConfig Unit := { kind := .other, rest := () }
  have hsub : ∀ x ∈ requestPath steps target,
      x ∈ ids (steps.map (Step.hydrated (recorder (κ := κ) b).hydrate)) := by
    rw [ids_hydrated]
    exact requestPath_subset h ht
  have hresolve := h.resolveAppliedTarget_eq ht
  cases hlast : (requestPath steps target).getLast? with
  | none =>
    have hnil := List.getLast?_eq_none_iff.mp hlast
    have hsource : resolveAppliedTarget steps target = "source" := by
      rw [hresolve, hlast]
      split <;> rfl
    refine iff_of_true (fun ρ π F _ ops emptyFrame config additional => ⟨[], ?_, ?_⟩) ?_
    · rw [hsource, stepsThroughTarget, if_pos rfl]
    · rw [buildPipelineDetails_nil, hnil]
      rfl
    · intro r hr
      rw [hlast] at hr
      cases hr
  | some r =>
    obtain ⟨l, hl⟩ := List.getLast?_eq_some_iff.mp hlast
    have hr : r ∈ appliedIds steps := by
      have hm : r ∈ requestPath steps target := by simp [hl]
      simpa using (List.mem_filter.mp hm).2
    by_cases hs : target = "source" ∨ r = "source"
    · -- the word for the source gives the source frame
      have hsource : resolveAppliedTarget steps target = "source" := by
        rw [hresolve, hlast]
        rcases hs with hs | hs <;> simp [hs]
      refine iff_of_false (fun hc => ?_) (fun hc => ?_)
      · obtain ⟨run, hrun, hbuild⟩ := hc Unit Unit (List String) (recorder b) [] config .empty
        rw [hsource, stepsThroughTarget, if_pos rfl] at hrun
        cases hrun
        rw [buildPipelineDetails_nil, foldl_recorder b .empty _ hsub] at hbuild
        simp [recorder, hl] at hbuild
      · obtain ⟨h1, h2, -⟩ := hc r hlast
        exact hs.elim h1 h2
    · rw [not_or] at hs
      have htarget : resolveAppliedTarget steps target = r := by
        rw [hresolve, if_neg hs.1, hlast, Option.getD_some]
      have hpath : h.appliedForest.path r = requestPath steps target := by
        have heq := h.requestPath_eq target ht
        rw [hlast] at heq
        exact heq.symm
      constructor
      · intro hc
        obtain ⟨run, hrun, hbuild⟩ := hc Unit Unit (List String) (recorder b) [] config .empty
        rw [htarget, stepsThroughTarget_eq h.ids_applySteps _ hr hs.2] at hrun
        cases hrun
        obtain ⟨e, he, hiff, heq⟩ := request_eq h hr (recorder b) [] config .empty
        have hsubP : ∀ x ∈ dependencyPath (upTo steps r) e, x ∈ ids (upTo steps r) :=
          Forest.mem_of_mem_path (F := (proper_upTo h r).forest) e he
        have hsubS : ∀ x ∈ dependencyPath (upTo steps r) e,
            x ∈ ids (steps.map (Step.hydrated (recorder (κ := κ) b).hydrate)) := by
          intro x hx
          have hxP := hsubP x hx
          rw [ids_upTo h] at hxP
          rw [ids_hydrated]
          exact appliedIds_subset (List.mem_of_mem_take hxP)
        rw [heq, foldl_recorder b .empty _ hsub, foldl_recorder b .empty _ hsubS] at hbuild
        have hsame : dependencyPath (upTo steps r) e = requestPath steps target := by
          simpa [recorder] using hbuild
        have her : e = r := by
          have hle : (dependencyPath (upTo steps r) e).getLast? = some e :=
            Forest.getLast?_path (F := (proper_upTo h r).forest) he
          rw [hsame, hlast] at hle
          exact (Option.some.inj hle).symm
        intro r' hr'
        rw [hlast, Option.some_inj] at hr'
        subst hr'
        exact ⟨hs.1, hs.2, fun x hx => hsubP x (hsame ▸ hx), hiff.mp her⟩
      · intro hc ρ π F _ ops emptyFrame config additional
        obtain ⟨-, -, hin, hmax⟩ := hc r hlast
        refine ⟨(upTo steps r).map (Step.hydrated ops.hydrate), ?_, ?_⟩
        · rw [htarget]
          exact stepsThroughTarget_eq h.ids_applySteps _ hr hs.2
        · obtain ⟨e, he, hiff, heq⟩ := request_eq h hr ops emptyFrame config additional
          rw [heq, hiff.mpr hmax, dependencyPath_upTo h r r hr (hpath ▸ hin), hpath]

/-- Steps that only read steps before them are proper. -/
theorem Proper.of_backward (unique : (ids steps).Nodup) (named : ∀ s ∈ steps, s.id ≠ "")
    (single : ∀ s ∈ steps, s.dependsOn.length ≤ 1)
    (back : ∀ s ∈ steps, ∀ p ∈ s.dependency, (ids steps).idxOf p < (ids steps).idxOf s.id) :
    Proper steps where
  unique
  named
  single
  acyclic id hc := by
    have hstep : ∀ {a b}, dependencyOf steps a = some b →
        (ids steps).idxOf b < (ids steps).idxOf a := by
      intro a b hab
      cases hfind : steps.find? fun s => s.id = a with
      | none => simp [dependencyOf, hfind] at hab
      | some s =>
        have hsa : s.id = a := by simpa using List.find?_some hfind
        rw [dependencyOf, hfind, Option.bind_some] at hab
        rw [← hsa]
        exact back s (List.mem_of_find?_eq_some hfind) b (Option.filter_eq_some_iff.mp hab).1
    have hlt : ∀ {a b}, Relation.TransGen (fun a b => dependencyOf steps a = some b) a b →
        (ids steps).idxOf b < (ids steps).idxOf a := by
      intro a b hab
      induction hab with
      | single hab => exact hstep hab
      | tail _ hbc ih => exact (hstep hbc).trans ih
    exact lt_irrefl _ (hlt hc)

/-- A step without configuration that reads another one. -/
def plainStep (id : String) (dependsOn : List String) : Step Unit := ⟨id, dependsOn, none, ()⟩

/-- A step and one that reads it. -/
def chainSteps : List (Step Unit) := [plainStep "a" [], plainStep "b" ["a"]]

/-- The request for the second step of a chain computes it. -/
theorem step_request_iff_chain : ComputesTarget chainSteps "b" := by
  have hproper : Proper chainSteps :=
    .of_backward (by decide) (by decide) (by decide) (by decide)
  rw [step_request_iff hproper (by decide)]
  intro r hr
  have hlast : (requestPath chainSteps "b").getLast? = some "b" := by decide
  rw [hlast, Option.some_inj] at hr
  subst hr
  refine ⟨by decide, by decide, by decide, fun id hid hne => ?_⟩
  have hids : ids (upTo chainSteps "b") = ["a", "b"] := by decide
  rw [hids, List.mem_cons, List.mem_singleton] at hid
  rw [hid.resolve_right hne]
  exact List.Shortlex.of_length_lt (by decide)

/-- Two branches of different length, the shorter one last in the list. -/
def branchSteps : List (Step Unit) :=
  [plainStep "a" [], plainStep "b" ["a"], plainStep "c" ["b"], plainStep "d" ["a"]]

/-- The request for the last step of the list computes the end of the longer branch. -/
theorem step_request_misses : Proper branchSteps ∧ "d" ∈ ids branchSteps ∧
    ¬ ComputesTarget branchSteps "d" := by
  refine ⟨.of_backward (by decide) (by decide) (by decide) (by decide), by decide, fun hc => ?_⟩
  obtain ⟨run, hrun, hbuild⟩ := hc Unit Unit (List String)
    (recorder ⟨"view", ()⟩) [] { kind := .other, rest := () } .empty
  have hgot : (match stepsThroughTarget (fun body => .ok body) branchSteps
        (resolveAppliedTarget branchSteps "d") with
      | .ok run => ((buildPipelineDetails
          (recorder (κ := Unit) ⟨"view", ()⟩).engine
          (recorder (κ := Unit) ⟨"view", ()⟩).world []
          { kind := .other, rest := () } run .empty none).2.map Prod.fst).toOption
      | .error _ => none) = some ["a", "b", "c"] := by
    decide +kernel
  have hwant : (requestPath branchSteps "d").foldl
      ((recorder (κ := Unit) ⟨"view", ()⟩).runOf .empty
        (branchSteps.map (Step.hydrated fun body => body))) [] = ["a", "d"] := by
    decide +kernel
  rw [show stepsThroughTarget (fun body => .ok body) branchSteps
    (resolveAppliedTarget branchSteps "d") = .ok run from hrun] at hgot
  dsimp only at hgot
  rw [hbuild] at hgot
  exact absurd ((Option.some.inj hgot).symm.trans hwant) (by decide)

end DataForge.Pipeline
