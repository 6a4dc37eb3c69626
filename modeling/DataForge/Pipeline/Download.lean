import DataForge.Pipeline.Paths
import DataForge.Pipeline.Validation

/-!
# Downloads

`download_step` (`src/packages/worker/runtime/compute_service.py:1774-1905`) deletes the download
steps of a tab, settles on a target among the others, and runs the applied steps up to it. A
preview of the same target leaves the download steps in place, where they pass their input on.
Files, run records and progress are left out.
-/

namespace DataForge.Pipeline

open Effects ReadCommitted

variable {κ ρ π F R : Type} (download : κ → Bool)

/-! ## Requests -/

/-- `[step for step in request.steps if step.get("type") != "download"]`. -/
def undownloaded (steps : List (Step κ)) : List (Step κ) :=
  steps.filter fun s => !download s.body

/-- The step that `download_step` exports, from the resolved target
(`compute_service.py:1792-1803`). -/
def downloadTarget (steps : List (Step κ)) (target : String) : String :=
  match steps.find? fun s => s.id = target with
  | none => target
  | some s =>
    if download s.body then
      match s.dependency with
      | some parentId => parentId
      | none =>
        match (undownloaded download steps).getLast? with
        | some last => if last.id = "" then "source" else last.id
        | none => "source"
    else target

/-- The step whose rows a download is meant to export: the resolved target, or its nearest applied
ancestor that is no download step. -/
def exportedStep (steps : List (Step κ)) (target : String) : String :=
  let resolved := resolveAppliedTarget steps target
  if resolved = "source" then "source"
  else
    match steps.find? fun s => s.id = resolved with
    | none => resolved
    | some s =>
      if download s.body then
        (nearestAppliedAncestor resolved (buildStepMap steps)
          (appliedIds (undownloaded download steps))).getD "source"
      else resolved

/-- What a request runs with: library code is attached to the configurations (`_hydrate_udfs`), an
engine, its storage, and the rows that a preview shows of a frame, which the last step of the
request may present as a chart (`_resolve_chart_preview`). Each of them may raise. -/
structure Presentation (κ ρ π F R : Type) where
  hydrate : κ → Except String κ
  engine : Engine κ ρ π Unit F
  world : World ρ F
  rows : Option κ → F → Except String (List R)

/-- The row limit of a download (`compute_service.py:1848`). -/
def downloadLimit : ℕ := 10000000

variable [StepParams π]

/-- The rows of a run of steps, unpaged (`execute_preview`, `polars_compute.py:349-393`). -/
def Presentation.present (ops : Presentation κ ρ π F R) (emptyFrame : F) (config : SourceConfig ρ)
    (additional : Table String (SourceConfig ρ)) (run : List (Step κ)) :
    Except BuildError (List R) :=
  match (buildPipelineDetails ops.engine ops.world emptyFrame config run additional none).2.map
    Prod.fst with
  | .error e => .error e
  | .ok frame =>
    match ops.rows (run.getLast?.map Step.body) frame with
    | .error message => .error (.rendering message)
    | .ok rows => .ok rows

/-- The full preview of a target shows these rows. -/
def Previews (ops : Presentation κ ρ π F R) (emptyFrame : F) (config : SourceConfig ρ)
    (additional : Table String (SourceConfig ρ)) (steps : List (Step κ)) (target : String)
    (rows : List R) : Prop :=
  ∃ run, stepsThroughTarget ops.hydrate steps target = .ok run ∧
    ops.present emptyFrame config additional run = .ok rows

/-- `download_step` exports these rows. -/
def Exports (ops : Presentation κ ρ π F R) (emptyFrame : F) (config : SourceConfig ρ)
    (additional : Table String (SourceConfig ρ)) (steps : List (Step κ)) (target : String)
    (rows : List R) : Prop :=
  ∃ run shown, stepsThroughTarget ops.hydrate (undownloaded download steps)
      (downloadTarget download steps (resolveAppliedTarget steps target)) = .ok run ∧
    ops.present emptyFrame config additional run = .ok shown ∧ rows = shown.take downloadLimit

/-- Download steps pass their input on (`operations/__init__.py:46-48`). -/
def PassesThrough (ops : Presentation κ ρ π F R) : Prop :=
  ∀ body, download body = true → ∀ body' b, ops.hydrate body = .ok body' →
    ops.engine.convert body' = .ok b → ∀ id frame rights right,
      ops.engine.apply b id frame rights right = .ok frame

/-- For all operations, whatever they raise, a download exports the rows that the full preview of
the step it is meant to export shows, as far as the row limit lets it. -/
def DownloadAgrees (steps : List (Step κ)) (target : String) : Prop :=
  ∀ (ρ π F R : Type) [StepParams π] (ops : Presentation κ ρ π F R) (emptyFrame : F)
    (config : SourceConfig ρ) (additional : Table String (SourceConfig ρ)),
    PassesThrough download ops → ∀ rows,
      Previews ops emptyFrame config additional steps (exportedStep download steps target) rows →
      rows.length ≤ downloadLimit →
      Exports download ops emptyFrame config additional steps target rows

/-! ## When they agree -/

/-- No step depends on itself, through others or not. -/
def Acyclic (steps : List (Step κ)) : Prop :=
  ∀ id, ¬ Relation.TransGen (fun a b => dependencyOf steps a = some b) id id

/-- The path of a step among the applied steps up to another one, without its download steps. -/
def keptPath (steps : List (Step κ)) (target id : String) : List String :=
  (dependencyPath (upTo steps target) id).filter (· ∈ ids (undownloaded download steps))

/-- `download_step` settles on the step that it is meant to export. If that is not the source, then
each applied step up to it keeps its path when the download steps are deleted before the steps are
wired, without its download steps; and so does the step that comes last breadth-first. -/
def DownloadWired (steps : List (Step κ)) (target : String) : Prop :=
  let exported := exportedStep download steps target
  let settled := downloadTarget download steps (resolveAppliedTarget steps target)
  (exported = "source" → settled = "source") ∧
  (exported ≠ "source" → Acyclic (upTo steps exported) → settled = exported ∧
    (∀ id ∈ ids (upTo (undownloaded download steps) exported),
      dependencyPath (upTo (undownloaded download steps) exported) id =
        keptPath download steps exported id) ∧
    ∀ e e', LastStep (upTo steps exported) e →
      LastStep (upTo (undownloaded download steps) exported) e' →
      keptPath download steps exported e' = keptPath download steps exported e)

variable {download} {steps : List (Step κ)}

/-! ## Steps with different ids -/

/-- Steps with different, non-empty ids. -/
structure Identified (steps : List (Step κ)) : Prop where
  unique : (ids steps).Nodup
  named : Named steps

theorem Identified.without (h : Identified steps) :
    Identified (undownloaded download steps) where
  unique := h.unique.sublist (List.filter_sublist.map _)
  named s hs := h.named s (List.mem_filter.mp hs).1

theorem mem_undownloaded {s : Step κ} :
    s ∈ undownloaded download steps ↔ s ∈ steps ∧ download s.body = false := by
  simp [undownloaded]

theorem Identified.eq_of_id (h : Identified steps) {s s' : Step κ} (hs : s ∈ steps)
    (hs' : s' ∈ steps) (hid : s.id = s'.id) : s = s' :=
  List.inj_on_of_nodup_map h.unique hs hs' hid

variable (download) in
theorem Identified.mem_ids_undownloaded (h : Identified steps) {s : Step κ} (hs : s ∈ steps) :
    s.id ∈ ids (undownloaded download steps) ↔ download s.body = false := by
  constructor
  · intro hid
    obtain ⟨x, hx, hxs⟩ := List.mem_map.mp hid
    obtain ⟨hx, hd⟩ := mem_undownloaded.mp hx
    rwa [h.eq_of_id hx hs hxs] at hd
  · exact fun hd => List.mem_map_of_mem (mem_undownloaded.mpr ⟨hs, hd⟩)

theorem Identified.mem_appliedIds (h : Identified steps) {s : Step κ} (hs : s ∈ steps) :
    s.id ∈ appliedIds steps ↔ s.applied = true := by
  constructor
  · intro hid
    obtain ⟨x, hx, hxs⟩ := List.mem_map.mp hid
    obtain ⟨hx, ha⟩ := List.mem_filter.mp hx
    rwa [h.eq_of_id hx hs hxs] at ha
  · exact fun ha => List.mem_map_of_mem (List.mem_filter.mpr ⟨hs, ha⟩)

theorem Identified.appliedIds_undownloaded (h : Identified steps) :
    appliedIds (undownloaded download steps) =
      (appliedIds steps).filter (· ∈ ids (undownloaded download steps)) := by
  change ((undownloaded download steps).filter Step.applied).map Step.id =
    ((steps.filter Step.applied).map Step.id).filter (· ∈ ids (undownloaded download steps))
  rw [List.filter_map, undownloaded, List.filter_comm]
  congr 1
  refine List.filter_congr fun s hs => ?_
  have hiff := h.mem_ids_undownloaded download (List.mem_filter.mp hs).1
  rw [Function.comp_apply]
  cases hd : download s.body with
  | false => exact (decide_eq_true (hiff.mpr hd)).symm
  | true =>
    refine (decide_eq_false fun hm => ?_).symm
    rw [hiff.mp hm] at hd
    cases hd

variable {a b : String}

theorem Identified.firstDependency_iff (h : Identified steps) :
    FirstDependency steps a b ↔ ∃ s ∈ steps, s.id = a ∧ s.dependency = some b := by
  unfold FirstDependency
  constructor
  · intro hd
    obtain ⟨s, hs, hd⟩ := Option.bind_eq_some_iff.mp hd
    have hm := stepMapOf_eq h.named
    exact ⟨s, (stepMapOf_mem hm).1 _ _ hs, (stepMapOf_get hm _ _ hs).1, hd⟩
  · rintro ⟨s, hs, rfl, hd⟩
    rw [get_buildStepMap h.unique h.named hs]
    exact hd

/-- What a step reads without passing a download step it reads in the whole tab too. -/
theorem Identified.reads_of_undownloaded (h : Identified steps) {n : ℕ}
    (hr : ReadsBehind (undownloaded download steps) n a b) : ReadsBehind steps n a b := by
  have hstep : ∀ {a b}, FirstDependency (undownloaded download steps) a b →
      FirstDependency steps a b := by
    intro a b hd
    obtain ⟨s, hs, hsa, hd⟩ := h.without.firstDependency_iff.mp hd
    exact h.firstDependency_iff.mpr ⟨s, (mem_undownloaded.mp hs).1, hsa, hd⟩
  induction hr with
  | direct hd hb =>
    refine .direct (hstep hd) ?_
    rw [h.appliedIds_undownloaded] at hb
    exact (List.mem_filter.mp hb).1
  | @through n a b c hd hc hr ih =>
    refine .through (hstep hd) (fun hm => hc ?_) ih
    -- the disabled step is one of those that are left, since it has a dependency there
    obtain ⟨d, hcd⟩ : ∃ d, FirstDependency (undownloaded download steps) c d := by
      cases hr with
      | direct hd' _ => exact ⟨_, hd'⟩
      | through hd' _ _ => exact ⟨_, hd'⟩
    obtain ⟨s, hs, rfl, -⟩ := h.without.firstDependency_iff.mp hcd
    rw [h.appliedIds_undownloaded]
    exact List.mem_filter.mpr ⟨hm, decide_eq_true (List.mem_map_of_mem hs)⟩

theorem Identified.parentOf_of_undownloaded (h : Identified steps)
    (hp : parentOf (undownloaded download steps) a = some b) :
    parentOf steps a = some b := by
  obtain ⟨n, hr⟩ := parentOf_eq_iff.mp hp
  exact parentOf_eq_iff.mpr ⟨n, h.reads_of_undownloaded hr⟩

/-! ## The applied steps up to a target -/

section UpTo

variable {r : String}

theorem Named.ids_upTo (hn : Named steps) :
    ids (upTo steps r) = (appliedIds steps).take ((appliedIds steps).idxOf r + 1) := by
  rw [upTo, ids, List.map_take]
  change (ids (applySteps steps)).take _ = _
  rw [hn.ids_applySteps]

theorem Named.mem_upTo (hn : Named steps) {s : Step κ} (hs : s ∈ upTo steps r) :
    ∃ x ∈ steps, x.applied = true ∧
      s = { x with dependsOn := (parentOf steps x.id).toList } := by
  have hs := List.mem_of_mem_take hs
  rw [hn.applySteps_eq] at hs
  obtain ⟨x, hx, rfl⟩ := List.mem_map.mp hs
  exact ⟨x, (List.mem_filter.mp hx).1, (List.mem_filter.mp hx).2, rfl⟩

theorem Identified.through (h : Identified steps) : Identified (upTo steps r) where
  unique := by
    rw [h.named.ids_upTo]
    exact (h.unique.sublist (List.filter_sublist.map _)).sublist (List.take_sublist _ _)
  named s hs := by
    obtain ⟨x, hx, -, rfl⟩ := h.named.mem_upTo hs
    exact h.named x hx

theorem Named.appliedIds_upTo (hn : Named steps) :
    appliedIds (upTo steps r) = ids (upTo steps r) := by
  unfold appliedIds
  rw [List.filter_eq_self.mpr]
  intro s hs
  obtain ⟨x, -, ha, rfl⟩ := hn.mem_upTo hs
  exact ha

theorem Named.mem_ids_upTo (hn : Named steps) (hr : r ∈ appliedIds steps) :
    r ∈ ids (upTo steps r) := by
  rw [hn.ids_upTo, List.mem_take_iff_idxOf_lt hr]
  exact Nat.lt_succ_self _

/-- Among the steps up to a target, a step depends on the one it reads if that is one of them. -/
theorem Identified.dependencyOf_upTo (h : Identified steps) {a b : String} :
    dependencyOf (upTo steps r) a = some b ↔
      a ∈ ids (upTo steps r) ∧ b ∈ ids (upTo steps r) ∧
        parentOf steps a = some b := by
  constructor
  · intro hd
    obtain ⟨hd, hb⟩ := Option.filter_eq_some_iff.mp hd
    obtain ⟨s, hfind, hd⟩ := Option.bind_eq_some_iff.mp hd
    have hs := List.mem_of_find?_eq_some hfind
    have hsa : s.id = a := by simpa using List.find?_some hfind
    refine ⟨hsa ▸ List.mem_map_of_mem hs, by simpa using hb, ?_⟩
    obtain ⟨x, -, -, rfl⟩ := h.named.mem_upTo hs
    have hlist := (Option.filter_eq_some_iff.mp hd).1
    rw [Option.head?_toList] at hlist
    exact hsa ▸ hlist
  · rintro ⟨ha, hb, hp⟩
    obtain ⟨s, hs, rfl⟩ := List.mem_map.mp ha
    rw [dependencyOf, find?_id h.through.unique hs, Option.bind_some]
    obtain ⟨y, hy, hyb⟩ := List.mem_map.mp hb
    have hne : b ≠ "" := hyb ▸ h.through.named y hy
    obtain ⟨x, -, -, rfl⟩ := h.named.mem_upTo hs
    have hp : parentOf steps x.id = some b := hp
    simp [Step.dependency, hp, Option.filter, hne, hb]

theorem Identified.proper_upTo (h : Identified steps) (ha : Acyclic (upTo steps r)) :
    Proper (upTo steps r) where
  unique := h.through.unique
  named := h.through.named
  single s hs := by
    obtain ⟨x, -, -, rfl⟩ := h.named.mem_upTo hs
    cases parentOf steps x.id <;> simp
  acyclic := ha

theorem Proper.path_subset {run : List (Step κ)} (h : Proper run) {id : String}
    (hid : id ∈ ids run) : dependencyPath run id ⊆ ids run :=
  Forest.mem_of_mem_path (F := h.forest) id hid

/-- A cycle among them makes the request fail. -/
theorem Identified.present_error (h : Identified steps) (ha : ¬ Acyclic (upTo steps r))
    (ops : Presentation κ ρ π F R) (emptyFrame : F) (config : SourceConfig ρ)
    (additional : Table String (SourceConfig ρ)) (f : κ → κ) :
    ∃ e, ops.present emptyFrame config additional ((upTo steps r).map (Step.hydrated f)) =
      .error e := by
  let run := (upTo steps r).map (Step.hydrated f)
  have hn : Named run := by
    intro s hs
    obtain ⟨x, hx, rfl⟩ := List.mem_map.mp hs
    exact h.through.named x hx
  have hrun : Identified run := ⟨by rw [ids_hydrated]; exact h.through.unique, hn⟩
  have hcycle : OnCycle run := by
    rw [Acyclic, not_forall] at ha
    obtain ⟨id, ha⟩ := ha
    rw [not_not] at ha
    have hid : id ∈ ids (upTo steps r) := by
      obtain ⟨b, hb, -⟩ := Relation.TransGen.head'_iff.mp ha
      exact (h.dependencyOf_upTo.mp hb).1
    refine ⟨id, by rwa [appliedIds_hydrated, h.named.appliedIds_upTo], ?_⟩
    refine Relation.TransGen.mono (fun a b hab => ?_) _ _ ha
    rw [← dependencyOf_hydrated f] at hab
    obtain ⟨s, hfind, hd⟩ := Option.bind_eq_some_iff.mp (Option.filter_eq_some_iff.mp hab).1
    exact hrun.firstDependency_iff.mpr
      ⟨s, List.mem_of_find?_eq_some hfind, by simpa using List.find?_some hfind, hd⟩
  obtain ⟨e, he⟩ := (planOf_raises_iff hn).mpr hcycle
  refine ⟨e, ?_⟩
  unfold Presentation.present buildPipelineDetails
  rw [he]
  rfl

end UpTo

/-! ## The targets -/

/-- A resolved target is the source or an applied step. -/
theorem Identified.resolved_cases (h : Identified steps) (target : String) :
    resolveAppliedTarget steps target = "source" ∨
      resolveAppliedTarget steps target ∈ appliedIds steps := by
  have hrows : ((buildStepMap steps).rows.filter fun p => p.2.applied).map Prod.fst =
      appliedIds steps := by
    rw [rows_buildStepMap h.unique h.named, rowsOf, List.filter_map]
    simp [appliedIds, ids, Function.comp_def]
  unfold resolveAppliedTarget
  split
  case isTrue => exact .inl rfl
  case isFalse =>
    dsimp only
    rw [hrows]
    cases hget : (buildStepMap steps).get target with
    | none => exact .inl rfl
    | some s =>
      have hm := stepMapOf_eq h.named
      have hs := (stepMapOf_mem hm).1 _ _ hget
      have hid := (stepMapOf_get hm _ _ hget).1
      dsimp only
      split
      case isTrue ha => exact .inr (hid ▸ (h.mem_appliedIds hs).mpr ha)
      case isFalse =>
        cases hn : nearestAppliedAncestor target (buildStepMap steps) (appliedIds steps) with
        | none => exact .inl rfl
        | some q => exact .inr (nearestAppliedAncestor_mem hn)

theorem Identified.exported_cases (h : Identified steps) (target : String) :
    exportedStep download steps target = "source" ∨
      exportedStep download steps target ∈ appliedIds (undownloaded download steps) := by
  unfold exportedStep
  dsimp only
  split
  case isTrue => exact .inl rfl
  case isFalse hr =>
    have hra := (h.resolved_cases target).resolve_left hr
    obtain ⟨s, hs, hsr⟩ := List.mem_map.mp hra
    obtain ⟨hs, ha⟩ := List.mem_filter.mp hs
    rw [← hsr, find?_id h.unique hs]
    dsimp only
    split
    case isTrue =>
      cases hn : nearestAppliedAncestor s.id (buildStepMap steps)
          (appliedIds (undownloaded download steps)) with
      | none => exact .inl rfl
      | some q => exact .inr (nearestAppliedAncestor_mem hn)
    case isFalse hd =>
      refine .inr ?_
      rw [h.appliedIds_undownloaded]
      exact List.mem_filter.mpr ⟨hsr ▸ hra,
        decide_eq_true ((h.mem_ids_undownloaded download hs).mpr (by simpa using hd))⟩

variable {target : String}

/-- If the step that `download_step` settles on can be run, it is the one that is meant, unless
that is the source. -/
theorem Identified.settled_eq (h : Identified steps)
    (hne : exportedStep download steps target ≠ "source")
    (hs : downloadTarget download steps (resolveAppliedTarget steps target) ∈
      appliedIds (undownloaded download steps)) :
    downloadTarget download steps (resolveAppliedTarget steps target) =
      exportedStep download steps target := by
  have hr : resolveAppliedTarget steps target ≠ "source" := by
    intro hr
    exact hne (by rw [exportedStep, if_pos hr])
  have hra := (h.resolved_cases target).resolve_left hr
  obtain ⟨s, hsm, hsr⟩ := List.mem_map.mp hra
  have hsm := (List.mem_filter.mp hsm).1
  have hfind := find?_id h.unique hsm
  unfold exportedStep at hne ⊢
  unfold downloadTarget at hs ⊢
  rw [if_neg hr] at hne ⊢
  rw [← hsr, hfind] at hs hne ⊢
  dsimp only at hs hne ⊢
  by_cases hd : download s.body = true
  · rw [if_pos hd] at hs hne
    rw [if_pos hd, if_pos hd]
    unfold nearestAppliedAncestor at hne ⊢
    rw [get_buildStepMap h.unique h.named hsm, Option.bind_some] at hne ⊢
    cases hdep : s.dependency with
    | none =>
      rw [hdep] at hne
      exact absurd rfl hne
    | some p =>
      rw [hdep] at hs
      dsimp only at hs ⊢
      rw [climb, if_pos hs]
      rfl
  · rw [if_neg hd, if_neg hd]

/-! ## The two runs -/

private theorem take_idxOf_filter {q : String → Bool} {x : String} (hx : q x = true) :
    ∀ l : List String, x ∈ l →
      (l.filter q).take ((l.filter q).idxOf x + 1) = (l.take (l.idxOf x + 1)).filter q := by
  intro l
  induction l with
  | nil => exact fun h => absurd h List.not_mem_nil
  | cons y rest ih =>
    intro hm
    by_cases hy : y = x
    · subst hy
      simp [hx]
    · have hm := (List.mem_cons.mp hm).resolve_left (Ne.symm hy)
      have hidx : (y :: rest).idxOf x = rest.idxOf x + 1 := List.idxOf_cons_ne _ hy
      rw [hidx, List.take_succ_cons]
      by_cases hq : q y = true
      · rw [List.filter_cons_of_pos hq, List.filter_cons_of_pos hq, List.idxOf_cons_ne _ hy,
          List.take_succ_cons, ih hm]
      · rw [List.filter_cons_of_neg hq, List.filter_cons_of_neg hq, ih hm]

section Runs

variable {r : String}

theorem Identified.ids_upTo_undownloaded (h : Identified steps)
    (hr : r ∈ appliedIds (undownloaded download steps)) :
    ids (upTo (undownloaded download steps) r) =
      (ids (upTo steps r)).filter (· ∈ ids (undownloaded download steps)) := by
  rw [h.without.named.ids_upTo, h.named.ids_upTo, h.appliedIds_undownloaded]
  rw [h.appliedIds_undownloaded, List.mem_filter] at hr
  exact take_idxOf_filter hr.2 _ hr.1

theorem Identified.acyclic_undownloaded (h : Identified steps)
    (hr : r ∈ appliedIds (undownloaded download steps)) (ha : Acyclic (upTo steps r)) :
    Acyclic (upTo (undownloaded download steps) r) := by
  refine fun id hc => ha id (Relation.TransGen.mono (fun a b hab => ?_) _ _ hc)
  obtain ⟨ham, hbm, hp⟩ := h.without.dependencyOf_upTo.mp hab
  rw [h.ids_upTo_undownloaded hr] at ham hbm
  exact h.dependencyOf_upTo.mpr ⟨(List.mem_filter.mp ham).1, (List.mem_filter.mp hbm).1,
    h.parentOf_of_undownloaded hp⟩

theorem Identified.getLast?_upTo (h : Identified steps) {x : Step κ} (hx : x ∈ steps)
    (ha : x.id ∈ appliedIds steps) :
    (upTo steps x.id).getLast?.map Step.body = some x.body := by
  have hids : (ids (upTo steps x.id)).getLast? = some x.id := by
    rw [h.named.ids_upTo, List.getLast?_take, if_neg (Nat.succ_ne_zero _), Nat.add_sub_cancel,
      List.getElem?_idxOf ha]
    rfl
  rw [ids, List.getLast?_map] at hids
  cases hlast : (upTo steps x.id).getLast? with
  | none =>
    rw [hlast] at hids
    cases hids
  | some s =>
    rw [hlast] at hids
    obtain ⟨y, hy, -, rfl⟩ := h.named.mem_upTo (List.mem_of_getLast? hlast)
    have hyx : y.id = x.id := Option.some.inj hids
    rw [← h.eq_of_id hy hx hyx]
    rfl

theorem Identified.mem_of_ids_upTo (h : Identified steps) {id : String}
    (hid : id ∈ ids (upTo steps r)) : ∃ x ∈ steps, x.id = id := by
  obtain ⟨s, hs, rfl⟩ := List.mem_map.mp hid
  obtain ⟨x, hx, -, rfl⟩ := h.named.mem_upTo hs
  exact ⟨x, hx, rfl⟩

theorem Identified.bodyOf_upTo (h : Identified steps) (f : κ → κ) {x : Step κ} (hx : x ∈ steps)
    (hr : x.id ∈ ids (upTo steps r)) :
    bodyOf ((upTo steps r).map (Step.hydrated f)) x.id = some (f x.body) := by
  obtain ⟨s, hs, hsx⟩ := List.mem_map.mp hr
  obtain ⟨y, hy, -, rfl⟩ := h.named.mem_upTo hs
  have hyx : y.id = x.id := hsx
  obtain rfl := h.eq_of_id hy hx hyx
  have hu : (ids ((upTo steps r).map (Step.hydrated f))).Nodup := by
    rw [ids_hydrated]
    exact h.through.unique
  exact bodyOf_eq hu (List.mem_map_of_mem (f := Step.hydrated f) hs)

/-! ## Requests -/

/-- A configuration with library code attached, where this succeeds. -/
def Presentation.hydrated (ops : Presentation κ ρ π F R) (body : κ) : κ :=
  match ops.hydrate body with
  | .ok body' => body'
  | .error _ => body

omit [StepParams π] in
theorem Presentation.hydrated_eq {ops : Presentation κ ρ π F R} {body body' : κ}
    (h : ops.hydrate body = .ok body') : ops.hydrated body = body' := by
  rw [Presentation.hydrated, h]

/-- Library code can be attached to all steps of a list. -/
def Presentation.Hydrates (ops : Presentation κ ρ π F R) (run : List (Step κ)) : Prop :=
  ∀ s ∈ run, ∃ body, ops.hydrate s.body = .ok body

omit [StepParams π] in
theorem Presentation.mapM_hydrate {ops : Presentation κ ρ π F R} {l run : List (Step κ)} :
    (l.mapM fun s => (do return { s with body := ← ops.hydrate s.body })) = .ok run ↔
      ops.Hydrates l ∧ run = l.map (Step.hydrated ops.hydrated) := by
  rw [mapM_ok]
  constructor
  · intro h
    induction h with
    | nil => exact ⟨fun s hs => (List.not_mem_nil hs).elim, rfl⟩
    | cons hs _ ih =>
      obtain ⟨body, hbody, hs⟩ := bind_ok.mp hs
      cases hs
      refine ⟨List.forall_mem_cons.mpr ⟨⟨body, hbody⟩, ih.1⟩, ?_⟩
      rw [List.map_cons, ← ih.2, Step.hydrated, hydrated_eq hbody]
  · rintro ⟨hall, rfl⟩
    rw [List.forall₂_map_right_iff, List.forall₂_same]
    intro s hs
    obtain ⟨body, hbody⟩ := hall s hs
    refine bind_ok.mpr ⟨body, hbody, ?_⟩
    rw [Step.hydrated, hydrated_eq hbody]
    rfl

omit [StepParams π] in
/-- A request for a step runs the applied steps up to it, with library code attached. -/
theorem Named.stepsThroughTarget_ok_iff (hn : Named steps) (ops : Presentation κ ρ π F R)
    (hne : r ≠ "source") {run : List (Step κ)} :
    stepsThroughTarget ops.hydrate steps r = .ok run ↔ r ∈ appliedIds steps ∧
      ops.Hydrates (upTo steps r) ∧ run = (upTo steps r).map (Step.hydrated ops.hydrated) := by
  by_cases hr : r ∈ appliedIds steps
  · rw [stepsThroughTarget_applied hn.ids_applySteps _ hr hne, Presentation.mapM_hydrate,
      and_iff_right hr]
  · rw [iff_false_right (fun h => hr h.1)]
    have hfind : (applySteps steps).findIdx? (fun s => s.id = r) = none := by
      rw [List.findIdx?_eq_none_iff]
      intro s hs
      have hsr : s.id ≠ r := by
        rintro rfl
        exact hr (hn.ids_applySteps ▸ List.mem_map_of_mem hs)
      simpa using hsr
    have hindex : findStepIndex (applySteps steps) r =
        .error ("Step with id " ++ r ++ " not found in pipeline") := by
      rw [findStepIndex, if_neg hne, hfind]
    unfold stepsThroughTarget
    rw [if_neg hne]
    dsimp only
    rw [hindex]
    intro h
    cases h

/-- What a request for an applied step presents, when the steps up to it have no cycle. -/
theorem Identified.present_ok_iff (h : Identified steps) {x : Step κ} (hx : x ∈ steps)
    (hr : x.id ∈ appliedIds steps) (ha : Acyclic (upTo steps x.id)) (ops : Presentation κ ρ π F R)
    (emptyFrame : F) (config : SourceConfig ρ) (additional : Table String (SourceConfig ρ))
    (f : κ → κ) (rows : List R) :
    ops.present emptyFrame config additional ((upTo steps x.id).map (Step.hydrated f)) =
        .ok rows ↔
      ∃ base rights, ops.world.load config = .ok base ∧
        loadAll ops.world additional = .ok rights ∧
        (∀ id ∈ ids (upTo steps x.id), ∃ frame, ops.engine.pathFrame rights
          ((upTo steps x.id).map (Step.hydrated f)) base (dependencyPath (upTo steps x.id) id) =
            .ok frame) ∧
        ∃ e frame, LastStep (upTo steps x.id) e ∧ ops.engine.pathFrame rights
          ((upTo steps x.id).map (Step.hydrated f)) base (dependencyPath (upTo steps x.id) e) =
            .ok frame ∧ ops.rows (some (f x.body)) frame = .ok rows := by
  have hP := (h.proper_upTo ha).hydrated f
  have hall : appliedIds ((upTo steps x.id).map (Step.hydrated f)) =
      ids ((upTo steps x.id).map (Step.hydrated f)) := by
    rw [appliedIds_hydrated, ids_hydrated, h.named.appliedIds_upTo]
  have hbuild := build_ok_iff hP hall
    (List.ne_nil_of_mem (ids_hydrated f ▸ h.named.mem_ids_upTo hr)) ops.engine ops.world emptyFrame
    config additional
  have hsame : ∀ id, LastStep ((upTo steps x.id).map (Step.hydrated f)) id ↔
      LastStep (upTo steps x.id) id := by
    intro id
    constructor
    · intro hs
      exact ⟨by simpa only [ids_hydrated] using hs.mem,
        by simpa only [ids_hydrated, trail_hydrated] using hs.greatest⟩
    · intro hs
      exact ⟨by simpa only [ids_hydrated] using hs.mem,
        by simpa only [ids_hydrated, trail_hydrated] using hs.greatest⟩
  simp only [Engine.frameAt, dependencyPath_hydrated, ids_hydrated, hsame] at hbuild
  have hbody : (((upTo steps x.id).map (Step.hydrated f)).getLast?).map Step.body =
      some (f x.body) := by
    have hget := h.getLast?_upTo hx hr
    rw [List.getLast?_map, Option.map_map]
    rw [Option.map_eq_some_iff] at hget ⊢
    obtain ⟨s, hs, hbody⟩ := hget
    exact ⟨s, hs, congrArg f hbody⟩
  unfold Presentation.present
  rw [hbody]
  constructor
  · intro hok
    split at hok
    · cases hok
    · next frame hframe =>
      obtain ⟨base, rights, hbase, hrights, hpaths, e, he, hf⟩ := (hbuild frame).mp hframe
      split at hok
      · cases hok
      · next hrows =>
        cases hok
        exact ⟨base, rights, hbase, hrights, hpaths, e, frame, he, hf, hrows⟩
  · rintro ⟨base, rights, hbase, hrights, hpaths, e, frame, he, hf, hrows⟩
    rw [(hbuild frame).mpr ⟨base, rights, hbase, hrights, hpaths, e, he, hf⟩]
    dsimp only
    rw [hrows]

theorem Identified.exists_lastStep (h : Identified steps) (hr : r ∈ appliedIds steps)
    (ha : Acyclic (upTo steps r)) :
    ∃ e, LastStep (upTo steps r) e ∧ ∀ e', LastStep (upTo steps r) e' → e' = e := by
  have hP := h.proper_upTo ha
  have hall := h.named.appliedIds_upTo (r := r)
  have hnodes : hP.appliedForest.nodes = ids (upTo steps r) := hall
  cases hlast : hP.appliedForest.order.getLast? with
  | none =>
    have hperm := Forest.order_perm (F := hP.appliedForest)
    rw [List.getLast?_eq_none_iff.mp hlast, hnodes] at hperm
    have hmem := h.named.mem_ids_upTo hr
    rw [hperm.symm.eq_nil] at hmem
    exact (List.not_mem_nil hmem).elim
  | some e =>
    have he : e ∈ ids (upTo steps r) :=
      hnodes ▸ Forest.order_perm.subset (List.mem_of_getLast? hlast)
    refine ⟨e, (lastStep_iff hP hall he).mp hlast, fun e' he' => ?_⟩
    rw [(lastStep_iff hP hall he'.mem).mpr he', Option.some_inj] at hlast
    exact hlast

end Runs

/-- Download steps on a path pass its frame on. -/
theorem Identified.pathFrame_kept (h : Identified steps) {x : Step κ}
    {ops : Presentation κ ρ π F R} (hpass : PassesThrough download ops)
    (hhydrates : ops.Hydrates (upTo steps x.id))
    (hr : x.id ∈ appliedIds (undownloaded download steps)) {rights : Table String F}
    {l : List String} (hl : l ⊆ ids (upTo steps x.id)) {base frame : F}
    (hframe : ops.engine.pathFrame rights ((upTo steps x.id).map (Step.hydrated ops.hydrated)) base
      l = .ok frame) :
    ops.engine.pathFrame rights
      ((upTo (undownloaded download steps) x.id).map (Step.hydrated ops.hydrated)) base
      (l.filter (· ∈ ids (undownloaded download steps))) = .ok frame := by
  unfold Engine.pathFrame at hframe ⊢
  induction l generalizing base with
  | nil => exact hframe
  | cons id rest ih =>
    have hid : id ∈ ids (upTo steps x.id) := hl List.mem_cons_self
    have ih := @ih fun y hy => hl (List.mem_cons_of_mem _ hy)
    obtain ⟨s, hs, hsid⟩ := List.mem_map.mp hid
    obtain ⟨body', hbody'⟩ := hhydrates s hs
    obtain ⟨y, hy, -, rfl⟩ := h.named.mem_upTo hs
    subst hsid
    have hiff := h.mem_ids_undownloaded download hy
    rw [List.foldlM_cons] at hframe
    obtain ⟨next, hnext, hframe⟩ := bind_ok.mp hframe
    unfold Engine.runOf at hnext
    rw [h.bodyOf_upTo ops.hydrated hy hid] at hnext
    by_cases hd : download y.body = true
    · obtain ⟨b, hb, happly⟩ := bind_ok.mp hnext
      rw [Presentation.hydrated_eq hbody'] at hb
      rw [hpass y.body hd body' b hbody' hb] at happly
      cases happly
      have hout : ¬ y.id ∈ ids (undownloaded download steps) := by
        rw [hiff, hd]
        exact Bool.noConfusion
      rw [List.filter_cons_of_neg (by simpa using hout)]
      exact ih hframe
    · have hin : y.id ∈ ids (undownloaded download steps) := hiff.mpr (by simpa using hd)
      have hmem : y.id ∈ ids (upTo (undownloaded download steps) x.id) := by
        rw [h.ids_upTo_undownloaded hr]
        exact List.mem_filter.mpr ⟨hid, decide_eq_true hin⟩
      rw [List.filter_cons_of_pos (by simpa using hin), List.foldlM_cons]
      refine bind_ok.mpr ⟨next, ?_, ih hframe⟩
      unfold Engine.runOf
      rw [h.without.bodyOf_upTo ops.hydrated
        (mem_undownloaded.mpr ⟨hy, by simpa using hd⟩) hmem]
      exact hnext

/-! ## What the rows tell -/

/-- Operations that write down the ids of the steps that are no download steps, and whether a
step presents the rows; each of these steps raises on any input but the one it expects. -/
def exporter (download : κ → Bool) (expected : String → List String) :
    Presentation κ Unit Unit (List String) (Bool × List String) where
  hydrate := .ok
  engine :=
    { convert := fun body => .ok ⟨if download body then "download" else "view", ()⟩
      apply := fun b id frame _ _ =>
        if b.operation = "download" then .ok frame
        else if frame = expected id then .ok (frame ++ [id])
        else .error "unexpected input"
      collects := fun _ => true
      localPath := fun _ => none
      hash := fun _ => none }
  world := { resolveIceberg := fun _ => none, stat := fun _ => none, load := fun _ => .ok [] }
  rows last frame := .ok [(last.isSome, frame)]

variable {expected : String → List String}

private theorem exporter_passes : PassesThrough download (exporter download expected) := by
  intro body hd body' b hbody hb id frame rights right
  cases hbody
  cases hb
  simp [exporter, hd]

private theorem exporter_hydrates (run : List (Step κ)) :
    (exporter download expected).Hydrates run :=
  fun s _ => ⟨s.body, rfl⟩

private theorem exporter_hydrated (body : κ) :
    (exporter download expected).hydrated body = body := rfl

theorem Identified.runOf_exporter (h : Identified steps) {r : String} {x : Step κ}
    (hx : x ∈ steps) (hr : x.id ∈ ids (upTo steps r)) (rights : Table String (List String))
    (frame : List String) :
    (exporter download expected).engine.runOf rights
        ((upTo steps r).map (Step.hydrated (exporter download expected).hydrated)) frame x.id =
      if download x.body then .ok frame
      else if frame = expected x.id then .ok (frame ++ [x.id])
      else .error "unexpected input" := by
  unfold Engine.runOf
  rw [h.bodyOf_upTo _ hx hr, exporter_hydrated]
  cases hd : download x.body <;> simp [exporter, hd, bind, Except.bind]

/-- Where each step expects its path, all paths succeed with the steps that are kept. -/
theorem Identified.pathFrame_exporter (h : Identified steps) {r : String}
    (ha : Acyclic (upTo steps r))
    (hexpected : ∀ id, expected id = (keptPath download steps r id).dropLast)
    (rights : Table String (List String)) : ∀ id ∈ ids (upTo steps r),
      (exporter download expected).engine.pathFrame rights
        ((upTo steps r).map (Step.hydrated (exporter download expected).hydrated)) []
        (dependencyPath (upTo steps r) id) = .ok (keptPath download steps r id) := by
  -- from the frame in front of a step, whose path ends with the step
  have hstep : ∀ id ∈ ids (upTo steps r), ∀ before,
      dependencyPath (upTo steps r) id = before ++ [id] →
      (exporter download expected).engine.pathFrame rights
        ((upTo steps r).map (Step.hydrated (exporter download expected).hydrated)) [] before =
          .ok (before.filter (· ∈ ids (undownloaded download steps))) →
      (exporter download expected).engine.pathFrame rights
        ((upTo steps r).map (Step.hydrated (exporter download expected).hydrated)) []
        (dependencyPath (upTo steps r) id) = .ok (keptPath download steps r id) := by
    intro id hid before hpath hbefore
    obtain ⟨x, hx, rfl⟩ := h.mem_of_ids_upTo hid
    have hiff := h.mem_ids_undownloaded download hx
    have hexp := hexpected x.id
    unfold keptPath at hexp ⊢
    rw [hpath, Engine.pathFrame_concat, hbefore]
    rw [hpath, List.filter_append] at hexp
    rw [List.filter_append]
    refine (h.runOf_exporter hx hid rights _).trans ?_
    cases hd : download x.body with
    | true =>
      have hout : ¬ x.id ∈ ids (undownloaded download steps) := by simp [hiff, hd]
      rw [if_pos rfl, List.filter_cons_of_neg (by simpa using hout), List.filter_nil,
        List.append_nil]
    | false =>
      have hin : x.id ∈ ids (undownloaded download steps) := hiff.mpr hd
      rw [List.filter_cons_of_pos (by simpa using hin), List.filter_nil] at hexp ⊢
      rw [List.dropLast_concat] at hexp
      rw [if_neg Bool.false_ne_true, if_pos hexp.symm]
  have hP := h.proper_upTo ha
  refine Forest.descend (F := hP.forest) ?_ ?_
  · intro x hx hp
    exact hstep x hx [] (Forest.path_root (F := hP.forest) hx hp) rfl
  · intro x hx p _ hp ih
    exact hstep x hx _ (Forest.path_child (F := hP.forest) hx hp) ih

/-- A path of the download that succeeds is the one that is expected. -/
theorem Identified.kept_of_pathFrame (h : Identified steps) {r : String}
    (hr : r ∈ appliedIds (undownloaded download steps)) (ha : Acyclic (upTo steps r))
    (hexpected : ∀ id, expected id = (keptPath download steps r id).dropLast)
    {rights : Table String (List String)}
    (hok : ∀ id ∈ ids (upTo (undownloaded download steps) r), ∃ frame,
      (exporter download expected).engine.pathFrame rights
        ((upTo (undownloaded download steps) r).map
          (Step.hydrated (exporter download expected).hydrated)) []
        (dependencyPath (upTo (undownloaded download steps) r) id) = .ok frame) :
    ∀ id ∈ ids (upTo (undownloaded download steps) r),
      (exporter download expected).engine.pathFrame rights
        ((upTo (undownloaded download steps) r).map
          (Step.hydrated (exporter download expected).hydrated)) []
        (dependencyPath (upTo (undownloaded download steps) r) id) =
          .ok (dependencyPath (upTo (undownloaded download steps) r) id) ∧
      dependencyPath (upTo (undownloaded download steps) r) id = keptPath download steps r id := by
  have hP := h.without.proper_upTo (h.acyclic_undownloaded hr ha)
  have hstep : ∀ id ∈ ids (upTo (undownloaded download steps) r), ∀ before,
      dependencyPath (upTo (undownloaded download steps) r) id = before ++ [id] →
      (exporter download expected).engine.pathFrame rights
        ((upTo (undownloaded download steps) r).map
          (Step.hydrated (exporter download expected).hydrated)) [] before = .ok before →
      (exporter download expected).engine.pathFrame rights
        ((upTo (undownloaded download steps) r).map
          (Step.hydrated (exporter download expected).hydrated)) []
        (dependencyPath (upTo (undownloaded download steps) r) id) =
          .ok (dependencyPath (upTo (undownloaded download steps) r) id) ∧
      dependencyPath (upTo (undownloaded download steps) r) id =
        keptPath download steps r id := by
    intro id hid before hpath hbefore
    obtain ⟨frame, hframe⟩ := hok id hid
    rw [hpath, Engine.pathFrame_concat, hbefore] at hframe
    rw [hpath, Engine.pathFrame_concat, hbefore]
    obtain ⟨x, hx, rfl⟩ := h.without.mem_of_ids_upTo hid
    have hrun : ∀ frame, (exporter download expected).engine.runOf _ _ frame _ = _ :=
      h.without.runOf_exporter hx hid rights
    have hd := (mem_undownloaded.mp hx).2
    simp only [hd, Bool.false_eq_true, if_false] at hrun
    have hinput : before = expected x.id := by
      by_contra hne
      have hfails := hrun before
      rw [if_neg hne] at hfails
      exact absurd (hframe.symm.trans hfails) (by simp)
    refine ⟨(hrun before).trans (if_pos hinput), ?_⟩
    -- the kept path of a step ends with it
    have hidAll : x.id ∈ ids (upTo steps r) := by
      rw [h.ids_upTo_undownloaded hr] at hid
      exact (List.mem_filter.mp hid).1
    have hlast : (keptPath download steps r x.id).getLast? = some x.id := by
      obtain ⟨l, hl⟩ := List.getLast?_eq_some_iff.mp
        (Forest.getLast?_path (F := (h.proper_upTo ha).forest) hidAll)
      have hl : dependencyPath (upTo steps r) x.id = l ++ [x.id] := hl
      have hin : x.id ∈ ids (undownloaded download steps) := List.mem_map_of_mem hx
      rw [keptPath, hl, List.filter_append, List.filter_cons_of_pos (by simpa using hin)]
      exact List.getLast?_concat
    obtain ⟨l, hl⟩ := List.getLast?_eq_some_iff.mp hlast
    rw [hinput, hexpected, hl, List.dropLast_concat]
  refine Forest.descend (F := hP.forest) ?_ ?_
  · intro x hx hp
    exact hstep x hx [] (Forest.path_root (F := hP.forest) hx hp) rfl
  · intro x hx p _ hp ih
    exact hstep x hx _ (Forest.path_child (F := hP.forest) hx hp) ih.1

/-- A recorded download tells whether a step presents its rows. -/
theorem Identified.exports_exporter (h : Identified steps) {config : SourceConfig Unit}
    {v : Bool × List String}
    (hexport : Exports download (exporter download expected) [] config .empty steps target [v]) :
    let settled := downloadTarget download steps (resolveAppliedTarget steps target)
    settled = "source" ∧ v.1 = false ∨
      settled ∈ appliedIds (undownloaded download steps) ∧ v.1 = true ∧
        (exporter download expected).present [] config .empty
          ((upTo (undownloaded download steps) settled).map
            (Step.hydrated (exporter download expected).hydrated)) = .ok [v] := by
  have hw : Identified (undownloaded download steps) := h.without
  dsimp only
  obtain ⟨run, shown, hrun, hpresent, hv⟩ := hexport
  generalize downloadTarget download steps (resolveAppliedTarget steps target) = settled at *
  -- one row is shown, which says whether the run has a last step
  obtain ⟨frame, rfl⟩ : ∃ frame, shown = [(run.getLast?.isSome, frame)] := by
    unfold Presentation.present at hpresent
    split at hpresent
    · cases hpresent
    · cases hpresent
      exact ⟨_, by rw [Option.isSome_map]⟩
  rw [List.take_of_length_le (by simp [downloadLimit]), List.singleton_inj] at hv
  by_cases hs : settled = "source"
  · subst hs
    cases hrun
    exact .inl ⟨rfl, by rw [hv]; rfl⟩
  · obtain ⟨hr, -, rfl⟩ := (hw.named.stepsThroughTarget_ok_iff _ hs).mp hrun
    obtain ⟨x, hx, rfl⟩ := List.mem_map.mp hr
    have hlast := hw.getLast?_upTo (List.mem_filter.mp hx).1 hr
    have hsome : (upTo (undownloaded download steps) x.id).getLast?.isSome := by
      rw [← Option.isSome_map, hlast]
      rfl
    refine .inr ⟨hr, ?_, hv ▸ hpresent⟩
    rw [hv, List.getLast?_map, Option.isSome_map]
    exact hsome

/-! ## Downloads and previews -/

/-- A download that agrees for all operations keeps the paths. -/
theorem Identified.wired_of_agrees (h : Identified steps)
    (hagree : DownloadAgrees download steps target) : DownloadWired download steps target := by
  have hw : Identified (undownloaded download steps) := h.without
  let config : SourceConfig Unit := { kind := .other, rest := () }
  have hexports := fun expected v hv => h.exports_exporter (hagree Unit Unit (List String)
    (Bool × List String) (exporter download expected) [] config .empty exporter_passes [v] hv
    (by simp [downloadLimit]))
  dsimp only at hexports
  constructor
  · intro hne
    rcases hexports (fun _ => []) (false, []) ⟨[], by rw [hne]; rfl, rfl⟩ with
      ⟨hs, -⟩ | ⟨-, hv, -⟩
    · exact hs
    · cases hv
  · intro hne ha
    have hr := (h.exported_cases target).resolve_left hne
    have hra : exportedStep download steps target ∈ appliedIds steps := by
      rw [h.appliedIds_undownloaded] at hr
      exact (List.mem_filter.mp hr).1
    let expected := fun id => (keptPath download steps (exportedStep download steps target)
      id).dropLast
    obtain ⟨e, he, honly⟩ := h.exists_lastStep hra ha
    obtain ⟨x, hx, hxr⟩ := List.mem_map.mp hra
    have hpreview : Previews (exporter download expected) [] config .empty steps
        (exportedStep download steps target)
        [(true, keptPath download steps (exportedStep download steps target) e)] := by
      refine ⟨_, (h.named.stepsThroughTarget_ok_iff _ hne).mpr ⟨hra, exporter_hydrates _, rfl⟩, ?_⟩
      have hexpected : ∀ id, expected id = (keptPath download steps
        (exportedStep download steps target) id).dropLast := fun _ => rfl
      have hpaths := h.pathFrame_exporter ha hexpected .empty
      rw [← hxr] at hra ha he hpaths ⊢
      refine (h.present_ok_iff (List.mem_filter.mp hx).1 hra ha _ _ _ _ _ _).mpr
        ⟨[], .empty, rfl, rfl, fun id hid => ⟨_, hpaths id hid⟩, e, _, he, hpaths e he.mem, rfl⟩
    rcases hexports expected _ hpreview with ⟨-, hv⟩ | ⟨hs, -, hpresent⟩
    · cases hv
    · have hsettled := h.settled_eq hne hs
      rw [hsettled] at hpresent
      have ha' := h.acyclic_undownloaded hr ha
      obtain ⟨y, hy, hyr⟩ := List.mem_map.mp hr
      rw [← hyr] at hpresent hr ha ha' honly ⊢
      obtain ⟨base, rights, hbase, hrights, hok, e', frame, he', hframe, hrows⟩ :=
        (hw.present_ok_iff (List.mem_filter.mp hy).1 hr ha' _ _ _ _ _ _).mp hpresent
      cases hbase
      have hpaths := h.kept_of_pathFrame hr ha (fun _ => by rw [hyr]) hok
      refine ⟨hsettled.trans hyr.symm, fun id hid => (hpaths id hid).2, fun e1 e2 he1 he2 => ?_⟩
      have hframe' := (hpaths e' he'.mem).1
      rw [hframe] at hframe'
      cases hframe'
      have hrow := (List.singleton_inj.mp (Except.ok.inj hrows))
      obtain ⟨e0, he0, honly'⟩ := hw.exists_lastStep hr ha'
      rw [honly e1 he1, honly' e2 he2, ← honly' e' he', ← (hpaths e' he'.mem).2]
      exact (Prod.mk.inj hrow).2

/-- A download that keeps the paths agrees for all operations. -/
theorem Identified.agrees_of_wired (h : Identified steps) :
    DownloadWired download steps target → DownloadAgrees download steps target := by
  have hw : Identified (undownloaded download steps) := h.without
  rintro ⟨hsource, hstep⟩ ρ π F R _ ops emptyFrame config additional hpass rows
    ⟨run, hrun, hpresent⟩ hlen
  have htake : rows = rows.take downloadLimit := (List.take_of_length_le hlen).symm
  by_cases hne : exportedStep download steps target = "source"
  · refine ⟨run, rows, ?_, hpresent, htake⟩
    rw [hne] at hrun
    rw [hsource hne]
    exact hrun
  · have hr := (h.exported_cases target).resolve_left hne
    obtain ⟨hra, hhydrates, rfl⟩ := (h.named.stepsThroughTarget_ok_iff _ hne).mp hrun
    by_cases ha : Acyclic (upTo steps (exportedStep download steps target))
    · obtain ⟨hsettled, hpaths, hlast⟩ := hstep hne ha
      obtain ⟨x, hx, hxr⟩ := List.mem_map.mp hr
      have hx := (List.mem_filter.mp hx).1
      have ha' := h.acyclic_undownloaded hr ha
      rw [← hxr] at hr hra ha ha' hpaths hlast hhydrates hpresent
      have hsub : ids (upTo (undownloaded download steps) x.id) ⊆ ids (upTo steps x.id) := by
        rw [h.ids_upTo_undownloaded hr]
        exact List.filter_subset_self _
      obtain ⟨base, rights, hbase, hrights, hok, e, frame, he, hframe, hrows⟩ :=
        (h.present_ok_iff (mem_undownloaded.mp hx).1 hra ha _ _ _ _ _ _).mp hpresent
      have hsubset : ∀ id ∈ ids (upTo steps x.id),
        dependencyPath (upTo steps x.id) id ⊆ ids (upTo steps x.id) :=
        fun _ hid => (h.proper_upTo ha).path_subset hid
      have hkept : ∀ id ∈ ids (upTo steps x.id), ∀ frame, ops.engine.pathFrame rights _ base _ =
        .ok frame → _ := fun id hid frame hframe =>
        h.pathFrame_kept hpass hhydrates hr (hsubset id hid) hframe
      refine ⟨(upTo (undownloaded download steps) x.id).map (Step.hydrated ops.hydrated), rows,
        ?_, ?_, htake⟩
      · rw [hsettled, ← hxr]
        refine (hw.named.stepsThroughTarget_ok_iff _ (hxr ▸ hne)).mpr ⟨hr, fun s hs => ?_, rfl⟩
        obtain ⟨y, hy, -, rfl⟩ := hw.named.mem_upTo hs
        obtain ⟨s', hs', hsy⟩ := List.mem_map.mp (hsub (List.mem_map_of_mem hs))
        obtain ⟨z, hz, -, rfl⟩ := h.named.mem_upTo hs'
        obtain rfl := h.eq_of_id hz (mem_undownloaded.mp hy).1 hsy
        obtain ⟨body, hbody⟩ := hhydrates _ hs'
        exact ⟨body, hbody⟩
      · obtain ⟨e', he', -⟩ := hw.exists_lastStep hr ha'
        refine (hw.present_ok_iff hx hr ha' _ _ _ _ _ _).mpr ⟨base, rights, hbase, hrights,
          fun id hid => ?_, e', frame, he', ?_, hrows⟩
        · obtain ⟨f, hf⟩ := hok id (hsub hid)
          exact ⟨f, by rw [hpaths id hid]; exact hkept id (hsub hid) f hf⟩
        · rw [hpaths e' he'.mem, hlast e e' he he']
          exact hkept e he.mem frame hframe
    · obtain ⟨err, herr⟩ := h.present_error ha ops emptyFrame config additional ops.hydrated
      rw [herr] at hpresent
      cases hpresent

/-- A step of a tab; its body says whether it is a download step. -/
def tabStep (id : String) (dependsOn : List String) (download : Bool) : Step Bool :=
  ⟨id, dependsOn, none, download⟩

/-- A download step at the end of a tab. -/
def endDownload : List (Step Bool) := [tabStep "a" [] false, tabStep "d" ["a"] true]

/-- A download step in the middle of a tab. -/
def middleDownload : List (Step Bool) :=
  [tabStep "a" [] false, tabStep "d" ["a"] true, tabStep "b" ["d"] false]

/-- A download step behind a disabled step. -/
def disabledParent : List (Step Bool) :=
  [tabStep "a" [] false, { tabStep "b" ["a"] false with isApplied := some false },
    tabStep "d" ["b"] true]

end DataForge.Pipeline
