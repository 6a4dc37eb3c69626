import DataForge.Pipeline.Plan

/-!
# Applied steps

What `apply_steps` makes of a proper list of steps: the applied steps in list order, each wired
to its nearest applied ancestor, so that paths keep the applied steps and drop the others.
-/

namespace DataForge.Pipeline

open ReadCommitted

variable {κ : Type} {steps : List (Step κ)}

/-- The ids of the applied steps, in list order. -/
def appliedIds (steps : List (Step κ)) : List String := ids (steps.filter Step.applied)

/-- Steps with ids, which may repeat. -/
def Named (steps : List (Step κ)) : Prop := ∀ s ∈ steps, s.id ≠ ""

theorem Named.applySteps_map (hn : Named steps) :
    applySteps steps = (steps.filter Step.applied).map fun s => { s with
      dependsOn :=
        (nearestAppliedAncestor s.id (buildStepMap steps) (appliedIds steps)).toList } := by
  have happ : ((steps.filter Step.applied).map Step.id).filter (fun x => x ≠ "") =
      appliedIds steps := by
    refine List.filter_eq_self.mpr fun id hid => ?_
    obtain ⟨s, hs, rfl⟩ := List.mem_map.mp hid
    simpa using hn s (List.mem_filter.mp hs).1
  unfold applySteps
  dsimp only
  rw [happ]
  exact List.map_congr_left fun s hs => if_neg (hn s (List.mem_filter.mp hs).1)

theorem Named.ids_applySteps (hn : Named steps) : ids (applySteps steps) = appliedIds steps := by
  rw [hn.applySteps_map]
  simp [ids, appliedIds, Function.comp_def]

/-- The steps that a step depends on, directly or not, from the first one to the step. -/
def dependencyPath (steps : List (Step κ)) (id : String) : List String :=
  Forest.lineage (dependencyOf steps) (ids steps).length id

/-- The applied steps among them. -/
def requestPath (steps : List (Step κ)) (id : String) : List String :=
  (dependencyPath steps id).filter (· ∈ appliedIds steps)

/-- The nearest applied ancestor of a step. -/
def nearest (steps : List (Step κ)) (id : String) : Option String :=
  ((dependencyPath steps id).dropLast.filter (· ∈ appliedIds steps)).getLast?

theorem appliedIds_subset : appliedIds steps ⊆ ids steps := by
  intro id hid
  obtain ⟨s, hs, rfl⟩ := List.mem_map.mp hid
  exact List.mem_map_of_mem (List.mem_filter.mp hs).1

namespace Proper

variable (h : Proper steps)

include h

theorem path_forest (id : String) : h.forest.path id = dependencyPath steps id := rfl

theorem dependencyOf_eq {s : Step κ} (hs : s ∈ steps) :
    dependencyOf steps s.id = s.dependency.filter (· ∈ ids steps) := by
  rw [dependencyOf, find?_id h.unique hs, Option.bind_some]

/-- The loop of `_nearest_applied_ancestor` finds the last applied step of a path. -/
theorem climb_eq : ∀ p ∈ ids steps, ∀ (n : ℕ) (seen : List String),
    (dependencyPath steps p).length ≤ n → (∀ y ∈ dependencyPath steps p, y ∉ seen) →
    climb (buildStepMap steps) (appliedIds steps) n seen p =
      (requestPath steps p).getLast? := by
  have hout : ∀ (n : ℕ) (seen : List String) (q : String), q ∉ ids steps →
      climb (buildStepMap steps) (appliedIds steps) n seen q = none := by
    intro n seen q hq
    cases n with
    | zero => rfl
    | succ n =>
      rw [climb, if_neg fun hm => hq (appliedIds_subset hm),
        get_buildStepMap_none h.unique h.named hq]
      split <;> rfl
  have hstep : ∀ p ∈ ids steps, ∀ (n : ℕ) (seen : List String), p ∉ appliedIds steps →
      p ∉ seen → climb (buildStepMap steps) (appliedIds steps) (n + 1) seen p =
        (dependencyOf steps p).bind
          (climb (buildStepMap steps) (appliedIds steps) n (p :: seen)) := by
    intro p hp n seen hpa hps
    obtain ⟨s, hs, rfl⟩ := List.mem_map.mp hp
    rw [climb, if_neg hpa, if_neg hps, get_buildStepMap h.unique h.named hs, Option.bind_some,
      h.dependencyOf_eq hs]
    cases hd : s.dependency with
    | none => rfl
    | some q =>
      by_cases hq : q ∈ ids steps
      · simp [Option.filter, hq]
      · simp [Option.filter, hq, hout n _ q hq]
  change ∀ p ∈ h.forest.nodes, _
  apply Forest.descend
  · intro p hp hroot n seen hlen hseen
    have hpath : dependencyPath steps p = [p] := Forest.path_root hp hroot
    rw [hpath] at hlen hseen
    obtain ⟨m, rfl⟩ : ∃ m, n = m + 1 := ⟨n - 1, by simp at hlen; omega⟩
    by_cases hpa : p ∈ appliedIds steps
    · simp [climb, requestPath, hpath, hpa]
    · rw [hstep p hp m seen hpa (hseen p (by simp))]
      have hroot : dependencyOf steps p = none := hroot
      simp [hroot, requestPath, hpath, hpa]
  · intro p hp q hq hpar ih n seen hlen hseen
    have hpath : dependencyPath steps p = dependencyPath steps q ++ [p] :=
      Forest.path_child hp hpar
    have hnot : p ∉ dependencyPath steps q := by
      have hnd : (dependencyPath steps p).Nodup := Forest.nodup_path p hp
      rw [hpath, List.nodup_append] at hnd
      exact fun hm => hnd.2.2 p hm p (by simp) rfl
    rw [hpath, List.length_append, List.length_singleton] at hlen
    obtain ⟨m, rfl⟩ : ∃ m, n = m + 1 := ⟨n - 1, by omega⟩
    by_cases hpa : p ∈ appliedIds steps
    · simp [climb, requestPath, hpath, hpa]
    · rw [hstep p hp m seen hpa (hseen p (by simp [hpath]))]
      have hpar : dependencyOf steps p = some q := hpar
      rw [hpar, Option.bind_some, ih m _ (by omega)]
      · simp [requestPath, hpath, hpa]
      · intro y hy
        rw [List.mem_cons, not_or]
        exact ⟨fun he => hnot (he ▸ hy), hseen y (by simp [hpath, hy])⟩

/-- `_nearest_applied_ancestor` finds the nearest applied ancestor. -/
theorem nearestAppliedAncestor_eq {id : String} (hid : id ∈ ids steps) :
    nearestAppliedAncestor id (buildStepMap steps) (appliedIds steps) = nearest steps id := by
  obtain ⟨s, hs, rfl⟩ := List.mem_map.mp hid
  have hdep := h.dependencyOf_eq hs
  have hlen : (buildStepMap steps).rows.length = (ids steps).length := by
    rw [rows_buildStepMap h.unique h.named]
    simp [rowsOf, ids]
  unfold nearestAppliedAncestor nearest
  rw [get_buildStepMap h.unique h.named hs, Option.bind_some]
  cases hd : s.dependency with
  | none =>
    rw [hd, Option.filter_none] at hdep
    have hpath : dependencyPath steps s.id = [s.id] := Forest.path_root (F := h.forest) hid hdep
    simp [hpath]
  | some q =>
    by_cases hq : q ∈ ids steps
    · have hpar : dependencyOf steps s.id = some q := by simp [hdep, hd, Option.filter, hq]
      have hpath : dependencyPath steps s.id = dependencyPath steps q ++ [s.id] :=
        Forest.path_child (F := h.forest) hid hpar
      have hle : (dependencyPath steps q).length ≤ (ids steps).length :=
        Forest.length_path_le (F := h.forest) q
      dsimp only
      rw [h.climb_eq q hq _ [] (by omega) (by simp), hpath, List.dropLast_concat]
      rfl
    · have hroot : dependencyOf steps s.id = none := by simp [hdep, hd, Option.filter, hq]
      have hpath : dependencyPath steps s.id = [s.id] :=
        Forest.path_root (F := h.forest) hid hroot
      dsimp only
      rw [hpath, climb, if_neg fun hm => hq (appliedIds_subset hm), if_neg List.not_mem_nil,
        get_buildStepMap_none h.unique h.named hq]
      rfl

theorem applySteps_eq : applySteps steps = (steps.filter Step.applied).map fun s =>
    { s with dependsOn := (nearest steps s.id).toList } := by
  rw [Named.applySteps_map h.named]
  refine List.map_congr_left fun s hs => ?_
  rw [h.nearestAppliedAncestor_eq (List.mem_map_of_mem (List.mem_filter.mp hs).1)]

theorem ids_applySteps : ids (applySteps steps) = appliedIds steps := Named.ids_applySteps h.named

theorem reaches_nearest {id p : String} (hid : id ∈ ids steps) (hp : nearest steps id = some p) :
    p ∈ appliedIds steps ∧
      Relation.TransGen (fun a b => dependencyOf steps a = some b) id p := by
  obtain ⟨l, hl⟩ := List.getLast?_eq_some_iff.mp hp
  have hm : p ∈ (dependencyPath steps id).dropLast.filter (· ∈ appliedIds steps) := by
    simp [hl]
  obtain ⟨hpath, happ⟩ := List.mem_filter.mp hm
  refine ⟨by simpa using happ, ?_⟩
  cases hd : dependencyOf steps id with
  | none =>
    have hroot : dependencyPath steps id = [id] := Forest.path_root (F := h.forest) hid hd
    simp [hroot] at hpath
  | some q =>
    have hchild : dependencyPath steps id = dependencyPath steps q ++ [id] :=
      Forest.path_child (F := h.forest) hid hd
    rw [hchild, List.dropLast_concat] at hpath
    exact .head' hd (Forest.reaches_of_mem_path (F := h.forest) q
      (h.forest.closed id hid q hd) p hpath)

/-- The applied steps and their nearest applied ancestors form a forest. -/
def appliedForest : Forest String where
  nodes := appliedIds steps
  parent := nearest steps
  nodup := h.unique.sublist (List.filter_sublist.map _)
  closed x hx p hp := (h.reaches_nearest (appliedIds_subset hx) hp).1
  acyclic x hx hc := by
    have hstep : ∀ {a b : String}, Relation.TransGen (fun a b => nearest steps a = some b) a b →
        a ∈ ids steps → Relation.TransGen (fun a b => dependencyOf steps a = some b) a b ∧
          b ∈ ids steps := by
      intro a b hab ha
      induction hab with
      | single hb =>
        have hr := h.reaches_nearest ha hb
        exact ⟨hr.2, appliedIds_subset hr.1⟩
      | tail _ hb ih =>
        have hr := h.reaches_nearest ih.2 hb
        exact ⟨ih.1.trans hr.2, appliedIds_subset hr.1⟩
    exact h.acyclic x (hstep hc (appliedIds_subset hx)).1

/-- The applied part of a path is the path of its last step among the applied ones. -/
theorem requestPath_eq : ∀ p ∈ ids steps,
    requestPath steps p = ((requestPath steps p).getLast?.map h.appliedForest.path).getD [] := by
  have happ : ∀ p ∈ ids steps, p ∈ appliedIds steps → ∀ l, requestPath steps p = l ++ [p] →
      l = (l.getLast?.map h.appliedForest.path).getD [] → nearest steps p = l.getLast? →
      requestPath steps p =
        ((requestPath steps p).getLast?.map h.appliedForest.path).getD [] := by
    intro p _ hpa l hl hind hnear
    rw [hl, List.getLast?_concat]
    simp only [Option.map_some, Option.getD_some]
    cases hlast : l.getLast? with
    | none =>
      rw [List.getLast?_eq_none_iff] at hlast
      subst hlast
      exact (Forest.path_root (F := h.appliedForest) hpa hnear).symm
    | some y =>
      rw [hlast] at hind hnear
      rw [Forest.path_child (F := h.appliedForest) hpa hnear]
      congr 1
  change ∀ p ∈ h.forest.nodes, _
  apply Forest.descend
  · intro p hp hroot
    have hpath : dependencyPath steps p = [p] := Forest.path_root hp hroot
    by_cases hpa : p ∈ appliedIds steps
    · refine happ p hp hpa [] (by simp [requestPath, hpath, hpa]) rfl ?_
      simp [nearest, hpath]
    · simp [requestPath, hpath, hpa]
  · intro p hp q _ hpar ih
    have hpath : dependencyPath steps p = dependencyPath steps q ++ [p] :=
      Forest.path_child hp hpar
    by_cases hpa : p ∈ appliedIds steps
    · refine happ p hp hpa (requestPath steps q) (by simp [requestPath, hpath, hpa]) ih ?_
      simp [nearest, hpath, requestPath]
    · have hsame : requestPath steps p = requestPath steps q := by
        simp [requestPath, hpath, hpa]
      rw [hsame]
      exact ih

/-- `resolve_applied_target` finds the last applied step of the dependency path. -/
theorem resolveAppliedTarget_eq {target : String} (ht : target ∈ ids steps) :
    resolveAppliedTarget steps target =
      if target = "source" then "source"
      else (requestPath steps target).getLast?.getD "source" := by
  obtain ⟨s, hs, rfl⟩ := List.mem_map.mp ht
  have hrows : ((buildStepMap steps).rows.filter fun p => p.2.applied).map Prod.fst =
      appliedIds steps := by
    rw [rows_buildStepMap h.unique h.named, rowsOf, List.filter_map]
    simp [appliedIds, ids, Function.comp_def]
  have hlast := Forest.getLast?_path (F := h.forest) ht
  obtain ⟨l, hl⟩ := List.getLast?_eq_some_iff.mp hlast
  have hl : dependencyPath steps s.id = l ++ [s.id] := hl
  unfold resolveAppliedTarget
  split
  · rfl
  · dsimp only
    rw [get_buildStepMap h.unique h.named hs, hrows, h.nearestAppliedAncestor_eq ht]
    by_cases ha : s.applied = true
    · have hm : s.id ∈ appliedIds steps := List.mem_map_of_mem (List.mem_filter.mpr ⟨hs, ha⟩)
      simp [ha, requestPath, hl, hm]
    · have hm : s.id ∉ appliedIds steps := by
        intro hm
        obtain ⟨x, hx, hxs⟩ := List.mem_map.mp hm
        have hx := List.mem_filter.mp hx
        rw [List.inj_on_of_nodup_map h.unique hx.1 hs hxs] at hx
        exact ha hx.2
      simp [ha, nearest, requestPath, hl, hm]

theorem wired_applySteps : Wired (applySteps steps) h.appliedForest.parent where
  unique := by
    rw [h.ids_applySteps]
    exact h.appliedForest.nodup
  named s hs := by
    rw [h.applySteps_eq] at hs
    obtain ⟨x, hx, rfl⟩ := List.mem_map.mp hs
    exact h.named x (List.mem_filter.mp hx).1
  wired s hs := by
    rw [h.applySteps_eq] at hs
    obtain ⟨x, hx, rfl⟩ := List.mem_map.mp hs
    rfl
  closed id hid p hp := by
    rw [h.ids_applySteps] at hid ⊢
    exact h.appliedForest.closed id hid p hp

end Proper

end DataForge.Pipeline

