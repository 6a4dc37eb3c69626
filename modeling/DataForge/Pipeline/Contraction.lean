import DataForge.Pipeline.Target

/-!
# Contraction of the dependency graph

What `apply_steps` and `resolve_applied_target`
(`src/packages/worker/runtime/compute_utils.py:19-91`) do to the dependency graph: steps that are
not applied are contracted, and every applied step hangs from its nearest applied ancestor. The
loop that climbs to it ends on every list of steps, whatever its graph looks like.
-/

namespace DataForge.Pipeline

open ReadCommitted

variable {κ : Type} {steps : List (Step κ)}

/-! ## Climbing ends -/

/-- The runs of the loop of `_nearest_applied_ancestor` (`compute_utils.py:37-51`) that end. -/
inductive Climbs (stepMap : Table String (Step κ)) (appliedIds : List String) :
    List String → String → Option String → Prop
  | applied {seen parentId} : parentId ∈ appliedIds →
      Climbs stepMap appliedIds seen parentId (some parentId)
  | seen {seen parentId} : parentId ∉ appliedIds → parentId ∈ seen →
      Climbs stepMap appliedIds seen parentId none
  | root {seen parentId} : parentId ∉ appliedIds → parentId ∉ seen →
      (stepMap.get parentId).bind Step.dependency = none →
      Climbs stepMap appliedIds seen parentId none
  | next {seen parentId next found} : parentId ∉ appliedIds → parentId ∉ seen →
      (stepMap.get parentId).bind Step.dependency = some next →
      Climbs stepMap appliedIds (parentId :: seen) next found →
      Climbs stepMap appliedIds seen parentId found

variable {stepMap : Table String (Step κ)}

theorem Climbs.of_mem {appliedIds seen : List String} {parentId : String} {found : Option String}
    (h : Climbs stepMap appliedIds seen parentId found) (ha : parentId ∈ appliedIds) :
    found = some parentId := by
  cases h with
  | applied => rfl
  | seen hn => exact absurd ha hn
  | root hn => exact absurd ha hn
  | next hn => exact absurd ha hn

theorem Climbs.mem {appliedIds seen : List String} {parentId q : String} {found : Option String}
    (h : Climbs stepMap appliedIds seen parentId found) (hq : found = some q) :
    q ∈ appliedIds := by
  induction h with
  | applied ha => exact Option.some.inj hq ▸ ha
  | seen => cases hq
  | root => cases hq
  | next _ _ _ _ ih => exact ih hq

/-- A step that is passed has a row, so only as many are passed as the map has rows. -/
theorem climbs_climb (stepMap : Table String (Step κ)) (appliedIds : List String) :
    ∀ (n : ℕ) (seen : List String) (parentId : String), seen.Nodup →
      (∀ id ∈ seen, id ∈ stepMap.rows.map Prod.fst) → stepMap.rows.length < seen.length + n →
      Climbs stepMap appliedIds seen parentId (climb stepMap appliedIds n seen parentId) := by
  intro n
  induction n with
  | zero =>
    intro seen parentId hnd hrow hlen
    have hle := (List.subperm_of_subset hnd hrow).length_le
    rw [List.length_map] at hle
    omega
  | succ n ih =>
    intro seen parentId hnd hrow hlen
    rw [climb]
    by_cases ha : parentId ∈ appliedIds
    · rw [if_pos ha]
      exact .applied ha
    · rw [if_neg ha]
      by_cases hs : parentId ∈ seen
      · rw [if_pos hs]
        exact .seen ha hs
      · rw [if_neg hs]
        cases hp : (stepMap.get parentId).bind Step.dependency with
        | none => exact .root ha hs hp
        | some next =>
          obtain ⟨s, hget, -⟩ := Option.bind_eq_some_iff.mp hp
          refine .next ha hs hp (ih _ _ (List.nodup_cons.mpr ⟨hs, hnd⟩) ?_ ?_)
          · intro id hid
            cases List.mem_cons.mp hid with
            | inl he =>
              rw [he]
              exact List.mem_map.mpr ⟨_, (stepMap.mem_rows_iff parentId s).mpr hget, rfl⟩
            | inr hid => exact hrow id hid
          · rw [List.length_cons]
            omega

/-- A run of `_nearest_applied_ancestor` that ends. -/
def Finds (stepMap : Table String (Step κ)) (appliedIds : List String) (stepId : String)
    (found : Option String) : Prop :=
  match (stepMap.get stepId).bind Step.dependency with
  | none => found = none
  | some parentId => Climbs stepMap appliedIds [] parentId found

theorem finds_nearestAppliedAncestor (stepMap : Table String (Step κ)) (appliedIds : List String)
    (stepId : String) :
    Finds stepMap appliedIds stepId (nearestAppliedAncestor stepId stepMap appliedIds) := by
  unfold Finds nearestAppliedAncestor
  cases (stepMap.get stepId).bind Step.dependency with
  | none => rfl
  | some parentId =>
    apply climbs_climb
    · exact List.nodup_nil
    · simp
    · simp

theorem nearestAppliedAncestor_mem {appliedIds : List String} {stepId q : String}
    (h : nearestAppliedAncestor stepId stepMap appliedIds = some q) :
    q ∈ appliedIds := by
  have hfinds := finds_nearestAppliedAncestor stepMap appliedIds stepId
  rw [h] at hfinds
  unfold Finds at hfinds
  cases hd : (stepMap.get stepId).bind Step.dependency with
  | none =>
    rw [hd] at hfinds
    cases hfinds
  | some c =>
    rw [hd] at hfinds
    exact hfinds.mem rfl

/-- Every step that `apply_steps` looks at is done with: a step without id stays as it is, and
for every other one the loop ends and gives its dependency. -/
def Terminates (steps : List (Step κ)) : Prop :=
  List.Forall₂ (fun s s' => if s.id = "" then s' = s
      else ∃ found, Finds (buildStepMap steps)
          (((steps.filter Step.applied).map Step.id).filter (· ≠ "")) s.id found ∧
        s' = { s with dependsOn := found.toList })
    (steps.filter Step.applied) (applySteps steps)

theorem applySteps_terminates (steps : List (Step κ)) : Terminates steps := by
  unfold Terminates applySteps
  dsimp only
  rw [List.forall₂_map_right_iff, List.forall₂_same]
  intro s _
  by_cases hs : s.id = ""
  · simp [hs]
  · rw [if_neg hs, if_neg hs]
    exact ⟨_, finds_nearestAppliedAncestor _ _ _, rfl⟩

/-! ## Ancestors -/

/-- A step reads the result of another one, directly or not. -/
def Ancestor (steps : List (Step κ)) : String → String → Prop :=
  Relation.TransGen fun a b => dependencyOf steps a = some b

/-- The applied ancestor of a step that all its other applied ancestors lie behind. -/
def NearestApplied (steps : List (Step κ)) (id p : String) : Prop :=
  p ∈ appliedIds steps ∧ Ancestor steps id p ∧
    ∀ q ∈ appliedIds steps, Ancestor steps id q → q = p ∨ Ancestor steps p q

theorem ancestor_iff {id q p : String} (hq : dependencyOf steps id = some q) :
    Ancestor steps id p ↔ p = q ∨ Ancestor steps q p := by
  constructor
  · intro h
    obtain ⟨r, hr, hrp⟩ := Relation.TransGen.head'_iff.mp h
    rw [hq, Option.some_inj] at hr
    subst hr
    exact (Relation.reflTransGen_iff_eq_or_transGen.mp hrp)
  · rintro (rfl | h)
    · exact .single hq
    · exact .head hq h

theorem not_ancestor {id p : String} (h : dependencyOf steps id = none) :
    ¬ Ancestor steps id p := by
  intro ha
  obtain ⟨r, hr, -⟩ := Relation.TransGen.head'_iff.mp ha
  rw [h] at hr
  cases hr

namespace Proper

variable (h : Proper steps)

include h

variable {id : String}

theorem nearest_root (hid : id ∈ ids steps) (hroot : dependencyOf steps id = none) :
    nearest steps id = none := by
  have hpath : dependencyPath steps id = [id] := Forest.path_root (F := h.forest) hid hroot
  simp [nearest, hpath]

theorem nearest_child {id q : String} (hid : id ∈ ids steps)
    (hq : dependencyOf steps id = some q) :
    nearest steps id = if q ∈ appliedIds steps then some q else nearest steps q := by
  have hpath : dependencyPath steps id = dependencyPath steps q ++ [id] :=
    Forest.path_child (F := h.forest) hid hq
  have hlast : (dependencyPath steps q).getLast? = some q :=
    Forest.getLast?_path (F := h.forest) (h.forest.closed id hid q hq)
  obtain ⟨l, hl⟩ := List.getLast?_eq_some_iff.mp hlast
  by_cases ha : q ∈ appliedIds steps
  · simp [nearest, hpath, hl, ha]
  · simp [nearest, hpath, hl, ha]

/-- The last applied step above a step is the nearest applied ancestor. -/
theorem nearest_iff : ∀ id ∈ ids steps, ∀ p,
    nearest steps id = some p ↔ NearestApplied steps id p := by
  change ∀ id ∈ h.forest.nodes, _
  apply Forest.descend
  · intro id hid hroot p
    rw [h.nearest_root hid hroot]
    constructor
    · intro hp
      cases hp
    · intro hp
      exact absurd hp.2.1 (not_ancestor hroot)
  · intro id hid q hqm hq ih p
    have hq : dependencyOf steps id = some q := hq
    rw [h.nearest_child hid hq]
    by_cases ha : q ∈ appliedIds steps
    · rw [if_pos ha, Option.some_inj]
      constructor
      · rintro rfl
        exact ⟨ha, .single hq, fun r _ hr => (ancestor_iff hq).mp hr⟩
      · rintro ⟨-, hp, hmin⟩
        -- the dependency is applied itself, so nothing nearer is
        rcases hmin q ha (.single hq) with he | hpq
        · exact he
        · rcases (ancestor_iff hq).mp hp with he | hqp
          · exact he.symm
          · exact absurd (hpq.trans hqp) (h.acyclic p)
    · rw [if_neg ha, ih p]
      have hne : ∀ r ∈ appliedIds steps, Ancestor steps id r ↔ Ancestor steps q r := by
        intro r hr
        rw [ancestor_iff hq]
        exact or_iff_right fun he => ha (he ▸ hr)
      constructor
      · rintro ⟨hp, hqp, hmin⟩
        exact ⟨hp, (hne p hp).mpr hqp, fun r hr hir => hmin r hr ((hne r hr).mp hir)⟩
      · rintro ⟨hp, hip, hmin⟩
        exact ⟨hp, (hne p hp).mp hip, fun r hr hqr => hmin r hr ((hne r hr).mpr hqr)⟩

theorem nearest_ne_none {b : String} (hb : b ∈ appliedIds steps) :
    ∀ id ∈ ids steps, Ancestor steps id b → nearest steps id ≠ none := by
  change ∀ id ∈ h.forest.nodes, _
  apply Forest.descend
  · exact fun id _ hroot ha => absurd ha (not_ancestor hroot)
  · intro id hid q _ hq ih ha
    have hq : dependencyOf steps id = some q := hq
    rw [h.nearest_child hid hq]
    by_cases hqa : q ∈ appliedIds steps
    · simp [hqa]
    · rw [if_neg hqa]
      exact ih (((ancestor_iff hq).mp ha).resolve_left fun he => hqa (he ▸ hb))

/-! ## The contracted graph -/

theorem dependencyOf_applySteps (hid : id ∈ appliedIds steps) :
    dependencyOf (applySteps steps) id = nearest steps id := by
  have hw := h.wired_applySteps
  have hidm : id ∈ ids (applySteps steps) := by rwa [h.ids_applySteps]
  cases hfind : (applySteps steps).find? fun s => s.id = id with
  | none =>
    obtain ⟨s, hs, rfl⟩ := List.mem_map.mp hidm
    simpa using List.find?_eq_none.mp hfind s hs
  | some s =>
    have hs := List.mem_of_find?_eq_some hfind
    have hsid : s.id = id := by simpa using List.find?_some hfind
    rw [dependencyOf, hfind, Option.bind_some, Step.dependency, hw.wired s hs, hsid]
    change Option.filter _ (Option.filter _ (nearest steps id).toList.head?) = _
    cases hn : nearest steps id with
    | none => rfl
    | some p =>
      have hp : p ∈ ids (applySteps steps) := hw.closed id hidm p hn
      obtain ⟨x, hx, rfl⟩ := List.mem_map.mp hp
      have hne := hw.named x hx
      simp [Option.filter, hp, hne]

theorem dependencyOf_applySteps_none (hid : id ∉ appliedIds steps) :
    dependencyOf (applySteps steps) id = none := by
  have hfind : (applySteps steps).find? (fun s => s.id = id) = none := by
    rw [List.find?_eq_none]
    intro s hs he
    have he : s.id = id := by simpa using he
    refine hid ?_
    rw [← h.ids_applySteps, ← he]
    exact List.mem_map_of_mem hs
  rw [dependencyOf, hfind]
  rfl

theorem filter_applySteps : (applySteps steps).filter Step.applied = applySteps steps := by
  refine List.filter_eq_self.mpr fun s hs => ?_
  rw [h.applySteps_eq] at hs
  obtain ⟨x, hx, rfl⟩ := List.mem_map.mp hs
  exact (List.mem_filter.mp hx).2

theorem proper_applySteps : Proper (applySteps steps) where
  unique := h.wired_applySteps.unique
  named := h.wired_applySteps.named
  single s hs := by
    rw [h.wired_applySteps.wired s hs]
    cases h.appliedForest.parent s.id <;> simp
  acyclic id hc := by
    have hstep : ∀ {a b}, dependencyOf (applySteps steps) a = some b →
        a ∈ appliedIds steps ∧ nearest steps a = some b := by
      intro a b hab
      by_cases ha : a ∈ appliedIds steps
      · rw [h.dependencyOf_applySteps ha] at hab
        exact ⟨ha, hab⟩
      · rw [h.dependencyOf_applySteps_none ha] at hab
        cases hab
    obtain ⟨b, hb, -⟩ := Relation.TransGen.head'_iff.mp hc
    exact h.appliedForest.acyclic id (hstep hb).1
      (Relation.TransGen.mono (fun _ _ hab => (hstep hab).2) _ _ hc)

theorem appliedIds_applySteps : appliedIds (applySteps steps) = appliedIds steps := by
  rw [appliedIds, h.filter_applySteps, h.ids_applySteps]

theorem nearest_applySteps (hid : id ∈ appliedIds steps) :
    nearest (applySteps steps) id = nearest steps id := by
  have hP := h.proper_applySteps
  have hidm : id ∈ ids (applySteps steps) := by rwa [h.ids_applySteps]
  have hdep := h.dependencyOf_applySteps hid
  cases hn : nearest steps id with
  | none =>
    rw [hn] at hdep
    exact hP.nearest_root hidm hdep
  | some p =>
    rw [hn] at hdep
    rw [hP.nearest_child hidm hdep, if_pos]
    rw [h.appliedIds_applySteps]
    exact (h.reaches_nearest (appliedIds_subset hid) hn).1

theorem applySteps_applySteps : applySteps (applySteps steps) = applySteps steps := by
  rw [h.proper_applySteps.applySteps_eq, h.filter_applySteps]
  conv_rhs => rw [← List.map_id (applySteps steps)]
  refine List.map_congr_left fun s hs => ?_
  have hid : s.id ∈ appliedIds steps := by
    rw [← h.ids_applySteps]
    exact List.mem_map_of_mem hs
  rw [h.nearest_applySteps hid]
  have hwired : s.dependsOn = (nearest steps s.id).toList := h.wired_applySteps.wired s hs
  rw [← hwired]
  rfl

/-- Paths between applied steps go through their nearest applied ancestors. -/
theorem ancestor_applySteps {a b : String} (ha : a ∈ appliedIds steps)
    (hb : b ∈ appliedIds steps) : Ancestor (applySteps steps) a b ↔ Ancestor steps a b := by
  constructor
  · intro hab
    have hboth : b ∈ appliedIds steps ∧ Ancestor steps a b := by
      clear hb
      induction hab with
      | single hab =>
        rw [h.dependencyOf_applySteps ha] at hab
        exact h.reaches_nearest (appliedIds_subset ha) hab
      | tail _ hbc ih =>
        rw [h.dependencyOf_applySteps ih.1] at hbc
        have hnext := h.reaches_nearest (appliedIds_subset ih.1) hbc
        exact ⟨hnext.1, ih.2.trans hnext.2⟩
    exact hboth.2
  · -- from the root: an applied ancestor is the nearest one or lies behind it
    have hall : ∀ x ∈ h.appliedForest.nodes, Ancestor steps x b →
        Ancestor (applySteps steps) x b := by
      apply Forest.descend
      · intro x hx hroot hxb
        exact absurd hroot (h.nearest_ne_none hb x (appliedIds_subset hx) hxb)
      · intro x hx p _ hp ih hxb
        have hp : nearest steps x = some p := hp
        have hdep : dependencyOf (applySteps steps) x = some p := by
          rw [h.dependencyOf_applySteps hx, hp]
        rw [ancestor_iff hdep]
        exact (((h.nearest_iff x (appliedIds_subset hx) p).mp hp).2.2 b hb hxb).imp id ih
    exact hall a ha

theorem resolveAppliedTarget_disabled {s : Step κ} (hs : s ∈ steps) (ha : s.applied = false)
    (hsource : s.id ≠ "source") :
    resolveAppliedTarget steps s.id = (nearest steps s.id).getD "source" := by
  have hid : s.id ∈ ids steps := List.mem_map_of_mem hs
  have hlast : (dependencyPath steps s.id).getLast? = some s.id :=
    Forest.getLast?_path (F := h.forest) hid
  obtain ⟨l, hl⟩ := List.getLast?_eq_some_iff.mp hlast
  have hnot : s.id ∉ appliedIds steps := by
    intro hm
    obtain ⟨x, hx, hxs⟩ := List.mem_map.mp hm
    obtain ⟨hx, hxa⟩ := List.mem_filter.mp hx
    rw [List.inj_on_of_nodup_map h.unique hx hs hxs, ha] at hxa
    cases hxa
  rw [h.resolveAppliedTarget_eq hid, if_neg hsource]
  simp [nearest, requestPath, hl, hnot]

end Proper

/-! ## A disabled step, applied -/

/-- A step, applied if it is the one with this id. -/
def Step.enabled (id : String) (s : Step κ) : Step κ :=
  { s with isApplied := if s.id = id then some true else s.isApplied }

/-- The steps with one of them applied. -/
def enable (id : String) (steps : List (Step κ)) : List (Step κ) := steps.map (Step.enabled id)

theorem ids_enable (id : String) : ids (enable id steps) = ids steps :=
  ids_map (Step.enabled id) (fun _ => rfl) steps

theorem Proper.enabled (h : Proper steps) (id : String) : Proper (enable id steps) :=
  h.map (Step.enabled id) (fun _ => rfl) fun _ => rfl

theorem ancestor_enable {id a b : String} :
    Ancestor (enable id steps) a b ↔ Ancestor steps a b := by
  have hfun : dependencyOf (enable id steps) = dependencyOf steps :=
    funext fun a =>
      dependencyOf_map (Step.enabled id) (fun _ => rfl) (fun _ => rfl) steps a
  rw [Ancestor, Ancestor, hfun]

theorem Step.applied_enabled (id : String) (s : Step κ) :
    (s.enabled id).applied = (s.applied || s.id = id) := by
  by_cases hs : s.id = id
  · simp [Step.enabled, Step.applied, hs]
  · simp [Step.enabled, Step.applied, hs]

theorem mem_appliedIds_enable {id q : String} (hid : id ∈ ids steps) :
    q ∈ appliedIds (enable id steps) ↔ q = id ∨ q ∈ appliedIds steps := by
  simp only [appliedIds, ids, enable, List.mem_map, List.mem_filter]
  constructor
  · rintro ⟨_, ⟨⟨s, hs, rfl⟩, ha⟩, rfl⟩
    rw [Step.applied_enabled, Bool.or_eq_true, decide_eq_true_eq] at ha
    rcases ha with ha | hsid
    · exact .inr ⟨s, ⟨hs, ha⟩, rfl⟩
    · exact .inl hsid
  · rintro (rfl | ⟨s, ⟨hs, ha⟩, rfl⟩)
    · obtain ⟨s, hs, rfl⟩ := List.mem_map.mp hid
      exact ⟨_, ⟨⟨s, hs, rfl⟩, by simp [Step.applied_enabled]⟩, rfl⟩
    · exact ⟨_, ⟨⟨s, hs, rfl⟩, by simp [Step.applied_enabled, ha]⟩, rfl⟩

theorem Proper.nearestApplied_enable (h : Proper steps) {id p : String} (hid : id ∈ ids steps) :
    NearestApplied (enable id steps) id p ↔ NearestApplied steps id p := by
  have hother : ∀ q, Ancestor steps id q →
      (q ∈ appliedIds (enable id steps) ↔ q ∈ appliedIds steps) := by
    intro q hq
    rw [mem_appliedIds_enable hid]
    refine or_iff_right fun he => ?_
    subst he
    exact h.acyclic q hq
  unfold NearestApplied
  simp only [ancestor_enable]
  constructor
  · rintro ⟨hp, hip, hmin⟩
    exact ⟨(hother p hip).mp hp, hip, fun q hq hiq => hmin q ((hother q hiq).mpr hq) hiq⟩
  · rintro ⟨hp, hip, hmin⟩
    exact ⟨(hother p hip).mpr hp, hip, fun q hq hiq => hmin q ((hother q hiq).mp hq) hiq⟩

/-! ## The contraction law -/

/-- What `apply_steps` and `resolve_applied_target` make of a dependency graph. -/
structure Contracts (steps : List (Step κ)) : Prop where
  /-- The applied steps, in list order, with their nearest applied ancestors. -/
  kept : List.Forall₂ (fun s s' => ∃ d : Option String,
      s' = { s with dependsOn := d.toList } ∧ ∀ p, d = some p ↔ NearestApplied steps s.id p)
    (steps.filter Step.applied) (applySteps steps)
  idempotent : applySteps (applySteps steps) = applySteps steps
  ancestors : ∀ a ∈ appliedIds steps, ∀ b ∈ appliedIds steps,
    (Ancestor (applySteps steps) a b ↔ Ancestor steps a b)
  /-- A disabled step resolves to the dependency that it would have been given. -/
  resolved : ∀ s ∈ steps, s.applied = false → s.id ≠ "source" →
    ∃ s' ∈ applySteps (enable s.id steps), s'.id = s.id ∧
      (∀ p, s'.dependsOn.head? = some p ↔ NearestApplied steps s.id p) ∧
      resolveAppliedTarget steps s.id = s'.dependsOn.head?.getD "source"

/-- `apply_steps` ends on every list of steps, and contracts the graph of those with unique ids,
at most one dependency each and no cycle. -/
theorem apply_steps_contraction (steps : List (Step κ)) :
    (Proper steps → Contracts steps) ∧ Terminates steps := by
  refine ⟨fun h => ⟨?_, h.applySteps_applySteps, fun a ha b hb => h.ancestor_applySteps ha hb, ?_⟩,
    applySteps_terminates steps⟩
  · rw [h.applySteps_eq, List.forall₂_map_right_iff, List.forall₂_same]
    intro s hs
    exact ⟨_, rfl, h.nearest_iff s.id (List.mem_map_of_mem (List.mem_filter.mp hs).1)⟩
  · intro s hs ha hsource
    have hid : s.id ∈ ids steps := List.mem_map_of_mem hs
    have h' := h.enabled s.id
    have hid' : s.id ∈ ids (enable s.id steps) := by rwa [ids_enable]
    have heq : nearest (enable s.id steps) s.id = nearest steps s.id := by
      refine Option.ext fun p => ?_
      rw [h'.nearest_iff _ hid', h.nearest_iff _ hid, h.nearestApplied_enable hid]
    refine ⟨{ s.enabled s.id with dependsOn := (nearest (enable s.id steps) s.id).toList },
      ?_, rfl, ?_, ?_⟩
    · rw [h'.applySteps_eq]
      refine List.mem_map.mpr ⟨s.enabled s.id, List.mem_filter.mpr ⟨?_, ?_⟩, rfl⟩
      · exact List.mem_map_of_mem hs
      · simp [Step.applied_enabled]
    · intro p
      rw [← h.nearest_iff s.id hid p, ← heq]
      cases nearest (enable s.id steps) s.id <;> rfl
    · rw [h.resolveAppliedTarget_disabled hs ha hsource, ← heq]
      cases nearest (enable s.id steps) s.id <;> rfl

/-- A chain with a disabled step in the middle. -/
def contractedSteps : List (Step Unit) :=
  [plainStep "a" [], { plainStep "b" ["a"] with isApplied := some false }, plainStep "c" ["b"]]

theorem apply_steps_contraction_chain : Contracts contractedSteps ∧ Terminates contractedSteps :=
  ⟨(apply_steps_contraction contractedSteps).1
      (.of_backward (by decide) (by decide) (by decide) (by decide)),
    (apply_steps_contraction contractedSteps).2⟩

/-- A disabled step named like the source. -/
def sourceSteps : List (Step Unit) :=
  [plainStep "a" [], { plainStep "source" ["a"] with isApplied := some false }]

/-- A step whose id is empty, behind a disabled one. -/
def unnamedSteps : List (Step Unit) :=
  [{ plainStep "a" [] with isApplied := some false }, plainStep "" ["a"]]

/-- The reserved id resolves to the source and not to the dependency of the step, and a step with
an empty id keeps a dependency that is not applied. -/
theorem reserved_ids_not_contracted :
    (Proper sourceSteps ∧ dependencyOf sourceSteps "source" = some "a" ∧
      "a" ∈ appliedIds sourceSteps ∧ resolveAppliedTarget sourceSteps "source" = "source") ∧
    (ids unnamedSteps).Nodup ∧ appliedIds unnamedSteps = [""] ∧
      (applySteps unnamedSteps).map Step.dependsOn = [["a"]] :=
  ⟨⟨.of_backward (by decide) (by decide) (by decide) (by decide), by decide, by decide,
    by decide⟩, by decide, by decide, by decide⟩

end DataForge.Pipeline
