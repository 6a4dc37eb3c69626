import DataForge.Forest.Bypass
import DataForge.Pipeline.Contraction

/-!
# A removed step

Deleting a step and attaching its dependents to its parent does to the other steps what
disabling it does.
-/

namespace DataForge.Pipeline

open Forest

variable {κ : Type} {steps : List (Step κ)} {x : String}

/-- A step, not applied if it is the one with this id. -/
def Step.disabled (x : String) (s : Step κ) : Step κ :=
  { s with isApplied := if s.id = x then some false else s.isApplied }

/-- The steps with one of them disabled. -/
def disable (x : String) (steps : List (Step κ)) : List (Step κ) := steps.map (Step.disabled x)

/-- The first dependency of a step by its id. -/
def firstDependency (steps : List (Step κ)) (x : String) : Option String :=
  (steps.find? (·.id = x)).bind Step.dependency

/-- A step, attached to a parent if it depended on the step with this id. -/
def Step.attached (x : String) (parent : Option String) (s : Step κ) : Step κ :=
  { s with dependsOn := if x ∈ s.dependsOn then parent.toList else s.dependsOn }

/-- The other steps, with the dependents of the removed one attached to its parent. -/
def remove (x : String) (steps : List (Step κ)) : List (Step κ) :=
  (steps.filter (·.id ≠ x)).map (Step.attached x (firstDependency steps x))

@[simp]
theorem Step.id_attached (parent : Option String) (s : Step κ) :
    (s.attached x parent).id = s.id := rfl

theorem Step.applied_disabled (s : Step κ) :
    (s.disabled x).applied = (s.applied && decide (s.id ≠ x)) := by
  by_cases hs : s.id = x
  · simp [Step.disabled, Step.applied, hs]
  · simp [Step.disabled, Step.applied, hs]

theorem ids_remove : ids (remove x steps) = (ids steps).filter (· ≠ x) := by
  rw [remove, ids, List.map_map, ids, List.filter_map]
  rfl

theorem mem_ids_remove {id : String} : id ∈ ids (remove x steps) ↔ id ∈ ids steps ∧ id ≠ x := by
  rw [ids_remove, List.mem_filter, decide_eq_true_eq]

theorem appliedIds_remove : appliedIds (remove x steps) = appliedIds (disable x steps) := by
  rw [appliedIds, appliedIds, remove, disable, List.filter_map, List.filter_map, ids, ids,
    List.map_map, List.map_map, List.filter_filter]
  refine congrArg (List.map Step.id) (List.filter_congr fun s _ => ?_)
  exact (Step.applied_disabled s).symm

theorem appliedIds_disable : appliedIds (disable x steps) ⊆ ids (remove x steps) := by
  rw [← appliedIds_remove]
  exact appliedIds_subset

namespace Proper

variable (h : Proper steps)

include h

theorem disabled (x : String) : Proper (disable x steps) :=
  h.map (Step.disabled x) (fun _ => rfl) (fun _ => rfl)

omit h in
theorem dependencyOf_disable (id : String) :
    dependencyOf (disable x steps) id = dependencyOf steps id :=
  dependencyOf_map (Step.disabled x) (fun _ => rfl) (fun _ => rfl) steps id

theorem mem_dependsOn_iff {s : Step κ} (hs : s ∈ steps) {p : String} (hp : p ≠ "") :
    p ∈ s.dependsOn ↔ s.dependency = some p := by
  have hsingle := h.single s hs
  rw [Step.dependency]
  cases hd : s.dependsOn with
  | nil => simp
  | cons q l =>
    have hl : l = [] := by
      rw [hd, List.length_cons] at hsingle
      exact List.length_eq_zero_iff.mp (by omega)
    rw [hl]
    simp only [List.mem_singleton, List.head?_cons, Option.filter_eq_some_iff, Option.some_inj,
      decide_eq_true_eq]
    constructor
    · rintro rfl
      exact ⟨rfl, hp⟩
    · exact fun hq => hq.1.symm

theorem firstDependency_eq {s : Step κ} (hs : s ∈ steps) :
    firstDependency steps s.id = s.dependency := by
  rw [firstDependency, find?_id h.unique hs, Option.bind_some]

theorem dependency_attached {s : Step κ} (hs : s ∈ steps) (hx : x ∈ ids steps) :
    (s.attached x (firstDependency steps x)).dependency =
      if s.dependency = some x then firstDependency steps x else s.dependency := by
  have hne : x ≠ "" := by
    obtain ⟨t, ht, rfl⟩ := List.mem_map.mp hx
    exact h.named t ht
  by_cases hd : s.dependency = some x
  · have hmem := (h.mem_dependsOn_iff hs hne).mpr hd
    rw [if_pos hd, Step.dependency, Step.attached, if_pos hmem]
    cases hfirst : firstDependency steps x with
    | none => rfl
    | some p =>
      obtain ⟨t, ht, rfl⟩ := List.mem_map.mp hx
      rw [h.firstDependency_eq ht, Step.dependency] at hfirst
      exact Option.filter_eq_some_iff.mpr ⟨rfl, (Option.filter_eq_some_iff.mp hfirst).2⟩
  · have hmem : x ∉ s.dependsOn := fun hmem => hd ((h.mem_dependsOn_iff hs hne).mp hmem)
    rw [if_neg hd, Step.dependency, Step.attached, if_neg hmem, Step.dependency]

theorem unique_remove (x : String) : (ids (remove x steps)).Nodup := by
  rw [ids_remove]
  exact h.unique.filter _

/-- The dependencies after the removal are those that pass the removed step over. -/
theorem dependencyOf_remove (hx : x ∈ ids steps) {a b : String} :
    dependencyOf (remove x steps) a = some b ↔
      Bypass (fun a b => dependencyOf steps a = some b) x a b := by
  have hof : ∀ (l : List (Step κ)) (id q : String), dependencyOf l id = some q ↔
      firstDependency l id = some q ∧ q ∈ ids l := by
    intro l id q
    rw [dependencyOf, firstDependency, Option.filter_eq_some_iff, decide_eq_true_eq]
  by_cases ha : a ∈ ids (remove x steps)
  · obtain ⟨s', hs', rfl⟩ := List.mem_map.mp ha
    have hfirst' : firstDependency (remove x steps) s'.id = s'.dependency := by
      rw [firstDependency, find?_id (h.unique_remove x) hs', Option.bind_some]
    obtain ⟨s, hs, rfl⟩ := List.mem_map.mp hs'
    obtain ⟨hs, hne⟩ := List.mem_filter.mp hs
    have hne : s.id ≠ x := of_decide_eq_true hne
    have hfirst := h.firstDependency_eq hs
    rw [Step.id_attached] at hfirst' ⊢
    rw [hof, hfirst', h.dependency_attached hs hx, mem_ids_remove, Bypass, hof, hof, hof, hfirst]
    by_cases hd : s.dependency = some x
    · rw [if_pos hd, hd]
      constructor
      · rintro ⟨hb, hm, hbx⟩
        exact ⟨hne, hbx, .inr ⟨⟨rfl, hx⟩, hb, hm⟩⟩
      · rintro ⟨-, hbx, ⟨hb, -⟩ | ⟨-, hb, hm⟩⟩
        · exact absurd (Option.some.inj hb).symm hbx
        · exact ⟨hb, hm, hbx⟩
    · rw [if_neg hd]
      constructor
      · rintro ⟨hb, hm, hbx⟩
        exact ⟨hne, hbx, .inl ⟨hb, hm⟩⟩
      · rintro ⟨-, hbx, ⟨hb, hm⟩ | ⟨⟨hb, -⟩, -⟩⟩
        · exact ⟨hb, hm, hbx⟩
        · exact absurd hb hd
  · have hnone : ∀ l : List (Step κ), a ∉ ids l → dependencyOf l a = none := by
      intro l hl
      have hfind : l.find? (·.id = a) = none := by
        rw [List.find?_eq_none]
        intro s hs
        rw [decide_eq_true_eq]
        exact fun he => hl (List.mem_map.mpr ⟨s, hs, he⟩)
      rw [dependencyOf, hfind]
      rfl
    rw [hnone _ ha]
    constructor
    · intro hb
      cases hb
    · rintro ⟨hax, -, hb | ⟨hb, -⟩⟩
      · rw [hnone _ fun hm => ha (mem_ids_remove.mpr ⟨hm, hax⟩)] at hb
        cases hb
      · rw [hnone _ fun hm => ha (mem_ids_remove.mpr ⟨hm, hax⟩)] at hb
        cases hb

theorem ancestor_remove (hx : x ∈ ids steps) {a b : String} (ha : a ≠ x) (hb : b ≠ x) :
    Ancestor (remove x steps) a b ↔ Ancestor steps a b := by
  have hrel : (fun a b => dependencyOf (remove x steps) a = some b) =
      Bypass (fun a b => dependencyOf steps a = some b) x := by
    funext a b
    exact propext (h.dependencyOf_remove hx)
  rw [Ancestor, hrel, Ancestor, transGen_bypass ha hb]

theorem removed (hx : x ∈ ids steps) : Proper (remove x steps) where
  unique := h.unique_remove x
  named s' hs' := by
    obtain ⟨s, hs, rfl⟩ := List.mem_map.mp hs'
    exact h.named s (List.mem_filter.mp hs).1
  single s' hs' := by
    obtain ⟨s, hs, rfl⟩ := List.mem_map.mp hs'
    change (if x ∈ s.dependsOn then (firstDependency steps x).toList else s.dependsOn).length ≤ 1
    split
    · cases firstDependency steps x <;> simp
    · exact h.single s (List.mem_filter.mp hs).1
  acyclic a hc := by
    have ha : a ≠ x := by
      obtain ⟨b, hb, -⟩ := Relation.TransGen.head'_iff.mp hc
      exact ((h.dependencyOf_remove hx).mp hb).1
    exact h.acyclic a ((h.ancestor_remove hx ha ha).mp hc)

/-- Removing a step and disabling it leave the other steps the same nearest applied
ancestors. -/
theorem nearest_remove (hx : x ∈ ids steps) {id : String} (hid : id ∈ ids (remove x steps)) :
    nearest (remove x steps) id = nearest (disable x steps) id := by
  obtain ⟨hmem, hne⟩ := mem_ids_remove.mp hid
  have hmem' : id ∈ ids (disable x steps) := by
    rw [disable, ids_map (Step.disabled x) fun _ => rfl]
    exact hmem
  have hancestor : ∀ {a b}, a ≠ x → b ≠ x →
      (Ancestor (remove x steps) a b ↔ Ancestor (disable x steps) a b) := by
    intro a b ha hb
    rw [h.ancestor_remove hx ha hb, Ancestor, Ancestor]
    simp only [dependencyOf_disable]
  have happlied : ∀ {p}, p ∈ appliedIds (disable x steps) → p ≠ x :=
    fun hp => (mem_ids_remove.mp (appliedIds_disable hp)).2
  refine Option.ext fun p => ?_
  rw [(h.removed hx).nearest_iff id hid, (h.disabled x).nearest_iff id hmem', NearestApplied,
    NearestApplied, appliedIds_remove]
  refine and_congr_right fun hp => ?_
  refine and_congr (hancestor hne (happlied hp)) (forall₂_congr fun q hq => ?_)
  rw [hancestor hne (happlied hq), hancestor (happlied hp) (happlied hq)]

/-- The engine runs the same steps after a removal and with the step disabled. -/
theorem applySteps_remove (hx : x ∈ ids steps) :
    applySteps (remove x steps) = applySteps (disable x steps) := by
  rw [(h.removed hx).applySteps_eq, (h.disabled x).applySteps_eq]
  have hfilter : (disable x steps).filter Step.applied =
      (steps.filter fun s => s.applied && decide (s.id ≠ x)).map (Step.disabled x) := by
    rw [disable, List.filter_map]
    exact congrArg _ (List.filter_congr fun s _ => Step.applied_disabled s)
  have hfilter' : (remove x steps).filter Step.applied =
      (steps.filter fun s => s.applied && decide (s.id ≠ x)).map
        (Step.attached x (firstDependency steps x)) := by
    rw [remove, List.filter_map, List.filter_filter]
    rfl
  rw [hfilter, hfilter', List.map_map, List.map_map]
  refine List.map_congr_left fun s hs => ?_
  obtain ⟨hs, hkeep⟩ := List.mem_filter.mp hs
  have hne : s.id ≠ x := of_decide_eq_true (Bool.and_eq_true_iff.mp hkeep).2
  have hid : s.id ∈ ids (remove x steps) := mem_ids_remove.mpr ⟨List.mem_map_of_mem hs, hne⟩
  change Step.mk _ _ _ _ = Step.mk _ _ _ _
  congr 1
  · exact congrArg Option.toList (h.nearest_remove hx hid)
  · change s.isApplied = if s.id = x then some false else s.isApplied
    rw [if_neg hne]

theorem resolveAppliedTarget_nearest {id : String} (hid : id ∈ ids steps) :
    resolveAppliedTarget steps id =
      if id = "source" then "source"
      else if id ∈ appliedIds steps then id else (nearest steps id).getD "source" := by
  by_cases hsource : id = "source"
  · rw [if_pos hsource, h.resolveAppliedTarget_eq hid, if_pos hsource]
  rw [if_neg hsource]
  by_cases happ : id ∈ appliedIds steps
  · obtain ⟨l, hl⟩ := List.getLast?_eq_some_iff.mp
      (Forest.getLast?_path (F := h.forest) hid)
    have hl : dependencyPath steps id = l ++ [id] := hl
    rw [if_pos happ, h.resolveAppliedTarget_eq hid, if_neg hsource, requestPath, hl]
    simp [happ]
  · obtain ⟨s, hs, rfl⟩ := List.mem_map.mp hid
    have hfalse : s.applied = false := by
      cases hs' : s.applied with
      | false => rfl
      | true => exact absurd (List.mem_map_of_mem (List.mem_filter.mpr ⟨hs, hs'⟩)) happ
    rw [if_neg happ, h.resolveAppliedTarget_disabled hs hfalse hsource]

theorem resolveAppliedTarget_remove (hx : x ∈ ids steps) {id : String}
    (hid : id ∈ ids (remove x steps)) :
    resolveAppliedTarget (remove x steps) id = resolveAppliedTarget (disable x steps) id := by
  have hid' : id ∈ ids (disable x steps) := by
    rw [disable, ids_map (Step.disabled x) fun _ => rfl]
    exact (mem_ids_remove.mp hid).1
  rw [(h.removed hx).resolveAppliedTarget_nearest hid,
    (h.disabled x).resolveAppliedTarget_nearest hid', appliedIds_remove, h.nearest_remove hx hid]

end Proper

end DataForge.Pipeline

