import DataForge.Pipeline.Contraction
import Mathlib.Data.List.Find

/-!
# Nearest applied ancestors in any list of steps

What `_nearest_applied_ancestor` (`src/packages/worker/runtime/compute_utils.py:27-51`) finds when
nothing is asked of the steps: of several steps with one id the last one counts, and a cycle of
steps that are not applied leads nowhere.
-/

namespace DataForge.Pipeline

open ReadCommitted Relation

variable {κ : Type}

/-- The step with an id; the last one if there are several. -/
def lastStep (steps : List (Step κ)) (id : String) : Option (Step κ) :=
  steps.reverse.find? (·.id = id)

/-- What the step with an id depends on. -/
def lastDependency (steps : List (Step κ)) (id : String) : Option String :=
  (lastStep steps id).bind Step.dependency

/-- The step with an id is applied. -/
def LastApplied (steps : List (Step κ)) (id : String) : Prop :=
  ∃ s, lastStep steps id = some s ∧ s.applied = true

/-- The dependencies of an id lead to the applied id `p`, through ids that are not applied. -/
inductive Leads (parent : String → Option String) (applied : String → Prop) :
    String → String → Prop
  | next {id p} (h : parent id = some p) (ha : applied p) : Leads parent applied id p
  | through {id q p} (h : parent id = some q) (ha : ¬ applied q) (hp : Leads parent applied q p) :
      Leads parent applied id p

/-- One dependency, on an id that is not applied. -/
private def Passes (parent : String → Option String) (applied : String → Prop) (a b : String) :
    Prop :=
  parent a = some b ∧ ¬ applied b

section Leads

variable {parent : String → Option String} {applied : String → Prop}

private theorem Leads.not_passes {id p : String} (h : Leads parent applied id p) :
    ¬ TransGen (Passes parent applied) id id := by
  intro hcycle
  induction h with
  | next h ha =>
    obtain ⟨b, hb, -⟩ := TransGen.head'_iff.mp hcycle
    rw [hb.1, Option.some_inj] at h
    exact hb.2 (h ▸ ha)
  | through h ha _ ih =>
    obtain ⟨b, hb, hback⟩ := TransGen.head'_iff.mp hcycle
    have hbq := hb.1
    rw [h, Option.some_inj] at hbq
    subst hbq
    exact ih (TransGen.tail' hback hb)

theorem Leads.congr {parent' : String → Option String} {applied' : String → Prop}
    {I : String → Prop} (hparent : ∀ q, I q → parent q = parent' q)
    (hnext : ∀ a q, I a → parent a = some q → I q) (happlied : ∀ q, I q → (applied q ↔ applied' q))
    {id p : String} (hid : I id) (h : Leads parent applied id p) : Leads parent' applied' id p := by
  induction h with
  | next h ha =>
    have hq := hnext _ _ hid h
    exact .next ((hparent _ hid).symm.trans h) ((happlied _ hq).mp ha)
  | through h ha _ ih =>
    have hq := hnext _ _ hid h
    exact .through ((hparent _ hid).symm.trans h) (fun h' => ha ((happlied _ hq).mpr h')) (ih hq)

end Leads

theorem get_buildStepMap_last (steps : List (Step κ)) {id : String} (hid : id ≠ "") :
    (buildStepMap steps).get id = lastStep steps id := by
  unfold buildStepMap lastStep
  rw [Table.get_foldl_put, Table.get_empty, Option.or_none, ← List.filter_reverse,
    List.find?_filter]
  refine List.find?_congr fun s _ => ?_
  by_cases hs : s.id = id
  · simp [hs, hid]
  · simp [hs]

section Climbs

variable {stepMap : Table String (Step κ)} {applied seen : List String} {id p : String}
  {found : Option String}

theorem Climbs.unique {other : Option String} (h : Climbs stepMap applied seen id found)
    (h' : Climbs stepMap applied seen id other) : found = other := by
  induction h with
  | applied ha => exact (h'.of_mem ha).symm
  | seen hn hs =>
    cases h' with
    | applied ha => exact absurd ha hn
    | seen => rfl
    | root => rfl
    | next _ hs' => exact absurd hs hs'
  | root hn hs hroot =>
    cases h' with
    | applied ha => exact absurd ha hn
    | seen => rfl
    | root => rfl
    | next _ _ hq => cases hroot.symm.trans hq
  | next hn hs hq _ ih =>
    cases h' with
    | applied ha => exact absurd ha hn
    | seen _ hs' => exact absurd hs' hs
    | root _ _ hroot => cases hroot.symm.trans hq
    | next _ _ hq' hclimb =>
      obtain rfl := Option.some_inj.mp (hq.symm.trans hq')
      exact ih hclimb

theorem Climbs.leads (h : Climbs stepMap applied seen id found) (hid : id ∉ applied)
    (hp : found = some p) :
    Leads (fun q => (stepMap.get q).bind Step.dependency) (· ∈ applied) id p := by
  induction h with
  | applied ha => exact absurd ha hid
  | seen => cases hp
  | root => cases hp
  | @next seen id q found _ _ hq hclimb ih =>
    by_cases hqa : q ∈ applied
    · have hfound := hclimb.of_mem hqa
      rw [hp, Option.some_inj] at hfound
      subst hfound
      exact .next hq hqa
    · exact .through hq hqa (ih hqa hp)

private theorem Climbs.of_leads (h : Climbs stepMap applied seen id found)
    (hseen : ∀ x ∈ seen, TransGen
      (Passes (fun q => (stepMap.get q).bind Step.dependency) (· ∈ applied)) x id)
    (hp : Leads (fun q => (stepMap.get q).bind Step.dependency) (· ∈ applied) id p)
    (hid : id ∉ applied) : found = some p := by
  induction h with
  | applied ha => exact absurd ha hid
  | seen _ hmem => exact absurd (hseen _ hmem) hp.not_passes
  | root _ _ hroot =>
    cases hp with
    | next h => cases hroot.symm.trans h
    | through h => cases hroot.symm.trans h
  | next _ _ hq hclimb ih =>
    cases hp with
    | next h ha =>
      rw [hq, Option.some_inj] at h
      subst h
      exact hclimb.of_mem ha
    | through h ha hp =>
      rw [hq, Option.some_inj] at h
      subst h
      refine ih (fun x hx => ?_) hp ha
      rcases List.mem_cons.mp hx with rfl | hx
      · exact .single ⟨hq, ha⟩
      · exact (hseen x hx).tail ⟨hq, ha⟩

/-- `_nearest_applied_ancestor` finds what the dependencies lead to. -/
theorem nearestAppliedAncestor_eq_some_iff :
    nearestAppliedAncestor id stepMap applied = some p ↔
      Leads (fun q => (stepMap.get q).bind Step.dependency) (· ∈ applied) id p := by
  have hfinds := finds_nearestAppliedAncestor stepMap applied id
  unfold Finds at hfinds
  cases hd : (stepMap.get id).bind Step.dependency with
  | none =>
    rw [hd] at hfinds
    rw [hfinds]
    refine iff_of_false (fun h => by cases h) fun h => ?_
    cases h with
    | next h => cases hd.symm.trans h
    | through h => cases hd.symm.trans h
  | some q =>
    rw [hd] at hfinds
    by_cases hq : q ∈ applied
    · rw [hfinds.of_mem hq, Option.some_inj]
      constructor
      · rintro rfl
        exact .next hd hq
      · intro h
        cases h with
        | next h _ => exact Option.some_inj.mp (hd.symm.trans h)
        | through h ha _ =>
          obtain rfl := Option.some_inj.mp (hd.symm.trans h)
          exact absurd hq ha
    · constructor
      · exact fun h => .through hd hq (hfinds.leads hq h)
      · intro h
        cases h with
        | next h ha =>
          obtain rfl := Option.some_inj.mp (hd.symm.trans h)
          exact absurd ha hq
        | through h _ hp =>
          obtain rfl := Option.some_inj.mp (hd.symm.trans h)
          exact hfinds.of_leads (fun x hx => absurd hx List.not_mem_nil) hp hq

end Climbs

/-! ## Contraction -/

section Contraction

variable {steps : List (Step κ)} {id p target : String}

theorem dependency_ne {s : Step κ} (h : s.dependency = some p) : p ≠ "" := by
  simpa using (Option.filter_eq_some_iff.mp h).2

theorem lastDependency_ne (h : lastDependency steps id = some p) : p ≠ "" := by
  obtain ⟨s, -, hs⟩ := Option.bind_eq_some_iff.mp h
  exact dependency_ne hs

theorem lastStep_some {s : Step κ} (h : lastStep steps id = some s) : s ∈ steps ∧ s.id = id :=
  ⟨List.mem_reverse.mp (List.mem_of_find?_eq_some h), by simpa using List.find?_some h⟩

variable (steps p) in
private theorem leads_buildStepMap {applied : List String} {A : String → Prop}
    (hA : ∀ q ≠ "", q ∈ applied ↔ A q) (hid : id ≠ "") :
    Leads (fun q => ((buildStepMap steps).get q).bind Step.dependency) (· ∈ applied) id p ↔
      Leads (lastDependency steps) A id p := by
  have hparent : ∀ q ≠ "", ((buildStepMap steps).get q).bind Step.dependency =
      lastDependency steps q := by
    intro q hq
    rw [get_buildStepMap_last steps hq, lastDependency]
  constructor
  · refine Leads.congr hparent (fun a q _ h => ?_) hA hid
    obtain ⟨s, -, hs⟩ := Option.bind_eq_some_iff.mp h
    exact dependency_ne hs
  · exact Leads.congr (fun q hq => (hparent q hq).symm) (fun a q _ h => lastDependency_ne h)
      (fun q hq => (hA q hq).symm) hid

/-- A step as `apply_steps` leaves it. -/
def contracted (steps : List (Step κ)) (s : Step κ) : Step κ :=
  if s.id = "" then s
  else { s with
    dependsOn := (nearestAppliedAncestor s.id (buildStepMap steps)
      (((steps.filter Step.applied).map Step.id).filter (· ≠ ""))).toList }

theorem applySteps_eq_contracted (steps : List (Step κ)) :
    applySteps steps = (steps.filter Step.applied).map (contracted steps) := rfl

theorem id_contracted (s : Step κ) : (contracted steps s).id = s.id := by
  unfold contracted
  split <;> rfl

/-- A step is left alike if its dependencies lead to the same applied step. -/
theorem contracted_eq_iff {other : List (Step κ)} {s : Step κ} :
    contracted steps s = contracted other s ↔
      (s.id ≠ "" → ∀ p, Leads (lastDependency steps) (· ∈ appliedIds steps) s.id p ↔
        Leads (lastDependency other) (· ∈ appliedIds other) s.id p) := by
  by_cases hid : s.id = ""
  · simp [contracted, hid]
  have hleads : ∀ l : List (Step κ), ∀ p, nearestAppliedAncestor s.id (buildStepMap l)
      (((l.filter Step.applied).map Step.id).filter (· ≠ "")) = some p ↔
        Leads (lastDependency l) (· ∈ appliedIds l) s.id p := by
    intro l p
    rw [nearestAppliedAncestor_eq_some_iff]
    refine leads_buildStepMap _ _ (fun q hq => ?_) hid
    exact List.mem_filter.trans (and_iff_left (decide_eq_true hq))
  unfold contracted
  rw [if_neg hid, if_neg hid]
  constructor
  · intro h _ p
    injection h with _ hdeps
    rw [← hleads steps p, ← hleads other p, ← Option.mem_toList, ← Option.mem_toList, hdeps]
  · intro h
    have hfound := Option.ext fun p =>
      (hleads steps p).trans ((h hid p).trans (hleads other p).symm)
    rw [hfound]

/-- A step stands for an applied one: for itself, or for the one that its dependencies lead to. -/
def ResolvesTo (steps : List (Step κ)) (target r : String) : Prop :=
  target ≠ "" ∧ ∃ s, lastStep steps target = some s ∧
    if s.applied then r = target
    else Leads (lastDependency steps) (LastApplied steps) target r

theorem Leads.mem {parent : String → Option String} {A : String → Prop}
    (h : Leads parent A id p) : A p := by
  induction h with
  | next _ ha => exact ha
  | through _ _ _ ih => exact ih

theorem ResolvesTo.mem {r : String} (h : ResolvesTo steps target r) : r ∈ appliedIds steps := by
  have hlast : ∀ {q s}, lastStep steps q = some s → s.applied = true → q ∈ appliedIds steps := by
    intro q s hs happ
    obtain ⟨hmem, rfl⟩ := lastStep_some hs
    exact List.mem_map_of_mem (List.mem_filter.mpr ⟨hmem, happ⟩)
  obtain ⟨-, s, hs, h⟩ := h
  by_cases happ : s.applied = true
  · rw [if_pos happ] at h
    rw [h]
    exact hlast hs happ
  · rw [if_neg happ] at h
    obtain ⟨t, ht, happ⟩ := h.mem
    exact hlast ht happ

/-- What `resolve_applied_target` answers, unless it is `source`. -/
theorem resolveAppliedTarget_eq_iff (ht : target ≠ "source") {r : String} (hr : r ≠ "source") :
    resolveAppliedTarget steps target = r ↔ ResolvesTo steps target r := by
  unfold resolveAppliedTarget ResolvesTo
  rw [if_neg ht]
  dsimp only
  by_cases hid : target = ""
  · have hnone : (buildStepMap steps).get target = none := by
      unfold buildStepMap
      rw [Table.get_foldl_put, Table.get_empty, Option.or_none, List.find?_eq_none]
      intro s hs he
      have hs := (List.mem_filter.mp (List.mem_reverse.mp hs)).2
      simp [of_decide_eq_true he, hid] at hs
    rw [hnone]
    exact iff_of_false (fun h => hr h.symm) fun h => h.1 hid
  rw [get_buildStepMap_last steps hid]
  cases hlast : lastStep steps target with
  | none =>
    refine iff_of_false (fun h => hr h.symm) ?_
    rintro ⟨-, s, hs, -⟩
    cases hs
  | some s =>
    dsimp only
    by_cases happ : s.applied = true
    · rw [if_pos happ]
      constructor
      · rintro rfl
        exact ⟨hid, s, rfl, by rw [if_pos happ]⟩
      · rintro ⟨-, s', hs', h⟩
        obtain rfl := Option.some_inj.mp hs'
        rw [if_pos happ] at h
        exact h.symm
    · rw [if_neg happ]
      have hrows : ∀ q ≠ "", q ∈ ((buildStepMap steps).rows.filter fun p => p.2.applied).map
          Prod.fst ↔ LastApplied steps q := by
        intro q hq
        constructor
        · intro h
          obtain ⟨e, he, rfl⟩ := List.mem_map.mp h
          obtain ⟨he, happ⟩ := List.mem_filter.mp he
          rw [Table.mem_rows_iff, get_buildStepMap_last steps hq] at he
          exact ⟨e.2, he, happ⟩
        · rintro ⟨s, hs, happ⟩
          rw [← get_buildStepMap_last steps hq, ← Table.mem_rows_iff] at hs
          exact List.mem_map.mpr ⟨(q, s), List.mem_filter.mpr ⟨hs, happ⟩, rfl⟩
      have hleads := leads_buildStepMap steps r hrows hid
      rw [← nearestAppliedAncestor_eq_some_iff] at hleads
      constructor
      · intro h
        refine ⟨hid, s, rfl, ?_⟩
        rw [if_neg happ, ← hleads]
        cases hn : nearestAppliedAncestor target (buildStepMap steps)
            (((buildStepMap steps).rows.filter fun p => p.2.applied).map Prod.fst) with
        | none =>
          rw [hn] at h
          exact absurd h.symm hr
        | some q =>
          rw [hn] at h
          exact congrArg some h
      · rintro ⟨-, s', hs', h⟩
        obtain rfl := Option.some_inj.mp hs'
        rw [if_neg happ, ← hleads] at h
        rw [h]
        rfl

end Contraction

end DataForge.Pipeline
