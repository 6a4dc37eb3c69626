import DataForge.Editor.Steps
import DataForge.Forest.Bypass

/-!
# The order of the steps in the editor

A tab is ordered when its steps have distinct ids and depend on at most one step each, which
stands earlier in the list. Every operation keeps a tab ordered, but `moveStep` only for calls
that are safe: it unlinks one dependent of the step it moves, and of the steps it leaves or makes
dependent on it, each has to depend on the new parent already.
-/

namespace DataForge.Editor

open List Forest

variable {κ : Type}

/-- The step `a` stands earlier in the list than `b`. -/
def Before (steps : List (PipelineStep κ)) (a b : String) : Prop := [a, b] <+ ids steps

/-- Steps in topological order, with at most one parent each. -/
structure Ordered (steps : List (PipelineStep κ)) : Prop where
  nodup : (ids steps).Nodup
  named : ∀ s ∈ steps, s.id ≠ ""
  earlier : ∀ s ∈ steps, ∃ p : Option String, s.dependsOn = p.toList ∧
    ∀ q ∈ p, Before steps q s.id

/-- The step `a` names `b` in its `depends_on`. -/
def DependsOn (steps : List (PipelineStep κ)) (a b : String) : Prop :=
  ∃ s ∈ steps, s.id = a ∧ b ∈ s.dependsOn

/-- The steps other than `x` depend on one another, through others, as before. -/
def SameOrder (steps steps' : List (PipelineStep κ)) (x : String) : Prop :=
  ∀ a b, a ≠ x → b ≠ x →
    (Relation.TransGen (DependsOn steps) a b ↔ Relation.TransGen (DependsOn steps') a b)

/-- A step without its links. -/
def PipelineStep.content (s : PipelineStep κ) : PipelineStep κ := { s with dependsOn := [] }

/-- No step is lost or duplicated, and none changes but for its links. -/
def Call.Accounts (steps steps' : List (PipelineStep κ)) : Call κ → Prop
  | .addStep step | .insertStep step _ _ _ =>
    steps'.map PipelineStep.content ~ step.content :: steps.map PipelineStep.content
  | .removeStep id =>
    steps'.map PipelineStep.content ~ (steps.filter (·.id ≠ id)).map PipelineStep.content
  | .moveStep _ _ _ _ =>
    steps'.map PipelineStep.content ~ steps.map PipelineStep.content

/-- A call leaves the tab ordered, loses and duplicates no step, and if it moves a step, keeps the
dependency order of the others. -/
def Call.Keeps (steps steps' : List (PipelineStep κ)) (call : Call κ) : Prop :=
  Ordered steps' ∧ call.Accounts steps steps' ∧
    match call with
    | .moveStep stepId _ _ _ => SameOrder steps steps' stepId
    | _ => True

/-- The step `t` is left or made dependent on the moving one: it is the next step of the target, or
a dependent that `moveStep` does not unlink. -/
def Leans (steps : List (PipelineStep κ)) (moving : PipelineStep κ) (nextId : Option String)
    (t : PipelineStep κ) : Prop :=
  isChartStep moving.type = false ∧ nextId = some t.id ∨
    moving.id ∈ t.dependsOn ∧ (dependentStep steps moving).map PipelineStep.id ≠ some t.id

instance (steps : List (PipelineStep κ)) (moving : PipelineStep κ) (nextId : Option String)
    (t : PipelineStep κ) : Decidable (Leans steps moving nextId t) :=
  inferInstanceAs (Decidable (_ ∨ _))

/-- The parent of a step, passing over the moving one. -/
def parentPast (moving t : PipelineStep κ) : List String :=
  if moving.id ∈ t.dependsOn then moving.dependsOn else t.dependsOn

/-- The moves that keep the order: the moved step becomes neither its own parent nor its own
dependent, and every other step that then depends on it stands after its new place and has, passing
over it, its new parent as parent already. -/
def Call.Safe (steps : List (PipelineStep κ)) : Call κ → Prop
  | .moveStep stepId toIndex newParentId newNextId =>
    ∀ moving ∈ steps, moving.id = stepId →
      newParentId ≠ some stepId ∧
      (isChartStep moving.type = true ∨ newNextId ≠ some stepId) ∧
      ∀ t ∈ steps, t.id ≠ stepId → Leans steps moving newNextId t →
        t.id ∈ ids (steps.drop toIndex) ∧ parentPast moving t = newParentId.toList
  | _ => True

/-! ## Lists of steps -/

theorem ids_append (l1 l2 : List (PipelineStep κ)) : ids (l1 ++ l2) = ids l1 ++ ids l2 :=
  map_append

theorem mem_ids {steps : List (PipelineStep κ)} {s : PipelineStep κ} (hs : s ∈ steps) :
    s.id ∈ ids steps := mem_map_of_mem hs

/-- Links set by a function, which keeps everything else. -/
def setLinks (f : PipelineStep κ → List String) (s : PipelineStep κ) : PipelineStep κ :=
  { s with dependsOn := f s }

@[simp] theorem id_setLinks (f : PipelineStep κ → List String) (s : PipelineStep κ) :
    (setLinks f s).id = s.id := rfl

@[simp] theorem content_setLinks (f : PipelineStep κ → List String) (s : PipelineStep κ) :
    (setLinks f s).content = s.content := rfl

@[simp] theorem ids_map_setLinks (f : PipelineStep κ → List String)
    (steps : List (PipelineStep κ)) : ids (steps.map (setLinks f)) = ids steps := by
  simp [ids, Function.comp_def]

@[simp] theorem content_map_setLinks (f : PipelineStep κ → List String)
    (steps : List (PipelineStep κ)) :
    (steps.map (setLinks f)).map PipelineStep.content = steps.map PipelineStep.content := by
  simp [Function.comp_def]

theorem map_splice {α β : Type} (f : α → β) (l : List α) (index : ℕ) (x : α) :
    (splice l index x).map f = splice (l.map f) index (f x) := by
  simp [splice]

theorem perm_splice {α : Type} (l : List α) (index : ℕ) (x : α) :
    splice l index x ~ x :: l := by
  unfold splice
  refine perm_middle.trans ?_
  rw [take_append_drop]

variable {index : ℕ}

theorem mem_splice {α : Type} {l : List α} {x y : α} :
    y ∈ splice l index x ↔ y = x ∨ y ∈ l := by
  rw [(perm_splice l index x).mem_iff, mem_cons]

theorem sublist_splice {α : Type} (l : List α) (index : ℕ) (x : α) : l <+ splice l index x := by
  conv_lhs => rw [← take_append_drop index l]
  exact (Sublist.refl _).append (sublist_cons_self _ _)

theorem relink_eq {steps : List (PipelineStep κ)} (h : (ids steps).Nodup) (id : String)
    (dependsOn : List String) : relink steps id dependsOn =
      steps.map (setLinks fun s => if s.id = id then dependsOn else s.dependsOn) := by
  unfold relink
  induction steps with
  | nil => rfl
  | cons s rest ih =>
    have hs := (nodup_cons.mp h).1
    rw [findIdx_cons, map_cons]
    by_cases hid : s.id = id
    · have hrest : rest.map (setLinks fun s => if s.id = id then dependsOn else s.dependsOn) =
          rest := by
        conv_rhs => rw [← map_id rest]
        refine map_congr_left fun t ht => ?_
        have hne : t.id ≠ id := fun he => hs (by rw [hid, ← he]; exact mem_ids ht)
        simp [setLinks, hne]
      simp [hid, hrest, setLinks]
    · simp [hid, setLinks, ih (nodup_cons.mp h).2]

theorem find_eq_some {steps : List (PipelineStep κ)} (h : (ids steps).Nodup) {s : PipelineStep κ}
    (hs : s ∈ steps) : steps.find? (·.id = s.id) = some s := by
  induction steps with
  | nil => cases hs
  | cons t rest ih =>
    rw [find?_cons]
    rcases mem_cons.mp hs with rfl | hs
    · simp
    · have hne : t.id ≠ s.id := fun he => (nodup_cons.mp h).1 (by
        rw [he]
        exact mem_ids hs)
      simp [hne, ih (nodup_cons.mp h).2 hs]

theorem eq_of_id {steps : List (PipelineStep κ)} (h : (ids steps).Nodup) {s t : PipelineStep κ}
    (hs : s ∈ steps) (ht : t ∈ steps) (he : s.id = t.id) : s = t :=
  Option.some_inj.mp ((find_eq_some h hs).symm.trans (he ▸ find_eq_some h ht))

variable {id : String}

theorem truthy_some (h : id ≠ "") : truthy (some id) = some id := by
  simp [truthy, h]

theorem truthy_named {steps : List (PipelineStep κ)} (h : ∀ s ∈ steps, s.id ≠ "")
    {o : Option (PipelineStep κ)} (ho : ∀ s ∈ o, s ∈ steps) :
    truthy (o.map PipelineStep.id) = o.map PipelineStep.id := by
  cases o with
  | none => rfl
  | some s => exact truthy_some (h s (ho s rfl))

/-! ## Additions and removals -/

namespace Ordered

variable {steps : List (PipelineStep κ)}

variable {s : PipelineStep κ}

theorem before_of_mem (h : Ordered steps) (hs : s ∈ steps) {q : String} (hq : q ∈ s.dependsOn) :
    Before steps q s.id ∧ s.dependsOn = [q] := by
  obtain ⟨p, hp, hbefore⟩ := h.earlier s hs
  rw [hp] at hq ⊢
  cases p with
  | none => cases hq
  | some p =>
    rw [Option.toList_some, mem_singleton] at hq
    rw [hq]
    exact ⟨hbefore p rfl, rfl⟩

theorem toList_head? (h : Ordered steps) (hs : s ∈ steps) :
    (truthy s.dependsOn.head?).toList = s.dependsOn := by
  obtain ⟨p, hp, hbefore⟩ := h.earlier s hs
  rw [hp]
  cases p with
  | none => rfl
  | some q =>
    obtain ⟨t, ht, hq⟩ := mem_map.mp ((hbefore q rfl).subset (a := q) (by simp))
    rw [Option.toList_some, head?_cons, truthy_some (hq ▸ h.named t ht)]
    rfl

theorem irrefl (h : Ordered steps) (a : String) : ¬ Before steps a a :=
  nodup_iff_sublist.mp h.nodup a

theorem notMem_self (h : Ordered steps) (hs : s ∈ steps) :
    s.id ∉ s.dependsOn := fun hq => h.irrefl s.id (h.before_of_mem hs hq).1

end Ordered

theorem ids_splice (l : List (PipelineStep κ)) (index : ℕ) (s : PipelineStep κ) :
    ids (splice l index s) = splice (ids l) index s.id := map_splice _ _ _ _

variable {step : PipelineStep κ}

/-- Splicing a step in and setting links leaves a tab ordered, if the new step depends on one
before its place, and each other step on one before it or, after the place, on the new step. -/
theorem ordered_splice {l : List (PipelineStep κ)} (hd : (ids l).Nodup) (hn : ∀ s ∈ l, s.id ≠ "")
    (hid : step.id ≠ "") (hfresh : step.id ∉ ids l) {parent : Option String}
    (hparent : ∀ q ∈ parent, q ∈ ids (l.take index)) {f : PipelineStep κ → List String}
    (hf : ∀ s ∈ l, ∃ p : Option String, f s = p.toList ∧
      ∀ q ∈ p, Before l q s.id ∨ q = step.id ∧ s.id ∈ ids (l.drop index)) :
    Ordered (splice (l.map (setLinks f)) index { step with dependsOn := parent.toList }) := by
  have hids : ids (splice (l.map (setLinks f)) index
      { step with dependsOn := parent.toList }) = splice (ids l) index step.id := by
    rw [ids_splice, ids_map_setLinks]
  constructor
  · rw [hids, (perm_splice _ _ _).nodup_iff]
    exact nodup_cons.mpr ⟨hfresh, hd⟩
  · intro s hs
    rcases mem_splice.mp hs with rfl | hs
    · exact hid
    · obtain ⟨t, ht, rfl⟩ := mem_map.mp hs
      exact hn t ht
  · intro s hs
    unfold Before
    rw [hids]
    rcases mem_splice.mp hs with rfl | hs
    · refine ⟨parent, rfl, fun q hq => ?_⟩
      apply pair_sublist_append_cons
      have hq := hparent q hq
      unfold ids at hq ⊢
      rwa [map_take] at hq
    · obtain ⟨t, ht, rfl⟩ := mem_map.mp hs
      obtain ⟨p, hp, hbefore⟩ := hf t ht
      refine ⟨p, hp, fun q hq => ?_⟩
      rcases hbefore q hq with hq | ⟨rfl, hafter⟩
      · exact hq.trans (sublist_splice _ _ _)
      · have hafter : t.id ∈ (ids l).drop index := by
          unfold ids at hafter ⊢
          rwa [map_drop] at hafter
        exact (pair_sublist_cons hafter).trans (sublist_append_right _ _)

variable {steps : List (PipelineStep κ)}

variable {parentId nextId : Option String}

theorem Target.parent_mem (h : Target steps index parentId nextId) {q : String} (hq : q ∈ parentId)
    :
    q ∈ ids (steps.take index) := by
  have hparent := h.parent
  split at hparent
  case isTrue =>
    rw [hparent] at hq
    cases hq
  case isFalse hne =>
    rw [hparent] at hq
    obtain ⟨s, hs, rfl⟩ := Option.map_eq_some_iff.mp hq
    refine mem_ids (mem_iff_getElem?.mpr ⟨index - 1, ?_⟩)
    rw [getElem?_take_of_lt (by omega), hs]

theorem Target.next_mem (h : Target steps index parentId nextId) {q : String} (hq : q ∈ nextId) :
    q ∈ ids (steps.drop index) := by
  rw [h.next] at hq
  obtain ⟨s, hs, rfl⟩ := Option.map_eq_some_iff.mp hq
  refine mem_ids (mem_iff_getElem?.mpr ⟨0, ?_⟩)
  rw [getElem?_drop, Nat.add_zero, hs]

theorem Target.named (h : Target steps index parentId nextId) (hn : ∀ s ∈ steps, s.id ≠ "") :
    truthy parentId = parentId ∧ truthy nextId = nextId := by
  constructor
  · rw [h.parent]
    split
    · rfl
    · exact truthy_named hn fun s hs => mem_of_getElem? hs
  · rw [h.next]
    exact truthy_named hn fun s hs => mem_of_getElem? hs

theorem addStep_eq (steps : List (PipelineStep κ)) (step : PipelineStep κ) :
    addStep steps step = splice steps steps.length
      { step with dependsOn := (truthy (steps.getLast?.map PipelineStep.id)).toList } := by
  simp [addStep, splice]

theorem map_setLinks_dependsOn (steps : List (PipelineStep κ)) :
    steps.map (setLinks PipelineStep.dependsOn) = steps := by
  conv_rhs => rw [← map_id steps]
  rfl

theorem ordered_addStep (h : Ordered steps) (hid : step.id ≠ "") (hfresh : step.id ∉ ids steps) :
    Ordered (addStep steps step) := by
  rw [addStep_eq, ← map_setLinks_dependsOn steps]
  refine ordered_splice h.nodup h.named hid hfresh ?_ ?_
  · intro q hq
    rw [map_setLinks_dependsOn, truthy_named h.named fun s hs => mem_of_getLast? hs] at hq
    obtain ⟨s, hs, rfl⟩ := Option.map_eq_some_iff.mp hq
    rw [map_setLinks_dependsOn, take_length]
    exact mem_ids (mem_of_getLast? hs)
  · intro s hs
    obtain ⟨p, hp, hbefore⟩ := h.earlier s hs
    exact ⟨p, hp, fun q hq => .inl (hbefore q hq)⟩

theorem accounts_splice (f : PipelineStep κ → List String) (index : ℕ) (step : PipelineStep κ) :
    (splice (steps.map (setLinks f)) index step).map PipelineStep.content ~
      step.content :: steps.map PipelineStep.content := by
  rw [map_splice, content_map_setLinks]
  exact perm_splice _ _ _

variable {steps' : List (PipelineStep κ)}

/-- What `insertStep` does when it returns `true`. -/
theorem insertStep_eq (h : Ordered steps) (ht : Target steps index parentId nextId)
    (hs : insertStep steps step index parentId nextId = some steps') :
    ∃ f : PipelineStep κ → List String,
      (∀ s ∈ steps, f s = s.dependsOn ∨ nextId = some s.id ∧ f s = [step.id]) ∧
      steps' =
        splice (steps.map (setLinks f)) index { step with dependsOn := parentId.toList } := by
  obtain ⟨hparent, hnext⟩ := ht.named h.named
  have hplain : steps.map (setLinks PipelineStep.dependsOn) = steps := map_setLinks_dependsOn steps
  unfold insertStep at hs
  rw [hparent, hnext] at hs
  cases nextId with
  | none =>
    cases hs
    exact ⟨PipelineStep.dependsOn, fun _ _ => .inl rfl, by rw [hplain]⟩
  | some next =>
    dsimp only at hs
    cases hfind : steps.find? (·.id = next) with
    | none =>
      rw [hfind] at hs
      cases hs
    | some nextStep =>
      rw [hfind] at hs
      dsimp only at hs
      split at hs
      · cases hs
        exact ⟨PipelineStep.dependsOn, fun _ _ => .inl rfl, by rw [hplain]⟩
      · split at hs
        · cases hs
          refine ⟨fun s => if s.id = next then [step.id] else s.dependsOn, fun s _ => ?_, ?_⟩
          · by_cases hid : s.id = next
            · exact .inr ⟨by rw [hid], if_pos hid⟩
            · exact .inl (if_neg hid)
          · rw [relink_eq h.nodup]
        · cases hs

theorem ordered_insertStep (h : Ordered steps) (hid : step.id ≠ "") (hfresh : step.id ∉ ids steps)
    (ht : Target steps index parentId nextId)
    (hs : insertStep steps step index parentId nextId = some steps') : Ordered steps' := by
  obtain ⟨f, hf, rfl⟩ := insertStep_eq h ht hs
  refine ordered_splice h.nodup h.named hid hfresh (fun q hq => ht.parent_mem hq) ?_
  intro s hs
  rcases hf s hs with hlink | ⟨hnext, hlink⟩
  · obtain ⟨p, hp, hbefore⟩ := h.earlier s hs
    exact ⟨p, hlink.trans hp, fun q hq => .inl (hbefore q hq)⟩
  · refine ⟨some step.id, hlink, fun q hq => ?_⟩
    exact .inr ⟨(Option.some_inj.mp hq).symm, ht.next_mem hnext⟩

theorem removeStep_eq (h : Ordered steps) {removed : PipelineStep κ} (hr : removed ∈ steps) :
    removeStep steps removed.id = some ((steps.filter (·.id ≠ removed.id)).map
      (setLinks fun s => if removed.id ∈ s.dependsOn then removed.dependsOn
        else s.dependsOn)) := by
  unfold removeStep
  rw [find_eq_some h.nodup hr]
  dsimp only
  rw [h.toList_head? hr, Option.some_inj]
  refine map_congr_left fun s _ => ?_
  by_cases hmem : removed.id ∈ s.dependsOn
  · simp [setLinks, hmem]
  · simp [setLinks, hmem]

theorem find_eq_none (hid : id ∉ ids steps) :
    steps.find? (·.id = id) = none := by
  rw [find?_eq_none]
  intro s hs he
  apply hid
  rw [← of_decide_eq_true he]
  exact mem_ids hs

theorem removeStep_absent (hid : id ∉ ids steps) : removeStep steps id = none := by
  unfold removeStep
  rw [find_eq_none hid]

theorem ordered_removeStep (h : Ordered steps) (hs : removeStep steps id = some steps') :
    Ordered steps' := by
  by_cases hid : id ∈ ids steps
  · obtain ⟨removed, hr, rfl⟩ := mem_map.mp hid
    cases (removeStep_eq h hr).symm.trans hs
    have hids : ids ((steps.filter (·.id ≠ removed.id)).map (setLinks fun s =>
        if removed.id ∈ s.dependsOn then removed.dependsOn else s.dependsOn)) =
        (ids steps).filter (· ≠ removed.id) := by
      rw [ids_map_setLinks]
      simp [ids, filter_map, Function.comp_def]
    constructor
    · rw [hids]
      exact h.nodup.filter _
    · intro s hs
      obtain ⟨t, ht, rfl⟩ := mem_map.mp hs
      exact h.named t (mem_filter.mp ht).1
    · intro s hs
      obtain ⟨t, ht, rfl⟩ := mem_map.mp hs
      obtain ⟨ht, hne⟩ := mem_filter.mp ht
      have hne : t.id ≠ removed.id := of_decide_eq_true hne
      -- what stands before the step, other than the removed one, still does
      have hkeep : ∀ q, Before steps q t.id → q ≠ removed.id →
          [q, t.id] <+ (ids steps).filter (· ≠ removed.id) := by
        intro q hq hqne
        have hf := hq.filter (· ≠ removed.id)
        simpa [hqne, hne] using hf
      unfold Before
      rw [hids]
      by_cases hmem : removed.id ∈ t.dependsOn
      · obtain ⟨p, hp, hbefore⟩ := h.earlier removed hr
        refine ⟨p, (if_pos hmem).trans hp, fun q hq => hkeep q ?_ ?_⟩
        · exact pair_sublist_trans h.nodup (hbefore q hq) (h.before_of_mem ht hmem).1
        · rintro rfl
          exact h.irrefl _ (hbefore _ hq)
      · obtain ⟨p, hp, hbefore⟩ := h.earlier t ht
        refine ⟨p, (if_neg hmem).trans hp, fun q hq => hkeep q (hbefore q hq) ?_⟩
        rintro rfl
        exact hmem (by
          rw [hp]
          simpa using hq)
  · cases (removeStep_absent hid).symm.trans hs

end DataForge.Editor
