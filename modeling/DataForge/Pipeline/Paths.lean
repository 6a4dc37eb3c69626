import DataForge.Effects.Except
import DataForge.Pipeline.Target
import DataForge.Pipeline.Uncached

/-!
# Frames along paths

Without a cache a run has a result when the sources load and the operations along the path of
each of its steps succeed; the result is the frame behind the path of its last step.
-/

namespace DataForge.Pipeline

open Effects ReadCommitted

variable {κ ρ π F : Type} [StepParams π]

/-- The body of a step, by its id. -/
def bodyOf (steps : List (Step κ)) (id : String) : Option κ :=
  (steps.find? fun s => s.id = id).map Step.body

/-- The operation of a step of a list on its input, next to the frames of additional sources. -/
def Engine.runOf (E : Engine κ ρ π Unit F) (rights : Table String F) (steps : List (Step κ))
    (frame : F) (id : String) : Except String F :=
  match bodyOf steps id with
  | none => .ok frame
  | some body => do
    let b ← E.convert body
    E.apply b id frame rights.get (b.rightSource.bind rights.get)

/-- The frame behind a path. -/
def Engine.pathFrame (E : Engine κ ρ π Unit F) (rights : Table String F) (steps : List (Step κ))
    (base : F) (path : List String) : Except String F :=
  path.foldlM (E.runOf rights steps) base

theorem bodyOf_eq {steps : List (Step κ)} (hu : (ids steps).Nodup) {s : Step κ} (hs : s ∈ steps) :
    bodyOf steps s.id = some s.body := by
  rw [bodyOf, find?_id hu hs]
  rfl

section PathFrame

variable {E : Engine κ ρ π Unit F} {rights : Table String F} {steps steps' : List (Step κ)}

theorem Engine.pathFrame_concat {base : F} {path : List String} {id : String} :
    E.pathFrame rights steps base (path ++ [id]) =
      E.pathFrame rights steps base path >>= fun frame => E.runOf rights steps frame id := by
  rw [pathFrame, List.foldlM_append]
  refine congrArg (E.pathFrame rights steps base path >>= ·) (funext fun frame => ?_)
  rw [List.foldlM_cons]
  cases E.runOf rights steps frame id <;> rfl

theorem Engine.pathFrame_congr {base : F} {path : List String}
    (h : ∀ id ∈ path, bodyOf steps id = bodyOf steps' id) :
    E.pathFrame rights steps base path = E.pathFrame rights steps' base path := by
  unfold pathFrame
  induction path generalizing base with
  | nil => rfl
  | cons id rest ih =>
    rw [List.foldlM_cons, List.foldlM_cons]
    have hrun : E.runOf rights steps base id = E.runOf rights steps' base id := by
      unfold runOf
      rw [h id List.mem_cons_self]
    rw [hrun]
    exact congrArg _ (funext fun frame => ih fun x hx => h x (List.mem_cons_of_mem _ hx))

end PathFrame

/-! ## A plan -/

section Plan

variable (E : Engine κ ρ π Unit F) {steps : List (Step κ)} {T : Forest String} {g : Graph}
  (rights : Table String F) (base : F)

/-- The frames of some steps are those behind their paths. -/
def FramesAlong (E : Engine κ ρ π Unit F) (steps : List (Step κ)) (T : Forest String)
    (rights : Table String F) (base : F) (l : List String) (frames : Table String F) : Prop :=
  ∀ id ∈ l, ∃ f, frames.get id = some f ∧ E.pathFrame rights steps base (T.path id) = .ok f

/-- One step of the evaluation has the frame behind its path, or fails as the path does. -/
theorem evalStep_path (hw : Wired steps T.parent) (hnodes : T.nodes = ids steps)
    (hg : ∀ id ∈ T.nodes, g.parent id = T.parent id) {l1 l2 : List String} {id : String}
    (hl : T.order = l1 ++ id :: l2) {frames : Table String F}
    (h : FramesAlong E steps T rights base l1 frames) :
    match E.pathFrame rights steps base (T.path id) with
    | .ok f => evalStep E ⟨buildStepMap steps, g, T.order⟩ base rights frames id =
        .ok (frames.put id (some f))
    | .error _ => ∃ e, evalStep E ⟨buildStepMap steps, g, T.order⟩ base rights frames id =
        .error e := by
  have hid : id ∈ T.nodes := Forest.order_perm.subset (by simp [hl])
  obtain ⟨s, hs, rfl⟩ := List.mem_map.mp (hnodes ▸ hid)
  obtain ⟨before, frame, hpath, hinput, hframe⟩ : ∃ before frame, T.path s.id = before ++ [s.id] ∧
      g.input base frames s.id = some frame ∧ E.pathFrame rights steps base before = .ok frame := by
    unfold Graph.input
    rw [hg _ hid]
    cases hp : T.parent s.id with
    | none => exact ⟨[], base, Forest.path_root hid hp, rfl, rfl⟩
    | some p =>
      obtain ⟨f, hget, hf⟩ := h p (Forest.parent_mem_of_order hl hp)
      exact ⟨T.path p, f, Forest.path_child hid hp, hget, hf⟩
  rw [hpath, Engine.pathFrame_concat, hframe]
  unfold evalStep
  rw [get_buildStepMap hw.unique hw.named hs]
  dsimp only
  rw [hinput]
  change match E.runOf rights steps frame s.id with | .ok _ => _ | .error _ => _
  unfold Engine.runOf
  rw [bodyOf_eq hw.unique hs]
  dsimp only
  cases E.convert s.body with
  | error e => exact ⟨_, rfl⟩
  | ok b =>
    change match E.apply b s.id frame rights.get (b.rightSource.bind rights.get) with
      | .ok _ => _ | .error _ => _
    dsimp only
    cases E.apply b s.id frame rights.get (b.rightSource.bind rights.get) with
    | error e => exact ⟨_, rfl⟩
    | ok f => rfl

/-- The steps of a plan have the frames behind their paths, or one of the paths fails. -/
theorem foldlM_evalStep_path (hw : Wired steps T.parent) (hnodes : T.nodes = ids steps)
    (hg : ∀ id ∈ T.nodes, g.parent id = T.parent id) (l2 l1 : List String)
    {frames : Table String F} (hl : T.order = l1 ++ l2)
    (h : FramesAlong E steps T rights base l1 frames) :
    match l2.foldlM (evalStep E ⟨buildStepMap steps, g, T.order⟩ base rights) frames with
    | .ok frames' => FramesAlong E steps T rights base T.order frames'
    | .error _ => ∃ id ∈ T.order, ∃ e, E.pathFrame rights steps base (T.path id) = .error e := by
  induction l2 generalizing l1 frames with
  | nil =>
    rw [hl, List.append_nil]
    exact h
  | cons id rest ih =>
    have hstep := evalStep_path E rights base hw hnodes hg hl h
    rw [List.foldlM_cons]
    cases hf : E.pathFrame rights steps base (T.path id) with
    | error e =>
      rw [hf] at hstep
      obtain ⟨e', he'⟩ := hstep
      rw [he']
      exact ⟨id, by simp [hl], e, hf⟩
    | ok f =>
      rw [hf] at hstep
      dsimp only at hstep
      rw [hstep]
      refine ih (l1 ++ [id]) (by rw [hl, List.append_assoc]; rfl) fun x hx => ?_
      rw [Table.get_put]
      by_cases hxid : x = id
      · rw [if_pos hxid, hxid]
        exact ⟨f, rfl, hf⟩
      · rw [if_neg hxid]
        refine h x ((List.mem_append.mp hx).resolve_right fun hx => hxid ?_)
        exact List.mem_singleton.mp hx

end Plan

/-! ## A run -/

theorem bodyOf_applySteps {run : List (Step κ)} (hP : Proper run)
    (hall : appliedIds run = ids run) {id : String} (hid : id ∈ ids run) :
    bodyOf (applySteps run) id = bodyOf run id := by
  rw [← hall] at hid
  obtain ⟨s, hs, rfl⟩ := List.mem_map.mp hid
  have hmem : { s with dependsOn := (nearest run s.id).toList } ∈ applySteps run := by
    rw [hP.applySteps_eq]
    exact List.mem_map_of_mem hs
  exact (bodyOf_eq hP.wired_applySteps.unique hmem).trans
    (bodyOf_eq hP.unique (List.mem_filter.mp hs).1).symm

/-- The frame behind the path of a step of a run. -/
def Engine.frameAt (E : Engine κ ρ π Unit F) (rights : Table String F) (base : F)
    (run : List (Step κ)) (id : String) : Except String F :=
  E.pathFrame rights run base (dependencyPath run id)

/-- A run has a result exactly when its sources load and all paths succeed; the result is the
frame of its last step. -/
theorem build_ok_iff {run : List (Step κ)} (hP : Proper run) (hall : appliedIds run = ids run)
    (hne : ids run ≠ []) (E : Engine κ ρ π Unit F) (w : World ρ F) (emptyFrame : F)
    (config : SourceConfig ρ) (additional : Table String (SourceConfig ρ)) (frame : F) :
    (buildPipelineDetails E w emptyFrame config run additional none).2.map Prod.fst = .ok frame ↔
      ∃ base rights, w.load config = .ok base ∧ loadAll w additional = .ok rights ∧
        (∀ id ∈ ids run, ∃ f, E.frameAt rights base run id = .ok f) ∧
        ∃ e, LastStep run e ∧ E.frameAt rights base run e = .ok frame := by
  have hnodes : hP.appliedForest.nodes = ids run := hall
  have hw := hP.wired_applySteps
  obtain ⟨g, hplan, hg, -⟩ := planOf_eq hP.appliedForest hw hP.ids_applySteps.symm
  have hpath : ∀ base rights, ∀ id ∈ ids run,
      E.pathFrame rights (applySteps run) base (hP.appliedForest.path id) =
        E.frameAt rights base run id := by
    intro base rights id hid
    rw [path_appliedForest hP hall hid]
    exact Engine.pathFrame_congr fun x hx => bodyOf_applySteps hP hall
      (Forest.mem_of_mem_path (F := hP.forest) id hid x hx)
  have hmem : ∀ id, id ∈ hP.appliedForest.order ↔ id ∈ ids run := fun id =>
    hnodes ▸ Forest.order_perm.mem_iff
  obtain ⟨e, hlast, he⟩ : ∃ e, hP.appliedForest.order.getLast? = some e ∧ LastStep run e := by
    cases hlast : hP.appliedForest.order.getLast? with
    | none =>
      have hperm := Forest.order_perm (F := hP.appliedForest)
      rw [List.getLast?_eq_none_iff.mp hlast, hnodes] at hperm
      exact absurd hperm.symm.eq_nil hne
    | some e =>
      have hmem := (hmem e).mp (List.mem_of_getLast? hlast)
      exact ⟨e, rfl, (lastStep_iff hP hall hmem).mp hlast⟩
  have honly : ∀ e', LastStep run e' → e' = e := fun e' he' => by
    rw [(lastStep_iff hP hall he'.mem).mpr he', Option.some_inj] at hlast
    exact hlast
  rw [buildPipelineDetails_none hplan]
  have hnone : ∀ base rights,
      FramesAlong E (applySteps run) hP.appliedForest rights base [] .empty :=
    fun base rights id hid => (List.not_mem_nil hid).elim
  have hfold := fun base rights => foldlM_evalStep_path E rights base hw
    hP.ids_applySteps.symm hg hP.appliedForest.order [] rfl (hnone base rights)
  unfold evalAll resultFrame
  dsimp only
  rw [hlast]
  dsimp only
  constructor
  · intro h
    cases hbase : w.load config with
    | error message =>
      rw [hbase] at h
      cases h
    | ok base =>
      cases hrights : loadAll w additional with
      | error e' =>
        rw [hbase, hrights] at h
        cases h
      | ok rights =>
        have hfold := hfold base rights
        rw [hbase, hrights] at h
        dsimp only at h
        split at h
        · cases h
        · next frames hframes =>
          rw [hframes] at hfold
          have hall : ∀ id ∈ ids run, ∃ f, frames.get id = some f ∧
              E.frameAt rights base run id = .ok f := by
            intro id hid
            obtain ⟨f, hget, hf⟩ := hfold id ((hmem id).mpr hid)
            exact ⟨f, hget, hpath base rights id hid ▸ hf⟩
          obtain ⟨f, hget, hf⟩ := hall e he.mem
          rw [hget] at h
          cases h
          exact ⟨base, rights, rfl, rfl, fun id hid => (hall id hid).imp fun _ h => h.2, e, he, hf⟩
  · rintro ⟨base, rights, hbase, hrights, hpaths, e', he', hf⟩
    obtain rfl := honly e' he'
    have hfold := hfold base rights
    rw [hbase, hrights]
    dsimp only
    split
    · next hframes =>
      rw [hframes] at hfold
      obtain ⟨id, hid, err, herr⟩ := hfold
      have hid := (hmem id).mp hid
      obtain ⟨f, hok⟩ := hpaths id hid
      rw [hpath base rights id hid, hok] at herr
      cases herr
    · next frames hframes =>
      rw [hframes] at hfold
      obtain ⟨f, hget, hok⟩ := hfold e' ((hmem e').mpr he.mem)
      rw [hpath base rights e' he.mem, hf] at hok
      cases hok
      rw [hget]

end DataForge.Pipeline
