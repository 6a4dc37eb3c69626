import DataForge.Pipeline.CacheFree

/-!
# Building a pipeline without a cache

Without a cache every step is required and every source is loaded, so the build is the
evaluation of all steps in order.
-/

namespace DataForge.Pipeline

open ReadCommitted

variable {κ ρ π K F : Type} [StepParams π]

/-- All additional sources, loaded. -/
def loadAll (w : World ρ F) (additional : Table String (SourceConfig ρ)) :
    Except BuildError (Table String F) :=
  additional.rows.foldlM (fun t e =>
    match w.load e.2 with
    | .ok frame => .ok (t.put e.1 (some frame))
    | .error message => .error (.additionalSource e.1 message)) .empty

/-- The frame of the last step. -/
def resultFrame (p : Plan κ) (base : F) (frames : Table String F) : Except BuildError F :=
  match p.ordered.getLast? with
  | none => .ok base
  | some result =>
    match frames.get result with
    | none => .error (.keyError result)
    | some frame => .ok frame

/-- The evaluation of all steps. -/
def evalAll (E : Engine κ ρ π K F) (w : World ρ F) (p : Plan κ) (config : SourceConfig ρ)
    (additional : Table String (SourceConfig ρ)) : Except BuildError F :=
  match w.load config with
  | .error message => .error (.source message)
  | .ok base =>
    match loadAll w additional with
    | .error e => .error e
    | .ok rights =>
      match p.ordered.foldlM (evalStep E p base rights) .empty with
      | .error e => .error e
      | .ok frames => resultFrame p base frames

/-- Without cached frames every step is required. -/
theorem mem_required_of_uncached {p : Plan κ} (hp : p.Ordered) {required : List String}
    (hr : Required p (fun _ => false) required) : ∀ id ∈ p.ordered, id ∈ required := by
  -- from the end of the order: a leaf is required, and with a step its parent
  have hback : ∀ (rest done : List String), p.ordered = done ++ rest → ∀ x ∈ rest,
      x ∈ required := by
    intro rest
    induction rest with
    | nil => simp
    | cons a rest ih =>
      intro done hsplit x hx
      have ih := ih (done ++ [a]) (by rw [hsplit]; simp)
      rcases List.mem_cons.mp hx with rfl | hx
      · have hmem : x ∈ p.ordered := by
          rw [hsplit]
          simp
        by_cases hleaf : p.graph.dependentsOf x = []
        · exact hr.leaf x (hp.perm.subset hmem) hleaf
        · obtain ⟨c, hc⟩ := List.exists_mem_of_ne_nil _ hleaf
          rw [hp.dependents, List.mem_filter, decide_eq_true_eq] at hc
          have hafter := child_after hp hsplit (hp.perm.symm.subset hc.1) hc.2
          exact hr.parent c (ih c hafter) rfl x hc.2
      · exact ih x hx
  exact hback p.ordered [] rfl

variable [DecidableEq K] {E : Engine κ ρ π K F} {w : World ρ F}

private theorem buildLoop_none {p : Plan κ} {required : List String} {base : F}
    {rights : Table String F} (config : SourceConfig ρ)
    (additional : Table String (SourceConfig ρ)) (l : List String)
    (hl : ∀ id ∈ l, id ∈ required) : ∀ frames : Table String F,
      buildLoop E p (.none config additional) required base rights l (none, frames) =
        (none, l.foldlM (evalStep E p base rights) frames) := by
  induction l with
  | nil => exact fun _ => rfl
  | cons id rest ih =>
    intro frames
    have hstep : buildStep E p (.none config additional) required base rights (none, frames) id =
        (evalStep E p base rights frames id).map fun f => (none, f) := by
      unfold buildStep evalStep
      rw [if_neg (by simp [hl id List.mem_cons_self, Lookup.none])]
      cases p.steps.get id with
      | none => rfl
      | some step =>
        dsimp only
        cases E.convert step.body with
        | error _ => rfl
        | ok b =>
          dsimp only
          cases p.graph.input base frames id with
          | none => rfl
          | some frame =>
            dsimp only
            cases E.apply b id frame rights.get (b.rightSource.bind rights.get) <;> rfl
    rw [List.foldlM_cons, buildLoop, hstep]
    cases evalStep E p base rights frames id with
    | error _ => rfl
    | ok f => exact ih (fun x hx => hl x (List.mem_cons_of_mem _ hx)) f

/-- The build without a cache. -/
theorem buildPipelineDetails_none {steps : List (Step κ)} {p : Plan κ}
    (hplan : planOf steps = .ok p) (emptyFrame : F) (config : SourceConfig ρ)
    (additional : Table String (SourceConfig ρ)) :
    (buildPipelineDetails E w emptyFrame config steps additional none).2.map Prod.fst =
      evalAll E w p config additional := by
  have hp := planOf_ordered hplan
  have hr := requiredSteps_spec p (fun _ => false) hp.closed
  have hall := mem_required_of_uncached hp hr
  have hbase : loadBase w emptyFrame p (none : Option (PreviewCache K F))
      (.none config additional) (requiredSteps p fun _ => false) =
      match w.load config with
      | .ok frame => .ok frame
      | .error message => .error (.source message) := by
    unfold loadBase
    rw [if_pos]
    · rfl
    · cases hordered : p.ordered with
      | nil => exact .inl rfl
      | cons a rest =>
        refine .inr ⟨a, hall a (by rw [hordered]; simp), ?_, rfl⟩
        rw [Option.eq_none_iff_forall_ne_some]
        intro q hq
        exact List.not_mem_nil (hp.topological [] a rest hordered q hq)
  have hrights : loadRightSources w (none : Option (PreviewCache K F)) (.none config additional)
      (requiredSources E p (.none config additional) (requiredSteps p fun _ => false)) =
      loadAll w additional := rfl
  have hcached : (fun id => ((Lookup.none config additional :
      Lookup ρ K F).cachedFrames.get id).isSome) = fun _ => false := rfl
  unfold buildPipelineDetails
  rw [hplan]
  dsimp only
  unfold buildFrames evalAll resultFrame
  rw [hcached]
  dsimp only
  rw [hbase, hrights]
  cases w.load config with
  | error _ => rfl
  | ok base =>
    dsimp only
    cases loadAll w additional with
    | error _ => rfl
    | ok rights =>
      dsimp only
      rw [show (Lookup.none config additional : Lookup ρ K F).cachedFrames = .empty from rfl,
        buildLoop_none config additional p.ordered hall]
      cases hlast : p.ordered.getLast? with
      | none =>
        rw [List.getLast?_eq_none_iff] at hlast
        rw [hlast]
        rfl
      | some result =>
        dsimp only
        cases p.ordered.foldlM (evalStep E p base rights) .empty with
        | error _ => rfl
        | ok frames =>
          dsimp only
          cases frames.get result <;> rfl

end DataForge.Pipeline
