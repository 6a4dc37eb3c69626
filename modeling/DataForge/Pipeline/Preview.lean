import DataForge.Pipeline.CacheFree
import Mathlib.Data.Nat.Pairing

/-!
# Previews

`execute_preview` (`src/packages/worker/runtime/polars_compute.py:349-393`). All previews of an
engine process share one cache; it also keeps what a failed call left in it. Every preview
returns what it would return with an empty cache.
-/

namespace DataForge.Pipeline

open ReadCommitted

/-- How a frame is shown: whether its query plan can be rendered, the chart of a chart step, the
schema, and one page of rows in the time zones of the schema. -/
structure Viewer (κ F S A : Type) where
  isView : κ → Bool
  isChart : κ → Bool
  explain : F → Except String Unit
  chart : κ → F → ℤ → ℤ → Except String (S × A)
  schema : F → Except String S
  page : S → F → ℤ → ℤ → Except String A

/-- The arguments of a preview, and the storage it meets. -/
structure PreviewCall (κ ρ F : Type) where
  world : World ρ F
  config : SourceConfig ρ
  steps : List (Step κ)
  additional : Table String (SourceConfig ρ)
  rowLimit : ℤ
  offset : ℤ

variable {κ ρ π K F S A : Type} [StepParams π] [DecidableEq K]

/-- An error of Polars. -/
def rendered {α : Type} : Except String α → Except BuildError α
  | .ok a => .ok a
  | .error message => .error (.rendering message)

/-- The last step, if it is a chart. -/
def chartStep (V : Viewer κ F S A) (steps : List (Step κ)) : Option (Step κ) :=
  steps.getLast?.filter fun s => V.isChart s.body

/-- The last applied step. -/
def lastApplied (steps : List (Step κ)) : Option (Step κ) := steps.reverse.find? Step.applied

/-- The part of `execute_preview` after the pipeline was built (`polars_compute.py:361-377`). -/
def showFrame (E : Engine κ ρ π K F) (V : Viewer κ F S A) (call : PreviewCall κ ρ F)
    (cache : PreviewCache K F) (frame : F) (key : Option K) :
    PreviewCache K F × Except BuildError (S × A) :=
  match V.explain frame with
  | .error message => (cache, .error (.rendering message))
  | .ok () =>
    match chartStep V call.steps with
    | some step => (cache, rendered (V.chart step.body frame call.rowLimit call.offset))
    | none =>
      match V.schema frame with
      | .error message => (cache, .error (.rendering message))
      | .ok schema =>
        let last := lastApplied call.steps
        let key := if last.any fun s => V.isView s.body then none else key
        let m := cache.materialize E.collects key frame (last.elim "source" Step.id)
        (m.1, (rendered (V.page schema m.2 call.offset call.rowLimit)).map fun rows =>
          (schema, rows))

/-- `execute_preview`: the cache after the call, and the schema with the rows. -/
def executePreview (E : Engine κ ρ π K F) (V : Viewer κ F S A) (emptyFrame : F)
    (call : PreviewCall κ ρ F) (cache : PreviewCache K F) :
    PreviewCache K F × Except BuildError (S × A) :=
  match buildPipelineDetails E call.world emptyFrame call.config call.steps call.additional
      (some cache) with
  | (cache', .error e) => (cache'.getD cache, .error e)
  | (cache', .ok (frame, key)) => showFrame E V call (cache'.getD cache) frame key

/-- The cache after a sequence of previews. -/
def runPreviews (E : Engine κ ρ π K F) (V : Viewer κ F S A) (emptyFrame : F)
    (calls : List (PreviewCall κ ρ F)) : PreviewCache K F :=
  calls.foldl (fun cache call => (executePreview E V emptyFrame call cache).1) .empty

/-- The parent of every required step is cached or required itself, unless the step is cached. -/
def ParentsFound (E : Engine κ ρ π K F) (call : PreviewCall κ ρ F) (cache : PreviewCache K F) :
    Prop :=
  ∀ p, planOf call.steps = .ok p →
    let cached := (lookup E call.world p call.config call.additional cache).2.cachedFrames
    let required := requiredSteps p fun id => (cached.get id).isSome
    ∀ id ∈ required, cached.get id = none → ∀ parent, p.graph.parent id = some parent →
      (cached.get parent).isSome ∨ parent ∈ required

variable {E : Engine κ ρ π K F} {C : Contents ρ F} (V : Viewer κ F S A)

private theorem showFrame_eq (hE : E.Lawful) (call : PreviewCall κ ρ F) {frame : F}
    {key : Option K} (hf : ∀ k, key = some k → Holds E C k frame) :
    ∃ shown, (∀ x, shown ≠ .error (.keyError x)) ∧ ∀ cache : PreviewCache K F,
      cache.Valid E C → (showFrame E V call cache frame key).1.Valid E C ∧
        (showFrame E V call cache frame key).2 = shown := by
  have hrendered : ∀ {α : Type} (r : Except String α) x, rendered r ≠ .error (.keyError x) := by
    intro α r x
    cases r <;> simp [rendered]
  unfold showFrame
  cases V.explain frame with
  | error m => exact ⟨_, by simp, fun cache hc => ⟨hc, rfl⟩⟩
  | ok _ =>
    cases chartStep V call.steps with
    | some step => exact ⟨_, hrendered _, fun cache hc => ⟨hc, rfl⟩⟩
    | none =>
      cases V.schema frame with
      | error m => exact ⟨_, by simp, fun cache hc => ⟨hc, rfl⟩⟩
      | ok schema =>
        dsimp only
        refine ⟨(rendered (V.page schema frame call.offset call.rowLimit)).map fun rows =>
          (schema, rows), ?_, fun cache hc => ?_⟩
        · cases V.page schema frame call.offset call.rowLimit <;> simp [rendered, Except.map]
        · have hkey : ∀ k, (if (lastApplied call.steps).any fun s => V.isView s.body then none
              else key) = some k → Holds E C k frame := by
            intro k hk
            split at hk
            · cases hk
            · exact hf k hk
          obtain ⟨hvalid, hframe⟩ := hc.materialize hE hkey
            ((lastApplied call.steps).elim "source" Step.id)
          exact ⟨hvalid, by rw [hframe]⟩

omit [StepParams π] [DecidableEq K] in
private theorem foldlM_error {α β ε : Type} {f : β → α → Except ε β} {P : ε → Prop}
    (hf : ∀ b a e, f b a = .error e → P e) (l : List α) :
    ∀ b e, l.foldlM f b = .error e → P e := by
  induction l with
  | nil =>
    intro b e h
    cases h
  | cons a rest ih =>
    intro b e h
    rw [List.foldlM_cons] at h
    cases hs : f b a with
    | error e' =>
      rw [hs] at h
      cases h
      exact hf b a _ hs
    | ok b' =>
      rw [hs] at h
      exact ih b' e h

private theorem planOf_no_keyError {steps : List (Step κ)} {e : BuildError}
    (h : planOf steps = .error e) : ∀ x, e ≠ .keyError x := by
  unfold planOf at h
  cases hm : stepMapOf (applySteps steps) with
  | error e' =>
    rw [hm] at h
    cases h
    refine foldlM_error (P := fun e => ∀ x, e ≠ .keyError x) ?_ _ _ _ hm
    intro t s e he
    split at he
    · cases he
      simp
    · cases he
  | ok m =>
    rw [hm] at h
    dsimp only [bind, Except.bind] at h
    cases hg : graphOf m with
    | error e' =>
      rw [hg] at h
      cases h
      refine foldlM_error (P := fun e => ∀ x, e ≠ .keyError x) ?_ _ _ _ hg
      intro g p e he
      unfold addDependency at he
      split at he
      · cases he
      · split at he
        · cases he
          simp
        · cases he
      · cases he
        simp
    | ok g =>
      rw [hg] at h
      dsimp only at h
      split at h
      · cases h
        simp
      · cases h

/-- One preview: with any valid cache it returns the same, and leaves a valid cache. -/
theorem executePreview_eq (hE : E.Lawful) (emptyFrame : F) (call : PreviewCall κ ρ F)
    (hw : call.world.Reads C E.localPath) :
    ∃ shown, (∀ x, shown ≠ .error (.keyError x)) ∧ ∀ cache : PreviewCache K F,
      cache.Valid E C → (executePreview E V emptyFrame call cache).1.Valid E C ∧
        (executePreview E V emptyFrame call cache).2 = shown := by
  unfold executePreview buildPipelineDetails
  cases hplan : planOf call.steps with
  | error e =>
    refine ⟨.error e, fun x h => planOf_no_keyError hplan x (Except.error.inj h),
      fun cache hc => ?_⟩
    exact ⟨hc, rfl⟩
  | ok p =>
    have hp := planOf_ordered hplan
    have hbuild : ∀ cache : PreviewCache K F, cache.Valid E C → _ := fun cache hc =>
      buildFrames_eq hE hp (lookup_keyed hE hw hp call.config call.additional hc)
        (lookup_sound hE call.world p call.config call.additional hc).1 emptyFrame
    -- neither the evaluation nor the key of its result depends on the cache
    obtain ⟨-, -, -, hold, hne⟩ := hbuild .empty PreviewCache.valid_empty
    dsimp only
    cases heval : evalPlan E call.world p
        (lookup E call.world p call.config call.additional .empty).2.config
        (lookup E call.world p call.config call.additional .empty).2.rightConfigs with
    | error e =>
      refine ⟨.error e, fun x h => hne x (heval.trans (congrArg _ (Except.error.inj h))),
        fun cache hc => ?_⟩
      obtain ⟨c', hc', hb, -, -⟩ := hbuild cache hc
      have heval' : evalPlan E call.world p
        (lookup E call.world p call.config call.additional cache).2.config
        (lookup E call.world p call.config call.additional cache).2.rightConfigs = .error e := heval
      rw [hb, heval']
      exact ⟨hc', rfl⟩
    | ok frame =>
      obtain ⟨shown, hshown, hall⟩ := showFrame_eq V hE call (hold frame heval)
      refine ⟨shown, hshown, fun cache hc => ?_⟩
      obtain ⟨c', hc', hb, -, -⟩ := hbuild cache hc
      have heval' : evalPlan E call.world p
        (lookup E call.world p call.config call.additional cache).2.config
        (lookup E call.world p call.config call.additional cache).2.rightConfigs = .ok frame :=
          heval
      rw [hb, heval']
      exact hall c' hc'

theorem valid_runPreviews (hE : E.Lawful) (emptyFrame : F) (calls : List (PreviewCall κ ρ F))
    (hw : ∀ call ∈ calls, call.world.Reads C E.localPath) :
    (runPreviews E V emptyFrame calls).Valid E C := by
  unfold runPreviews
  have hfold : ∀ (l : List (PreviewCall κ ρ F)) (cache : PreviewCache K F),
      (∀ call ∈ l, call.world.Reads C E.localPath) → cache.Valid E C →
      (l.foldl (fun cache call => (executePreview E V emptyFrame call cache).1) cache).Valid
        E C := by
    intro l
    induction l with
    | nil => exact fun cache _ hc => hc
    | cons call rest ih =>
      intro cache hl hc
      obtain ⟨_, -, hstep⟩ := executePreview_eq V hE emptyFrame call (hl call List.mem_cons_self)
      exact ih _ (fun c h => hl c (List.mem_cons_of_mem _ h)) (hstep cache hc).1
  exact hfold calls .empty hw PreviewCache.valid_empty

private theorem parentsFound (call : PreviewCall κ ρ F)
    (cache : PreviewCache K F) : ParentsFound E call cache := by
  intro p hplan
  have hp := planOf_ordered hplan
  dsimp only
  intro id hid hun parent hparent
  have hclosed := hp.closed
  exact .inr ((requiredSteps_spec p _ hclosed).parent id hid (by simp [hun]) parent hparent)

/-- The preview cache is transparent. After any previews on storage with the contents `C`, a
further preview returns the schema and the rows that it returns with an empty cache (or the same
error); it finds the frame of every parent; and afterwards the cached keys are those that some
owner holds. -/
theorem preview_cache_transparent (hE : E.Lawful) (emptyFrame : F)
    (calls : List (PreviewCall κ ρ F)) (call : PreviewCall κ ρ F)
    (hw : ∀ c ∈ call :: calls, c.world.Reads C E.localPath) :
    let cache := runPreviews E V emptyFrame calls
    (executePreview E V emptyFrame call cache).2 =
        (executePreview E V emptyFrame call .empty).2 ∧
      ParentsFound E call cache ∧
      (∀ id, (executePreview E V emptyFrame call cache).2 ≠ .error (.keyError id)) ∧
      (executePreview E V emptyFrame call cache).1.Owned := by
  intro cache
  have hcache : cache.Valid E C :=
    valid_runPreviews V hE emptyFrame calls fun c hc => hw c (List.mem_cons_of_mem _ hc)
  obtain ⟨shown, hne, hall⟩ := executePreview_eq V hE emptyFrame call (hw call List.mem_cons_self)
  obtain ⟨hvalid, hshown⟩ := hall cache hcache
  refine ⟨?_, parentsFound call cache, ?_, hvalid.owned⟩
  · rw [hshown, (hall .empty PreviewCache.valid_empty).2]
  · rw [hshown]
    exact hne

/-! ## A limited file -/

/-- Two kinds of steps. -/
inductive Sample where
  | limit (rows : ℕ)
  | view
deriving DecidableEq, Repr

namespace Sample

instance : StepParams Sample := ⟨fun _ => none, fun _ => none, fun _ => true, fun _ => true⟩

/-- The configuration of the file. -/
def config : SourceConfig Unit := { kind := .file, filePath := some "/rows.csv", rest := () }

/-- Keys: even for the file, by its size, and odd for a limit. -/
def hash : Digest Unit Sample ℕ → Option ℕ
  | .iceberg _ => none
  | .file c ⟨0, 0, .ofNat n, 0, 0⟩ => if c = config then some (2 * n) else none
  | .file _ _ => none
  | .step operation (.limit n) parent sources =>
    if operation = "limit" ∧ sources = ∅ then some (2 * Nat.pair n parent + 1) else none
  | .step _ .view _ _ => none

/-- An engine for lists of rows. -/
def engine : Engine Sample Unit Sample ℕ (List ℕ) where
  convert
    | .limit n => .ok ⟨"limit", .limit n⟩
    | .view => .ok ⟨"view", .view⟩
  apply b _ frame _ _ :=
    match b.params with
    | .limit n => .ok (frame.take n)
    | .view => .ok frame
  collects _ := true
  localPath := some
  hash

/-- The rows of the file, by its size. -/
def contents : Contents Unit (List ℕ) where
  iceberg _ := .error "missing"
  file c identity := if c = config then .ok (List.range identity.size.toNat) else .error "missing"

/-- Storage with a file of `n` rows. -/
def world (n : ℕ) : World Unit (List ℕ) where
  resolveIceberg _ := none
  stat path := if path = "/rows.csv" then some ⟨0, 0, n, 0, 0⟩ else none
  load c := if c = config then .ok (List.range n) else .error "missing"

/-- Pages are slices. -/
def viewer : Viewer Sample (List ℕ) Unit (List ℕ) where
  isView s := s = .view
  isChart _ := false
  explain _ := .ok ()
  chart _ _ _ _ := .error "no chart"
  schema _ := .ok ()
  page _ frame offset rowLimit := .ok ((frame.drop offset.toNat).take rowLimit.toNat)

/-- The page at an offset of the first three rows. -/
def call (n : ℕ) (offset : ℤ) : PreviewCall Sample Unit (List ℕ) where
  world := world n
  config
  steps := [⟨"a", [], none, .limit 3⟩, ⟨"b", ["a"], none, .view⟩]
  additional := .empty
  rowLimit := 2
  offset

theorem hash_cases {d : Digest Unit Sample ℕ} {k : ℕ} (h : hash d = some k) :
    (∃ n : ℕ, d = .file config ⟨0, 0, n, 0, 0⟩ ∧ k = 2 * n) ∨
      ∃ n parent, d = .step "limit" (.limit n) parent ∅ ∧ k = 2 * Nat.pair n parent + 1 := by
  unfold hash at h
  split at h
  · cases h
  · split at h
    case isTrue hc =>
      rw [hc]
      exact .inl ⟨_, rfl, (Option.some_inj.mp h).symm⟩
    case isFalse => cases h
  · cases h
  · split at h
    case isTrue hc =>
      rw [hc.1, hc.2]
      exact .inr ⟨_, _, rfl, (Option.some_inj.mp h).symm⟩
    case isFalse => cases h
  · cases h

theorem lawful : engine.Lawful where
  hash_inj d d' k h h' := by
    rcases hash_cases h with ⟨n, rfl, rfl⟩ | ⟨n, parent, rfl, rfl⟩ <;>
    rcases hash_cases h' with ⟨n', rfl, hk⟩ | ⟨n', parent', rfl, hk⟩
    · rw [show n = n' by omega]
    · omega
    · omega
    · have hpair : Nat.pair n parent = Nat.pair n' parent' := by omega
      rw [Nat.pair_eq_pair] at hpair
      rw [hpair.1, hpair.2]
  transparent c b id f rights right hc hop := by
    cases c <;> cases hc
    · simp [transparentOperations] at hop
    · rfl
  alone c b hc hop := by
    cases c <;> cases hc <;> rfl
  union c b hc hop hs := by
    cases c <;> cases hc <;> cases hs rfl
  reads b id f r r' _ := rfl
  anonymous b id id' f rights right _ := rfl

theorem reads_world (n : ℕ) : (world n).Reads contents engine.localPath where
  iceberg c path _ h := by cases h
  file c path identity _ hp hs := by
    have hsize : identity.size.toNat = n := by
      unfold world at hs
      dsimp only at hs
      split at hs
      · cases hs
        rfl
      · cases hs
    unfold world contents
    dsimp only
    rw [hsize]

end Sample

/-- The second page is taken from the cached rows. -/
theorem preview_cache_transparent_page :
    let cache := runPreviews Sample.engine Sample.viewer [] [Sample.call 5 0]
    cache.frames.rows = [(2 * Nat.pair 3 10 + 1, [0, 1, 2])] ∧
      (executePreview Sample.engine Sample.viewer [] (Sample.call 5 2) cache).2 =
        (executePreview Sample.engine Sample.viewer [] (Sample.call 5 2) .empty).2 := by
  refine ⟨by decide +kernel, ?_⟩
  refine (preview_cache_transparent (C := Sample.contents) Sample.viewer Sample.lawful []
    [Sample.call 5 0] (Sample.call 5 2) ?_).1
  intro c hc
  simp only [List.mem_cons, List.not_mem_nil, or_false] at hc
  rcases hc with rfl | rfl <;> exact Sample.reads_world 5

end DataForge.Pipeline
