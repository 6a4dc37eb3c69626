import DataForge.Pipeline.Plan

/-!
# What a cache key stands for

The key of a frame is the hash of everything the frame was computed from, so a key determines
its frame: `Holds` says which. The facts about operations and storage that this rests on are
collected in `Engine.Lawful` and `World.Reads`.
-/

namespace DataForge.Pipeline

open ReadCommitted

variable {κ ρ π K F : Type} [StepParams π]

/-- What the storage holds under a pinned Iceberg configuration, and under a file configuration
whose file has a given identity. -/
structure Contents (ρ F : Type) where
  iceberg : SourceConfig ρ → Except String F
  file : SourceConfig ρ → FileIdentity → Except String F

/-- A world that shows these contents: a resolved Iceberg metadata file is never rewritten, and
a local file with equal identity has equal contents. -/
structure World.Reads (C : Contents ρ F) (localPath : LocalPath) (w : World ρ F) : Prop where
  iceberg : ∀ config path, config.kind = .iceberg → w.resolveIceberg config = some path →
    w.load { config with metadataPath := some path } =
      C.iceberg { config with metadataPath := some path }
  file : ∀ config path identity, config.kind = .file →
    config.filePath.bind localPath = some path → w.stat path = some identity →
    w.load config = C.file config identity

/-- What the cache takes for granted about the engine. -/
structure Engine.Lawful (E : Engine κ ρ π K F) : Prop where
  hash_inj : ∀ d d' k, E.hash d = some k → E.hash d' = some k → d = d'
  /-- Views, charts, downloads and exports return their input. -/
  transparent : ∀ c b id f rights right, E.convert c = .ok b →
    b.operation ∈ transparentOperations → E.apply b id f rights right = .ok f
  /-- The parameter models forbid extra entries: only a join has a `right_source` and only a
  union has `sources`. -/
  alone : ∀ c b, E.convert c = .ok b → b.operation ∈ transparentOperations → b.reads = []
  union : ∀ c b, E.convert c = .ok b → b.operation ∈ cacheableOperations → b.sources ≠ none →
    b.operation = "union_by_name"
  /-- An operation looks up only the sources that its parameters name. -/
  reads : ∀ b id f (r r' : String → Option F), (∀ s ∈ b.reads, r s = r' s) →
    E.apply b id f r (b.rightSource.bind r) = E.apply b id f r' (b.rightSource.bind r')
  /-- Only a notification looks at its step id. -/
  anonymous : ∀ b id id' f rights right, b.operation ∈ cacheableOperations →
    E.apply b id f rights right = E.apply b id' f rights right

/-- A key stands for a frame. -/
inductive Holds (E : Engine κ ρ π K F) (C : Contents ρ F) : K → F → Prop where
  | iceberg {config k f} : E.hash (.iceberg config) = some k → C.iceberg config = .ok f →
    Holds E C k f
  | file {config identity k f} : E.hash (.file config identity) = some k →
    C.file config identity = .ok f → Holds E C k f
  | step {b : BackendStep π} {id parent sources k input f} {keys : String → K}
    {frames : String → F} {rights : String → Option F} :
    E.hash (.step b.operation b.params parent sources) = some k →
    b.operation ∈ cacheableOperations → Holds E C parent input →
    (∀ s ∈ b.reads, ∀ q, (s, q) ∈ sources ↔ q = keys s) →
    (∀ s ∈ b.reads, Holds E C (keys s) (frames s)) →
    (∀ s ∈ b.reads, rights s = some (frames s)) →
    E.apply b id input rights (b.rightSource.bind rights) = .ok f → Holds E C k f

variable {E : Engine κ ρ π K F} {C : Contents ρ F}

/-- A key stands for at most one frame. -/
theorem Holds.unique (hE : E.Lawful) {k : K} {f g : F} (hf : Holds E C k f)
    (hg : Holds E C k g) : f = g := by
  induction hf generalizing g with
  | iceberg hk hc =>
    cases hg with
    | iceberg hk' hc' =>
      cases hE.hash_inj _ _ _ hk hk'
      exact Except.ok.inj (hc.symm.trans hc')
    | file hk' _ => cases hE.hash_inj _ _ _ hk hk'
    | step hk' => cases hE.hash_inj _ _ _ hk hk'
  | file hk hc =>
    cases hg with
    | iceberg hk' _ => cases hE.hash_inj _ _ _ hk hk'
    | file hk' hc' =>
      cases hE.hash_inj _ _ _ hk hk'
      exact Except.ok.inj (hc.symm.trans hc')
    | step hk' => cases hE.hash_inj _ _ _ hk hk'
  | @step b id parent sources k input f keys frames rights hk hop _ hkeys _ hrights happ ihp ihs =>
    cases hg with
    | iceberg hk' _ => cases hE.hash_inj _ _ _ hk hk'
    | file hk' _ => cases hE.hash_inj _ _ _ hk hk'
    | @step b' id' _ _ _ input' _ keys' frames' rights' hk' hop' hparent' hkeys' hframes'
        hrights' happ' =>
      obtain ⟨operation, params⟩ := b
      obtain ⟨operation', params'⟩ := b'
      cases hE.hash_inj _ _ _ hk hk'
      have hinput := ihp hparent'
      have hagree : ∀ s ∈ (⟨operation, params⟩ : BackendStep π).reads, rights s = rights' s := by
        intro s hs
        have hkey : keys s = keys' s := (hkeys' s hs _).mp ((hkeys s hs _).mpr rfl)
        rw [hrights s hs, hrights' s hs, ihs s hs (hkey ▸ hframes' s hs)]
      rw [hinput, hE.reads _ id input' rights rights' hagree,
        hE.anonymous _ id id' _ _ _ hop, happ'] at happ
      exact (Except.ok.inj happ).symm

/-- The key of a source stands for what loading its pinned configuration yields. -/
theorem source_holds (hE : E.Lawful) {w : World ρ F} (hw : w.Reads C E.localPath)
    {config : SourceConfig ρ} {k : K} (hk : (source E.localPath E.hash w config).2 = some k)
    (f : F) : Holds E C k f ↔ w.load (source E.localPath E.hash w config).1 = .ok f := by
  unfold source at hk ⊢
  obtain ⟨kind, metadataPath, branch, namespaceName, metadataFile, filePath, rest⟩ := config
  cases kind with
  | iceberg =>
    cases metadataPath with
    | none => cases hk
    | some m =>
      dsimp only at hk ⊢
      cases hr : w.resolveIceberg ⟨.iceberg, some m, branch, namespaceName, metadataFile,
          filePath, rest⟩ with
      | none =>
        rw [hr] at hk
        cases hk
      | some path =>
        rw [hr] at hk
        dsimp only at hk ⊢
        have hload := hw.iceberg _ path rfl hr
        dsimp only at hload
        cases hh : E.hash (.iceberg ⟨.iceberg, some path, branch, namespaceName, metadataFile,
            filePath, rest⟩) with
        | none =>
          rw [hh] at hk
          cases hk
        | some key =>
          rw [hh] at hk
          cases hk
          dsimp only
          rw [hload]
          constructor
          · intro h
            cases h with
            | iceberg hk' hc =>
              cases hE.hash_inj _ _ _ hh hk'
              exact hc
            | file hk' _ => cases hE.hash_inj _ _ _ hh hk'
            | step hk' => cases hE.hash_inj _ _ _ hh hk'
          · exact fun h => .iceberg hh h
  | file =>
    dsimp only at hk ⊢
    cases hp : filePath.bind E.localPath with
    | none =>
      rw [hp] at hk
      cases hk
    | some path =>
      rw [hp] at hk
      dsimp only at hk ⊢
      cases hs : w.stat path with
      | none =>
        rw [hs] at hk
        cases hk
      | some identity =>
        rw [hs] at hk
        dsimp only at hk ⊢
        rw [hw.file _ path identity rfl hp hs]
        constructor
        · intro h
          cases h with
          | iceberg hk' _ => cases hE.hash_inj _ _ _ hk hk'
          | file hk' hc =>
            cases hE.hash_inj _ _ _ hk hk'
            exact hc
          | step hk' => cases hE.hash_inj _ _ _ hk hk'
        · exact fun h => .file hk h
  | other => cases hk

/-! ## Keys of steps -/

theorem mem_referencedKeys {sourceKeys : String → Option K} {referenced : List String}
    {keys : List (String × K)} (h : referencedKeys sourceKeys referenced = some keys) :
    (∀ s ∈ referenced, ∃ q, sourceKeys s = some q) ∧
      ∀ s q, (s, q) ∈ keys ↔ s ∈ referenced ∧ sourceKeys s = some q := by
  unfold referencedKeys at h
  induction referenced generalizing keys with
  | nil =>
    cases h
    simp
  | cons a rest ih =>
    rw [List.mapM_cons] at h
    cases ha : sourceKeys a with
    | none => simp [ha] at h
    | some q =>
      cases hrest : rest.mapM fun id => (sourceKeys id).map fun key => (id, key) with
      | none => simp [ha, hrest] at h
      | some tail =>
        have hkeys : keys = (a, q) :: tail := by simpa [ha, hrest] using h.symm
        obtain ⟨h1, h2⟩ := ih hrest
        subst hkeys
        constructor
        · intro s hs
          rcases List.mem_cons.mp hs with rfl | hs
          · exact ⟨q, ha⟩
          · exact h1 s hs
        · intro s q'
          rw [List.mem_cons, List.mem_cons, h2]
          constructor
          · rintro (h | ⟨hs, hq⟩)
            · cases h
              exact ⟨.inl rfl, ha⟩
            · exact ⟨.inr hs, hq⟩
          · rintro ⟨rfl | hs, hq⟩
            · rw [ha, Option.some_inj] at hq
              exact .inl (by rw [hq])
            · exact .inr ⟨hs, hq⟩

/-- A step has a key of its own only with a key of its input and of all sources it reads. -/
theorem stepKey_cases [DecidableEq K] {parentKey : Option K} {b : BackendStep π}
    {sourceKeys : String → Option K} {k : K}
    (h : stepKey E.hash parentKey b sourceKeys = some k) :
    (b.operation ∈ transparentOperations ∧ parentKey = some k) ∨
    ∃ parent keys, b.operation ∈ cacheableOperations ∧ parentKey = some parent ∧
      referencedKeys sourceKeys b.referenced = some keys ∧
      E.hash (.step b.operation b.params parent keys.toFinset) = some k := by
  unfold stepKey at h
  split at h
  case isTrue ht => exact .inl ⟨ht, h⟩
  case isFalse ht =>
    cases hp : parentKey with
    | none =>
      rw [hp] at h
      cases h
    | some parent =>
      rw [hp] at h
      dsimp only at h
      split at h
      · cases h
      case isFalse hop =>
        rw [not_not] at hop
        split at h
        · cases h
        · split at h
          · cases h
          · cases hr : referencedKeys sourceKeys b.referenced with
            | none =>
              rw [hr] at h
              cases h
            | some keys =>
              rw [hr] at h
              exact .inr ⟨parent, keys, hop, rfl, rfl, h⟩

/-- The key of the frame that a step reads. -/
def Plan.parentKey (p : Plan κ) (sourceKey : Option K) (keys : Table String (Option K))
    (id : String) : Option K :=
  match p.graph.parent id with
  | none => sourceKey
  | some parent => (keys.get parent).getD none

/-- Adding the key of a step. -/
private def putStepKey [DecidableEq K] (E : Engine κ ρ π K F) (p : Plan κ) (sourceKey : Option K)
    (rightKeys : String → Option K) (keys : Table String (Option K)) (id : String) :
    Table String (Option K) :=
  keys.put id (some (match p.backendStep E id with
    | none => none
    | some b => stepKey E.hash (p.parentKey sourceKey keys id) b rightKeys))

/-- A step with a key was converted, and its key comes from that of its parent. -/
theorem stepKeysOf_spec [DecidableEq K] {p : Plan κ} (hp : p.Ordered) {sourceKey : Option K}
    {rightKeys : String → Option K} {id : String} (hid : id ∈ p.ordered) {k : K}
    (hk : ((stepKeysOf E p sourceKey rightKeys).get id).getD none = some k) :
    ∃ b, p.backendStep E id = some b ∧
      stepKey E.hash (p.parentKey sourceKey (stepKeysOf E p sourceKey rightKeys) id) b
        rightKeys = some k := by
  have hkeys : stepKeysOf E p sourceKey rightKeys = p.ordered.foldl
      (putStepKey E p sourceKey rightKeys)
      (p.steps.rows.foldl (fun t s => t.put s.1 (some none)) .empty) := rfl
  rw [hkeys] at hk ⊢
  -- along the order: the steps behind have their keys, and so do their parents
  have hfold : ∀ (rest done : List String) (t : Table String (Option K)),
      p.ordered = done ++ rest →
      (∀ x ∈ done, ∀ k, (t.get x).getD none = some k → ∃ b, p.backendStep E x = some b ∧
        stepKey E.hash (p.parentKey sourceKey t x) b rightKeys = some k) →
      ∀ x ∈ p.ordered, ∀ k,
        ((rest.foldl (putStepKey E p sourceKey rightKeys) t).get x).getD none = some k →
        ∃ b, p.backendStep E x = some b ∧ stepKey E.hash (p.parentKey sourceKey
          (rest.foldl (putStepKey E p sourceKey rightKeys) t) x) b rightKeys = some k := by
    intro rest
    induction rest with
    | nil =>
      intro done t hsplit ht x hx k hk
      rw [hsplit, List.append_nil] at hx
      exact ht x hx k hk
    | cons a rest ih =>
      intro done t hsplit ht
      rw [List.foldl_cons]
      refine ih (done ++ [a]) _ (by rw [hsplit]; simp) ?_
      have hnot : a ∉ done := by
        have hn := hp.nodup
        rw [hsplit] at hn
        exact (List.nodup_middle.mp hn).notMem ∘ List.mem_append_left _
      have hkeep : ∀ x ∈ done ++ [a], ∀ v, p.parentKey sourceKey (t.put a v) x =
          p.parentKey sourceKey t x := by
        intro x hx v
        unfold Plan.parentKey
        cases hq : p.graph.parent x with
        | none => rfl
        | some q =>
          have hq' : q ∈ done := by
            rcases List.mem_append.mp hx with hx | hx
            · obtain ⟨l1, l2, rfl⟩ := List.append_of_mem hx
              have := hp.topological l1 x (l2 ++ a :: rest) (by rw [hsplit]; simp) q hq
              exact List.mem_append_left _ this
            · rw [List.mem_singleton] at hx
              exact hp.topological done a rest hsplit q (hx ▸ hq)
          have hne : q ≠ a := fun h => hnot (h ▸ hq')
          simp [hne]
      intro x hx k hk
      unfold putStepKey at hk ⊢
      rw [hkeep x hx]
      by_cases hxa : x = a
      · subst hxa
        rw [Table.get_put, if_pos rfl] at hk
        cases hb : p.backendStep E x with
        | none => simp [hb] at hk
        | some b => exact ⟨b, rfl, by simpa [hb] using hk⟩
      · rw [Table.get_put, if_neg hxa] at hk
        exact ht x (by simpa [hxa] using hx) k hk
  exact hfold p.ordered [] _ rfl (by simp) id hid k hk

/-! ## Frames of steps -/

private theorem reads_subset_referenced (hE : E.Lawful) {c : κ} {b : BackendStep π}
    (hb : E.convert c = .ok b) (hop : b.operation ∈ cacheableOperations) :
    b.reads ⊆ b.referenced := by
  intro s hs
  unfold BackendStep.reads at hs
  unfold BackendStep.referenced
  rcases List.mem_append.mp hs with hs | hs
  · exact List.mem_append_left _ hs
  · have hsome : b.sources ≠ none := by
      intro hnone
      simp [hnone] at hs
    rw [if_pos (hE.union c b hb hop hsome)]
    exact List.mem_append_right _ hs

/-- A step with a key, applied to frames that their keys stand for, yields the frame that its
key stands for. -/
theorem holds_apply [DecidableEq K] (hE : E.Lawful) {c : κ} {b : BackendStep π}
    (hb : E.convert c = .ok b) {parentKey : Option K} {rightKeys : String → Option K} {k : K}
    (hk : stepKey E.hash parentKey b rightKeys = some k) {id : String} {input f : F}
    {rights : String → Option F} (hinput : ∀ q, parentKey = some q → Holds E C q input)
    (hrights : ∀ s ∈ b.reads, ∀ q, rightKeys s = some q → ∃ g, rights s = some g ∧ Holds E C q g)
    (happ : E.apply b id input rights (b.rightSource.bind rights) = .ok f) : Holds E C k f := by
  rcases stepKey_cases hk with ⟨ht, hp⟩ | ⟨parent, keys, hop, hp, hkeys, hhash⟩
  · rw [hE.transparent c b _ _ _ _ hb ht] at happ
    cases happ
    exact hinput k hp
  · obtain ⟨hall, hmem⟩ := mem_referencedKeys hkeys
    have hread : ∀ s ∈ b.reads, ∃ q g, rightKeys s = some q ∧ rights s = some g ∧
        Holds E C q g := by
      intro s hs
      obtain ⟨q, hq⟩ := hall s (reads_subset_referenced hE hb hop hs)
      obtain ⟨g, hg, hold⟩ := hrights s hs q hq
      exact ⟨q, g, hq, hg, hold⟩
    refine @Holds.step _ _ _ _ _ _ E C b id parent _ k input f (fun s => (rightKeys s).getD parent)
      (fun s => (rights s).getD input) rights hhash hop (hinput parent hp) ?_ ?_ ?_ happ
    · intro s hs q
      obtain ⟨q', g, hq', -, -⟩ := hread s hs
      rw [List.mem_toFinset, hmem, hq', Option.getD_some, Option.some_inj]
      constructor
      · exact fun h => h.2.symm
      · exact fun h => ⟨reads_subset_referenced hE hb hop hs, h.symm⟩
    · intro s hs
      obtain ⟨q, g, hq, hg, hold⟩ := hread s hs
      rw [hq, hg]
      exact hold
    · intro s hs
      obtain ⟨q, g, -, hg, -⟩ := hread s hs
      rw [hg]
      rfl

/-- Conversely, where the key of a step stands for a frame, so do the keys of its input and of
the sources it reads, and the step applied to their frames yields that frame. -/
theorem apply_of_holds [DecidableEq K] (hE : E.Lawful) {c : κ} {b : BackendStep π}
    (hb : E.convert c = .ok b) {parentKey : Option K} {rightKeys : String → Option K} {k : K}
    (hk : stepKey E.hash parentKey b rightKeys = some k) {f : F} (hf : Holds E C k f) :
    ∃ q input, parentKey = some q ∧ Holds E C q input ∧
      (∀ s ∈ b.reads, ∃ q g, rightKeys s = some q ∧ Holds E C q g) ∧
      ∀ id rights, (∀ s ∈ b.reads, ∀ q g, rightKeys s = some q → Holds E C q g →
        rights s = some g) →
      E.apply b id input rights (b.rightSource.bind rights) = .ok f := by
  rcases stepKey_cases hk with ⟨ht, hp⟩ | ⟨parent, keys, hop, hp, hkeys, hhash⟩
  · refine ⟨k, f, hp, hf, ?_, fun id rights _ => hE.transparent c b _ _ _ _ hb ht⟩
    rw [hE.alone c b hb ht]
    simp
  · obtain ⟨-, hmem⟩ := mem_referencedKeys hkeys
    cases hf with
    | iceberg hk' _ => cases hE.hash_inj _ _ _ hhash hk'
    | file hk' _ => cases hE.hash_inj _ _ _ hhash hk'
    | @step b' id' _ _ _ input _ keys' frames rights' hk' _ hparent hkeys' hframes hrights' happ =>
      obtain ⟨operation, params⟩ := b
      obtain ⟨operation', params'⟩ := b'
      cases hE.hash_inj _ _ _ hhash hk'
      have hright : ∀ s ∈ (⟨operation, params⟩ : BackendStep π).reads,
          rightKeys s = some (keys' s) := by
        intro s hs
        have h := (hkeys' s hs _).mpr rfl
        rw [List.mem_toFinset, hmem] at h
        exact h.2
      refine ⟨parent, input, hp, hparent, fun s hs => ⟨_, _, hright s hs, hframes s hs⟩, ?_⟩
      intro id rights hagree
      rw [hE.anonymous _ id id' _ _ _ hop, ← happ]
      refine hE.reads _ _ _ _ _ fun s hs => ?_
      rw [hagree s hs _ _ (hright s hs) (hframes s hs), hrights' s hs]

end DataForge.Pipeline
