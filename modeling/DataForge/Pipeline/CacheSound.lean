import DataForge.Pipeline.Keys

/-!
# The cache stays sound

Every cached frame is the one its key stands for, and the cached keys are those that some owner
holds: each operation of the cache keeps both.
-/

namespace DataForge.Pipeline

open ReadCommitted

variable {κ ρ π K F : Type} [StepParams π] [DecidableEq K] {E : Engine κ ρ π K F}
  {C : Contents ρ F}

/-- The cached keys are those that some owner holds. -/
def PreviewCache.Owned (c : PreviewCache K F) : Prop :=
  ∀ k, (c.frames.get k).isSome ↔ ∃ owner, c.owners.get owner = some k

/-- The invariant of the cache. -/
structure PreviewCache.Valid (E : Engine κ ρ π K F) (C : Contents ρ F) (c : PreviewCache K F) :
    Prop where
  sound : ∀ k f, c.frames.get k = some f → Holds E C k f
  owned : c.Owned

namespace PreviewCache

variable {c : PreviewCache K F}

theorem valid_empty : (empty : PreviewCache K F).Valid E C := by
  constructor
  · intro k f h
    cases h
  · intro k
    simp [empty]

theorem Valid.get (h : c.Valid E C) {key : Option K} {f : F} (hf : c.get key = some f) :
    ∃ k, key = some k ∧ Holds E C k f := by
  cases key with
  | none => cases hf
  | some k => exact ⟨k, rfl, h.sound k f hf⟩

theorem any_owner (t : Table String K) (k : K) :
    (t.rows.any fun p => decide (p.2 = k)) = true ↔ ∃ owner, t.get owner = some k := by
  rw [List.any_eq_true]
  constructor
  · rintro ⟨⟨owner, k'⟩, hm, hk⟩
    rw [decide_eq_true_eq] at hk
    exact ⟨owner, hk ▸ (t.mem_rows_iff owner k').mp hm⟩
  · rintro ⟨owner, h⟩
    exact ⟨(owner, k), (t.mem_rows_iff owner k).mpr h, by simp⟩

theorem Valid.discard (h : c.Valid E C) (owner : String) : (c.discard owner).Valid E C := by
  unfold PreviewCache.discard
  cases ho : c.owners.get owner with
  | none => exact h
  | some previous =>
    dsimp only
    have howned : ∀ k, (∃ o, (c.owners.put owner none).get o = some k) →
        ∃ o, c.owners.get o = some k := by
      rintro k ⟨o, hk⟩
      by_cases hoo : o = owner
      · simp [hoo] at hk
      · exact ⟨o, by simpa [hoo] using hk⟩
    have hother : ∀ k, k ≠ previous → (∃ o, c.owners.get o = some k) →
        ∃ o, (c.owners.put owner none).get o = some k := by
      rintro k hne ⟨o, hk⟩
      have hoo : o ≠ owner := by
        rintro rfl
        rw [ho, Option.some_inj] at hk
        exact hne hk.symm
      exact ⟨o, by simpa [hoo] using hk⟩
    unfold removeUnownedFrame
    dsimp only
    split
    case isTrue hany =>
      rw [any_owner] at hany
      refine ⟨h.sound, fun k => ?_⟩
      rw [h.owned k]
      by_cases hk : k = previous
      · subst hk
        exact ⟨fun _ => hany, howned k⟩
      · exact ⟨hother k hk, howned k⟩
    case isFalse hany =>
      rw [any_owner] at hany
      constructor
      · intro k f hf
        by_cases hk : k = previous
        · simp [hk] at hf
        · exact h.sound k f (by simpa [hk] using hf)
      · intro k
        by_cases hk : k = previous
        · subst hk
          simpa using hany
        · rw [Table.get_put, if_neg hk, h.owned k]
          exact ⟨hother k hk, howned k⟩

theorem get_owners_discard (c : PreviewCache K F) (owner o : String) :
    (c.discard owner).owners.get o = if o = owner then none else c.owners.get o := by
  unfold PreviewCache.discard
  cases ho : c.owners.get owner with
  | none =>
    by_cases h : o = owner
    · rw [if_pos h, h]
      exact ho
    · rw [if_neg h]
  | some previous =>
    unfold removeUnownedFrame
    dsimp only
    split <;> simp

theorem Valid.put (h : c.Valid E C) (owner : String) {k : K} {f : F} (hf : Holds E C k f) :
    (c.put owner k f).Valid E C := by
  -- the owner first gives up its other key
  have hstart : ∀ c' : PreviewCache K F, c'.Valid E C →
      (∀ k', c'.owners.get owner = some k' → k' = k) →
      (⟨c'.frames.put k (some f), c'.owners.put owner (some k)⟩ : PreviewCache K F).Valid E C := by
    intro c' h' howner
    constructor
    · intro k' f' hf'
      by_cases hk : k' = k
      · simp only [hk, Table.get_put, if_true, Option.some_inj] at hf'
        rw [hk, ← hf']
        exact hf
      · exact h'.sound k' f' (by simpa [hk] using hf')
    · intro k'
      by_cases hk : k' = k
      · subst hk
        simp only [Table.get_put, if_true, Option.isSome_some, true_iff]
        exact ⟨owner, by simp⟩
      · simp only [Table.get_put, if_neg hk]
        rw [h'.owned k']
        constructor
        · rintro ⟨o, ho⟩
          have hoo : o ≠ owner := by
            rintro rfl
            exact hk (howner k' ho)
          exact ⟨o, by simpa [hoo] using ho⟩
        · rintro ⟨o, ho⟩
          split at ho
          · exact absurd (Option.some_inj.mp ho).symm hk
          · exact ⟨o, ho⟩
  unfold PreviewCache.put
  dsimp only
  cases ho : c.owners.get owner with
  | none => exact hstart c h (by simp [ho])
  | some previous =>
    dsimp only
    split
    case isTrue hp =>
      refine hstart c h fun k' hk' => ?_
      rw [ho, Option.some_inj] at hk'
      exact hk' ▸ hp
    case isFalse => exact hstart _ (h.discard owner) (by simp [get_owners_discard])

theorem Valid.invalidate (h : c.Valid E C) (owner : String) (key : Option K) :
    (c.invalidate owner key).Valid E C := by
  unfold PreviewCache.invalidate
  split
  · exact h.discard owner
  · exact h

theorem Valid.materialize (hE : E.Lawful) (h : c.Valid E C) {key : Option K} {f : F}
    (hf : ∀ k, key = some k → Holds E C k f) (owner : String) :
    (c.materialize E.collects key f owner).1.Valid E C ∧
      (c.materialize E.collects key f owner).2 = f := by
  unfold PreviewCache.materialize
  cases key with
  | none => exact ⟨h, rfl⟩
  | some k =>
    dsimp only
    cases hg : c.get (some k) with
    | none =>
      dsimp only
      split
      · exact ⟨h.put owner (hf k rfl), rfl⟩
      · exact ⟨h, rfl⟩
    | some cached =>
      have hold := h.sound k cached hg
      exact ⟨h.put owner hold, hold.unique hE (hf k rfl)⟩

end PreviewCache

/-! ## Lookup -/

/-- Every frame found for a step is the one the key of the step stands for. -/
def Lookup.Sound (E : Engine κ ρ π K F) (C : Contents ρ F) (l : Lookup ρ K F) : Prop :=
  ∀ id f, l.cachedFrames.get id = some f →
    ∃ k, (l.stepKeys.get id).getD Option.none = some k ∧ Holds E C k f

private theorem PreviewCache.Valid.optOut (p : Plan κ) (l : List String) :
    ∀ {c : PreviewCache K F}, c.Valid E C →
      (l.foldl (fun c id => match p.backendStep E id with
        | some b => if b.optsOut then c.discard id else c
        | none => c) c).Valid E C := by
  induction l with
  | nil => exact fun hc => hc
  | cons a rest ih =>
    intro c hc
    rw [List.foldl_cons]
    apply ih
    split
    · split
      · exact hc.discard a
      · exact hc
    · exact hc

theorem lookup_sound (hE : E.Lawful) (w : World ρ F) (p : Plan κ) (config : SourceConfig ρ)
    (additional : Table String (SourceConfig ρ)) {cache : PreviewCache K F}
    (hcache : cache.Valid E C) :
    (lookup E w p config additional cache).1.Valid E C ∧
      (lookup E w p config additional cache).2.Sound E C := by
  unfold lookup
  have hstart := (hcache.optOut p p.ordered).invalidate "source"
    (source E.localPath E.hash w config).2
  dsimp only
  generalize stepKeysOf E p _ _ = keys
  have hloop : ∀ (l : List (String × Option K)) (s : PreviewCache K F × Table String F),
      (∀ e ∈ l, keys.get e.1 = some e.2) → s.1.Valid E C →
      (∀ id f, s.2.get id = some f → ∃ k, (keys.get id).getD none = some k ∧ Holds E C k f) →
      (l.foldl (lookupStep E p) s).1.Valid E C ∧
      ∀ id f, (l.foldl (lookupStep E p) s).2.get id = some f →
        ∃ k, (keys.get id).getD none = some k ∧ Holds E C k f := by
    intro l
    induction l with
    | nil => exact fun s _ h1 h2 => ⟨h1, h2⟩
    | cons e rest ih =>
      intro s hl hs hframes
      rw [List.foldl_cons]
      refine ih _ (fun e he => hl e (List.mem_cons_of_mem _ he)) ?_ ?_
      · unfold lookupStep
        have hinv := hs.invalidate e.1 e.2
        dsimp only
        cases hg : (s.1.invalidate e.1 e.2).get e.2 with
        | none => exact hinv
        | some frame =>
          obtain ⟨k, hk, hold⟩ := hinv.get hg
          dsimp only
          split
          · split
            · refine (hinv.materialize hE (fun k' hk' => ?_) e.1).1
              rw [hk, Option.some_inj] at hk'
              exact hk' ▸ hold
            · exact hinv
          · exact hinv
      · intro id f hf
        unfold lookupStep at hf
        have hinv := hs.invalidate e.1 e.2
        dsimp only at hf
        cases hg : (s.1.invalidate e.1 e.2).get e.2 with
        | none =>
          rw [hg] at hf
          exact hframes id f hf
        | some frame =>
          rw [hg] at hf
          simp only [Table.get_put] at hf
          split at hf
          case isTrue hid =>
            rw [Option.some_inj] at hf
            obtain ⟨k, hk, hold⟩ := hinv.get hg
            refine ⟨k, ?_, hf ▸ hold⟩
            rw [hid, hl e List.mem_cons_self, hk]
            rfl
          case isFalse => exact hframes id f hf
  have hrows : ∀ e ∈ keys.rows, keys.get e.1 = some e.2 :=
    fun e he => (keys.mem_rows_iff e.1 e.2).mp he
  exact hloop keys.rows (_, .empty) hrows hstart (fun id f hf => by cases hf)

end DataForge.Pipeline
