import DataForge.Pipeline.CacheSound
import DataForge.Pipeline.Required

/-!
# Building a pipeline with and without its cache

`evalPlan` evaluates every step of a plan from the loaded sources. A build that reuses cached
frames has the same outcome: what it skips, namely branches above a cached step and sources that
only those read, would have succeeded with the frames that the keys stand for.
-/

namespace DataForge.Pipeline

open ReadCommitted

variable {κ ρ π K F : Type} [StepParams π]

/-- The sources that the steps of a plan read. -/
def Plan.reads (E : Engine κ ρ π K F) (p : Plan κ) : List String :=
  p.ordered.flatMap fun id =>
    match p.backendStep E id with
    | none => []
    | some b => b.reads

/-- A source, loaded if it is among those that are read. -/
def evalSource (w : World ρ F) (reads : List String) (t : Table String F)
    (e : String × SourceConfig ρ) : Except BuildError (Table String F) :=
  if e.1 ∉ reads then .ok t
  else
    match w.load e.2 with
    | .ok frame => .ok (t.put e.1 (some frame))
    | .error message => .error (.additionalSource e.1 message)

/-- The sources that the steps read, loaded. -/
def evalSources (E : Engine κ ρ π K F) (w : World ρ F) (p : Plan κ)
    (rightConfigs : Table String (SourceConfig ρ)) : Except BuildError (Table String F) :=
  rightConfigs.rows.foldlM (evalSource w (p.reads E)) .empty

/-- One step, applied to the frame of its parent. -/
def evalStep (E : Engine κ ρ π K F) (p : Plan κ) (base : F) (rights frames : Table String F)
    (id : String) : Except BuildError (Table String F) :=
  match p.steps.get id with
  | none => .error (.keyError id)
  | some step =>
    match E.convert step.body with
    | .error message => .error (.conversion id message)
    | .ok b =>
      match p.graph.input base frames id with
      | none => .error (.keyError id)
      | some frame =>
        match E.apply b id frame rights.get (b.rightSource.bind rights.get) with
        | .error message => .error (.operation id message)
        | .ok result => .ok (frames.put id (some result))

/-- All steps. -/
def evalPlan (E : Engine κ ρ π K F) (w : World ρ F) (p : Plan κ) (config : SourceConfig ρ)
    (rightConfigs : Table String (SourceConfig ρ)) : Except BuildError F :=
  match w.load config with
  | .error message => .error (.source message)
  | .ok base =>
    match evalSources E w p rightConfigs with
    | .error e => .error e
    | .ok rights =>
      match p.ordered.getLast? with
      | none => .ok base
      | some result =>
        match p.ordered.foldlM (evalStep E p base rights) .empty with
        | .error e => .error e
        | .ok frames =>
          match frames.get result with
          | none => .error (.keyError result)
          | some frame => .ok frame

/-! ## What the keys of a call mean -/

variable [DecidableEq K]

/-- The keys of a lookup stand for what the sources and the steps yield. -/
structure Lookup.Keyed (E : Engine κ ρ π K F) (C : Contents ρ F) (w : World ρ F) (p : Plan κ)
    (l : Lookup ρ K F) : Prop where
  source : ∀ k, l.sourceKey = some k → ∀ f, Holds E C k f ↔ w.load l.config = .ok f
  right : ∀ s k, (l.rightKeys.get s).getD Option.none = some k →
    ∃ config, l.rightConfigs.get s = some config ∧
      ∀ f, Holds E C k f ↔ w.load config = .ok f
  steps : ∀ id ∈ p.ordered, ∀ k, (l.stepKeys.get id).getD Option.none = some k →
    ∃ b, p.backendStep E id = some b ∧
      stepKey E.hash (p.parentKey l.sourceKey l.stepKeys id) b
        (fun s => (l.rightKeys.get s).getD Option.none) = some k
  frames : l.Sound E C

variable {E : Engine κ ρ π K F} {C : Contents ρ F} {w : World ρ F} {p : Plan κ}

private theorem get_foldl_put {β γ : Type} (f : β → γ) (l : List (String × β))
    (hd : (l.map Prod.fst).Nodup) (t : Table String γ) (s : String) :
    (l.foldl (fun t e => t.put e.1 (some (f e.2))) t).get s =
      ((l.find? fun e => e.1 = s).map fun e => f e.2).or (t.get s) := by
  induction l generalizing t with
  | nil => simp
  | cons e rest ih =>
    rw [List.map_cons, List.nodup_cons] at hd
    rw [List.foldl_cons, ih hd.2, List.find?_cons]
    by_cases hs : e.1 = s
    · have hnone : rest.find? (fun e => e.1 = s) = none := by
        rw [List.find?_eq_none]
        intro e' he' h
        rw [decide_eq_true_eq] at h
        exact hd.1 (hs ▸ h ▸ List.mem_map_of_mem he')
      simp [hs, hnone]
    · have hs' : s ≠ e.1 := fun h => hs h.symm
      simp [hs, hs']

theorem lookup_keyed (hE : E.Lawful) (hw : w.Reads C E.localPath) (hp : p.Ordered)
    (config : SourceConfig ρ) (additional : Table String (SourceConfig ρ))
    {cache : PreviewCache K F} (hcache : cache.Valid E C) :
    (lookup E w p config additional cache).2.Keyed E C w p := by
  have hright : ∀ {γ : Type} (f : SourceConfig ρ × Option K → γ) s,
      ((additional.rows.map fun e => (e.1, Pipeline.source E.localPath E.hash w e.2)).foldl
        (fun t e => t.put e.1 (some (f e.2))) Table.empty).get s =
      (additional.get s).map fun c => f (Pipeline.source E.localPath E.hash w c) := by
    intro γ f s
    rw [get_foldl_put f _ (by
      rw [List.map_map]
      exact additional.nodup), Table.get_empty, Option.or_none]
    unfold Table.get
    rw [List.find?_map]
    simp [Function.comp_def]
  refine ⟨fun k hk f => source_holds hE hw hk f, fun s k hk => ?_,
    fun id hid k hk => stepKeysOf_spec hp hid hk, (lookup_sound hE w p config additional
      hcache).2⟩
  unfold lookup at hk ⊢
  dsimp only at hk ⊢
  rw [hright Prod.snd] at hk
  rw [hright Prod.fst]
  cases ha : additional.get s with
  | none =>
    rw [ha] at hk
    cases hk
  | some c =>
    rw [ha] at hk
    exact ⟨_, rfl, fun f => source_holds hE hw hk f⟩

/-! ## Skipped steps -/

/-- The key of a step stands for a frame. -/
def Lookup.Good (E : Engine κ ρ π K F) (C : Contents ρ F) (l : Lookup ρ K F) (id : String) :
    Prop :=
  ∃ k f, (l.stepKeys.get id).getD Option.none = some k ∧ Holds E C k f

variable {l : Lookup ρ K F}

theorem child_after (hp : p.Ordered) {l1 l2 : List String} {x c : String}
    (hsplit : p.ordered = l1 ++ x :: l2) (hc : c ∈ p.ordered) (hx : p.graph.parent c = some x) :
    c ∈ l2 := by
  obtain ⟨m1, m2, hm⟩ := List.append_of_mem hc
  obtain ⟨a, b, hab⟩ := List.append_of_mem (hp.topological m1 c m2 hm x hx)
  have hnodup := hp.nodup
  have heq : l1 ++ x :: l2 = a ++ x :: (b ++ c :: m2) := by
    rw [← hsplit, hm, hab]
    simp
  rw [hsplit] at hnodup
  have hnot := (List.nodup_middle.mp hnodup).notMem
  rw [List.mem_append, not_or] at hnot
  have hl2 := ((List.append_cons_inj_of_notMem hnot.1 hnot.2).mp heq).2.2
  rw [hl2]
  simp

variable {b : BackendStep π}

omit [StepParams π] [DecidableEq K] in
private theorem convert_of_backendStep {id : String} (h : p.backendStep E id = some b) :
    ∃ step, p.steps.get id = some step ∧ E.convert step.body = .ok b := by
  unfold Plan.backendStep at h
  rw [Option.bind_eq_some_iff] at h
  obtain ⟨step, hstep, h⟩ := h
  refine ⟨step, hstep, ?_⟩
  cases hc : E.convert step.body with
  | error _ =>
    rw [hc] at h
    cases h
  | ok b' =>
    rw [hc] at h
    cases h
    rfl

/-- What the key of a step stands for is what the step yields, and it yields it. -/
theorem Lookup.Good.apply (hE : E.Lawful) (hl : l.Keyed E C w p) {id : String}
    (hid : id ∈ p.ordered) (h : l.Good E C id) :
    ∃ step b q input f, p.steps.get id = some step ∧ E.convert step.body = .ok b ∧
      p.backendStep E id = some b ∧
      p.parentKey l.sourceKey l.stepKeys id = some q ∧ Holds E C q input ∧
      (∀ s ∈ b.reads, ∃ config g, l.rightConfigs.get s = some config ∧
        w.load config = .ok g) ∧
      ∀ rights : Table String F, (∀ s ∈ b.reads, ∀ config g, l.rightConfigs.get s = some config →
        w.load config = .ok g → rights.get s = some g) →
      E.apply b id input rights.get (b.rightSource.bind rights.get) = .ok f := by
  obtain ⟨k, f, hk, hf⟩ := h
  obtain ⟨b, hb, hkey⟩ := hl.steps id hid k hk
  obtain ⟨step, hstep, hconvert⟩ := convert_of_backendStep hb
  obtain ⟨q, input, hq, hinput, hreads, happ⟩ := apply_of_holds hE hconvert hkey hf
  refine ⟨step, b, q, input, f, hstep, hconvert, hb, hq, hinput, ?_, ?_⟩
  · intro s hs
    obtain ⟨r, g, hr, hg⟩ := hreads s hs
    obtain ⟨config, hconfig, hload⟩ := hl.right s r hr
    exact ⟨config, g, hconfig, (hload g).mp hg⟩
  · intro rights hrights
    refine happ id rights.get fun s hs r g hr hg => ?_
    obtain ⟨config, hconfig, hload⟩ := hl.right s r hr
    exact hrights s hs config g hconfig ((hload g).mp hg)

private theorem Lookup.Good.parent (hE : E.Lawful) (hl : l.Keyed E C w p) {id q : String}
    (hid : id ∈ p.ordered) (h : l.Good E C id) (hq : p.graph.parent id = some q) :
    l.Good E C q := by
  obtain ⟨_, _, k, input, _, _, _, _, hk, hinput, _⟩ := h.apply hE hl hid
  rw [Plan.parentKey, hq] at hk
  exact ⟨k, input, hk, hinput⟩

/-- A step that is not executed has a frame: either its own was cached, or one further down. -/
theorem good_of_skipped (hE : E.Lawful) (hp : p.Ordered) (hl : l.Keyed E C w p)
    {required : List String}
    (hr : Required p (fun id => (l.cachedFrames.get id).isSome) required) {id : String}
    (hid : id ∈ p.ordered) (hskip : id ∉ required ∨ (l.cachedFrames.get id).isSome) :
    l.Good E C id := by
  have hcached : ∀ x, (l.cachedFrames.get x).isSome → l.Good E C x := by
    intro x hx
    obtain ⟨f, hf⟩ := Option.isSome_iff_exists.mp hx
    obtain ⟨k, hk, hold⟩ := hl.frames x f hf
    exact ⟨k, f, hk, hold⟩
  -- from the end of the order: the steps that depend on a step come after it
  have hback : ∀ (rest done : List String), p.ordered = done ++ rest →
      ∀ x ∈ rest, x ∉ required → l.Good E C x := by
    intro rest
    induction rest with
    | nil => simp
    | cons a rest ih =>
      intro done hsplit x hx hnot
      have ih := ih (done ++ [a]) (by rw [hsplit]; simp)
      rcases List.mem_cons.mp hx with rfl | hx
      · have hmem : x ∈ p.ordered := by
          rw [hsplit]
          simp
        have hleaf : p.graph.dependentsOf x ≠ [] :=
          fun h => hnot (hr.leaf x (hp.perm.subset hmem) h)
        obtain ⟨c, hc⟩ := List.exists_mem_of_ne_nil _ hleaf
        rw [hp.dependents, List.mem_filter, decide_eq_true_eq] at hc
        have hc' := hp.perm.symm.subset hc.1
        refine Lookup.Good.parent hE hl hc' ?_ hc.2
        by_cases hcr : c ∈ required
        · refine hcached c ?_
          by_contra hun
          exact hnot (hr.parent c hcr (by simpa using hun) x hc.2)
        · exact ih c (child_after hp hsplit hc' hc.2) hcr
      · exact ih x hx hnot
  rcases hskip with hnot | hc
  · exact hback p.ordered [] rfl id hid hnot
  · exact hcached id hc

/-! ## Loaded sources -/

variable {c : PreviewCache K F}

theorem loadSource_eq (hc : c.Valid E C) {key : Option K} {config : SourceConfig ρ}
    (hkey : ∀ k, key = some k → ∀ f, Holds E C k f ↔ w.load config = .ok f) :
    loadSource w (some c) key config = w.load config := by
  unfold loadSource
  dsimp only [Option.bind]
  cases hg : c.get key with
  | none => rfl
  | some f =>
    obtain ⟨k, hk, hold⟩ := hc.get hg
    exact ((hkey k hk f).mp hold).symm

/-- The base frame is the loaded source wherever a step that is executed reads it. -/
theorem loadBase_eq (hE : E.Lawful) (hp : p.Ordered) (hl : l.Keyed E C w p) {required : List String}
    (hr : Required p (fun id => (l.cachedFrames.get id).isSome) required) (hc : c.Valid E C)
    (emptyFrame : F) :
    (∀ m, w.load l.config = .error m →
      loadBase w emptyFrame p (some c) l required = .error (.source m)) ∧
    ∀ base, w.load l.config = .ok base →
      ∃ base', loadBase w emptyFrame p (some c) l required = .ok base' ∧
        (p.ordered = [] → base' = base) ∧
        ∀ id ∈ required, p.graph.parent id = none → (l.cachedFrames.get id).isNone →
          base' = base := by
  unfold loadBase
  rw [loadSource_eq hc hl.source]
  constructor
  · intro m hm
    rw [hm]
    split
    · rfl
    case isFalse hcond =>
      exfalso
      rw [not_or] at hcond
      -- the first step has no parent, and it is skipped: so the source did load
      obtain ⟨a, rest, ha⟩ := List.exists_cons_of_ne_nil hcond.1
      have hmem : a ∈ p.ordered := by
        rw [ha]
        simp
      have hroot : p.graph.parent a = none := by
        rw [Option.eq_none_iff_forall_ne_some]
        intro q hq
        exact List.not_mem_nil (hp.topological [] a rest ha q hq)
      have hskip : a ∉ required ∨ (l.cachedFrames.get a).isSome := by
        by_contra hno
        rw [not_or, not_not] at hno
        exact hcond.2 ⟨a, hno.1, hroot, by simpa using hno.2⟩
      obtain ⟨_, _, q, input, _, _, _, _, hq, hinput, _⟩ :=
        (good_of_skipped hE hp hl hr hmem hskip).apply hE hl hmem
      rw [Plan.parentKey, hroot] at hq
      have hload := (hl.source q hq input).mp hinput
      rw [hm] at hload
      cases hload
  · intro base hbase
    rw [hbase]
    split
    · exact ⟨base, rfl, fun _ => rfl, fun _ _ _ _ => rfl⟩
    case isFalse hcond =>
      rw [not_or] at hcond
      refine ⟨emptyFrame, rfl, fun h => absurd h hcond.1, fun id hid hroot hun => ?_⟩
      exact absurd ⟨id, hid, hroot, hun⟩ hcond.2

omit [DecidableEq K] in
theorem mem_reads {id s : String} (hid : id ∈ p.ordered) (hb : p.backendStep E id = some b)
    (hs : s ∈ b.reads) : s ∈ p.reads E := by
  unfold Plan.reads
  rw [List.mem_flatMap]
  exact ⟨id, hid, by simpa [hb] using hs⟩

omit [DecidableEq K] in
private theorem exists_of_mem_reads {s : String} (hs : s ∈ p.reads E) :
    ∃ id ∈ p.ordered, ∃ b, p.backendStep E id = some b ∧ s ∈ b.reads := by
  unfold Plan.reads at hs
  rw [List.mem_flatMap] at hs
  obtain ⟨id, hid, hs⟩ := hs
  cases hb : p.backendStep E id with
  | none => simp [hb] at hs
  | some b => exact ⟨id, hid, b, hb, by simpa [hb] using hs⟩

omit [DecidableEq K] in
theorem mem_requiredSources {required : List String} {id s : String} (hid : id ∈ required)
    (hun : (l.cachedFrames.get id).isNone) (hb : p.backendStep E id = some b) (hs : s ∈ b.reads) :
    s ∈ requiredSources E p l required := by
  unfold requiredSources
  rw [List.mem_flatMap]
  exact ⟨id, List.mem_filter.mpr ⟨hid, hun⟩, by simpa [hb] using hs⟩

omit [StepParams π] in
private theorem loadRightSources_eq_fold {needed : List String} (hkey : ∀ e ∈ l.rightConfigs.rows,
      loadSource w (some c) ((l.rightKeys.get e.1).getD none) e.2 = w.load e.2) :
    loadRightSources w (some c) l needed =
      l.rightConfigs.rows.foldlM (evalSource w needed) .empty := by
  unfold loadRightSources
  have hfold : ∀ (rows : List (String × SourceConfig ρ)) (t : Table String F),
      (∀ e ∈ rows, e ∈ l.rightConfigs.rows) →
      rows.foldlM (fun t e =>
        if (some c).isSome ∧ e.1 ∉ needed then Except.ok t
        else match loadSource w (some c) ((l.rightKeys.get e.1).getD none) e.2 with
          | .ok frame => .ok (t.put e.1 (some frame))
          | .error message => .error (BuildError.additionalSource e.1 message)) t =
      rows.foldlM (evalSource w needed) t := by
    intro rows
    induction rows with
    | nil => exact fun t _ => rfl
    | cons e rest ih =>
      intro t hrows
      rw [List.foldlM_cons, List.foldlM_cons, hkey e (hrows e List.mem_cons_self)]
      have hstep : evalSource w needed t e =
          if (some c).isSome ∧ e.1 ∉ needed then Except.ok t
          else match w.load e.2 with
            | .ok frame => .ok (t.put e.1 (some frame))
            | .error message => .error (BuildError.additionalSource e.1 message) := by
        simp [evalSource]
      rw [hstep]
      congr 1
      exact funext fun u => ih u fun e' he' => hrows e' (List.mem_cons_of_mem _ he')
  exact hfold _ _ fun _ h => h

private theorem fold_evalSource {needed reads : List String}
    {all : List (String × SourceConfig ρ)} (hd : (all.map Prod.fst).Nodup)
    (hsub : needed ⊆ reads)
    (hskip : ∀ e ∈ all, e.1 ∈ reads → e.1 ∉ needed → ∃ g, w.load e.2 = .ok g)
    (rest : List (String × SourceConfig ρ)) :
    ∀ (done : List (String × SourceConfig ρ)) (t t' : Table String F), all = done ++ rest →
      (∀ s ∈ needed, t.get s = t'.get s) →
      (∀ e ∈ done, e.1 ∈ reads → ∃ g, w.load e.2 = .ok g ∧ t'.get e.1 = some g) →
      (∃ s m, rest.foldlM (evalSource w needed) t = .error (.additionalSource s m) ∧
        rest.foldlM (evalSource w reads) t' = .error (.additionalSource s m)) ∨
      ∃ u u', rest.foldlM (evalSource w needed) t = .ok u ∧
        rest.foldlM (evalSource w reads) t' = .ok u' ∧ (∀ s ∈ needed, u.get s = u'.get s) ∧
        ∀ e ∈ all, e.1 ∈ reads → ∃ g, w.load e.2 = .ok g ∧ u'.get e.1 = some g := by
  induction rest with
  | nil =>
    intro done t t' hall hagree hdone
    rw [List.append_nil] at hall
    exact .inr ⟨t, t', rfl, rfl, hagree, by rwa [hall]⟩
  | cons e rest ih =>
    intro done t t' hall hagree hdone
    have hmem : e ∈ all := by
      rw [hall]
      simp
    have hall' : all = (done ++ [e]) ++ rest := by
      rw [hall]
      simp
    have hne : ∀ e' ∈ done, e'.1 ≠ e.1 := by
      intro e' he' heq
      rw [hall, List.map_append, List.map_cons, List.nodup_middle, List.nodup_cons] at hd
      exact hd.1 (List.mem_append_left _ (heq ▸ List.mem_map_of_mem he'))
    have hput : ∀ g, w.load e.2 = .ok g → ∀ e' ∈ done ++ [e], e'.1 ∈ reads →
        ∃ g', w.load e'.2 = .ok g' ∧ (t'.put e.1 (some g)).get e'.1 = some g' := by
      intro g hg e' he' hread
      rcases List.mem_append.mp he' with he' | he'
      · rw [Table.get_put, if_neg (hne e' he')]
        exact hdone e' he' hread
      · rw [List.mem_singleton] at he'
        exact ⟨g, he' ▸ hg, by simp [he']⟩
    rw [List.foldlM_cons, List.foldlM_cons]
    unfold evalSource
    by_cases hB : e.1 ∈ reads
    · rw [if_neg (not_not.mpr hB)]
      by_cases hA : e.1 ∈ needed
      · rw [if_neg (not_not.mpr hA)]
        cases hload : w.load e.2 with
        | error m => exact .inl ⟨e.1, m, rfl, rfl⟩
        | ok g =>
          refine ih (done ++ [e]) (t.put e.1 (some g)) (t'.put e.1 (some g)) hall' ?_
            (hput g hload)
          intro s hs
          rw [Table.get_put, Table.get_put, hagree s hs]
      · rw [if_pos hA]
        obtain ⟨g, hload⟩ := hskip e hmem hB hA
        rw [hload]
        refine ih (done ++ [e]) t (t'.put e.1 (some g)) hall' ?_ (hput g hload)
        intro s hs
        have hse : s ≠ e.1 := fun h => hA (h ▸ hs)
        rw [Table.get_put, if_neg hse, hagree s hs]
    · rw [if_pos hB, if_pos fun h => hB (hsub h)]
      refine ih (done ++ [e]) t t' hall' hagree ?_
      intro e' he' hread
      rcases List.mem_append.mp he' with he' | he'
      · exact hdone e' he' hread
      · rw [List.mem_singleton] at he'
        exact absurd (he' ▸ hread) hB

/-- The sources that are not loaded would have loaded; those that are agree. -/
theorem loadRightSources_eq (hE : E.Lawful) (hp : p.Ordered) (hl : l.Keyed E C w p)
    {required : List String} (hr : Required p (fun id => (l.cachedFrames.get id).isSome) required)
    (hc : c.Valid E C) :
    (∃ s m, loadRightSources w (some c) l (requiredSources E p l required) =
        .error (.additionalSource s m) ∧
      evalSources E w p l.rightConfigs = .error (.additionalSource s m)) ∨
    ∃ t t', loadRightSources w (some c) l (requiredSources E p l required) = .ok t ∧
      evalSources E w p l.rightConfigs = .ok t' ∧
      (∀ s ∈ requiredSources E p l required, t.get s = t'.get s) ∧
      ∀ s ∈ p.reads E, ∀ config, l.rightConfigs.get s = some config →
        ∃ g, w.load config = .ok g ∧ t'.get s = some g := by
  have hsub : requiredSources E p l required ⊆ p.reads E := by
    intro s hs
    unfold requiredSources at hs
    rw [List.mem_flatMap] at hs
    obtain ⟨id, hid, hs⟩ := hs
    have hid' := hp.perm.symm.subset (hr.subset (List.mem_filter.mp hid).1)
    cases hb : p.backendStep E id with
    | none => simp [hb] at hs
    | some b => exact mem_reads hid' hb (by simpa [hb] using hs)
  have hskip : ∀ e ∈ l.rightConfigs.rows, e.1 ∈ p.reads E →
      e.1 ∉ requiredSources E p l required → ∃ g, w.load e.2 = .ok g := by
    intro e he hs hnot
    obtain ⟨id, hid, b, hb, hsb⟩ := exists_of_mem_reads hs
    have hgood : id ∉ required ∨ (l.cachedFrames.get id).isSome := by
      by_contra hno
      rw [not_or, not_not] at hno
      exact hnot (mem_requiredSources hno.1 (by simpa using hno.2) hb hsb)
    obtain ⟨_, b', _, _, _, _, _, hb', _, _, hreads, _⟩ :=
      (good_of_skipped hE hp hl hr hid hgood).apply hE hl hid
    rw [hb, Option.some_inj] at hb'
    subst hb'
    obtain ⟨config, g, hconfig, hload⟩ := hreads e.1 hsb
    rw [(l.rightConfigs.mem_rows_iff e.1 e.2).mp he, Option.some_inj] at hconfig
    exact ⟨g, hconfig ▸ hload⟩
  have hkey : ∀ e ∈ l.rightConfigs.rows,
      loadSource w (some c) ((l.rightKeys.get e.1).getD none) e.2 = w.load e.2 := by
    intro e he
    refine loadSource_eq hc fun k hk => ?_
    obtain ⟨config, hconfig, hload⟩ := hl.right e.1 k hk
    rw [(l.rightConfigs.mem_rows_iff e.1 e.2).mp he, Option.some_inj] at hconfig
    exact hconfig ▸ hload
  rw [loadRightSources_eq_fold hkey, evalSources]
  rcases fold_evalSource l.rightConfigs.nodup hsub hskip l.rightConfigs.rows [] .empty .empty
    rfl (fun _ _ => rfl) (by simp) with h | ⟨u, u', hu, hu', hagree, hdone⟩
  · exact .inl h
  · refine .inr ⟨u, u', hu, hu', hagree, fun s hs config hconfig => ?_⟩
    exact hdone (s, config) ((l.rightConfigs.mem_rows_iff s config).mpr hconfig) hs

/-! ## The loop over the steps -/

/-- The loop with its cache `c` and frames `T`, next to the evaluation of all steps with its
frames `R`, after the steps in `done`. -/
structure Together (E : Engine κ ρ π K F) (C : Contents ρ F) (l : Lookup ρ K F)
    (required done : List String) (c : PreviewCache K F) (T R : Table String F) : Prop where
  valid : c.Valid E C
  known : ∀ id ∈ done, ∃ f, R.get id = some f ∧
    ∀ k, (l.stepKeys.get id).getD none = some k → Holds E C k f
  agree : ∀ id ∈ done, id ∈ required → T.get id = R.get id
  cached : ∀ id f, l.cachedFrames.get id = some f → T.get id = some f

/-- What the loaded sources are to the steps: `base` and `rights` as all steps read them, `base'`
and `rights'` as far as executed steps do. -/
structure Loaded (E : Engine κ ρ π K F) (w : World ρ F) (p : Plan κ) (l : Lookup ρ K F)
    (required : List String) (base base' : F) (rights rights' : Table String F) : Prop where
  source : w.load l.config = .ok base
  base_eq : ∀ id ∈ required, p.graph.parent id = none → (l.cachedFrames.get id).isNone →
    base' = base
  rights_eq : ∀ s ∈ requiredSources E p l required, rights'.get s = rights.get s
  right : ∀ s ∈ p.reads E, ∀ config, l.rightConfigs.get s = some config →
    ∃ g, w.load config = .ok g ∧ rights.get s = some g

section Loop

variable {required done rest : List String} {base base' : F} {rights rights' : Table String F}
  {c : PreviewCache K F} {T R : Table String F} {id : String}

private theorem input_holds (hp : p.Ordered) (hl : l.Keyed E C w p)
    (hload : Loaded E w p l required base base' rights rights')
    (h : Together E C l required done c T R) (hsplit : p.ordered = done ++ id :: rest) :
    ∃ f, p.graph.input base R id = some f ∧
      ∀ q, p.parentKey l.sourceKey l.stepKeys id = some q → Holds E C q f := by
  unfold Graph.input Plan.parentKey
  cases hq : p.graph.parent id with
  | none => exact ⟨base, rfl, fun k hk => (hl.source k hk base).mpr hload.source⟩
  | some q => exact h.known q (hp.topological done id rest hsplit q hq)

private theorem result_holds (hE : E.Lawful) (hl : l.Keyed E C w p)
    (hload : Loaded E w p l required base base' rights rights') (hid : id ∈ p.ordered)
    {b : BackendStep π} (hb : p.backendStep E id = some b) {input f : F}
    (hinput : ∀ q, p.parentKey l.sourceKey l.stepKeys id = some q → Holds E C q input)
    (happ : E.apply b id input rights.get (b.rightSource.bind rights.get) = .ok f) :
    ∀ k, (l.stepKeys.get id).getD none = some k → Holds E C k f := by
  intro k hk
  obtain ⟨b', hb', hkey⟩ := hl.steps id hid k hk
  rw [hb, Option.some_inj] at hb'
  subst hb'
  obtain ⟨step, -, hconvert⟩ := convert_of_backendStep hb
  refine holds_apply hE hconvert hkey hinput ?_ happ
  intro s hs q hq
  obtain ⟨config, hconfig, hiff⟩ := hl.right s q hq
  obtain ⟨g, hg, hright⟩ := hload.right s (mem_reads hid hb hs) config hconfig
  exact ⟨g, hright, (hiff g).mpr hg⟩

omit [DecidableEq K] in
private theorem known_put {R : Table String F}
    (h : ∀ x ∈ done, ∃ f, R.get x = some f ∧
      ∀ k, (l.stepKeys.get x).getD none = some k → Holds E C k f) {f : F}
    (hf : ∀ k, (l.stepKeys.get id).getD none = some k → Holds E C k f) :
    ∀ x ∈ done ++ [id], ∃ g, (R.put id (some f)).get x = some g ∧
      ∀ k, (l.stepKeys.get x).getD none = some k → Holds E C k g := by
  intro x hx
  by_cases hxi : x = id
  · subst hxi
    exact ⟨f, by simp, hf⟩
  · obtain ⟨g, hg, hold⟩ := h x (by simpa [hxi] using hx)
    exact ⟨g, by simpa [hxi] using hg, hold⟩

private theorem together_skip (hE : E.Lawful) (hp : p.Ordered) (hl : l.Keyed E C w p)
    (hr : Required p (fun id => (l.cachedFrames.get id).isSome) required)
    (hload : Loaded E w p l required base base' rights rights')
    (h : Together E C l required done c T R) (hsplit : p.ordered = done ++ id :: rest)
    (hskip : id ∉ required ∨ (l.cachedFrames.get id).isSome) :
    ∃ R', evalStep E p base rights R id = .ok R' ∧
      Together E C l required (done ++ [id]) c T R' := by
  have hid : id ∈ p.ordered := by
    rw [hsplit]
    simp
  obtain ⟨input, hinput, hold⟩ := input_holds hp hl hload h hsplit
  obtain ⟨step, b, q, input', f, hstep, hconvert, hb, hq, hinput', hreads, happ⟩ :=
    (good_of_skipped hE hp hl hr hid hskip).apply hE hl hid
  have heq : input' = input := hinput'.unique hE (hold q hq)
  subst heq
  have happ := happ rights fun s hs config g hconfig hg => by
    obtain ⟨g', hg', hright⟩ := hload.right s (mem_reads hid hb hs) config hconfig
    rw [hright, ← Except.ok.inj (hg'.symm.trans hg)]
  have hf := result_holds hE hl hload hid hb hold happ
  refine ⟨R.put id (some f), ?_, h.valid, known_put h.known hf, ?_, h.cached⟩
  · unfold evalStep
    simp only [hstep, hconvert, hinput, happ]
  · intro x hx hxr
    by_cases hxi : x = id
    · subst hxi
      -- a required step is skipped only when it is cached
      obtain ⟨g, hg⟩ := Option.isSome_iff_exists.mp (hskip.resolve_left (not_not.mpr hxr))
      obtain ⟨k, hk, hgold⟩ := hl.frames x g hg
      rw [h.cached x g hg, hgold.unique hE (hf k hk)]
      simp
    · rw [Table.get_put, if_neg hxi]
      exact h.agree x (by simpa [hxi] using hx) hxr

private theorem together_run (hE : E.Lawful) (hp : p.Ordered) (hl : l.Keyed E C w p)
    (hr : Required p (fun id => (l.cachedFrames.get id).isSome) required)
    (hload : Loaded E w p l required base base' rights rights')
    (h : Together E C l required done c T R) (hsplit : p.ordered = done ++ id :: rest)
    (hreq : id ∈ required) (hun : (l.cachedFrames.get id).isNone) :
    (∃ e, buildStep E p l required base' rights' (some c, T) id = .error e ∧
      evalStep E p base rights R id = .error e ∧ ∀ x, e ≠ .keyError x) ∨
    ∃ c' T' R', buildStep E p l required base' rights' (some c, T) id = .ok (some c', T') ∧
      evalStep E p base rights R id = .ok R' ∧
      Together E C l required (done ++ [id]) c' T' R' := by
  have hid : id ∈ p.ordered := by
    rw [hsplit]
    simp
  have hsome : ∃ step, p.steps.get id = some step := by
    obtain ⟨⟨_, step⟩, hm, rfl⟩ := List.mem_map.mp (hp.perm.subset hid)
    exact ⟨step, (p.steps.mem_rows_iff _ _).mp hm⟩
  obtain ⟨step, hstep⟩ := hsome
  obtain ⟨input, hinput, hold⟩ := input_holds hp hl hload h hsplit
  have hcond : ¬ (id ∉ required ∨ (l.cachedFrames.get id).isSome = true) := by
    rw [not_or, not_not]
    exact ⟨hreq, by simpa using hun⟩
  unfold buildStep evalStep
  rw [if_neg hcond]
  simp only [hstep]
  cases hconvert : E.convert step.body with
  | error m => exact .inl ⟨_, rfl, rfl, by simp⟩
  | ok b =>
    have hb : p.backendStep E id = some b := by
      simp [Plan.backendStep, hstep, hconvert, Except.toOption]
    have hinput' : p.graph.input base' T id = some input := by
      unfold Graph.input at hinput ⊢
      cases hq : p.graph.parent id with
      | none =>
        rw [hq] at hinput
        rw [hload.base_eq id hreq hq hun]
        exact hinput
      | some q =>
        rw [hq] at hinput
        have hdone := hp.topological done id rest hsplit q hq
        exact (h.agree q hdone (hr.parent id hreq (by simpa using hun) q hq)).trans hinput
    have happ := hE.reads b id input rights'.get rights.get fun s hs =>
      hload.rights_eq s (mem_requiredSources hreq hun hb hs)
    simp only [hinput, hinput', happ]
    cases hres : E.apply b id input rights.get (b.rightSource.bind rights.get) with
    | error m => exact .inl ⟨_, rfl, rfl, by simp⟩
    | ok result =>
      have hf := result_holds hE hl hload hid hb hold hres
      have hnext : ∀ c' : PreviewCache K F, c'.Valid E C →
          Together E C l required (done ++ [id]) c' (T.put id (some result))
            (R.put id (some result)) := by
        intro c' hc'
        refine ⟨hc', known_put h.known hf, fun x hx hxr => ?_, fun x g hg => ?_⟩
        · rw [Table.get_put, Table.get_put]
          by_cases hxi : x = id
          · rw [if_pos hxi, if_pos hxi]
          · rw [if_neg hxi, if_neg hxi]
            exact h.agree x (by simpa [hxi] using hx) hxr
        · have hxi : x ≠ id := by
            rintro rfl
            simp [hg] at hun
          rw [Table.get_put, if_neg hxi]
          exact h.cached x g hg
      refine .inr ?_
      dsimp only
      split
      · obtain ⟨hvalid, hframe⟩ := h.valid.materialize hE hf id
        exact ⟨_, _, _, rfl, rfl, by rw [hframe]; exact hnext _ hvalid⟩
      · exact ⟨_, _, _, rfl, rfl, hnext c h.valid⟩

private theorem together_loop (hE : E.Lawful) (hp : p.Ordered) (hl : l.Keyed E C w p)
    (hr : Required p (fun id => (l.cachedFrames.get id).isSome) required)
    (hload : Loaded E w p l required base base' rights rights') (rest : List String) :
    ∀ (done : List String) (c : PreviewCache K F) (T R : Table String F),
      p.ordered = done ++ rest → Together E C l required done c T R →
      (∃ e c', buildLoop E p l required base' rights' rest (some c, T) = (some c', .error e) ∧
        rest.foldlM (evalStep E p base rights) R = .error e ∧ c'.Valid E C ∧
        ∀ x, e ≠ .keyError x) ∨
      ∃ c' T' R', buildLoop E p l required base' rights' rest (some c, T) = (some c', .ok T') ∧
        rest.foldlM (evalStep E p base rights) R = .ok R' ∧
        Together E C l required p.ordered c' T' R' := by
  induction rest with
  | nil =>
    intro done c T R hsplit h
    rw [List.append_nil] at hsplit
    exact .inr ⟨c, T, R, rfl, rfl, hsplit ▸ h⟩
  | cons id rest ih =>
    intro done c T R hsplit h
    have hsplit' : p.ordered = (done ++ [id]) ++ rest := by
      rw [hsplit]
      simp
    rw [List.foldlM_cons]
    unfold buildLoop
    by_cases hskip : id ∉ required ∨ (l.cachedFrames.get id).isSome
    · obtain ⟨R', hR', h'⟩ := together_skip hE hp hl hr hload h hsplit hskip
      have hstep : buildStep E p l required base' rights' (some c, T) id = .ok (some c, T) := by
        unfold buildStep
        rw [if_pos hskip]
      rw [hR', hstep]
      exact ih (done ++ [id]) c T R' hsplit' h'
    · rw [not_or, not_not] at hskip
      rcases together_run hE hp hl hr hload h hsplit hskip.1 (by simpa using hskip.2) with
        ⟨e, hb, he, hne⟩ | ⟨c', T', R', hb, hR', h'⟩
      · rw [hb, he]
        exact .inl ⟨e, c, rfl, rfl, h.valid, hne⟩
      · rw [hb, hR']
        exact ih (done ++ [id]) c' T' R' hsplit' h'

end Loop

/-- The key of the result. -/
def Lookup.resultKey (l : Lookup ρ K F) (p : Plan κ) : Option K :=
  match p.ordered.getLast? with
  | Option.none => l.sourceKey
  | some result => (l.stepKeys.get result).getD Option.none

private theorem last_required (hp : p.Ordered) {cached : String → Bool} {required : List String}
    (hr : Required p cached required) {result : String}
    (hlast : p.ordered.getLast? = some result) : result ∈ p.ordered ∧ result ∈ required := by
  have hmem := List.mem_of_getLast? hlast
  refine ⟨hmem, hr.leaf result (hp.perm.subset hmem) ?_⟩
  rw [hp.dependents, List.filter_eq_nil_iff]
  intro c hc hparent
  rw [decide_eq_true_eq] at hparent
  obtain ⟨front, hfront⟩ := List.getLast?_eq_some_iff.mp hlast
  exact List.not_mem_nil (child_after hp hfront (hp.perm.symm.subset hc) hparent)

/-- Building with a valid cache has the outcome of evaluating all steps, never fails to find the
frame of a parent, and leaves a valid cache. -/
theorem buildFrames_eq (hE : E.Lawful) (hp : p.Ordered) (hl : l.Keyed E C w p) (hc : c.Valid E C)
    (emptyFrame : F) :
    ∃ c', c'.Valid E C ∧ buildFrames E w emptyFrame p (some c) l =
        (some c', (evalPlan E w p l.config l.rightConfigs).map fun f => (f, l.resultKey p)) ∧
      (∀ f, evalPlan E w p l.config l.rightConfigs = .ok f →
        ∀ k, l.resultKey p = some k → Holds E C k f) ∧
      ∀ x, evalPlan E w p l.config l.rightConfigs ≠ .error (.keyError x) := by
  have hr := requiredSteps_spec p (fun id => (l.cachedFrames.get id).isSome) hp.closed
  obtain ⟨hfail, hok⟩ := loadBase_eq hE hp hl hr hc emptyFrame
  unfold buildFrames evalPlan Lookup.resultKey
  dsimp only
  cases hsource : w.load l.config with
  | error m =>
    rw [hfail m hsource]
    exact ⟨c, hc, rfl, by simp, by simp⟩
  | ok base =>
    obtain ⟨base', hbase, hnil, hroot⟩ := hok base hsource
    rw [hbase]
    dsimp only
    rcases loadRightSources_eq hE hp hl hr hc with
      ⟨s, m, ht, ht'⟩ | ⟨rights', rights, ht, ht', hagree, hright⟩
    · rw [ht, ht']
      exact ⟨c, hc, rfl, by simp, by simp⟩
    · rw [ht, ht']
      dsimp only
      cases hlast : p.ordered.getLast? with
      | none =>
        rw [List.getLast?_eq_none_iff] at hlast
        rw [hnil hlast]
        refine ⟨c, hc, rfl, ?_, by simp⟩
        intro f hf k hk
        rw [← Except.ok.inj hf]
        exact (hl.source k hk base).mpr hsource
      | some result =>
        dsimp only
        have hload : Loaded E w p l
            (requiredSteps p fun id => (l.cachedFrames.get id).isSome) base base' rights
            rights' := ⟨hsource, hroot, hagree, hright⟩
        obtain ⟨hmem, hreq⟩ := last_required hp hr hlast
        rcases together_loop hE hp hl hr hload p.ordered [] c l.cachedFrames .empty rfl
            ⟨hc, by simp, by simp, fun _ _ h => h⟩ with
          ⟨e, c', hb, he, hc', hne⟩ | ⟨c', T, R, hb, hR, h⟩
        · rw [hb, he]
          exact ⟨c', hc', rfl, by simp, fun x h => hne x (Except.error.inj h)⟩
        · rw [hb, hR]
          dsimp only
          obtain ⟨f, hf, hold⟩ := h.known result hmem
          rw [h.agree result hmem hreq, hf]
          refine ⟨c', h.valid, rfl, ?_, by simp⟩
          intro f' hf' k hk
          rw [← Except.ok.inj hf']
          exact hold k hk

end DataForge.Pipeline
