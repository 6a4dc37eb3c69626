import DataForge.Pipeline.InlinedChain
import DataForge.Pipeline.Uncached

/-!
# An inlined tab means what it means when run directly

An inlined tab folds its applied steps in list order and passes the right source of a join only
if its frame is at hand; a direct run follows the dependencies and loads every source the steps
name. The two agree, for all operations, exactly when the applied steps form a chain in list
order, every right source is the output of a tab upstream, and every other source is an output
or a datasource of the pipeline.
-/

namespace DataForge.Pipeline

open ReadCommitted Relation

variable {κ δ π F : Type} [StepSources κ]

/-- An inlined tab means what it means when run directly. -/
def MeansSame (P : AnalysisPipeline κ δ) (tab : Tab κ δ) : Prop :=
  ∀ (π F : Type) [StepParams π] (S : Shared κ δ π F),
    (S.analysisFrame P tab.id).toOption = (S.directFrame P tab).toOption

/-- The steps form a chain in list order: each reads the step before it. -/
def Linear : Option String → List (Step κ) → Prop
  | _, [] => True
  | previous, s :: rest => s.dependsOn = previous.toList ∧ Linear (some s.id) rest

/-- When inlining is safe. -/
structure InlineSafe (P : AnalysisPipeline κ δ) (tab : Tab κ δ) : Prop where
  unique : (ids (applySteps tab.steps)).Nodup
  linear : Linear none (applySteps tab.steps)
  right : ∀ s ∈ applySteps tab.steps, ∀ r, StepSources.rightSource s.body = some r → r ≠ "" →
    ∃ u ∈ (P.resolveTabChain tab.id).dropLast, u.outputId = r
  sources : ∀ s ∈ applySteps tab.steps, ∀ r ∈ StepSources.sources s.body, r ≠ "" →
    ∃ u ∈ P.tabs, u.outputId = r ∨ u.source.id = r

/-! ## Loading into a table -/

private theorem foldlM_put {β ε : Type} (key : β → String) (skip : β → Bool)
    (g : β → Except ε F) (all : List β)
    (hg : ∀ a ∈ all, ∀ b ∈ all, key a = key b → g a = g b) (l : List β) (hl : l ⊆ all)
    {f : Table String F → β → Except ε (Table String F)}
    (hf : ∀ t b, b ∈ all → f t b = if skip b then .ok t else
      match g b with
      | .ok frame => .ok (t.put (key b) (some frame))
      | .error e => .error e) :
    ∀ t : Table String F,
      (∃ e, l.foldlM f t = .error e ∧ ∃ b ∈ l, skip b = false ∧ ∃ e', g b = .error e') ∨
      ∃ t', l.foldlM f t = .ok t' ∧
        (∀ b ∈ l, skip b = false → ∃ frame, g b = .ok frame ∧ t'.get (key b) = some frame) ∧
        ∀ s, (∀ b ∈ l, skip b = false → key b ≠ s) → t'.get s = t.get s := by
  induction l with
  | nil => exact fun t => .inr ⟨t, rfl, by simp, fun _ _ => rfl⟩
  | cons b rest ih =>
    intro t
    have hb := hl List.mem_cons_self
    have ih := ih fun x hx => hl (List.mem_cons_of_mem _ hx)
    rw [List.foldlM_cons, hf t b hb]
    cases hs : skip b with
    | true =>
      rcases ih t with ⟨e, he, b', hb', hs', hg'⟩ | ⟨t', ht', h1, h2⟩
      · exact .inl ⟨e, he, b', List.mem_cons_of_mem _ hb', hs', hg'⟩
      · refine .inr ⟨t', ht', ?_,
          fun s hne => h2 s fun b' hb' => hne b' (List.mem_cons_of_mem _ hb')⟩
        intro b' hb' hs'
        rcases List.mem_cons.mp hb' with rfl | hb'
        · rw [hs] at hs'
          cases hs'
        · exact h1 b' hb' hs'
    | false =>
      rw [if_neg (by simp)]
      cases hgb : g b with
      | error e => exact .inl ⟨e, rfl, b, List.mem_cons_self, hs, e, hgb⟩
      | ok frame =>
        dsimp only [bind, Except.bind]
        rcases ih (t.put (key b) (some frame)) with ⟨e, he, b', hb', hs', hg'⟩ | ⟨t', ht', h1, h2⟩
        · exact .inl ⟨e, he, b', List.mem_cons_of_mem _ hb', hs', hg'⟩
        · refine .inr ⟨t', ht', ?_, ?_⟩
          · intro b' hb' hs'
            rcases List.mem_cons.mp hb' with rfl | hb'
            · refine ⟨frame, hgb, ?_⟩
              by_cases hin : ∃ c ∈ rest, skip c = false ∧ key c = key b'
              · obtain ⟨c, hc, hsc, hkc⟩ := hin
                obtain ⟨frame', hframe', hget⟩ := h1 c hc hsc
                rw [hg c (hl (List.mem_cons_of_mem _ hc)) b' hb hkc, hgb] at hframe'
                rw [← hkc, hget, ← Except.ok.inj hframe']
              · rw [h2 (key b') fun c hc hsc hkc => hin ⟨c, hc, hsc, hkc⟩]
                simp
            · exact h1 b' hb' hs'
          · intro s hne
            rw [h2 s fun b' hb' => hne b' (List.mem_cons_of_mem _ hb'), Table.get_put,
              if_neg fun h => hne b List.mem_cons_self hs h.symm]

namespace AnalysisPipeline

variable [StepParams π] {P : AnalysisPipeline κ δ} {S : Shared κ δ π F}

omit [StepParams π] in
private theorem collect_spec (load : Ref δ → Except String F) (steps : List (Step κ))
    (cache : Table String F) :
    (∃ e, P.collectAnalysisSources load steps cache = .error e ∧
      ∃ s ∈ steps.flatMap Step.sourceIds, s ≠ "" ∧ ∃ e', sourceValue P load cache s = .error e') ∨
    ∃ t, P.collectAnalysisSources load steps cache = .ok t ∧
      (∀ s ∈ steps.flatMap Step.sourceIds, s ≠ "" →
        ∃ frame, sourceValue P load cache s = .ok frame ∧ t.get s = some frame) ∧
      ∀ s, (s ∈ steps.flatMap Step.sourceIds → s = "") → t.get s = none := by
  have hput := foldlM_put (fun s : String => s) (fun s => s = "") (sourceValue P load cache)
    (steps.flatMap Step.sourceIds)
    (by rintro a _ b _ rfl; rfl) _ (List.Subset.refl _)
    (f := P.collectSource (m := Except String) load cache) (by
      intro t s _
      unfold collectSource sourceValue
      by_cases hs : s = ""
      · simp [hs, pure, Except.pure]
      · simp only [hs, if_false, decide_false, Bool.false_eq_true]
        cases cache.get s with
        | some frame => rfl
        | none =>
          cases P.sourceRef s with
          | none => rfl
          | some ref =>
            dsimp only [bind, Except.bind]
            cases load ref <;> rfl) .empty
  unfold collectAnalysisSources
  rcases hput with ⟨e, he, s, hs, hskip, e', he'⟩ | ⟨t, ht, h1, h2⟩
  · exact .inl ⟨e, he, s, hs, by simpa using hskip, e', he'⟩
  · refine .inr ⟨t, ht, fun s hs hne => h1 s hs (by simpa using hne), fun s hs => ?_⟩
    rw [h2 s]
    · rfl
    · rintro b hb hskip rfl
      simp [hs hb] at hskip

/-- Adding the configuration of one source. -/
private def addDatasource (P : AnalysisPipeline κ δ) (found : String → Bool)
    (t : Table String (SourceConfig (Ref δ))) (id : String) :
    Table String (SourceConfig (Ref δ)) :=
  if (t.get id).isSome then t
  else
    match P.stepSourceRef found id with
    | none => t
    | some ref => t.put id (some { kind := .other, rest := ref })

omit [StepParams π] in
theorem get_additionalDatasources (found : String → Bool) (steps : List (Step κ)) (s : String) :
    (P.additionalDatasources found steps).get s =
      if s ∈ (applySteps steps).flatMap Step.sourceIds then
        (P.stepSourceRef found s).map fun ref => { kind := .other, rest := ref }
      else none := by
  have hfold : ∀ (l : List String) (t : Table String (SourceConfig (Ref δ))),
      (∀ c, t.get s = some c → (P.stepSourceRef found s).map (fun ref =>
        { kind := .other, rest := ref }) = some c) →
      (l.foldl (P.addDatasource found) t).get s =
        (t.get s).or (if s ∈ l then (P.stepSourceRef found s).map fun ref =>
          { kind := .other, rest := ref } else none) := by
    intro l
    induction l with
    | nil => simp
    | cons id rest ih =>
      intro t ht
      rw [List.foldl_cons]
      by_cases hid : s = id
      · subst hid
        cases hget : t.get s with
        | some c =>
          rw [addDatasource, if_pos (by simp [hget]), ih t ht, hget]
          rfl
        | none =>
          rw [addDatasource, if_neg (by simp [hget])]
          cases hsource : P.stepSourceRef found s with
          | none =>
            dsimp only
            rw [ih t ht, hget, hsource]
            simp
          | some ref =>
            dsimp only
            rw [ih _ (by simp [hsource])]
            simp
      · have hkeep : (P.addDatasource found t id).get s = t.get s := by
          unfold addDatasource
          split
          · rfl
          · split
            · rfl
            · simp [hid]
        rw [ih _ (by rw [hkeep]; exact ht), hkeep]
        simp [hid]
  refine (hfold _ .empty (by simp)).trans ?_
  simp

/-- The load of an additional source, with the error that the build reports. -/
private def loadAdditional (P : AnalysisPipeline κ δ) (S : Shared κ δ π F)
    (e : String × SourceConfig (Ref δ)) : Except BuildError F :=
  match S.loadRef P e.2.rest with
  | .ok frame => .ok frame
  | .error message => .error (.additionalSource e.1 message)

/-- One round of `loadAll`. -/
private def putAdditional (P : AnalysisPipeline κ δ) (S : Shared κ δ π F) (t : Table String F)
    (e : String × SourceConfig (Ref δ)) : Except BuildError (Table String F) :=
  match (refWorld (S.loadRef P)).load e.2 with
  | .ok frame => .ok (t.put e.1 (some frame))
  | .error message => .error (.additionalSource e.1 message)

private theorem loadAll_spec (P : AnalysisPipeline κ δ) (S : Shared κ δ π F)
    (steps : List (Step κ)) :
    (∃ e, loadAll (refWorld (S.loadRef P))
        (P.additionalDatasources (fun id => (S.outside id).isSome) steps) = .error e ∧
      ∃ s ∈ (applySteps steps).flatMap Step.sourceIds, ∃ ref,
        P.stepSourceRef (fun id => (S.outside id).isSome) s = some ref ∧
        ∃ e', S.loadRef P ref = .error e') ∨
    ∃ t, loadAll (refWorld (S.loadRef P))
        (P.additionalDatasources (fun id => (S.outside id).isSome) steps) = .ok t ∧
      (∀ s ∈ (applySteps steps).flatMap Step.sourceIds, ∀ ref,
        P.stepSourceRef (fun id => (S.outside id).isSome) s = some ref →
        ∃ frame, S.loadRef P ref = .ok frame ∧ t.get s = some frame) ∧
      ∀ s, (s ∈ (applySteps steps).flatMap Step.sourceIds →
        P.stepSourceRef (fun id => (S.outside id).isSome) s = none) → t.get s = none := by
  have hrow : ∀ e ∈ (P.additionalDatasources (fun id => (S.outside id).isSome) steps).rows,
      e.1 ∈ (applySteps steps).flatMap Step.sourceIds ∧
      P.stepSourceRef (fun id => (S.outside id).isSome) e.1 = some e.2.rest := by
    intro e he
    have hget := (Table.mem_rows_iff _ e.1 e.2).mp he
    rw [get_additionalDatasources] at hget
    split at hget
    case isTrue hs =>
      obtain ⟨ref, href, he2⟩ := Option.map_eq_some_iff.mp hget
      exact ⟨hs, by rw [href, ← he2]⟩
    case isFalse => cases hget
  have hmem : ∀ s ∈ (applySteps steps).flatMap Step.sourceIds, ∀ ref,
      P.stepSourceRef (fun id => (S.outside id).isSome) s = some ref →
      (s, ({ kind := .other, rest := ref } : SourceConfig (Ref δ))) ∈
        (P.additionalDatasources (fun id => (S.outside id).isSome) steps).rows := by
    intro s hs ref href
    rw [Table.mem_rows_iff, get_additionalDatasources, if_pos hs, href]
    rfl
  have hput := foldlM_put (fun e : String × SourceConfig (Ref δ) => e.1) (fun _ => false)
    (loadAdditional P S)
    (P.additionalDatasources (fun id => (S.outside id).isSome) steps).rows (by
      intro a ha b hb hab
      have h1 := (hrow a ha).2
      rw [hab, (hrow b hb).2, Option.some_inj] at h1
      unfold loadAdditional
      rw [h1, hab]) _ (List.Subset.refl _)
    (f := putAdditional P S) (by
      intro t e _
      unfold putAdditional refWorld loadAdditional
      dsimp only
      rw [if_neg (by simp)]
      cases S.loadRef P e.2.rest <;> rfl) .empty
  unfold loadAll
  rcases hput with ⟨e, he, b, hb, -, e', he'⟩ | ⟨t, ht, h1, h2⟩
  · obtain ⟨hs, href⟩ := hrow b hb
    refine .inl ⟨e, he, b.1, hs, _, href, ?_⟩
    unfold loadAdditional at he'
    cases hload : S.loadRef P b.2.rest with
    | error m => exact ⟨m, rfl⟩
    | ok frame =>
      rw [hload] at he'
      cases he'
  · refine .inr ⟨t, ht, fun s hs ref href => ?_, fun s hs => ?_⟩
    · obtain ⟨frame, hframe, hget⟩ := h1 _ (hmem s hs ref href) rfl
      unfold loadAdditional at hframe
      dsimp only at hframe hget
      refine ⟨frame, ?_, hget⟩
      cases hload : S.loadRef P ref with
      | error m =>
        rw [hload] at hframe
        cases hframe
      | ok frame' =>
        rw [hload] at hframe
        exact congrArg _ (Except.ok.inj hframe)
    · rw [h2 s]
      · rfl
      · rintro b hb - rfl
        obtain ⟨hs', href⟩ := hrow b hb
        rw [hs hs'] at href
        cases href

/-! ## The steps of a chain -/

omit [StepSources κ] in
private theorem linear_append {l : List (Step κ)} {s : Step κ} {rest : List (Step κ)} :
    ∀ {previous : Option String}, Linear previous (l ++ s :: rest) →
      s.dependsOn = ((l.getLast?.map Step.id).or previous).toList := by
  induction l with
  | nil => exact fun h => h.1
  | cons a l ih =>
    intro previous h
    rw [ih h.2]
    cases l with
    | nil => rfl
    | cons b l =>
      rw [List.getLast?_cons_cons]
      cases hlast : (b :: l).getLast? with
      | none => simp at hlast
      | some x => rfl

omit [StepSources κ] in
private theorem linear_concat {l : List (Step κ)} {s : Step κ} {previous : Option String}
    (h : Linear previous l) (hs : s.dependsOn = ((l.getLast?.map Step.id).or previous).toList) :
    Linear previous (l ++ [s]) := by
  induction l generalizing previous with
  | nil => exact ⟨hs, trivial⟩
  | cons a l ih =>
    refine ⟨h.1, ih h.2 ?_⟩
    rw [hs]
    cases l with
    | nil => rfl
    | cons b l =>
      rw [List.getLast?_cons_cons]
      cases hlast : (b :: l).getLast? with
      | none => simp at hlast
      | some x => rfl

omit [StepSources κ] in
private theorem ordered_of_linear {steps : List (Step κ)} {p : Plan κ}
    (hplan : planOf steps = .ok p) (hu : (ids (applySteps steps)).Nodup)
    (hl : Linear none (applySteps steps)) : p.ordered = ids (applySteps steps) := by
  have hp := planOf_ordered hplan
  obtain ⟨hsome, hsteps⟩ := planOf_steps hplan
  have hmem : ∀ id, id ∈ p.ordered ↔ id ∈ ids (applySteps steps) := by
    intro id
    rw [hp.perm.mem_iff]
    constructor
    · intro hid
      obtain ⟨⟨_, s⟩, hm, rfl⟩ := List.mem_map.mp hid
      obtain ⟨hs, hid, -⟩ := hsteps _ s ((p.steps.mem_rows_iff _ s).mp hm)
      exact List.mem_map.mpr ⟨s, hs, hid⟩
    · intro hid
      obtain ⟨s, hs, rfl⟩ := List.mem_map.mp hid
      obtain ⟨s', hs'⟩ := Option.isSome_iff_exists.mp (hsome s hs)
      exact List.mem_map.mpr ⟨(s.id, s'), (p.steps.mem_rows_iff _ _).mpr hs', rfl⟩
  have hperm : p.ordered.Perm (ids (applySteps steps)) :=
    (List.perm_ext_iff_of_nodup hp.nodup hu).mpr hmem
  have hget : ∀ s ∈ applySteps steps, p.graph.parent s.id = s.dependsOn.head? := by
    intro s hs
    obtain ⟨s', hs'⟩ := Option.isSome_iff_exists.mp (hsome s hs)
    obtain ⟨hm, hid, -, hdep⟩ := hsteps _ s' hs'
    have heq : s' = s := List.inj_on_of_nodup_map hu hm hs hid
    rw [heq] at hdep
    rw [hdep]
    cases p.graph.parent s.id <;> rfl
  have hfront : ∀ (after before : List (Step κ)) (l : List String),
      applySteps steps = before ++ after → p.ordered = ids before ++ l → l = ids after := by
    intro after
    induction after with
    | nil =>
      intro before l hsplit hordered
      have hlen := hperm.length_eq
      rw [hordered, hsplit] at hlen
      simpa [ids] using hlen
    | cons s after ih =>
      intro before l hsplit hordered
      cases l with
      | nil =>
        have hlen := hperm.length_eq
        rw [hordered, hsplit] at hlen
        simp [ids] at hlen
      | cons y l =>
        have hnodup := hp.nodup
        rw [hordered] at hnodup
        have hy : y ∈ ids (applySteps steps) := (hmem y).mp (by rw [hordered]; simp)
        obtain ⟨s', hs', rfl⟩ := List.mem_map.mp hy
        have hs : s' = s := by
          rw [hsplit] at hs'
          rcases List.mem_append.mp hs' with hb | hb
          · have hn := (List.nodup_middle.mp hnodup).notMem
            exact absurd (List.mem_append_left _ (List.mem_map_of_mem hb)) hn
          · rcases List.mem_cons.mp hb with rfl | hb
            · rfl
            · -- the step before `s'` in the list would have to stand before it in the order
              exfalso
              obtain ⟨m, d, rfl⟩ := List.append_of_mem hb
              have hall : applySteps steps = (before ++ s :: m) ++ s' :: d := by
                rw [hsplit]
                simp
              have hpar := hget s' (by rw [hall]; simp)
              rw [hall] at hl
              have hdep := linear_append hl
              obtain ⟨q, hq⟩ : ∃ q, (before ++ s :: m).getLast? = some q :=
                Option.isSome_iff_exists.mp (by simp)
              have hqm : q ∈ s :: m := by
                rw [List.getLast?_append_of_ne_nil _ (by simp)] at hq
                exact List.mem_of_getLast? hq
              rw [hdep, hq] at hpar
              have hbefore := hp.topological (ids before) s'.id l hordered q.id hpar
              rw [hsplit, ids, List.map_append] at hu
              refine (List.nodup_append.mp hu).2.2 _ hbefore q.id ?_ rfl
              rcases List.mem_cons.mp hqm with rfl | hqm
              · simp
              · exact List.mem_map.mpr ⟨q, by simp [hqm], rfl⟩
        subst hs
        have hrest := ih (before ++ [s']) l (by rw [hsplit]; simp) (by
          rw [hordered]
          simp [ids])
        rw [hrest]
        rfl
  exact hfront (applySteps steps) [] p.ordered rfl rfl

/-! ## The two folds -/

private theorem fold_linear {E : Engine κ (Ref δ) π Unit F} {p : Plan κ} {base : F}
    {additional rights : Table String F} (hagree : additional.get = rights.get)
    (hconvert : ∀ c b, E.convert c = .ok b → b.rightSource = StepSources.rightSource c)
    (rest : List (Step κ)) :
    ∀ (previous : Option String) (cache : Table String F) (frame : F) (frames : Table String F),
      Linear previous rest →
      (∀ s ∈ rest, p.steps.get s.id = some s ∧ s.id ≠ "" ∧
        s.dependsOn = (p.graph.parent s.id).toList) →
      (∀ s ∈ rest, ∀ r, StepSources.rightSource s.body = some r →
        cache.get r = rights.get r ∧ ∀ s' ∈ rest, s'.id ≠ r) →
      (previous.elim (some base) frames.get = some frame) →
      (∃ e e', rest.foldlM (inlineStep E additional) (cache, frame) = .error e ∧
        (ids rest).foldlM (evalStep E p base rights) frames = .error e') ∨
      ∃ c frames', rest.foldlM (inlineStep E additional) (cache, frame) = .ok c ∧
        (ids rest).foldlM (evalStep E p base rights) frames = .ok frames' ∧
        ((rest.getLast?.map Step.id).or previous).elim (some base) frames'.get = some c.2 := by
  induction rest with
  | nil =>
    intro previous cache frame frames _ _ _ hin
    exact .inr ⟨(cache, frame), frames, rfl, rfl, hin⟩
  | cons s rest ih =>
    intro previous cache frame frames hl hsteps hright hin
    obtain ⟨hget, hne, hdep⟩ := hsteps s List.mem_cons_self
    have hpar : p.graph.parent s.id = previous := by
      have h := congrArg List.head? (hdep.symm.trans hl.1)
      simpa only [Option.head?_toList] using h
    have hinput : p.graph.input base frames s.id = some frame := by
      unfold Graph.input
      rw [hpar]
      cases previous <;> exact hin
    rw [List.foldlM_cons, ids, List.map_cons, List.foldlM_cons, inlineStep, evalStep, stepKeyOf,
      if_neg hne, hget]
    dsimp only
    cases hc : E.convert s.body with
    | error m => exact .inl ⟨_, _, rfl, rfl⟩
    | ok b =>
      dsimp only
      have hrs : b.rightSource.bind cache.get = b.rightSource.bind rights.get := by
        rw [hconvert s.body b hc]
        cases hr : StepSources.rightSource s.body with
        | none => rfl
        | some r => exact (hright s List.mem_cons_self r hr).1
      rw [hinput, hrs, hagree]
      dsimp only
      cases happ : E.apply b s.id frame rights.get (b.rightSource.bind rights.get) with
      | error m => exact .inl ⟨_, _, rfl, rfl⟩
      | ok result =>
        dsimp only [bind, Except.bind]
        have h := ih (some s.id) (cache.put s.id (some result)) result
          (frames.put s.id (some result)) hl.2
          (fun s' hs' => hsteps s' (List.mem_cons_of_mem _ hs')) (by
            intro s' hs' r hr
            obtain ⟨hcache, hapart⟩ := hright s' (List.mem_cons_of_mem _ hs') r hr
            refine ⟨?_, fun s'' hs'' => hapart s'' (List.mem_cons_of_mem _ hs'')⟩
            rw [Table.get_put, if_neg fun h => hapart s List.mem_cons_self h.symm]
            exact hcache) (by simp)
        rcases h with h | ⟨c, frames', h1, h2, h3⟩
        · exact .inl h
        · refine .inr ⟨c, frames', h1, h2, ?_⟩
          rw [← h3]
          cases rest with
          | nil => rfl
          | cons s' rest =>
            rw [List.getLast?_cons_cons]
            cases hlast : (s' :: rest).getLast? with
            | none => simp at hlast
            | some x => rfl

section Tab

variable (h : P.Apart) (hA : P.Acyclic) {a : Tab κ δ} (ha : a ∈ P.tabs)
include h ha

omit [StepParams π] in
private theorem apart_of_named : ∀ s ∈ (applySteps a.steps).flatMap Step.sourceIds,
    ∀ u ∈ P.tabs, ∀ st ∈ u.steps, st.id ≠ s := by
  rintro s hs u hu st hst rfl
  obtain ⟨s', hs', hmem⟩ := List.mem_flatMap.mp hs
  obtain ⟨s'', hs'', -, hbody⟩ := mem_applySteps hs'
  refine h.step_source u hu st hst a ha s'' hs'' ?_
  rw [Step.sourceIds, ← hbody]
  exact hmem

omit [StepParams π] in
include hA in
private theorem upstream_subset : ∀ u ∈ P.upstream a, u ∈ P.tabs := by
  intro u hu
  refine (mem_resolveTabChain h hA ha u ?_).1
  rw [resolveTabChain_eq h hA ha]
  exact List.mem_append_left _ hu

omit ha in
private theorem sources_empty (S : Shared κ δ π F) :
    P.stepSourceRef (fun id => (S.outside id).isSome) "" = none := by
  have hout : P.outputTab "" = none := by
    rw [Option.eq_none_iff_forall_ne_some]
    intro u hu
    obtain ⟨hm, hid⟩ := outputTab_some hu
    exact h.output_ne u hm hid
  have hpay : P.datasourcePayload "" = none := by
    unfold datasourcePayload
    rw [Option.map_eq_none_iff, List.find?_eq_none]
    intro u hu
    simpa using h.source_ne u hu
  unfold stepSourceRef
  rw [hout, hpay]
  simp [S.outside_empty]

include hA in
private theorem sources_agree {cache : Table String F}
    (hc : Cached P (S.analysisFrame P) (P.upstream a) cache)
    (hres : ∀ s ∈ (applySteps a.steps).flatMap Step.sourceIds, s ≠ "" →
      (P.sourceRef s).isSome) :
    (∃ e e', P.collectAnalysisSources (inlineLoad P S) (applySteps a.steps) cache = .error e ∧
      loadAll (refWorld (S.loadRef P)) (P.additionalDatasources (fun id => (S.outside id).isSome)
        a.steps) = .error e') ∨
    ∃ t t', P.collectAnalysisSources (inlineLoad P S) (applySteps a.steps) cache = .ok t ∧
      loadAll (refWorld (S.loadRef P)) (P.additionalDatasources (fun id => (S.outside id).isSome)
        a.steps) = .ok t' ∧ t.get = t'.get ∧ t.get "" = none ∧
      ∀ s ∈ (applySteps a.steps).flatMap Step.sourceIds, s ≠ "" →
        ∃ frame, sourceValue P (inlineLoad P S) cache s = .ok frame ∧ t.get s = some frame := by
  have hsame : ∀ s ∈ (applySteps a.steps).flatMap Step.sourceIds, s ≠ "" →
      ∃ ref, P.stepSourceRef (fun id => (S.outside id).isSome) s = some ref ∧
        sourceValue P (inlineLoad P S) cache s = S.loadRef P ref := by
    intro s hs hne
    have hv := sourceValue_eq h S (upstream_subset h hA ha) hc (apart_of_named h ha s hs)
      fun id => (S.outside id).isSome
    obtain ⟨ref, href⟩ := Option.isSome_iff_exists.mp (hres s hs hne)
    rw [href] at hv
    exact hv
  have hempty := sources_empty h S
  rcases collect_spec (inlineLoad P S) (applySteps a.steps) cache with
    ⟨e, he, s, hs, hne, e', he'⟩ | ⟨t, ht, h1, h2⟩
  · -- a source that fails to load fails for both
    rcases loadAll_spec P S a.steps with ⟨d, hd, -⟩ | ⟨t', -, h1', -⟩
    · exact .inl ⟨e, d, he, hd⟩
    · obtain ⟨ref, href, hv⟩ := hsame s hs hne
      obtain ⟨frame, hframe, -⟩ := h1' s hs ref href
      rw [hv, hframe] at he'
      cases he'
  · rcases loadAll_spec P S a.steps with ⟨d, -, s, hs, ref, href, e', he'⟩ | ⟨t', ht', h1', h2'⟩
    · have hne : s ≠ "" := by
        rintro rfl
        rw [hempty] at href
        cases href
      obtain ⟨ref', href', hv⟩ := hsame s hs hne
      rw [href, Option.some_inj] at href'
      obtain ⟨frame, hframe, -⟩ := h1 s hs hne
      rw [hv, ← href', he'] at hframe
      cases hframe
    · refine .inr ⟨t, t', ht, ht', funext fun s => ?_, h2 "" fun _ => rfl, h1⟩
      by_cases hs : s ∈ (applySteps a.steps).flatMap Step.sourceIds ∧ s ≠ ""
      · obtain ⟨ref, href, hv⟩ := hsame s hs.1 hs.2
        obtain ⟨frame, hframe, hget⟩ := h1 s hs.1 hs.2
        obtain ⟨frame', hframe', hget'⟩ := h1' s hs.1 ref href
        rw [hv, hframe'] at hframe
        rw [hget, hget', Except.ok.inj hframe]
      · rw [not_and, not_not] at hs
        rw [h2 s hs, h2' s fun hm => hs hm ▸ hempty]

include hA in
private theorem meansSame_of_safe {p : Plan κ} (hplan : planOf a.steps = .ok p)
    (hsafe : InlineSafe P a) : MeansSame P a := by
  intro π F _ S
  have hordered := ordered_of_linear hplan hsafe.unique hsafe.linear
  obtain ⟨hsome, hsteps⟩ := planOf_steps hplan
  have hbase := base_eq h hA S ha
  have hchainEq : P.resolveTabChain a.id = P.upstream a ++ [a] := resolveTabChain_eq h hA ha
  rw [analysisFrame_eq h hA S ha]
  unfold Shared.directFrame
  rw [buildPipelineDetails_none hplan]
  unfold evalAll
  dsimp only [refWorld]
  cases hchain : P.buildChain (inlineLoad P S) S.engine (P.upstream a) with
  | error e =>
    rw [hchain] at hbase
    dsimp only at hbase ⊢
    rw [hbase]
    rfl
  | ok c =>
    rw [hchain] at hbase
    dsimp only at hbase ⊢
    have hcached := cached_upstream h hA S hchain
    have hres : ∀ s ∈ (applySteps a.steps).flatMap Step.sourceIds, s ≠ "" →
        (P.sourceRef s).isSome := by
      intro s hs hne
      have hknown : ∃ u ∈ P.tabs, u.outputId = s ∨ u.source.id = s := by
        obtain ⟨st, hst, hmem⟩ := List.mem_flatMap.mp hs
        rcases List.mem_append.mp hmem with hr | hr
        · obtain ⟨hr, -⟩ := List.mem_filter.mp hr
          obtain ⟨u, hu, rfl⟩ := hsafe.right st hst s (Option.mem_toList.mp hr) hne
          rw [hchainEq, List.dropLast_concat] at hu
          exact ⟨u, upstream_subset h hA ha u hu, .inl rfl⟩
        · exact hsafe.sources st hst s hr hne
      rw [sourceRef_eq h s]
      cases hout : P.outputTab s with
      | some u => rfl
      | none =>
        obtain ⟨u, hu, rfl | rfl⟩ := hknown
        · rw [outputTab_eq h hu] at hout
          cases hout
        · dsimp only
          rw [Option.isSome_map, datasourcePayload, Option.isSome_map, List.find?_isSome]
          exact ⟨u, hu, by simp⟩
    rw [buildTabPipeline, if_neg (h.source_ne a ha), hbase]
    cases hload : S.loadRef P (P.datasourceRef a.source) with
    | error e => rfl
    | ok base =>
      dsimp only [bind, Except.bind]
      rcases sources_agree h hA ha hcached hres with
        ⟨e, e', he, he'⟩ | ⟨t, t', ht, ht', hagree, hnone, hvalue⟩
      · rw [he]
        dsimp only
        unfold refWorld at he'
        rw [he']
        rfl
      · rw [ht]
        dsimp only
        unfold refWorld at ht'
        rw [ht']
        dsimp only
        have hfold := fold_linear (p := p) hagree S.right (applySteps a.steps) none
          c.1 base .empty hsafe.linear ?_ ?_ rfl
        · rw [hordered]
          rcases hfold with ⟨e, e', he, he'⟩ | ⟨r, frames, hr, hframes, hlast⟩
          · rw [he, he']
            rfl
          · rw [hr, hframes]
            dsimp only [raise, pure, Except.pure]
            unfold resultFrame
            rw [hordered, ids, List.getLast?_map]
            cases hl : (applySteps a.steps).getLast? with
            | none =>
              rw [hl] at hlast
              cases hlast
              rfl
            | some st =>
              rw [hl] at hlast
              dsimp only [Option.map, Option.or, Option.elim] at hlast ⊢
              rw [hlast]
              rfl
        · intro st hst
          obtain ⟨st', hst'⟩ := Option.isSome_iff_exists.mp (hsome st hst)
          obtain ⟨hm, hid, hne, hdep⟩ := hsteps _ st' hst'
          have heq : st' = st := List.inj_on_of_nodup_map hsafe.unique hm hst hid
          exact ⟨heq ▸ hst', heq ▸ hne, heq ▸ hdep⟩
        · intro st hst r hr
          rw [← hagree]
          by_cases hre : r = ""
          · subst hre
            refine ⟨?_, fun st' hst' => ?_⟩
            · rw [hnone, Option.eq_none_iff_forall_ne_some]
              intro frame hget
              rcases hcached.key "" frame hget with ⟨u, hu, he⟩ | ⟨u, hu, st', hst', he⟩
              · exact h.output_ne u (upstream_subset h hA ha u hu) he
              · exact h.step_ne u hu st' hst' he
            · obtain ⟨st'', hst'', hid, -⟩ := mem_applySteps hst'
              exact hid ▸ h.step_ne a ha st'' hst''
          · have hnamed : r ∈ (applySteps a.steps).flatMap Step.sourceIds := by
              refine List.mem_flatMap.mpr ⟨st, hst, List.mem_append_left _ ?_⟩
              simp [hr, hre]
            obtain ⟨u, hu, rfl⟩ := hsafe.right st hst r hr hre
            rw [hchainEq, List.dropLast_concat] at hu
            obtain ⟨frame, -, hget⟩ := hcached.output u hu
            obtain ⟨frame', hframe', hget'⟩ := hvalue _ hnamed hre
            rw [sourceValue, hget] at hframe'
            refine ⟨by rw [hget, hget', Except.ok.inj hframe'], fun st' hst' => ?_⟩
            obtain ⟨st'', hst'', hid, -⟩ := mem_applySteps hst'
            exact hid ▸ apart_of_named h ha _ hnamed a ha st'' hst''

end Tab

end AnalysisPipeline

/-! ## Recorded runs -/

/-- A configuration as its own parameters. -/
structure Raw (κ : Type) where
  body : κ

instance : StepParams (Raw κ) where
  rightSource c := StepSources.rightSource c.body
  sources c := some (StepSources.sources c.body)
  cacheEnabled _ := true
  literalColumns _ := true

/-- Operations that record the steps applied, and whether each was given a right frame. -/
def recording (κ δ : Type) [StepSources κ] : Shared κ δ (Raw κ) (List (String × Bool)) where
  engine := {
    convert := fun c => .ok ⟨"", ⟨c⟩⟩
    apply := fun _ id frame _ right => .ok (frame ++ [(id, right.isSome)])
    collects := fun _ => true
    localPath := fun _ => none
    hash := fun _ => none }
  right c b h := by
    cases h
    rfl
  load _ := .ok []
  outside id := if id = "" then none else some (.ok [])
  outside_empty := rfl
  emptyFrame := []

/-- A tab runs: with operations and loads that all succeed, a direct run yields a frame. -/
def Runs (P : AnalysisPipeline κ δ) (tab : Tab κ δ) : Prop :=
  ((recording κ δ).directFrame P tab).isOk = true

namespace AnalysisPipeline

variable {P : AnalysisPipeline κ δ}

/-- What a step records. -/
private def event (at' : String → Option (List (String × Bool))) (s : Step κ) : String × Bool :=
  (s.id, ((StepSources.rightSource s.body).bind at').isSome)

private theorem inline_record (additional : Table String (List (String × Bool)))
    (rest : List (Step κ)) :
    ∀ (cache : Table String (List (String × Bool))) (frame : List (String × Bool)),
      (∀ s ∈ rest, s.id ≠ "") →
      (∀ s ∈ rest, ∀ r, StepSources.rightSource s.body = some r → ∀ s' ∈ rest, s'.id ≠ r) →
      ∃ c, rest.foldlM (inlineStep (recording κ δ).engine additional) (cache, frame) = .ok c ∧
        c.2 = frame ++ rest.map (event cache.get) := by
  induction rest with
  | nil => exact fun cache frame _ _ => ⟨(cache, frame), rfl, (List.append_nil _).symm⟩
  | cons s rest ih =>
    intro cache frame hne hapart
    have hstep : inlineStep (recording κ δ).engine additional (cache, frame) s =
        .ok (cache.put s.id (some (frame ++ [event cache.get s])),
          frame ++ [event cache.get s]) := by
      unfold inlineStep stepKeyOf
      rw [if_neg (hne s List.mem_cons_self)]
      rfl
    obtain ⟨c, hc, hframe⟩ := ih (cache.put s.id (some (frame ++ [event cache.get s])))
      (frame ++ [event cache.get s]) (fun s' hs' => hne s' (List.mem_cons_of_mem _ hs'))
      (fun s' hs' r hr s'' hs'' =>
        hapart s' (List.mem_cons_of_mem _ hs') r hr s'' (List.mem_cons_of_mem _ hs''))
    refine ⟨c, ?_, ?_⟩
    · rw [List.foldlM_cons, hstep]
      exact hc
    · -- no right source is the id of a step
      have hkeep : rest.map (event
          (cache.put s.id (some (frame ++ [event cache.get s]))).get) =
          rest.map (event cache.get) := by
        refine List.map_congr_left fun s' hs' => ?_
        unfold event
        cases hr : StepSources.rightSource s'.body with
        | none => rfl
        | some r =>
          have hne' := hapart s' (List.mem_cons_of_mem _ hs') r hr s List.mem_cons_self
          dsimp only [Option.bind]
          rw [Table.get_put, if_neg fun h => hne' h.symm]
      rw [hframe, hkeep, List.map_cons, List.append_assoc]
      rfl

/-- The steps from the source to a step. -/
private inductive Path (p : Plan κ) : List (Step κ) → String → Prop where
  | root {id s} : p.steps.get id = some s → p.graph.parent id = none → Path p [s] id
  | step {id s parent l} : p.steps.get id = some s → p.graph.parent id = some parent →
    Path p l parent → Path p (l ++ [s]) id

private theorem eval_record {p : Plan κ} (hp : p.Ordered) {base : List (String × Bool)}
    {rights : Table String (List (String × Bool))}
    (hid : ∀ id s, p.steps.get id = some s → s.id = id) (rest : List String) :
    ∀ (done : List String) (frames frames' : Table String (List (String × Bool))),
      p.ordered = done ++ rest →
      (∀ id ∈ done, ∃ path, Path p path id ∧
        frames.get id = some (base ++ path.map (event rights.get))) →
      rest.foldlM (evalStep (recording κ δ).engine p base rights) frames = .ok frames' →
      ∀ id ∈ p.ordered, ∃ path, Path p path id ∧
        frames'.get id = some (base ++ path.map (event rights.get)) := by
  induction rest with
  | nil =>
    intro done frames frames' hsplit hdone h
    cases h
    rw [List.append_nil] at hsplit
    exact hsplit ▸ hdone
  | cons a rest ih =>
    intro done frames frames' hsplit hdone h
    rw [List.foldlM_cons] at h
    cases hstep : evalStep (recording κ δ).engine p base rights frames a with
    | error e =>
      rw [hstep] at h
      cases h
    | ok next =>
      rw [hstep] at h
      refine ih (done ++ [a]) next frames' (by rw [hsplit]; simp) ?_ h
      unfold evalStep at hstep
      cases hs : p.steps.get a with
      | none =>
        rw [hs] at hstep
        cases hstep
      | some s =>
        rw [hs] at hstep
        dsimp only [recording] at hstep
        have hpath : ∃ path frame, Path p path a ∧ p.graph.input base frames a = some frame ∧
            frame ++ [event rights.get s] = base ++ path.map (event rights.get) := by
          unfold Graph.input
          cases hq : p.graph.parent a with
          | none => exact ⟨[s], base, .root hs hq, rfl, rfl⟩
          | some q =>
            obtain ⟨path, hpath, hget⟩ := hdone q (hp.topological done a rest hsplit q hq)
            exact ⟨path ++ [s], _, .step hs hq hpath, hget, by simp⟩
        obtain ⟨path, frame, hpath, hinput, hframe⟩ := hpath
        rw [hinput] at hstep
        cases hstep
        intro x hx
        by_cases hxa : x = a
        · subst hxa
          refine ⟨path, hpath, ?_⟩
          rw [Table.get_put, if_pos rfl, ← hframe, event, hid x s hs]
          rfl
        · obtain ⟨path', hpath', hget⟩ := hdone x (by simpa [hxa] using hx)
          exact ⟨path', hpath', by simpa [hxa] using hget⟩

omit [StepSources κ] in
private theorem path_linear {steps : List (Step κ)} {p : Plan κ} (hplan : planOf steps = .ok p)
    {path : List (Step κ)} {id : String} (h : Path p path id) :
    Linear none path ∧ path.getLast?.map Step.id = some id ∧
      (∀ s ∈ path, s ∈ applySteps steps) ∧ ∀ l1 l2, p.ordered = l1 ++ id :: l2 →
        (ids path).Nodup ∧ ∀ x ∈ ids path, x ∈ l1 ++ [id] := by
  have hp := planOf_ordered hplan
  obtain ⟨-, hsteps⟩ := planOf_steps hplan
  induction h with
  | @root id s hs hq =>
    obtain ⟨hm, hid, -, hdep⟩ := hsteps id s hs
    refine ⟨⟨by rw [hdep, hq], trivial⟩, by simp [hid], by simpa using hm,
      fun l1 l2 _ => ⟨by simp [ids], ?_⟩⟩
    simp [ids, hid]
  | @step id s parent l hs hq hl ih =>
    obtain ⟨hm, hid, -, hdep⟩ := hsteps id s hs
    obtain ⟨hlin, hlast, hin, hmem⟩ := ih
    refine ⟨linear_concat hlin (by rw [hdep, hq, hlast]; rfl), by simp [hid], ?_, ?_⟩
    · intro s' hs'
      rcases List.mem_append.mp hs' with hs' | hs'
      · exact hin s' hs'
      · rw [List.mem_singleton] at hs'
        exact hs' ▸ hm
    intro l1 l2 hsplit
    obtain ⟨m1, m2, hm⟩ := List.append_of_mem (hp.topological l1 id l2 hsplit parent hq)
    obtain ⟨hnodup, hsub⟩ := hmem m1 (m2 ++ id :: l2) (by rw [hsplit, hm]; simp)
    have hbefore : ∀ x ∈ ids l, x ∈ l1 := by
      intro x hx
      have hx' := hsub x hx
      rw [hm]
      simp only [List.mem_append, List.mem_cons] at hx' ⊢
      tauto
    have hnot : id ∉ l1 := by
      have hn := hp.nodup
      rw [hsplit] at hn
      exact (List.nodup_middle.mp hn).notMem ∘ List.mem_append_left _
    have hids : ids (l ++ [s]) = ids l ++ [id] := by simp [ids, hid]
    rw [hids]
    refine ⟨List.nodup_append.mpr ⟨hnodup, List.nodup_singleton _, ?_⟩, ?_⟩
    · rintro x hx y hy rfl
      rw [List.mem_singleton] at hy
      exact hnot (hy ▸ hbefore x hx)
    · intro x hx
      rcases List.mem_append.mp hx with hx | hx
      · exact List.mem_append_left _ (hbefore x hx)
      · exact List.mem_append_right _ hx

omit [StepSources κ] in
private theorem eq_of_ids {l l' : List (Step κ)} (hd : (ids l').Nodup) (hsub : ∀ s ∈ l, s ∈ l')
    (h : ids l = ids l') : l = l' := by
  have hlen : l.length = l'.length := by
    simpa [ids] using congrArg List.length h
  refine List.ext_getElem hlen fun i h1 h2 => ?_
  refine List.inj_on_of_nodup_map hd (hsub _ (List.getElem_mem h1)) (List.getElem_mem h2) ?_
  have hi := congrArg (·[i]?) h
  simpa [ids, h1, h2] using hi

omit [StepSources κ] in
private theorem evalAll_ok [StepParams π] {E : Engine κ (Ref δ) π Unit F} {w : World (Ref δ) F}
    {p : Plan κ} {config : SourceConfig (Ref δ)} {additional : Table String (SourceConfig (Ref δ))}
    {frame : F} (h : evalAll E w p config additional = .ok frame) :
    ∃ base rights frames, w.load config = .ok base ∧ loadAll w additional = .ok rights ∧
      p.ordered.foldlM (evalStep E p base rights) .empty = .ok frames ∧
      resultFrame p base frames = .ok frame := by
  unfold evalAll at h
  cases hb : w.load config with
  | error e =>
    rw [hb] at h
    cases h
  | ok base =>
    rw [hb] at h
    cases hr : loadAll w additional with
    | error e =>
      rw [hr] at h
      cases h
    | ok rights =>
      rw [hr] at h
      dsimp only at h
      cases hf : p.ordered.foldlM (evalStep E p base rights) .empty with
      | error e =>
        rw [hf] at h
        cases h
      | ok frames =>
        rw [hf] at h
        exact ⟨base, rights, frames, rfl, rfl, hf, h⟩

private theorem buildTabPipeline_ok [StepParams π] {E : Engine κ (Ref δ) π Unit F}
    {load : Ref δ → Except String F} {a : Tab κ δ} (hne : a.source.id ≠ "")
    {cache : Table String F} {r : Table String F × F}
    (h : P.buildTabPipeline load E cache a = .ok r) :
    ∃ base t c, baseFrame load cache a.source = .ok base ∧
      P.collectAnalysisSources load (applySteps a.steps) cache = .ok t ∧
      (applySteps a.steps).foldlM (inlineStep E t) (cache, base) = .ok c ∧ c.2 = r.2 := by
  rw [buildTabPipeline, if_neg hne] at h
  cases hb : baseFrame load cache a.source with
  | error e =>
    rw [hb] at h
    cases h
  | ok base =>
    rw [hb] at h
    cases ht : P.collectAnalysisSources load (applySteps a.steps) cache with
    | error e =>
      rw [ht] at h
      cases h
    | ok t =>
      rw [ht] at h
      dsimp only [bind, Except.bind] at h
      cases hc : (applySteps a.steps).foldlM (inlineStep E t) (cache, base) with
      | error e =>
        rw [hc] at h
        cases h
      | ok c =>
        rw [hc] at h
        cases h
        exact ⟨base, t, c, rfl, rfl, hc, rfl⟩

private theorem records_agree (h : P.Apart) (hA : P.Acyclic) {a : Tab κ δ} (ha : a ∈ P.tabs)
    (hrun : Runs P a) (hsame : MeansSame P a) :
    ∃ (p : Plan κ) (base frame : List (String × Bool))
      (cache t rights frames : Table String (List (String × Bool)))
      (c : Table String (List (String × Bool)) × List (String × Bool)),
      planOf a.steps = .ok p ∧
      Cached P ((recording κ δ).analysisFrame P) (P.upstream a) cache ∧
      P.collectAnalysisSources (inlineLoad P (recording κ δ)) (applySteps a.steps) cache = .ok t ∧
      (applySteps a.steps).foldlM (inlineStep (recording κ δ).engine t) (cache, base) = .ok c ∧
      c.2 = frame ∧
      loadAll (refWorld ((recording κ δ).loadRef P)) (P.additionalDatasources
        (fun id => ((recording κ δ).outside id).isSome) a.steps) = .ok rights ∧
      p.ordered.foldlM (evalStep (recording κ δ).engine p base rights) .empty = .ok frames ∧
      resultFrame p base frames = .ok frame := by
  have hinline := hsame _ _ (recording κ δ)
  have hbase := base_eq h hA (recording κ δ) ha
  unfold Runs at hrun
  cases hdirect : (recording κ δ).directFrame P a with
  | error e =>
    rw [hdirect] at hrun
    cases hrun
  | ok frame =>
    rw [hdirect] at hinline
    cases hframe : (recording κ δ).analysisFrame P a.id with
    | error e =>
      rw [hframe] at hinline
      cases hinline
    | ok frame' =>
      rw [hframe] at hinline
      have hff : frame' = frame := Option.some_inj.mp hinline
      subst hff
      unfold Shared.directFrame at hdirect
      cases hplan : planOf a.steps with
      | error e =>
        unfold buildPipelineDetails at hdirect
        rw [hplan] at hdirect
        cases hdirect
      | ok p =>
        rw [buildPipelineDetails_none hplan] at hdirect
        obtain ⟨base, rights, frames, hload, hrights, hframes, hresult⟩ := evalAll_ok hdirect
        rw [analysisFrame_eq h hA _ ha] at hframe
        cases hchain : P.buildChain (inlineLoad P (recording κ δ)) (recording κ δ).engine
            (P.upstream a) with
        | error e =>
          rw [hchain] at hframe
          cases hframe
        | ok c =>
          rw [hchain] at hframe hbase
          dsimp only at hframe hbase
          cases htab : P.buildTabPipeline (inlineLoad P (recording κ δ)) (recording κ δ).engine
              c.1 a with
          | error e =>
            rw [htab] at hframe
            cases hframe
          | ok r =>
            rw [htab] at hframe
            cases hframe
            obtain ⟨base', t, c', hbase', ht, hc', heq⟩ :=
              buildTabPipeline_ok (h.source_ne a ha) htab
            have hb : base' = base :=
              Except.ok.inj (hbase'.symm.trans (hbase.trans hload))
            subst hb
            exact ⟨p, base', r.2, c.1, t, rights, frames, c', rfl,
              cached_upstream h hA (recording κ δ) hchain, ht, hc', heq, hrights, hframes,
              hresult⟩

/-- A tab that means the same inlined, for all operations, is safe. -/
private theorem safe_of_meansSame (h : P.Apart) (hA : P.Acyclic) {a : Tab κ δ} (ha : a ∈ P.tabs)
    (hrun : Runs P a) (hsame : MeansSame P a) : InlineSafe P a := by
  obtain ⟨p, base, frame, cache, t, rights, frames, c, hplan, hcached, ht, hc, hcf, hrights,
    hframes, hresult⟩ := records_agree h hA ha hrun hsame
  have hp := planOf_ordered hplan
  obtain ⟨hsome, hsteps⟩ := planOf_steps hplan
  have hne : ∀ s ∈ applySteps a.steps, s.id ≠ "" := by
    intro s hs
    obtain ⟨s', hs', hid, -⟩ := mem_applySteps hs
    exact hid ▸ h.step_ne a ha s' hs'
  have hnamed : ∀ s ∈ applySteps a.steps, ∀ r ∈ s.sourceIds,
      r ∈ (applySteps a.steps).flatMap Step.sourceIds :=
    fun s hs r hr => List.mem_flatMap.mpr ⟨s, hs, hr⟩
  have hrightNamed : ∀ s : Step κ, ∀ r, StepSources.rightSource s.body = some r → r ≠ "" →
      r ∈ s.sourceIds := by
    intro s r hr hre
    refine List.mem_append_left _ ?_
    simp [hr, hre]
  have hapart : ∀ s ∈ applySteps a.steps, ∀ r, StepSources.rightSource s.body = some r →
      ∀ s' ∈ applySteps a.steps, s'.id ≠ r := by
    intro s hs r hr s' hs'
    by_cases hre : r = ""
    · exact hre ▸ hne s' hs'
    · obtain ⟨s'', hs'', hid, -⟩ := mem_applySteps hs'
      exact hid ▸ apart_of_named h ha r (hnamed s hs r (hrightNamed s r hr hre)) a ha s'' hs''
  obtain ⟨c', hc', hrecord⟩ := inline_record t (applySteps a.steps) cache base
    hne hapart
  rw [hc] at hc'
  cases hc'
  -- the recorded events: along the path, and in list order
  have hpath : ∃ path, Linear none path ∧ (ids path).Nodup ∧ (∀ s ∈ path, s ∈ applySteps a.steps) ∧
      frame = base ++ path.map (event rights.get) := by
    unfold resultFrame at hresult
    cases hlast : p.ordered.getLast? with
    | none =>
      rw [hlast] at hresult
      cases hresult
      exact ⟨[], trivial, List.nodup_nil, by simp, by simp⟩
    | some result =>
      rw [hlast] at hresult
      dsimp only at hresult
      obtain ⟨path, hpath, hget⟩ := eval_record hp (fun id s hs => (hsteps id s hs).2.1)
        p.ordered [] .empty frames rfl (by simp) hframes result (List.mem_of_getLast? hlast)
      rw [hget] at hresult
      obtain ⟨hlin, -, hin, hall⟩ := path_linear hplan hpath
      obtain ⟨l1, hl1⟩ := List.getLast?_eq_some_iff.mp hlast
      exact ⟨path, hlin, (hall l1 [] hl1).1, hin, (Except.ok.inj hresult).symm⟩
  obtain ⟨path, hlin, hnodup, hin, hpathFrame⟩ := hpath
  have hevents : (applySteps a.steps).map (event cache.get) = path.map (event rights.get) := by
    rw [hrecord, hpathFrame] at hcf
    exact List.append_cancel_left hcf
  have hids : ids path = ids (applySteps a.steps) := by
    have hfst := congrArg (List.map Prod.fst) hevents
    rw [List.map_map, List.map_map] at hfst
    exact hfst.symm
  have hu : (ids (applySteps a.steps)).Nodup := hids ▸ hnodup
  have heq : path = applySteps a.steps := eq_of_ids hu hin hids
  subst heq
  have hevent : ∀ s ∈ applySteps a.steps, event cache.get s = event rights.get s :=
    List.map_inj_left.mp hevents
  have hsource : ∀ s ∈ applySteps a.steps, ∀ r ∈ s.sourceIds, r ≠ "" →
      ∃ ref, P.stepSourceRef (fun id => ((recording κ δ).outside id).isSome) r = some ref := by
    intro s hs r hr hre
    unfold stepSourceRef
    split
    · exact ⟨_, rfl⟩
    · split
      · exact ⟨_, rfl⟩
      · rw [if_pos (by simp [recording, hre])]
        exact ⟨_, rfl⟩
  refine ⟨hu, hlin, ?_, ?_⟩
  · intro s hs r hr hre
    have hnr := hrightNamed s r hr hre
    obtain ⟨ref, href⟩ := hsource s hs r hnr hre
    rcases loadAll_spec P (recording κ δ) a.steps with ⟨e, he, -⟩ | ⟨rights', hrights', hget, -⟩
    · rw [hrights] at he
      cases he
    · rw [hrights] at hrights'
      cases hrights'
      -- a direct run gives the step its right frame, so the inlined one has it at hand
      obtain ⟨frame', -, hright⟩ := hget r (hnamed s hs r hnr) ref href
      have hflag := congrArg Prod.snd (hevent s hs)
      unfold event at hflag
      rw [hr] at hflag
      dsimp only [Option.bind] at hflag
      rw [hright] at hflag
      obtain ⟨frame'', hcache⟩ := Option.isSome_iff_exists.mp hflag
      rcases hcached.key r frame'' hcache with ⟨u, hu, he⟩ | ⟨u, hu, st, hst, he⟩
      · rw [resolveTabChain_eq h hA ha, List.dropLast_concat]
        exact ⟨u, hu, he⟩
      · exact absurd he (apart_of_named h ha r (hnamed s hs r hnr) u hu st hst)
  · intro s hs r hr hre
    have hnr : r ∈ s.sourceIds := List.mem_append_right _ hr
    rcases collect_spec (P := P) (inlineLoad P (recording κ δ)) (applySteps a.steps) cache with
      ⟨e, he, -⟩ | ⟨t', ht', hvalue, -⟩
    · rw [ht] at he
      cases he
    · obtain ⟨frame', hframe', -⟩ := hvalue r (hnamed s hs r hnr) hre
      have hv := sourceValue_eq h (recording κ δ) (upstream_subset h hA ha) hcached
        (apart_of_named h ha r (hnamed s hs r hnr)) fun _ => false
      cases href : P.sourceRef r with
      | none =>
        rw [href] at hv
        rw [sourceValue, hv, href] at hframe'
        cases hframe'
      | some ref =>
        rw [sourceRef_eq h r] at href
        cases hout : P.outputTab r with
        | some u =>
          obtain ⟨hm, hid⟩ := outputTab_some hout
          exact ⟨u, hm, .inl hid⟩
        | none =>
          rw [hout] at href
          obtain ⟨source, hsource, -⟩ := Option.map_eq_some_iff.mp href
          unfold datasourcePayload at hsource
          obtain ⟨u, hfind, -⟩ := Option.map_eq_some_iff.mp hsource
          exact ⟨u, List.mem_of_find?_eq_some hfind, .inr (by simpa using List.find?_some hfind)⟩

end AnalysisPipeline

/-- A configuration that only names sources. -/
structure Labelled where
  right : Option String := none
  sources : List String := []
deriving DecidableEq

instance : StepSources Labelled := ⟨Labelled.right, Labelled.sources⟩

/-- A step of a chain. -/
def namedStep (id : String) (dependsOn : List String) (body : Labelled) : Step Labelled :=
  ⟨id, dependsOn, none, body⟩

/-- A tab that reads another and joins it with itself. -/
def joinedTab : Tab Labelled Unit :=
  ⟨"joined", ⟨"base output", some "base", ()⟩, "joined output",
    [namedStep "filter" [] {}, namedStep "join" ["filter"] { right := some "base output" }]⟩

/-- A tab without steps, and the one that joins it with itself. -/
def selfJoin : AnalysisPipeline Labelled Unit :=
  ⟨"analysis", [⟨"base", ⟨"rows", none, ()⟩, "base output", []⟩, joinedTab]⟩

theorem AnalysisPipeline.acyclic_of_rank {P : AnalysisPipeline κ δ} (rank : String → ℕ)
    (hrank : ∀ t, ∀ r ∈ P.refs t, rank r < rank t) : P.Acyclic :=
  Subrelation.wf (fun {r t} hr => hrank t r hr) (InvImage.wf rank Nat.lt_wfRel.wf)

theorem AnalysisPipeline.mem_refs {P : AnalysisPipeline κ δ} {t r : String} (hr : r ∈ P.refs t) :
    ∃ a ∈ P.tabs, r ∈ P.tabRefs a := by
  unfold refs at hr
  split at hr
  case h_1 a ha => exact ⟨a, selectTab_mem ha, hr⟩
  case h_2 => cases hr

/-- A tab whose join reads a datasource, and the tab that configures the datasource. -/
def datasourceJoin : AnalysisPipeline Labelled Unit where
  analysisId := "analysis"
  tabs := [⟨"joined", ⟨"rows", none, ()⟩, "joined output",
      [namedStep "join" [] { right := some "customers" }]⟩,
    ⟨"base", ⟨"customers", none, ()⟩, "base output", []⟩]

end DataForge.Pipeline
