import DataForge.Pipeline.Contraction

/-!
# Validation of the pipeline graph

The checks at the start of `_build_pipeline_details`
(`src/packages/worker/runtime/polars_compute.py:54-102`) on every list of steps with ids. They run
on what `apply_steps` returns, so each step has at most one dependency there, which is a step, and
only a cycle is left to be found. Ids may repeat: the last step with an id is the one in the map.
-/

namespace DataForge.Pipeline

open ReadCommitted

variable {κ : Type} {steps : List (Step κ)}

/-- The exceptions of the graph checks. -/
def BuildError.isValidation : BuildError → Bool
  | .multipleDependencies _ | .missingStep _ _ | .cycle => true
  | _ => false

/-- Some step has this id and that dependency. -/
def DependsOn (steps : List (Step κ)) (a b : String) : Prop :=
  ∃ s ∈ steps, s.id = a ∧ b ∈ s.dependsOn

/-- Some applied step has several dependencies, one that is no step, or lies on a cycle. -/
def Invalid (steps : List (Step κ)) : Prop :=
  ∃ s ∈ steps, s.applied = true ∧ (1 < s.dependsOn.length ∨ (∃ d ∈ s.dependsOn, d ∉ ids steps) ∨
    Relation.TransGen (DependsOn steps) s.id s.id)

/-- The first dependency of the step with an id. -/
def FirstDependency (steps : List (Step κ)) (a b : String) : Prop :=
  ((buildStepMap steps).get a).bind Step.dependency = some b

/-- The applied step whose result a step reads, behind `n` disabled ones. -/
inductive ReadsBehind (steps : List (Step κ)) : ℕ → String → String → Prop
  | direct {a b} : FirstDependency steps a b → b ∈ appliedIds steps → ReadsBehind steps 0 a b
  | through {n a b c} : FirstDependency steps a c → c ∉ appliedIds steps →
      ReadsBehind steps n c b → ReadsBehind steps (n + 1) a b

/-- The applied step whose result a step reads. -/
def Reads (steps : List (Step κ)) (a b : String) : Prop := ∃ n, ReadsBehind steps n a b

/-- Every applied step stands in the order once, behind the step that it reads. -/
structure OrdersOnce (steps : List (Step κ)) (order : List String) : Prop where
  once : order.Perm (appliedIds steps)
  after : ∀ l1 id l2, order = l1 ++ id :: l2 → ∀ q, Reads steps id q → q ∈ l1

/-- The checks raise exactly on invalid graphs, and order the steps of the others. -/
def Exact (steps : List (Step κ)) : Prop :=
  match planOf steps with
  | .error e => e.isValidation = true ∧ Invalid steps
  | .ok p => ¬ Invalid steps ∧ OrdersOnce steps p.ordered

/-! ## What a step reads -/

theorem ReadsBehind.unique {n m : ℕ} {a b c : String} (h : ReadsBehind steps n a b)
    (h' : ReadsBehind steps m a c) : n = m ∧ b = c := by
  induction h generalizing m with
  | direct hd ha =>
    cases h' with
    | direct hd' _ => exact ⟨rfl, Option.some.inj (hd.symm.trans hd')⟩
    | through hd' ha' _ => exact absurd (Option.some.inj (hd.symm.trans hd') ▸ ha) ha'
  | through hd ha _ ih =>
    cases h' with
    | direct hd' ha' => exact absurd (Option.some.inj (hd.symm.trans hd') ▸ ha') ha
    | through hd' _ hr =>
      rw [← Option.some.inj (hd.symm.trans hd')] at hr
      obtain ⟨hn, hb⟩ := ih hr
      exact ⟨congrArg (· + 1) hn, hb⟩

theorem ReadsBehind.transGen {n : ℕ} {a b : String} (h : ReadsBehind steps n a b) :
    Relation.TransGen (FirstDependency steps) a b := by
  induction h with
  | direct hd _ => exact .single hd
  | through hd _ _ ih => exact .head hd ih

private theorem reads_of_climbs {seen : List String} {p q : String} {found : Option String}
    (h : Climbs (buildStepMap steps) (appliedIds steps) seen p found) (hq : found = some q) :
    p = q ∧ p ∈ appliedIds steps ∨ p ∉ appliedIds steps ∧ Reads steps p q := by
  induction h with
  | applied ha => exact .inl ⟨Option.some.inj hq, ha⟩
  | seen => cases hq
  | root => cases hq
  | next ha _ hd _ ih =>
    refine .inr ⟨ha, ?_⟩
    rcases ih hq with ⟨he, hn⟩ | ⟨hn, n, hr⟩
    · exact ⟨0, he ▸ .direct hd hn⟩
    · exact ⟨n + 1, .through hd hn hr⟩

private theorem climbs_of_reads {seen : List String} {p q : String} {found : Option String}
    {n : ℕ} (h : Climbs (buildStepMap steps) (appliedIds steps) seen p found)
    (hp : p ∉ appliedIds steps) (hr : ReadsBehind steps n p q)
    (hseen : ∀ x ∈ seen, ∃ m, n < m ∧ ReadsBehind steps m x q) : found = some q := by
  induction h generalizing n with
  | applied ha => exact absurd ha hp
  | seen _ hs =>
    obtain ⟨m, hlt, hm⟩ := hseen _ hs
    have hnm := (hr.unique hm).1
    omega
  | root _ _ hd =>
    cases hr with
    | direct hd' _ => exact nomatch hd.symm.trans hd'
    | through hd' _ _ => exact nomatch hd.symm.trans hd'
  | next _ _ hd hrest ih =>
    cases hr with
    | direct hd' ha' =>
      have he := Option.some.inj (hd.symm.trans hd')
      exact he ▸ hrest.of_mem (he ▸ ha')
    | through hd' hn hr' =>
      rw [← Option.some.inj (hd.symm.trans hd')] at hn hr'
      refine ih hn hr' fun x hx => ?_
      cases List.mem_cons.mp hx with
      | inl he => exact ⟨_, Nat.lt_succ_self _, he ▸ .through hd hn hr'⟩
      | inr hx =>
        obtain ⟨m, hlt, hm⟩ := hseen x hx
        exact ⟨m, by omega, hm⟩

/-- The parent of an applied step, as `_nearest_applied_ancestor` finds it. -/
def parentOf (steps : List (Step κ)) (id : String) : Option String :=
  nearestAppliedAncestor id (buildStepMap steps) (appliedIds steps)

theorem parentOf_eq_iff {id q : String} : parentOf steps id = some q ↔ Reads steps id q := by
  have hfinds : Finds (buildStepMap steps) (appliedIds steps) id (parentOf steps id) :=
    finds_nearestAppliedAncestor _ _ _
  generalize parentOf steps id = found at hfinds
  unfold Finds at hfinds
  cases hd : ((buildStepMap steps).get id).bind Step.dependency with
  | none =>
    rw [hd] at hfinds
    subst hfinds
    constructor
    · intro hq
      cases hq
    · rintro ⟨n, hr⟩
      cases hr with
      | direct hd' _ => exact nomatch hd.symm.trans hd'
      | through hd' _ _ => exact nomatch hd.symm.trans hd'
  | some c =>
    rw [hd] at hfinds
    constructor
    · intro hq
      rcases reads_of_climbs hfinds hq with ⟨he, ha⟩ | ⟨ha, n, hr⟩
      · exact ⟨0, he ▸ .direct hd ha⟩
      · exact ⟨n + 1, .through hd ha hr⟩
    · rintro ⟨n, hr⟩
      cases hr with
      | direct hd' ha' =>
        have he := Option.some.inj (hd.symm.trans hd')
        exact he ▸ hfinds.of_mem (he ▸ ha')
      | through hd' hn hr' =>
        rw [← Option.some.inj (hd.symm.trans hd')] at hn hr'
        exact climbs_of_reads hfinds hn hr' (by simp)

theorem parentOf_mem {id q : String} (h : parentOf steps id = some q) : q ∈ appliedIds steps :=
  nearestAppliedAncestor_mem h

private theorem reads_of_transGen {a b : String}
    (h : Relation.TransGen (FirstDependency steps) a b) (hb : b ∈ appliedIds steps) :
    ∃ c, Reads steps a c ∧ Relation.ReflTransGen (Reads steps) c b := by
  induction h using Relation.TransGen.head_induction_on with
  | single hd => exact ⟨b, ⟨0, .direct hd hb⟩, .refl⟩
  | @head a c hd _ ih =>
    obtain ⟨y, hy, hyb⟩ := ih
    by_cases hc : c ∈ appliedIds steps
    · exact ⟨c, ⟨0, .direct hd hc⟩, .head hy hyb⟩
    · obtain ⟨n, hn⟩ := hy
      exact ⟨y, ⟨n + 1, .through hd hc hn⟩, hyb⟩

theorem transGen_reads_iff {a b : String} (hb : b ∈ appliedIds steps) :
    Relation.TransGen (Reads steps) a b ↔ Relation.TransGen (FirstDependency steps) a b := by
  constructor
  · intro h
    clear hb
    induction h with
    | single hr =>
      obtain ⟨n, hr⟩ := hr
      exact hr.transGen
    | tail _ hr ih =>
      obtain ⟨n, hr⟩ := hr
      exact ih.trans hr.transGen
  · intro h
    obtain ⟨c, hac, hcb⟩ := reads_of_transGen h hb
    exact .head' hac hcb

/-! ## The rewritten list -/

theorem Named.applySteps_eq (hn : Named steps) :
    applySteps steps = (steps.filter Step.applied).map fun s =>
      { s with dependsOn := (parentOf steps s.id).toList } := hn.applySteps_map

theorem Named.named_applySteps (hn : Named steps) : Named (applySteps steps) := by
  intro s hs
  rw [hn.applySteps_eq] at hs
  obtain ⟨x, hx, rfl⟩ := List.mem_map.mp hs
  exact hn x (List.mem_filter.mp hx).1

theorem Named.mem_keys (hn : Named steps) {id : String} :
    id ∈ (buildStepMap (applySteps steps)).rows.map Prod.fst ↔ id ∈ appliedIds steps := by
  obtain ⟨hin, hout⟩ := stepMapOf_mem (stepMapOf_eq hn.named_applySteps)
  rw [← hn.ids_applySteps]
  constructor
  · intro hid
    obtain ⟨e, he, rfl⟩ := List.mem_map.mp hid
    have hget := (Table.mem_rows_iff _ e.1 e.2).mp he
    have hkey := (stepMapOf_get (stepMapOf_eq hn.named_applySteps) _ _ hget).1
    rw [← hkey]
    exact List.mem_map_of_mem (hin _ _ hget)
  · intro hid
    obtain ⟨s, hs, rfl⟩ := List.mem_map.mp hid
    obtain ⟨x, hx⟩ := Option.isSome_iff_exists.mp (hout s hs)
    exact List.mem_map.mpr ⟨(s.id, x), (Table.mem_rows_iff _ _ _).mpr hx, rfl⟩

theorem Named.wired (hn : Named steps) :
    Wired ((buildStepMap (applySteps steps)).rows.map Prod.snd) (parentOf steps) := by
  have hm := stepMapOf_eq hn.named_applySteps
  obtain ⟨hids, hsteps, -⟩ := map_steps (stepMapOf_get hm)
  refine ⟨hids ▸ (buildStepMap (applySteps steps)).nodup, fun s hs => (hsteps s hs).1, ?_, ?_⟩
  · intro s hs
    have hin := (stepMapOf_mem hm).1 _ _ (hsteps s hs).2
    rw [hn.applySteps_eq] at hin
    obtain ⟨x, -, rfl⟩ := List.mem_map.mp hin
    rfl
  · intro id _ p hp
    rw [hids, hn.mem_keys]
    exact parentOf_mem hp

/-! ## When the checks raise -/

/-- An applied step lies on a cycle of first dependencies. -/
def OnCycle (steps : List (Step κ)) : Prop :=
  ∃ id ∈ appliedIds steps, Relation.TransGen (FirstDependency steps) id id

theorem planOf_ok_of_acyclic (hn : Named steps) (hc : ¬ OnCycle steps) :
    ∃ p, planOf steps = .ok p := by
  let F : Forest String := {
    nodes := (buildStepMap (applySteps steps)).rows.map Prod.fst
    parent := parentOf steps
    nodup := (buildStepMap (applySteps steps)).nodup
    closed := fun _ _ p hp => hn.mem_keys.mpr (parentOf_mem hp)
    acyclic := by
      intro x hx hcycle
      have hx := hn.mem_keys.mp hx
      refine hc ⟨x, hx, (transGen_reads_iff hx).mp ?_⟩
      exact Relation.TransGen.mono (fun _ _ h => parentOf_eq_iff.mp h) _ _ hcycle }
  obtain ⟨g, hg, -, -⟩ := planOf_map (stepMapOf_eq hn.named_applySteps) F hn.wired rfl
  exact ⟨_, hg⟩

theorem parent_eq_of_planOf (hn : Named steps) {p : Plan κ} (h : planOf steps = .ok p)
    {id : String} (hid : id ∈ appliedIds steps) : p.graph.parent id = parentOf steps id := by
  obtain ⟨hkeys, hget⟩ := planOf_steps h
  rw [← hn.ids_applySteps] at hid
  obtain ⟨s, hs, rfl⟩ := List.mem_map.mp hid
  obtain ⟨x, hx⟩ := Option.isSome_iff_exists.mp (hkeys s hs)
  obtain ⟨hin, hxid, -, hdep⟩ := hget _ _ hx
  rw [hn.applySteps_eq] at hin
  obtain ⟨y, -, rfl⟩ := List.mem_map.mp hin
  have hyid : y.id = s.id := hxid
  have hlists : (parentOf steps y.id).toList = (p.graph.parent s.id).toList := hdep
  rw [hyid] at hlists
  cases hp : p.graph.parent s.id <;> cases hq : parentOf steps s.id <;> simp_all

theorem planOf_order (hn : Named steps) {p : Plan κ} (h : planOf steps = .ok p) :
    p.ordered.Nodup ∧ (∀ id, id ∈ p.ordered ↔ id ∈ appliedIds steps) ∧
      ∀ l1 id l2, p.ordered = l1 ++ id :: l2 → ∀ q, Reads steps id q → q ∈ l1 := by
  have ho := planOf_ordered h
  have hm : p.steps = buildStepMap (applySteps steps) := by
    have hm := (planOf_inv h).1
    rw [stepMapOf_eq hn.named_applySteps] at hm
    exact (Except.ok.inj hm).symm
  have hmem : ∀ id, id ∈ p.ordered ↔ id ∈ appliedIds steps := by
    intro id
    rw [ho.perm.mem_iff, hm, hn.mem_keys]
  refine ⟨ho.nodup, hmem, fun l1 id l2 hl q hq => ?_⟩
  refine ho.topological l1 id l2 hl q ?_
  rw [parent_eq_of_planOf hn h ((hmem id).mp (by simp [hl]))]
  exact parentOf_eq_iff.mpr hq

/-- No step that is ordered lies on a cycle. -/
theorem acyclic_of_planOf_ok (hn : Named steps) {p : Plan κ} (h : planOf steps = .ok p) :
    ¬ OnCycle steps := by
  obtain ⟨hnd, hmem, hafter⟩ := planOf_order hn h
  have hlt : ∀ {a b}, a ∈ appliedIds steps → Relation.TransGen (Reads steps) a b →
      b ∈ appliedIds steps ∧ p.ordered.idxOf b < p.ordered.idxOf a := by
    intro a b ha hab
    have hstep : ∀ {a b}, a ∈ appliedIds steps → Reads steps a b →
        b ∈ appliedIds steps ∧ p.ordered.idxOf b < p.ordered.idxOf a := by
      intro a b ha hab
      obtain ⟨l1, l2, hl⟩ := List.append_of_mem ((hmem a).mpr ha)
      have hb := hafter l1 a l2 hl b hab
      have hanot : a ∉ l1 := by
        rw [hl, List.nodup_append] at hnd
        exact fun hm => hnd.2.2 a hm a (by simp) rfl
      refine ⟨(hmem b).mp (by simp [hl, hb]), ?_⟩
      rw [hl, List.idxOf_append_of_mem hb, List.idxOf_append_of_notMem hanot]
      exact Nat.lt_add_right _ (List.idxOf_lt_length_of_mem hb)
    induction hab with
    | single hr => exact hstep ha hr
    | tail _ hr ih =>
      obtain ⟨hc, hlt⟩ := hstep ih.1 hr
      exact ⟨hc, hlt.trans ih.2⟩
  rintro ⟨id, hid, hcycle⟩
  exact lt_irrefl _ (hlt hid ((transGen_reads_iff hid).mpr hcycle)).2

theorem planOf_raises_iff (hn : Named steps) :
    (∃ e, planOf steps = .error e) ↔ OnCycle steps := by
  constructor
  · rintro ⟨e, he⟩
    by_contra hc
    obtain ⟨p, hp⟩ := planOf_ok_of_acyclic hn hc
    exact nomatch he.symm.trans hp
  · intro hc
    cases h : planOf steps with
    | error e => exact ⟨e, rfl⟩
    | ok p => exact absurd hc (acyclic_of_planOf_ok hn h)

theorem planOf_error (hn : Named steps) {e : BuildError} (h : planOf steps = .error e) :
    e = .cycle := by
  have hm := stepMapOf_eq hn.named_applySteps
  obtain ⟨-, -, hmap⟩ := map_steps (stepMapOf_get hm)
  obtain ⟨g, hg, -⟩ := graphOf_eq hn.wired
  rw [hmap] at hg
  unfold planOf at h
  rw [hm] at h
  dsimp only [bind, Except.bind] at h
  rw [hg] at h
  dsimp only at h
  split at h
  · exact (Except.error.inj h).symm
  · cases h

theorem FirstDependency.dependsOn (hn : Named steps) {a b : String}
    (h : FirstDependency steps a b) : DependsOn steps a b := by
  obtain ⟨s, hs, hd⟩ := Option.bind_eq_some_iff.mp h
  have hm := stepMapOf_eq hn
  refine ⟨s, (stepMapOf_mem hm).1 _ _ hs, (stepMapOf_get hm _ _ hs).1, ?_⟩
  exact List.mem_of_head? (Option.filter_eq_some_iff.mp hd).1

theorem OnCycle.invalid (hn : Named steps) (h : OnCycle steps) : Invalid steps := by
  obtain ⟨id, hid, hcycle⟩ := h
  obtain ⟨s, hs, rfl⟩ := List.mem_map.mp hid
  obtain ⟨hs, ha⟩ := List.mem_filter.mp hs
  refine ⟨s, hs, ha, .inr (.inr ?_)⟩
  exact Relation.TransGen.mono (fun _ _ hd => hd.dependsOn hn) _ _ hcycle

/-- The checks are exact on the lists where an applied step lies on a cycle of first
dependencies, and on the valid ones whose applied steps have different ids. -/
theorem graph_validation_exact_iff (hn : Named steps) :
    Exact steps ↔ OnCycle steps ∨ ¬ Invalid steps ∧ (appliedIds steps).Nodup := by
  unfold Exact
  cases h : planOf steps with
  | error e =>
    have hc := (planOf_raises_iff hn).mp ⟨e, h⟩
    have he := planOf_error hn h
    subst he
    exact iff_of_true ⟨rfl, hc.invalid hn⟩ (.inl hc)
  | ok p =>
    have hc := acyclic_of_planOf_ok hn h
    obtain ⟨hnd, hmem, hafter⟩ := planOf_order hn h
    dsimp only
    rw [or_iff_right hc]
    constructor
    · rintro ⟨hv, ho⟩
      exact ⟨hv, ho.once.nodup_iff.mp hnd⟩
    · rintro ⟨hv, hids⟩
      exact ⟨hv, (List.perm_ext_iff_of_nodup hnd hids).mpr hmem, hafter⟩

/-- A chain and a step that merges two of its results. -/
def mergeSteps : List (Step Unit) :=
  [plainStep "a" [], plainStep "b" ["a"], plainStep "c" ["a", "b"]]

/-- A valid chain is accepted. -/
theorem graph_validation_exact_chain : Exact chainSteps := by
  refine (graph_validation_exact_iff (by unfold Named; decide)).mpr (.inr ⟨?_, by decide⟩)
  have hbefore : ∀ {a b}, DependsOn chainSteps a b → a = "b" ∧ b = "a" := by
    rintro a b ⟨s, hs, rfl, hb⟩
    rcases List.mem_pair.mp hs with rfl | rfl
    · cases hb
    · exact ⟨rfl, List.mem_singleton.mp hb⟩
  rintro ⟨s, hs, -, hlong | ⟨d, hd, hmissing⟩ | hcycle⟩
  · revert hlong
    rcases List.mem_pair.mp hs with rfl | rfl <;> decide
  · rw [(hbefore ⟨s, hs, rfl, hd⟩).2] at hmissing
    exact hmissing (by decide)
  · obtain ⟨c, hc, -⟩ := Relation.TransGen.head'_iff.mp hcycle
    obtain ⟨c', -, hc'⟩ := Relation.TransGen.tail'_iff.mp hcycle
    exact absurd ((hbefore hc).1.symm.trans (hbefore hc').2) (by decide)

/-- A step with two dependencies is accepted, and its second dependency is dropped. -/
theorem merge_accepted : Named mergeSteps ∧ ¬ Exact mergeSteps := by
  refine ⟨by unfold Named; decide, fun he => ?_⟩
  have hinvalid : Invalid mergeSteps :=
    ⟨plainStep "c" ["a", "b"], by simp [mergeSteps], by decide, .inl (by decide)⟩
  have hplan : (planOf mergeSteps).toOption.isSome = true := by decide
  unfold Exact at he
  cases h : planOf mergeSteps with
  | error e =>
    rw [h] at hplan
    cases hplan
  | ok p =>
    rw [h] at he
    exact he.1 hinvalid

end DataForge.Pipeline
