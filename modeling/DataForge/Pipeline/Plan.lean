import DataForge.Pipeline.Build

/-!
# The order of the steps

`planOf` puts applied steps into the breadth-first order of their dependency forest: the loop
over `in_degree` visits what a plain walk along the dependents visits.
-/

namespace DataForge.Pipeline

open ReadCommitted

variable {κ : Type}

/-- Steps that `apply_steps` has rewritten: the dependency of a step is its parent, which is one
of the steps. -/
structure Wired (steps : List (Step κ)) (parent : String → Option String) : Prop where
  unique : (ids steps).Nodup
  named : ∀ s ∈ steps, s.id ≠ ""
  wired : ∀ s ∈ steps, s.dependsOn = (parent s.id).toList
  closed : ∀ id ∈ ids steps, ∀ p, parent id = some p → p ∈ ids steps

/-! ## The step map -/

/-- Rows of steps under their ids. -/
def rowsOf (steps : List (Step κ)) : List (String × Step κ) := steps.map fun s => (s.id, s)

@[simp] theorem map_fst_rowsOf (steps : List (Step κ)) :
    (rowsOf steps).map Prod.fst = ids steps := by
  simp [rowsOf, ids, Function.comp_def]

theorem rows_buildStepMap {steps : List (Step κ)} (hu : (ids steps).Nodup)
    (hn : ∀ s ∈ steps, s.id ≠ "") : (buildStepMap steps).rows = rowsOf steps := by
  unfold buildStepMap
  rw [List.filter_eq_self.mpr (by simpa using hn)]
  have h := Table.rows_foldl_put .empty (rowsOf steps) (by simpa [Table.empty] using hu)
  simpa [rowsOf, List.foldl_map, Table.empty] using h

theorem stepMapOf_eq {steps : List (Step κ)} (hn : ∀ s ∈ steps, s.id ≠ "") :
    stepMapOf steps = .ok (buildStepMap steps) := by
  have hfold : ∀ (l : List (Step κ)) (t : Table String (Step κ)), (∀ s ∈ l, s.id ≠ "") →
      l.foldlM (fun t s => if s.id = "" then .error BuildError.missingId
        else .ok (t.put s.id (some s))) t =
      Except.ok (l.foldl (fun t s => t.put s.id (some s)) t) := by
    intro l
    induction l with
    | nil => intro t _; rfl
    | cons s rest ih =>
      intro t hl
      have hs : s.id ≠ "" := hl s List.mem_cons_self
      rw [List.foldlM_cons, if_neg hs, List.foldl_cons]
      exact ih _ fun x hx => hl x (List.mem_cons_of_mem _ hx)
  unfold stepMapOf buildStepMap
  rw [List.filter_eq_self.mpr (by simpa using hn)]
  exact hfold steps _ hn

theorem get_buildStepMap {steps : List (Step κ)} (hu : (ids steps).Nodup)
    (hn : ∀ s ∈ steps, s.id ≠ "") {s : Step κ} (hs : s ∈ steps) :
    (buildStepMap steps).get s.id = some s := by
  rw [← Table.mem_rows_iff, rows_buildStepMap hu hn]
  exact List.mem_map_of_mem hs

theorem get_buildStepMap_none {steps : List (Step κ)} (hu : (ids steps).Nodup)
    (hn : ∀ s ∈ steps, s.id ≠ "") {id : String} (hid : id ∉ ids steps) :
    (buildStepMap steps).get id = none := by
  rw [Table.get_eq_none_iff, rows_buildStepMap hu hn]
  intro s hs
  obtain ⟨s', hs', he⟩ := List.mem_map.mp hs
  cases he
  exact hid (List.mem_map_of_mem hs')

/-! ## The graph -/

/-- The graph after the steps `l` of `all`. -/
private structure Traced (parent : String → Option String) (all l : List String) (g : Graph) :
    Prop where
  parents : ∀ id, g.dependencyMap.get id = if id ∈ l then some (parent id) else none
  dependents : ∀ p, g.dependentsOf p = l.filter fun c => parent c = some p
  keys : g.inDegree.rows.map Prod.fst = all
  degrees : ∀ id ∈ all,
    g.inDegree.get id = some (if id ∈ l ∧ parent id ≠ none then 1 else 0)

variable {steps : List (Step κ)} {parent : String → Option String}

variable {g : Graph}

private theorem traced_add (h : Wired steps parent) {l : List String}
    (ht : Traced parent (ids steps) l g) {s : Step κ} (hs : s ∈ steps) (hl : s.id ∉ l) :
    ∃ g', addDependency (buildStepMap steps) g (s.id, s) = .ok g' ∧
      Traced parent (ids steps) (l ++ [s.id]) g' := by
  have hid : s.id ∈ ids steps := List.mem_map_of_mem hs
  unfold addDependency
  dsimp only
  rw [h.wired s hs]
  cases hp : parent s.id with
  | none =>
    refine ⟨_, rfl, ?_, ?_, ht.keys, ?_⟩
    · intro id
      rw [Table.get_put, ht.parents]
      by_cases hi : id = s.id
      · simp [hi, hp]
      · simp [hi]
    · intro p
      have hkeep : (l ++ [s.id]).filter (fun c => parent c = some p) =
          l.filter fun c => parent c = some p := by
        simp [List.filter_append, hp]
      rw [hkeep]
      exact ht.dependents p
    · intro id hi
      rw [ht.degrees id hi]
      by_cases he : id = s.id
      · simp [he, hp]
      · simp [he]
  | some p =>
    obtain ⟨sp, hsp, rfl⟩ := List.mem_map.mp (h.closed s.id hid p hp)
    have hget := get_buildStepMap h.unique h.named hsp
    simp only [Option.toList_some, hget, Option.isNone_some, Bool.false_eq_true, if_false]
    refine ⟨_, rfl, ?_, ?_, ?_, ?_⟩
    · intro id
      rw [Table.get_put, ht.parents]
      by_cases hi : id = s.id
      · simp [hi, hp]
      · simp [hi]
    · intro q
      rw [List.filter_append, ← ht.dependents q]
      unfold Graph.dependentsOf
      rw [Table.get_put]
      by_cases hq : q = sp.id
      · simp [hq, hp]
      · simp [hq, hp, Ne.symm hq]
    · rw [Table.map_fst_put_some _ (by rw [ht.keys]; exact hid), ht.keys]
    · intro id hi
      rw [Table.get_put]
      by_cases he : id = s.id
      · subst he
        simp [ht.degrees _ hi, hl, hp]
      · simp [ht.degrees id hi, he]

private theorem traced_fold (h : Wired steps parent) (rest : List (Step κ)) {l : List String}
    (ht : Traced parent (ids steps) l g) (hl : l ++ ids rest = ids steps)
    (hr : ∀ s ∈ rest, s ∈ steps) :
    ∃ g', (rowsOf rest).foldlM (addDependency (buildStepMap steps)) g = .ok g' ∧
      Traced parent (ids steps) (ids steps) g' := by
  induction rest generalizing l g with
  | nil =>
    have hall : l = ids steps := by simpa [ids] using hl
    exact ⟨g, rfl, hall ▸ ht⟩
  | cons s rest ih =>
    have hnew : s.id ∉ l := by
      have hu := hl ▸ h.unique
      rw [List.nodup_append] at hu
      exact fun hm => hu.2.2 s.id hm s.id (by simp [ids]) rfl
    obtain ⟨g', hg, ht'⟩ := traced_add h ht (hr s List.mem_cons_self) hnew
    have hrest : (l ++ [s.id]) ++ ids rest = ids steps := by
      rw [List.append_assoc, ← hl]
      rfl
    obtain ⟨g'', hg', ht''⟩ := ih ht' hrest fun x hx => hr x (List.mem_cons_of_mem _ hx)
    refine ⟨g'', ?_, ht''⟩
    rw [rowsOf, List.map_cons, List.foldlM_cons, hg]
    exact hg'

/-- The graph of wired steps. -/
theorem graphOf_eq (h : Wired steps parent) : ∃ g, graphOf (buildStepMap steps) = .ok g ∧
    (∀ id ∈ ids steps, g.parent id = parent id) ∧
    (∀ p, g.dependentsOf p = (ids steps).filter fun c => parent c = some p) ∧
    (g.inDegree.rows.filter fun p => p.2 = 0).map Prod.fst =
      (ids steps).filter (fun c => parent c = none) ∧
    ∀ id ∈ ids steps, g.inDegree.get id = some (if parent id ≠ none then 1 else 0) := by
  have hrows := rows_buildStepMap h.unique h.named
  have hzero : ((buildStepMap steps).rows.foldl (fun t p => t.put p.1 (some (0 : ℤ)))
      Table.empty).rows = (ids steps).map fun id => (id, 0) := by
    have hput := Table.rows_foldl_put (ρ := ℤ) .empty ((ids steps).map fun id => (id, 0))
      (by simpa [Table.empty, Function.comp_def] using h.unique)
    rw [hrows]
    simpa [rowsOf, ids, List.foldl_map, Table.empty, Function.comp_def] using hput
  have hstart : Traced parent (ids steps) [] ⟨.empty, .empty,
      (buildStepMap steps).rows.foldl (fun t p => t.put p.1 (some (0 : ℤ))) .empty⟩ := by
    refine ⟨by simp, by simp [Graph.dependentsOf], ?_, ?_⟩
    · simp [hzero, Function.comp_def]
    · intro id hid
      rw [← Table.mem_rows_iff, hzero]
      simpa using hid
  obtain ⟨g, hg, ht⟩ := traced_fold h steps hstart rfl fun _ hs => hs
  have hdeg : ∀ id ∈ ids steps,
      g.inDegree.get id = some (if parent id ≠ none then 1 else 0) := by
    intro id hid
    rw [ht.degrees id hid]
    simp [hid]
  refine ⟨g, ?_, ?_, ht.dependents, ?_, hdeg⟩
  · rw [← hrows] at hg
    exact hg
  · intro id hid
    simp [Graph.parent, ht.parents, hid]
  · rw [Table.map_fst_filter g.inDegree fun d => d = 0, ht.keys]
    refine List.filter_congr fun id hid => ?_
    rw [hdeg id hid]
    by_cases hp : parent id = none <;> simp [hp]

/-! ## The loop over the queue -/

private theorem foldl_release (children : List String) (hd : children.Nodup) (queue : List String)
    (deg : Table String ℤ) (h : ∀ c ∈ children, deg.get c = some 1) :
    (children.foldl release (queue, deg)).1 = queue ++ children ∧
      ∀ c, (children.foldl release (queue, deg)).2.get c =
        if c ∈ children then some 0 else deg.get c := by
  induction children generalizing queue deg with
  | nil => simp
  | cons a rest ih =>
    rw [List.nodup_cons] at hd
    have hrel : release (queue, deg) a = (queue ++ [a], deg.put a (some 0)) := by
      simp [release, h a List.mem_cons_self]
    have hrest : ∀ c ∈ rest, (deg.put a (some 0)).get c = some 1 := by
      intro c hc
      have hne : c ≠ a := fun he => hd.1 (he ▸ hc)
      rw [Table.get_put, if_neg hne]
      exact h c (List.mem_cons_of_mem _ hc)
    obtain ⟨hq, hg⟩ := ih hd.2 (queue ++ [a]) _ hrest
    rw [List.foldl_cons, hrel]
    refine ⟨by rw [hq, List.append_assoc, List.singleton_append], fun c => ?_⟩
    rw [hg c, Table.get_put]
    by_cases hc : c ∈ rest
    · simp [hc]
    · by_cases ha : c = a
      · simp [ha, hd.1]
      · simp [hc, ha]

theorem kahn_eq_walk {kids : String → List String} (hn : ∀ p, (kids p).Nodup)
    (hd : ∀ p q c, c ∈ kids p → c ∈ kids q → p = q) :
    ∀ (n : ℕ) (queue : List String) (deg : Table String ℤ),
      (Forest.walk kids n queue).Nodup →
      (∀ x ∈ Forest.walk kids n queue, ∀ c ∈ kids x, deg.get c = some 1) →
      kahn kids n queue deg = Forest.walk kids n queue := by
  intro n
  induction n with
  | zero => intro queue deg _ _; rfl
  | succ n ih =>
    intro queue deg hw hdeg
    cases queue with
    | nil => rfl
    | cons x queue =>
      rw [Forest.walk, List.nodup_cons] at hw
      obtain ⟨hq, hg⟩ := foldl_release (kids x) (hn x) queue deg
        (hdeg x (by simp [Forest.walk]))
      rw [kahn, Forest.walk, hq, ih _ _ hw.2]
      intro y hy c hc
      rw [hg c, if_neg fun hcx => hw.1 (hd x y c hcx hc ▸ hy)]
      exact hdeg y (by rw [Forest.walk]; exact List.mem_cons_of_mem _ hy) c hc

/-! ## Every plan -/

private theorem kahn_spec {nodes : List String} (parent : String → Option String)
    (hn : nodes.Nodup) (n : ℕ) : ∀ (queue : List String) (deg : Table String ℤ)
      (visited : List String), (visited ++ queue).Nodup →
      (∀ x ∈ visited ++ queue, x ∈ nodes ∧ ∀ p, parent x = some p → p ∈ visited) →
      (∀ c ∈ nodes, ∀ p, parent c = some p →
        deg.get c = some (if p ∈ visited then 0 else 1)) →
      let out := kahn (fun p => nodes.filter fun c => parent c = some p) n queue deg
      (visited ++ out).Nodup ∧ out ⊆ nodes ∧
      ∀ l1 x l2, out = l1 ++ x :: l2 → ∀ p, parent x = some p → p ∈ visited ++ l1 := by
  induction n with
  | zero =>
    intro queue deg visited hd _ _
    exact ⟨by simpa [kahn] using (List.nodup_append.mp hd).1, by simp [kahn],
      by simp [kahn]⟩
  | succ n ih =>
    intro queue deg visited hd hq hdeg
    cases queue with
    | nil => exact ⟨by simpa [kahn] using hd, by simp [kahn], by simp [kahn]⟩
    | cons x queue =>
      have hx := hq x (by simp)
      have hxv : x ∉ visited := by
        intro hm
        exact (List.nodup_append.mp hd).2.2 x hm x (by simp) rfl
      obtain ⟨hrel, hget⟩ := foldl_release (nodes.filter fun c => parent c = some x)
        (hn.filter _) queue deg (by
          intro c hc
          simp only [List.mem_filter, decide_eq_true_eq] at hc
          rw [hdeg c hc.1 x hc.2, if_neg hxv])
      -- a dependent of the visited step was neither visited nor queued
      have hfresh : ∀ c ∈ nodes.filter (fun c => parent c = some x),
          c ∉ visited ++ x :: queue := by
        intro c hc hm
        simp only [List.mem_filter, decide_eq_true_eq] at hc
        exact hxv ((hq c hm).2 x hc.2)
      have hassoc : (visited ++ [x]) ++ (queue ++ nodes.filter fun c => parent c = some x) =
          (visited ++ x :: queue) ++ nodes.filter fun c => parent c = some x := by
        simp
      have hnext := ih (queue ++ nodes.filter fun c => parent c = some x)
        ((nodes.filter fun c => parent c = some x).foldl release (queue, deg)).2
        (visited ++ [x]) ?_ ?_ ?_
      · obtain ⟨h1, h2, h3⟩ := hnext
        rw [kahn]
        dsimp only
        rw [hrel]
        refine ⟨by simpa using h1, ?_, ?_⟩
        · intro y hy
          rcases List.mem_cons.mp hy with rfl | hy
          · exact hx.1
          · exact h2 hy
        · intro l1 y l2 hl p hp
          cases l1 with
          | nil =>
            rw [List.nil_append, List.cons.injEq] at hl
            rw [← hl.1] at hp
            exact List.mem_append_left _ (hx.2 p hp)
          | cons a l1 =>
            rw [List.cons_append, List.cons.injEq] at hl
            have hmem := h3 l1 y l2 hl.2 p hp
            rw [← hl.1]
            simpa using hmem
      · rw [hassoc, List.nodup_append]
        exact ⟨hd, hn.filter _, fun a ha b hb hab => hfresh b hb (hab ▸ ha)⟩
      · intro y hy
        rw [hassoc, List.mem_append] at hy
        rcases hy with hy | hy
        · exact ⟨(hq y hy).1, fun p hp => List.mem_append_left _ ((hq y hy).2 p hp)⟩
        · simp only [List.mem_filter, decide_eq_true_eq] at hy
          refine ⟨hy.1, fun p hp => ?_⟩
          rw [hy.2, Option.some_inj] at hp
          simp [hp]
      · intro c hc p hp
        rw [hget c]
        by_cases hpx : p = x
        · subst hpx
          simp [hc, hp]
        · rw [if_neg (by simp [hp, hpx]), hdeg c hc p hp]
          simp [hpx]

/-- What a plan guarantees: its order lists the steps once each, after their parents. -/
structure Plan.Ordered (p : Plan κ) : Prop where
  perm : p.ordered.Perm (p.steps.rows.map Prod.fst)
  nodup : p.ordered.Nodup
  topological : ∀ l1 x l2, p.ordered = l1 ++ x :: l2 →
    ∀ q, p.graph.parent x = some q → q ∈ l1
  dependents : ∀ q, p.graph.dependentsOf q =
    (p.steps.rows.map Prod.fst).filter fun c => p.graph.parent c = some q

variable {p : Plan κ}

theorem Plan.Ordered.closed (hp : p.Ordered) :
    ∀ x ∈ p.steps.rows.map Prod.fst, ∀ q, p.graph.parent x = some q →
      q ∈ p.steps.rows.map Prod.fst := by
  intro x hx q hq
  obtain ⟨l1, l2, hl1⟩ := List.append_of_mem (hp.perm.symm.subset hx)
  refine hp.perm.subset ?_
  rw [hl1]
  exact List.mem_append_left _ (hp.topological l1 x l2 hl1 q hq)

variable {m : Table String (Step κ)}

/-- The steps of a map stand under their ids. -/
theorem stepMapOf_get {steps : List (Step κ)} (h : stepMapOf steps = .ok m) :
    ∀ id s, m.get id = some s → s.id = id ∧ s.id ≠ "" := by
  have hfold : ∀ (l : List (Step κ)) (t : Table String (Step κ)),
      (∀ id s, t.get id = some s → s.id = id ∧ s.id ≠ "") →
      l.foldlM (fun t s => if s.id = "" then Except.error BuildError.missingId
        else Except.ok (t.put s.id (some s))) t = Except.ok m →
      ∀ id s, m.get id = some s → s.id = id ∧ s.id ≠ "" := by
    intro l
    induction l with
    | nil =>
      intro t ht hm
      cases hm
      exact ht
    | cons a rest ih =>
      intro t ht hm
      rw [List.foldlM_cons] at hm
      by_cases ha : a.id = ""
      · rw [if_pos ha] at hm
        cases hm
      · rw [if_neg ha] at hm
        refine ih _ (fun id s hs => ?_) hm
        rw [Table.get_put] at hs
        split at hs
        case isTrue he =>
          cases hs
          exact ⟨he.symm, ha⟩
        case isFalse => exact ht id s hs
  exact hfold steps .empty (by simp) h

private theorem graphOf_deps (h : graphOf m = .ok g) :
    ∀ e ∈ m.rows, e.2.dependsOn = [] ∨ ∃ q, e.2.dependsOn = [q] ∧ (m.get q).isSome = true := by
  have hfold : ∀ (l : List (String × Step κ)) (g0 : Graph),
      l.foldlM (addDependency m) g0 = .ok g → ∀ e ∈ l, e.2.dependsOn = [] ∨
        ∃ q, e.2.dependsOn = [q] ∧ (m.get q).isSome = true := by
    intro l
    induction l with
    | nil => simp
    | cons a rest ih =>
      intro g0 hg e he
      rw [List.foldlM_cons] at hg
      cases hadd : addDependency m g0 a with
      | error _ =>
        rw [hadd] at hg
        cases hg
      | ok g1 =>
        rw [hadd] at hg
        rcases List.mem_cons.mp he with rfl | he
        · unfold addDependency at hadd
          split at hadd
          case h_1 hd => exact Or.inl hd
          case h_2 q hd =>
            split at hadd
            · cases hadd
            case isFalse hq =>
              refine Or.inr ⟨q, hd, ?_⟩
              cases hm : m.get q <;> simp_all
          case h_3 => cases hadd
        · exact ih g1 hg e he
  exact hfold m.rows _ h

/-- The dependency of a step of a map. -/
private def mapParent (m : Table String (Step κ)) (id : String) : Option String :=
  (m.get id).bind fun s => s.dependsOn.head?

/-- The steps of a map: they stand under their ids, and make up the map. -/
theorem map_steps (hm : ∀ id s, m.get id = some s → s.id = id ∧ s.id ≠ "") :
    ids (m.rows.map Prod.snd) = m.rows.map Prod.fst ∧
      (∀ s ∈ m.rows.map Prod.snd, s.id ≠ "" ∧ m.get s.id = some s) ∧
      buildStepMap (m.rows.map Prod.snd) = m := by
  have hkey : ∀ e ∈ m.rows, e.2.id = e.1 ∧ e.2.id ≠ "" :=
    fun e he => hm e.1 e.2 ((m.mem_rows_iff e.1 e.2).mp he)
  have hids : ids (m.rows.map Prod.snd) = m.rows.map Prod.fst := by
    rw [ids, List.map_map]
    exact List.map_congr_left fun e he => (hkey e he).1
  have hunique : (ids (m.rows.map Prod.snd)).Nodup := hids ▸ m.nodup
  have hsteps : ∀ s ∈ m.rows.map Prod.snd, s.id ≠ "" ∧ m.get s.id = some s := by
    intro s hs
    obtain ⟨e, he, rfl⟩ := List.mem_map.mp hs
    refine ⟨(hkey e he).2, ?_⟩
    rw [(hkey e he).1]
    exact (m.mem_rows_iff e.1 e.2).mp he
  refine ⟨hids, hsteps, ?_⟩
  have hrows : (buildStepMap (m.rows.map Prod.snd)).rows = m.rows := by
    rw [rows_buildStepMap hunique fun s hs => (hsteps s hs).1, rowsOf, List.map_map]
    conv_rhs => rw [← List.map_id m.rows]
    refine List.map_congr_left fun e he => ?_
    exact Prod.ext (hkey e he).1 rfl
  cases hb : buildStepMap (m.rows.map Prod.snd)
  cases m
  simp_all

private theorem wired_of_graphOf (hm : ∀ id s, m.get id = some s → s.id = id ∧ s.id ≠ "")
    (hg : graphOf m = .ok g) :
    Wired (m.rows.map Prod.snd) (mapParent m) := by
  obtain ⟨hids, hsteps, -⟩ := map_steps hm
  have hdeps : ∀ s ∈ m.rows.map Prod.snd, s.dependsOn = [] ∨
      ∃ q, s.dependsOn = [q] ∧ (m.get q).isSome = true := by
    intro s hs
    obtain ⟨e, he, rfl⟩ := List.mem_map.mp hs
    exact graphOf_deps hg e he
  refine ⟨hids ▸ m.nodup, fun s hs => (hsteps s hs).1, ?_, ?_⟩
  · intro s hs
    rw [mapParent, (hsteps s hs).2, Option.bind_some]
    rcases hdeps s hs with hd | ⟨q, hd, -⟩ <;> rw [hd] <;> rfl
  · intro id hid q hq
    obtain ⟨s, hs, rfl⟩ := List.mem_map.mp hid
    rw [mapParent, (hsteps s hs).2, Option.bind_some] at hq
    rcases hdeps s hs with hd | ⟨q', hd, hq'⟩
    · rw [hd] at hq
      cases hq
    · rw [hd, List.head?_cons, Option.some_inj] at hq
      subst hq
      obtain ⟨s', hs'⟩ := Option.isSome_iff_exists.mp hq'
      rw [hids]
      exact List.mem_map.mpr ⟨(q', s'), (m.mem_rows_iff q' s').mpr hs', rfl⟩

/-- The plan of a map whose steps are wired into a forest. -/
theorem planOf_map {steps : List (Step κ)} (hm : stepMapOf (applySteps steps) = .ok m)
    (F : Forest String) (h : Wired (m.rows.map Prod.snd) F.parent)
    (hnodes : F.nodes = m.rows.map Prod.fst) :
    ∃ g, planOf steps = .ok ⟨m, g, F.order⟩ ∧
      (∀ id ∈ F.nodes, g.parent id = F.parent id) ∧ ∀ p, g.dependentsOf p = F.kids p := by
  obtain ⟨hids, -, hmap⟩ := map_steps (stepMapOf_get hm)
  obtain ⟨g, hg, hparent, hdep, hroots, hdeg⟩ := graphOf_eq h
  rw [hmap] at hg
  rw [hids, ← hnodes] at hparent hdep hroots hdeg
  have hkids : g.dependentsOf = F.kids := funext hdep
  have hlen : m.rows.length = F.nodes.length := by
    rw [hnodes, List.length_map]
  have hkahn : kahn g.dependentsOf m.rows.length
      ((g.inDegree.rows.filter fun p => p.2 = 0).map Prod.fst) g.inDegree = F.order := by
    rw [hkids, hlen, hroots]
    refine kahn_eq_walk (fun p => F.nodup.filter _) ?_ _ _ _ ?_ ?_
    · intro p q c hp hq
      simp only [List.mem_filter, decide_eq_true_eq] at hp hq
      exact Option.some.inj (hp.2.symm.trans hq.2)
    · exact Forest.order_perm.nodup_iff.mpr F.nodup
    · intro x _ c hc
      simp only [List.mem_filter, decide_eq_true_eq] at hc
      rw [hdeg c hc.1]
      simp [hc.2]
  refine ⟨g, ?_, hparent, fun p => by rw [hkids]⟩
  unfold planOf
  rw [hm]
  dsimp only [bind, Except.bind]
  rw [hg]
  dsimp only
  rw [hkahn, if_neg]
  rw [not_not, hlen]
  exact Forest.order_perm.length_eq

theorem planOf_eq {steps : List (Step κ)} (F : Forest String)
    (h : Wired (applySteps steps) F.parent) (hnodes : F.nodes = ids (applySteps steps)) :
    ∃ g, planOf steps = .ok ⟨buildStepMap (applySteps steps), g, F.order⟩ ∧
      (∀ id ∈ F.nodes, g.parent id = F.parent id) ∧ ∀ p, g.dependentsOf p = F.kids p := by
  have hrows := rows_buildStepMap h.unique h.named
  refine planOf_map (stepMapOf_eq h.named) F ?_ ?_
  · have hsteps : (rowsOf (applySteps steps)).map Prod.snd = applySteps steps := by
      simp [rowsOf, Function.comp_def]
    rwa [hrows, hsteps]
  · rw [hrows, map_fst_rowsOf, hnodes]

theorem planOf_inv {steps : List (Step κ)} (h : planOf steps = .ok p) :
    stepMapOf (applySteps steps) = .ok p.steps ∧ graphOf p.steps = .ok p.graph ∧
      p.ordered = kahn p.graph.dependentsOf p.steps.rows.length
        ((p.graph.inDegree.rows.filter fun p => p.2 = 0).map Prod.fst) p.graph.inDegree ∧
      p.ordered.length = p.steps.rows.length := by
  unfold planOf at h
  cases hm : stepMapOf (applySteps steps) with
  | error _ =>
    rw [hm] at h
    cases h
  | ok m =>
    rw [hm] at h
    dsimp only [bind, Except.bind] at h
    cases hg : graphOf m with
    | error _ =>
      rw [hg] at h
      cases h
    | ok g =>
      rw [hg] at h
      dsimp only at h
      split at h
      · cases h
      case isFalse hlen =>
        cases h
        exact ⟨rfl, hg, rfl, not_not.mp hlen⟩

/-- Every plan is ordered. -/
theorem planOf_ordered {steps : List (Step κ)} (h : planOf steps = .ok p) :
    p.Ordered := by
  obtain ⟨hm, hg, hordered, hlen⟩ := planOf_inv h
  have hw := wired_of_graphOf (stepMapOf_get hm) hg
  obtain ⟨hids, -, hmap⟩ := map_steps (stepMapOf_get hm)
  obtain ⟨g', hg', hparent, hdep, hroots, hdeg⟩ := graphOf_eq hw
  rw [hmap, hg] at hg'
  cases hg'
  have hdepf : p.graph.dependentsOf = fun q => (ids (p.steps.rows.map Prod.snd)).filter fun c =>
      mapParent p.steps c = some q := funext hdep
  have hspec := kahn_spec (mapParent p.steps) hw.unique p.steps.rows.length
    ((p.graph.inDegree.rows.filter fun p => p.2 = 0).map Prod.fst) p.graph.inDegree [] (by
      rw [hroots]
      exact hw.unique.filter _) (by
      intro x hx
      rw [List.nil_append, hroots, List.mem_filter, decide_eq_true_eq] at hx
      exact ⟨hx.1, by simp [hx.2]⟩) (by
      intro c hc q hq
      rw [hdeg c hc]
      simp [hq])
  rw [← hdepf, ← hordered] at hspec
  obtain ⟨hnodup, hsub, htop⟩ := hspec
  rw [List.nil_append] at hnodup
  refine ⟨?_, hnodup, ?_, ?_⟩
  · rw [← hids]
    refine (List.subperm_of_subset hnodup hsub).perm_of_length_le ?_
    rw [hlen, hids, List.length_map]
  · intro l1 x l2 hl q hq
    have hx : x ∈ ids (p.steps.rows.map Prod.snd) := hsub (by
      rw [hl]
      simp)
    rw [hparent x hx] at hq
    exact htop l1 x l2 hl q hq
  · intro q
    rw [hdep q, hids]
    refine List.filter_congr fun c hc => ?_
    rw [hparent c (hids ▸ hc)]

/-- The steps of a map stand in the list, and every step of the list has an entry. -/
theorem stepMapOf_mem {steps : List (Step κ)} (h : stepMapOf steps = .ok m) :
    (∀ id s, m.get id = some s → s ∈ steps) ∧ ∀ s ∈ steps, (m.get s.id).isSome := by
  have hfold : ∀ (l : List (Step κ)) (t : Table String (Step κ)),
      l.foldlM (fun t s => if s.id = "" then Except.error BuildError.missingId
        else Except.ok (t.put s.id (some s))) t = Except.ok m →
      (∀ id s, m.get id = some s → s ∈ l ∨ t.get id = some s) ∧
      ∀ id, (∃ s ∈ l, s.id = id) ∨ (t.get id).isSome → (m.get id).isSome := by
    intro l
    induction l with
    | nil =>
      intro t hm
      cases hm
      simp
    | cons a rest ih =>
      intro t hm
      rw [List.foldlM_cons] at hm
      by_cases ha : a.id = ""
      · rw [if_pos ha] at hm
        cases hm
      · rw [if_neg ha] at hm
        obtain ⟨h1, h2⟩ := ih _ hm
        constructor
        · intro id s hs
          rcases h1 id s hs with hr | ht
          · exact .inl (List.mem_cons_of_mem _ hr)
          · rw [Table.get_put] at ht
            split at ht
            · cases ht
              exact .inl List.mem_cons_self
            · exact .inr ht
        · intro id hid
          refine h2 id ?_
          rw [Table.get_put]
          by_cases hia : id = a.id
          · exact .inr (by simp [hia])
          · rw [if_neg hia]
            rcases hid with ⟨s, hs, rfl⟩ | ht
            · rcases List.mem_cons.mp hs with rfl | hs
              · exact absurd rfl hia
              · exact .inl ⟨s, hs, rfl⟩
            · exact .inr ht
  obtain ⟨h1, h2⟩ := hfold steps .empty h
  exact ⟨fun id s hs => (h1 id s hs).resolve_right (by simp),
    fun s hs => h2 s.id (.inl ⟨s, hs, rfl⟩)⟩

theorem planOf_steps {steps : List (Step κ)} (h : planOf steps = .ok p) :
    (∀ s ∈ applySteps steps, (p.steps.get s.id).isSome) ∧
      ∀ id s, p.steps.get id = some s → s ∈ applySteps steps ∧ s.id = id ∧ s.id ≠ "" ∧
        s.dependsOn = (p.graph.parent id).toList := by
  obtain ⟨hm, hg, -, -⟩ := planOf_inv h
  have hw := wired_of_graphOf (stepMapOf_get hm) hg
  obtain ⟨hids, -, hmap⟩ := map_steps (stepMapOf_get hm)
  obtain ⟨g', hg', hparent, -, -, -⟩ := graphOf_eq hw
  rw [hmap, hg] at hg'
  cases hg'
  obtain ⟨h1, h2⟩ := stepMapOf_mem hm
  refine ⟨h2, fun id s hs => ?_⟩
  obtain ⟨hid, hne⟩ := stepMapOf_get hm id s hs
  have hrow : s ∈ p.steps.rows.map Prod.snd :=
    List.mem_map.mpr ⟨(id, s), (p.steps.mem_rows_iff id s).mpr hs, rfl⟩
  have hmem : id ∈ ids (p.steps.rows.map Prod.snd) := hid ▸ List.mem_map_of_mem hrow
  refine ⟨h1 id s hs, hid, hne, ?_⟩
  rw [hparent id hmem, hw.wired s hrow, hid]

end DataForge.Pipeline
