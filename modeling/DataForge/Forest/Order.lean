import Mathlib.Data.List.Shortlex
import Mathlib.Logic.Relation
import Mathlib.Data.Finset.Card
import Mathlib.Data.List.Perm.Subperm

/-!
# Breadth-first order of a forest

Library `Forest`. Nodes stand in a list and each has at most one parent. A node's path runs from
its root down to it. A first-in-first-out walk that starts with the roots and appends the
children of each node it visits, in list order, visits the nodes level by level; within a level
the paths, read as list positions, are in lexicographic order. So the walk orders the nodes by
the shortlex order of their paths, and its last node is the greatest one.
-/

variable {α : Type}

/-- Nodes with at most one parent each, which is a node, and without a cycle. -/
structure Forest (α : Type) where
  nodes : List α
  parent : α → Option α
  nodup : nodes.Nodup
  closed : ∀ x ∈ nodes, ∀ p, parent x = some p → p ∈ nodes
  acyclic : ∀ x ∈ nodes, ¬ Relation.TransGen (fun a b => parent a = some b) x x

namespace Forest

/-- At most `n` ancestors of a node, from the top down to the node itself. -/
def lineage (parent : α → Option α) : ℕ → α → List α
  | 0, _ => []
  | n + 1, x =>
    match parent x with
    | none => [x]
    | some p => lineage parent n p ++ [x]

/-- Visit the first node of a queue and append its children to the queue. -/
def walk (kids : α → List α) : ℕ → List α → List α
  | 0, _ => []
  | _ + 1, [] => []
  | n + 1, x :: queue => x :: walk kids n (queue ++ kids x)

/-- A queue, then all children of its nodes, and so on. -/
def spread (kids : α → List α) : ℕ → List α → List α
  | 0, _ => []
  | n + 1, queue => queue ++ spread kids n (queue.flatMap kids)

theorem walk_append (kids : α → List α) (n : ℕ) (q r : List α) :
    walk kids (q.length + n) (q ++ r) = q ++ walk kids n (r ++ q.flatMap kids) := by
  induction q generalizing r with
  | nil => simp
  | cons x q ih =>
    have hlen : (x :: q).length + n = (q.length + n) + 1 := by
      simp only [List.length_cons]
      omega
    rw [hlen, List.cons_append, walk, List.append_assoc, ih, List.flatMap_cons,
      List.append_assoc, List.cons_append]

theorem walk_eq_spread (kids : α → List α) {n : ℕ} :
    ∀ {fuel : ℕ} {q : List α}, (spread kids n q).length ≤ fuel →
      (fun l => l.flatMap kids)^[n] q = [] → walk kids fuel q = spread kids n q := by
  induction n with
  | zero =>
    intro fuel q _ hq
    have hq : q = [] := hq
    subst hq
    cases fuel <;> rfl
  | succ n ih =>
    intro fuel q hlen hq
    rw [spread, List.length_append] at hlen
    obtain ⟨m, rfl⟩ : ∃ m, fuel = q.length + m := ⟨fuel - q.length, by omega⟩
    have hwalk := walk_append kids m q []
    rw [List.append_nil, List.nil_append] at hwalk
    rw [hwalk, spread, ih (Nat.le_of_add_le_add_left hlen) hq]

variable (F : Forest α)

/-- The nodes from the root of a node down to it. -/
def path (x : α) : List α := lineage F.parent F.nodes.length x

variable [DecidableEq α]

/-- The children of a node, in list order. -/
def kids (p : α) : List α := F.nodes.filter fun x => F.parent x = some p

/-- The nodes without parent, in list order. -/
def roots : List α := F.nodes.filter fun x => F.parent x = none

/-- The nodes of one level. -/
def level : ℕ → List α
  | 0 => F.roots
  | k + 1 => (level k).flatMap F.kids

/-- The path of a node as list positions. -/
def chain (x : α) : List ℕ := (F.path x).map fun y => F.nodes.idxOf y

/-- The breadth-first order. -/
def order : List α := walk F.kids F.nodes.length F.roots

/-! ## Paths -/

section Paths

open Classical in
/-- The number of ancestors of a node. -/
private noncomputable def rank (x : α) : ℕ :=
  (F.nodes.toFinset.filter fun y => Relation.TransGen (fun a b => F.parent a = some b) x y).card

variable {F} {x p : α}

private theorem rank_parent (hx : x ∈ F.nodes) (hp : F.parent x = some p) :
    F.rank p < F.rank x := by
  classical
  have hpn := F.closed x hx p hp
  apply Finset.card_lt_card
  refine ⟨fun y hy => ?_, fun hsub => ?_⟩
  · rw [Finset.mem_filter] at hy ⊢
    exact ⟨hy.1, .head hp hy.2⟩
  · have hmem := hsub (Finset.mem_filter.mpr ⟨List.mem_toFinset.mpr hpn, .single hp⟩)
    exact F.acyclic p hpn (Finset.mem_filter.mp hmem).2

private theorem rank_lt (hx : x ∈ F.nodes) : F.rank x < F.nodes.length := by
  classical
  rw [← List.toFinset_card_of_nodup F.nodup]
  apply Finset.card_lt_card
  refine ⟨Finset.filter_subset _ _, fun hsub => ?_⟩
  have hmem := hsub (List.mem_toFinset.mpr hx)
  exact F.acyclic x hx (Finset.mem_filter.mp hmem).2

private theorem lineage_succ {n : ℕ} (hx : x ∈ F.nodes) (hn : F.rank x < n) :
    lineage F.parent n x = lineage F.parent (n + 1) x := by
  induction n generalizing x with
  | zero => omega
  | succ n ih =>
    rw [lineage, lineage]
    cases hp : F.parent x with
    | none => rfl
    | some p =>
      have hlt := rank_parent hx hp
      dsimp only
      rw [ih (F.closed x hx p hp) (by omega)]

omit [DecidableEq α] in
theorem path_root (hx : x ∈ F.nodes) (hp : F.parent x = none) : F.path x = [x] := by
  obtain ⟨n, hn⟩ : ∃ n, F.nodes.length = n + 1 :=
    ⟨F.nodes.length - 1, by have := List.length_pos_of_mem hx; omega⟩
  rw [path, hn, lineage, hp]

theorem path_child (hx : x ∈ F.nodes) (hp : F.parent x = some p) :
    F.path x = F.path p ++ [x] := by
  obtain ⟨n, hn⟩ : ∃ n, F.nodes.length = n + 1 :=
    ⟨F.nodes.length - 1, by have := List.length_pos_of_mem hx; omega⟩
  have hlt := rank_parent hx hp
  have hlx := rank_lt hx
  rw [path, path, hn, lineage, hp]
  dsimp only
  rw [lineage_succ (F.closed x hx p hp) (by omega)]

theorem descend {motive : α → Prop}
    (root : ∀ x ∈ F.nodes, F.parent x = none → motive x)
    (child : ∀ x ∈ F.nodes, ∀ p ∈ F.nodes, F.parent x = some p → motive p → motive x) :
    ∀ x ∈ F.nodes, motive x := by
  intro x hx
  induction hr : F.rank x using Nat.strong_induction_on generalizing x with
  | _ n ih =>
    cases hp : F.parent x with
    | none => exact root x hx hp
    | some p =>
      have hpn := F.closed x hx p hp
      have hlt := rank_parent hx hp
      exact child x hx p hpn hp (ih _ (hr ▸ hlt) p hpn rfl)

theorem getLast?_path (hx : x ∈ F.nodes) : (F.path x).getLast? = some x := by
  cases hp : F.parent x with
  | none => rw [path_root hx hp]; rfl
  | some p => rw [path_child hx hp, List.getLast?_concat]

theorem mem_of_mem_path : ∀ x ∈ F.nodes, ∀ y ∈ F.path x, y ∈ F.nodes := by
  apply descend
  · intro x hx hp y hy
    rw [path_root hx hp, List.mem_singleton] at hy
    exact hy ▸ hx
  · intro x hx p _ hp ih y hy
    rw [path_child hx hp, List.mem_append, List.mem_singleton] at hy
    rcases hy with hy | rfl
    · exact ih y hy
    · exact hx

theorem reaches_of_mem_path : ∀ x ∈ F.nodes, ∀ y ∈ F.path x,
    Relation.ReflTransGen (fun a b => F.parent a = some b) x y := by
  apply descend
  · intro x hx hp y hy
    rw [path_root hx hp, List.mem_singleton] at hy
    exact hy ▸ .refl
  · intro x hx p _ hp ih y hy
    rw [path_child hx hp, List.mem_append, List.mem_singleton] at hy
    rcases hy with hy | rfl
    · exact .head hp (ih y hy)
    · exact .refl

theorem nodup_path : ∀ x ∈ F.nodes, (F.path x).Nodup := by
  apply descend
  · intro x hx hp
    rw [path_root hx hp]
    exact List.nodup_singleton x
  · intro x hx p hpn hp ih
    rw [path_child hx hp, List.nodup_append]
    refine ⟨ih, List.nodup_singleton x, fun y hy z hz => ?_⟩
    rw [List.mem_singleton] at hz
    subst hz
    rintro rfl
    exact F.acyclic y hx (.head' hp (reaches_of_mem_path p hpn y hy))

theorem length_path_pos (hx : x ∈ F.nodes) : 0 < (F.path x).length := by
  cases hp : F.parent x with
  | none => simp [path_root hx hp]
  | some p => simp [path_child hx hp]

omit [DecidableEq α] in
theorem length_path_le (x : α) : (F.path x).length ≤ F.nodes.length := by
  suffices ∀ n, (lineage F.parent n x).length ≤ n from this _
  intro n
  induction n generalizing x with
  | zero => simp [lineage]
  | succ n ih =>
    rw [lineage]
    cases F.parent x with
    | none => simp
    | some p => simpa using ih p

end Paths

/-! ## Levels -/

section Levels

variable {F} {x : α}

/-- The nodes of a level are those with a path of that length. -/
theorem mem_level {k : ℕ} : x ∈ F.level k ↔ x ∈ F.nodes ∧ (F.path x).length = k + 1 := by
  induction k generalizing x with
  | zero =>
    simp only [level, roots, List.mem_filter, decide_eq_true_eq]
    refine and_congr_right fun hx => ?_
    cases hp : F.parent x with
    | none => simp [path_root hx hp]
    | some p =>
      have := length_path_pos (F.closed x hx p hp)
      simp only [path_child hx hp, reduceCtorEq, List.length_append, List.length_singleton,
        false_iff]
      omega
  | succ k ih =>
    simp only [level, kids, List.mem_flatMap, List.mem_filter, decide_eq_true_eq]
    constructor
    · rintro ⟨p, hp, hx, hpar⟩
      refine ⟨hx, ?_⟩
      rw [path_child hx hpar, List.length_append, (ih.mp hp).2, List.length_singleton]
    · rintro ⟨hx, hlen⟩
      cases hp : F.parent x with
      | none => simp [path_root hx hp] at hlen
      | some p =>
        refine ⟨p, ih.mpr ⟨F.closed x hx p hp, ?_⟩, hx, rfl⟩
        rw [path_child hx hp, List.length_append, List.length_singleton] at hlen
        omega

theorem mem_spread_level {n k : ℕ} :
    x ∈ spread F.kids n (F.level k) ↔ ∃ j < n, x ∈ F.level (k + j) := by
  induction n generalizing k with
  | zero => simp [spread]
  | succ n ih =>
    rw [spread, List.mem_append]
    change _ ∨ x ∈ spread F.kids n (F.level (k + 1)) ↔ _
    rw [ih]
    constructor
    · rintro (h | ⟨j, hj, h⟩)
      · exact ⟨0, by omega, h⟩
      · exact ⟨j + 1, by omega, by rwa [show k + (j + 1) = k + 1 + j by omega]⟩
    · rintro ⟨j, hj, h⟩
      cases j with
      | zero => exact Or.inl h
      | succ j => exact Or.inr ⟨j, by omega, by rwa [show k + 1 + j = k + (j + 1) by omega]⟩

theorem iterate_level (n k : ℕ) :
    (fun l => l.flatMap F.kids)^[n] (F.level k) = F.level (k + n) := by
  induction n generalizing k with
  | zero => rfl
  | succ n ih =>
    rw [Function.iterate_succ_apply]
    change (fun l => l.flatMap F.kids)^[n] (F.level (k + 1)) = _
    rw [ih, show k + 1 + n = k + (n + 1) by omega]

end Levels

/-! ## The order -/

section Order

variable {F} {x y : α}

private theorem pairwise_idxOf {l : List α} (hl : l.Nodup) :
    l.Pairwise fun x y => l.idxOf x < l.idxOf y := by
  induction l with
  | nil => exact .nil
  | cons a l ih =>
    rw [List.nodup_cons] at hl
    refine List.pairwise_cons.mpr ⟨fun y hy => ?_, ?_⟩
    · have hne : a ≠ y := fun h => hl.1 (h ▸ hy)
      simp [List.idxOf_cons_ne _ hne]
    · refine (ih hl.2).imp_of_mem fun {x y} hx hy hlt => ?_
      have hx : a ≠ x := fun h => hl.1 (h ▸ hx)
      have hy : a ≠ y := fun h => hl.1 (h ▸ hy)
      simpa [List.idxOf_cons_ne _ hx, List.idxOf_cons_ne _ hy] using hlt

private theorem lex_append {s t : List ℕ} (h : List.Lex (· < ·) s t) (hlen : s.length = t.length)
    (u v : List ℕ) : List.Lex (· < ·) (s ++ u) (t ++ v) := by
  induction h with
  | nil => simp at hlen
  | cons _ ih => exact .cons (ih (by simpa using hlen))
  | rel hab => exact .rel hab

/-- The paths of one level are in lexicographic order. -/
theorem pairwise_level (k : ℕ) :
    (F.level k).Pairwise fun x y => List.Lex (· < ·) (F.chain x) (F.chain y) := by
  have hpos := pairwise_idxOf F.nodup
  induction k with
  | zero =>
    refine List.Pairwise.imp_of_mem ?_ (hpos.filter fun x => F.parent x = none)
    intro x y hx hy hlt
    simp only [level, roots, List.mem_filter, decide_eq_true_eq] at hx hy
    simp only [chain, path_root hx.1 hx.2, path_root hy.1 hy.2, List.map_cons]
    exact .rel hlt
  | succ k ih =>
    rw [level, List.pairwise_flatMap]
    constructor
    · intro p _
      refine List.Pairwise.imp_of_mem ?_ (hpos.filter fun x => F.parent x = some p)
      intro x y hx hy hlt
      simp only [kids, List.mem_filter, decide_eq_true_eq] at hx hy
      simp only [chain, path_child hx.1 hx.2, path_child hy.1 hy.2, List.map_append]
      exact List.Lex.append_left _ (List.Lex.rel hlt) _
    · refine ih.imp_of_mem fun {p q} hp hq hlt x hx y hy => ?_
      simp only [kids, List.mem_filter, decide_eq_true_eq] at hx hy
      have hlen : (F.chain p).length = (F.chain q).length := by
        simp [chain, (mem_level.mp hp).2, (mem_level.mp hq).2]
      simp only [chain, path_child hx.1 hx.2, path_child hy.1 hy.2, List.map_append]
      exact lex_append hlt hlen _ _

private theorem chain_length (x : α) : (F.chain x).length = (F.path x).length := by
  simp [chain]

private theorem pairwise_spread (n k : ℕ) : (spread F.kids n (F.level k)).Pairwise
    fun x y => List.Shortlex (· < ·) (F.chain x) (F.chain y) := by
  induction n generalizing k with
  | zero => exact .nil
  | succ n ih =>
    rw [spread, List.pairwise_append]
    refine ⟨(pairwise_level k).imp_of_mem fun {x y} hx hy hlt => ?_, ih (k + 1),
      fun x hx y hy => ?_⟩
    · refine .of_lex ?_ hlt
      rw [chain_length, chain_length, (mem_level.mp hx).2, (mem_level.mp hy).2]
    · obtain ⟨j, -, hj⟩ := mem_spread_level (k := k + 1).mp hy
      apply List.Shortlex.of_length_lt
      rw [chain_length, chain_length, (mem_level.mp hx).2, (mem_level.mp hj).2]
      omega

private theorem mem_spread_roots : x ∈ spread F.kids F.nodes.length F.roots ↔ x ∈ F.nodes := by
  change x ∈ spread F.kids F.nodes.length (F.level 0) ↔ _
  rw [mem_spread_level]
  constructor
  · rintro ⟨j, -, hj⟩
    exact (mem_level.mp hj).1
  · intro hx
    have hpos := length_path_pos hx
    have hle := length_path_le (F := F) x
    exact ⟨(F.path x).length - 1, by omega, mem_level.mpr ⟨hx, by omega⟩⟩

private theorem not_shortlex_self (l : List ℕ) : ¬ List.Shortlex (· < ·) l l := by
  rw [List.shortlex_def]
  rintro (h | ⟨-, h⟩)
  · exact lt_irrefl _ h
  · exact List.lt_irrefl l h

private theorem shortlex_trans {l m n : List ℕ} (h1 : List.Shortlex (· < ·) l m)
    (h2 : List.Shortlex (· < ·) m n) : List.Shortlex (· < ·) l n := by
  rw [List.shortlex_def] at h1 h2 ⊢
  rcases h1 with h1 | ⟨e1, h1⟩ <;> rcases h2 with h2 | ⟨e2, h2⟩
  · exact Or.inl (h1.trans h2)
  · exact Or.inl (e2 ▸ h1)
  · exact Or.inl (e1 ▸ h2)
  · exact Or.inr ⟨e1.trans e2, List.lt_trans h1 h2⟩

private theorem nodup_spread : (spread F.kids F.nodes.length F.roots).Nodup := by
  refine (pairwise_spread F.nodes.length 0).imp fun {x y} h hxy => ?_
  exact not_shortlex_self _ (hxy ▸ h)

private theorem spread_perm : (spread F.kids F.nodes.length F.roots).Perm F.nodes :=
  (List.perm_ext_iff_of_nodup nodup_spread F.nodup).mpr fun _ => mem_spread_roots

theorem order_eq_spread : F.order = spread F.kids F.nodes.length F.roots := by
  apply walk_eq_spread
  · exact spread_perm.length_eq.le
  · change (fun l => l.flatMap F.kids)^[F.nodes.length] (F.level 0) = []
    rw [iterate_level, List.eq_nil_iff_forall_not_mem]
    intro x hx
    have hlen := (mem_level.mp hx).2
    have hle := length_path_le (F := F) x
    omega

theorem order_perm : F.order.Perm F.nodes := by
  rw [order_eq_spread]
  exact spread_perm

theorem pairwise_order :
    F.order.Pairwise fun x y => List.Shortlex (· < ·) (F.chain x) (F.chain y) := by
  rw [order_eq_spread]
  exact pairwise_spread F.nodes.length 0

theorem parent_mem_of_order {l1 l2 : List α} {p : α} (h : F.order = l1 ++ x :: l2)
    (hp : F.parent x = some p) : p ∈ l1 := by
  have hx : x ∈ F.nodes := order_perm.subset (by simp [h])
  have hpn : p ∈ F.order := order_perm.symm.subset (F.closed x hx p hp)
  have hlt : (F.chain p).length < (F.chain x).length := by
    simp [chain, path_child hx hp]
  rw [h, List.mem_append, List.mem_cons] at hpn
  rcases hpn with hpn | rfl | hpn
  · exact hpn
  · exact absurd hlt (lt_irrefl _)
  · have hpw := pairwise_order (F := F)
    rw [h, List.pairwise_append, List.pairwise_cons] at hpw
    rcases List.shortlex_def.mp (hpw.2.1.1 p hpn) with hxp | hxp
    · exact absurd hlt hxp.asymm
    · exact absurd hlt (hxp.1 ▸ lt_irrefl _)

theorem kids_last (h : F.order.getLast? = some x) : F.kids x = [] := by
  obtain ⟨l, hl⟩ := List.getLast?_eq_some_iff.mp h
  rw [List.eq_nil_iff_forall_not_mem]
  intro y hy
  simp only [kids, List.mem_filter, decide_eq_true_eq] at hy
  have hnd : F.order.Nodup := order_perm.nodup_iff.mpr F.nodup
  obtain ⟨l1, l2, hsplit⟩ := List.append_of_mem (order_perm.symm.subset hy.1)
  have hx := parent_mem_of_order hsplit hy.2
  -- the last node would stand before its child and at the end
  rw [hsplit] at hnd
  have hlast : x ∈ y :: l2 := by
    rw [hsplit, List.getLast?_append] at h
    exact List.mem_of_getLast? (by simpa using h)
  exact (List.nodup_append.mp hnd).2.2 x hx x hlast rfl

/-- The last node of the order is the one with the greatest path. -/
theorem getLast?_order_iff (hx : x ∈ F.nodes) : F.order.getLast? = some x ↔
    ∀ y ∈ F.nodes, y ≠ x → List.Shortlex (· < ·) (F.chain y) (F.chain x) := by
  constructor
  · intro hlast y hy hne
    obtain ⟨l, hl⟩ := List.getLast?_eq_some_iff.mp hlast
    have hpw := pairwise_order (F := F)
    rw [hl, List.pairwise_append] at hpw
    have hyo : y ∈ l ++ [x] := hl ▸ order_perm.symm.subset hy
    rw [List.mem_append, List.mem_singleton] at hyo
    exact hpw.2.2 y (hyo.resolve_right hne) x (List.mem_singleton_self x)
  · intro hmax
    have hxo : x ∈ F.order := order_perm.symm.subset hx
    cases hlast : F.order.getLast? with
    | none =>
      rw [List.getLast?_eq_none_iff] at hlast
      simp [hlast] at hxo
    | some z =>
      by_cases hzx : z = x
      · rw [hzx]
      · obtain ⟨l, hl⟩ := List.getLast?_eq_some_iff.mp hlast
        have hz : z ∈ F.nodes := order_perm.subset (by simp [hl])
        have hpw := pairwise_order (F := F)
        rw [hl, List.pairwise_append] at hpw
        rw [hl, List.mem_append, List.mem_singleton] at hxo
        have hxz := hpw.2.2 x (hxo.resolve_right (Ne.symm hzx)) z (List.mem_singleton_self z)
        exact absurd (shortlex_trans (hmax z hz hzx) hxz) (not_shortlex_self _)

end Order

end Forest
