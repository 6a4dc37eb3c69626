import DataForge.Forest.Bypass
import DataForge.Forest.Search
import Mathlib

/-!
# Dependency order

A depth-first visit with a stack collects what is reachable from a point. The queue of the points
that wait for nothing (Kahn's algorithm) puts every point from which no cycle can be reached
behind what it depends on, and leaves out exactly the others.
-/

namespace Search

open Relation

variable {α : Type} [DecidableEq α]

/-! ## The visit -/

/-- Take the last of the stack, and stack its neighbors unless it has been visited; the top of
the stack is its head. -/
def visit (next : α → List α) : ℕ → List α → List α → Option (List α)
  | _, [], visited => some visited
  | 0, _ :: _, _ => none
  | fuel + 1, current :: stack, visited =>
    if current ∈ visited then visit next fuel stack visited
    else visit next fuel ((next current).reverse ++ stack) (visited ++ [current])

/-- The state of a visit from `start`: everything at hand has a path from there, and the
neighbors of what has been visited are at hand. -/
structure Visiting (next : α → List α) (start : α) (stack visited : List α) : Prop where
  started : start ∈ visited ∨ start ∈ stack
  sound : ∀ b, b ∈ visited ∨ b ∈ stack → ReflTransGen (Edge next) start b
  closed : ∀ b ∈ visited, ∀ c ∈ next b, c ∈ visited ∨ c ∈ stack
  nodup : visited.Nodup

variable {next : α → List α} {start current : α} {stack visited : List α}

omit [DecidableEq α] in
theorem Visiting.skip (h : Visiting next start (current :: stack) visited)
    (hin : current ∈ visited) : Visiting next start stack visited := by
  have hout : ∀ b, b ∈ visited ∨ b ∈ current :: stack → b ∈ visited ∨ b ∈ stack := by
    rintro b (hb | hb)
    · exact Or.inl hb
    · rcases List.mem_cons.mp hb with rfl | hb
      · exact Or.inl hin
      · exact Or.inr hb
  exact ⟨hout _ h.started, fun b hb => h.sound b (hb.imp_right (List.mem_cons_of_mem _)),
    fun b hb c hc => hout c (h.closed b hb c hc), h.nodup⟩

omit [DecidableEq α] in
theorem Visiting.enter (h : Visiting next start (current :: stack) visited)
    (hnew : current ∉ visited) :
    Visiting next start ((next current).reverse ++ stack) (visited ++ [current]) := by
  have hout : ∀ b, b ∈ visited ∨ b ∈ current :: stack →
      b ∈ visited ++ [current] ∨ b ∈ (next current).reverse ++ stack := by
    intro b hb
    simp only [List.mem_append, List.mem_cons, List.not_mem_nil, or_false] at hb ⊢
    tauto
  have hpath := h.sound current (Or.inr List.mem_cons_self)
  refine ⟨hout _ h.started, ?_, ?_, ?_⟩
  · intro b hb
    simp only [List.mem_append, List.mem_reverse, List.mem_cons, List.not_mem_nil, or_false] at hb
    rcases hb with (hb | rfl) | hb | hb
    · exact h.sound b (Or.inl hb)
    · exact hpath
    · exact hpath.tail hb
    · exact h.sound b (Or.inr (List.mem_cons_of_mem _ hb))
  · intro b hb c hc
    rcases List.mem_append.mp hb with hb | hb
    · exact hout c (h.closed b hb c hc)
    · rw [List.mem_singleton.mp hb] at hc
      exact Or.inr (List.mem_append_left _ (List.mem_reverse.mpr hc))
  · refine List.nodup_append.mpr ⟨h.nodup, List.nodup_singleton _, ?_⟩
    intro b hb c hc hbc
    exact hnew (List.mem_singleton.mp hc ▸ hbc ▸ hb)

omit [DecidableEq α] in
theorem Visiting.mem_iff (h : Visiting next start [] visited) {b : α} :
    b ∈ visited ↔ ReflTransGen (Edge next) start b := by
  refine ⟨fun hb => h.sound b (Or.inl hb), fun hpath => ?_⟩
  induction hpath with
  | refl => exact h.started.resolve_right List.not_mem_nil
  | tail _ hstep ih => exact (h.closed _ ih _ hstep).resolve_right List.not_mem_nil

/-- What the points that have not been visited can still put on the stack. -/
def unseen (next : α → List α) (points visited : List α) : ℕ :=
  ∑ b ∈ points.toFinset \ visited.toFinset, (next b).length

theorem unseen_enter {points : List α} (hmem : current ∈ points) (hnew : current ∉ visited) :
    (next current).length + unseen next points (visited ++ [current]) =
      unseen next points visited := by
  have hrest : points.toFinset \ (visited ++ [current]).toFinset =
      (points.toFinset \ visited.toFinset).erase current := by
    ext b
    simp only [Finset.mem_sdiff, Finset.mem_erase, List.mem_toFinset, List.mem_append,
      List.mem_singleton]
    tauto
  rw [unseen, hrest]
  refine Finset.add_sum_erase _ (fun b => (next b).length) ?_
  rw [Finset.mem_sdiff, List.mem_toFinset, List.mem_toFinset]
  exact ⟨hmem, hnew⟩

/-- The visit ends, with what is reachable from its start. -/
theorem visit_of_visiting {points : List α} (hpoints : ∀ a ∈ points, ∀ b ∈ next a, b ∈ points)
    {fuel : ℕ} (h : Visiting next start stack visited) (hsub : ∀ b ∈ stack, b ∈ points)
    (hfuel : stack.length + unseen next points visited ≤ fuel) :
    ∃ r, visit next fuel stack visited = some r ∧ r.Nodup ∧
      ∀ b, b ∈ r ↔ ReflTransGen (Edge next) start b := by
  induction fuel generalizing stack visited with
  | zero =>
    obtain rfl : stack = [] := List.length_eq_zero_iff.mp (by omega)
    exact ⟨visited, rfl, h.nodup, fun b => h.mem_iff⟩
  | succ fuel ih =>
    cases stack with
    | nil => exact ⟨visited, rfl, h.nodup, fun b => h.mem_iff⟩
    | cons current stack =>
      rw [List.forall_mem_cons] at hsub
      rw [List.length_cons] at hfuel
      by_cases hin : current ∈ visited
      · rw [visit, if_pos hin]
        exact ih (h.skip hin) hsub.2 (by omega)
      · have hless : (next current).length + unseen next points (visited ++ [current]) =
            unseen next points visited := unseen_enter hsub.1 hin
        rw [visit, if_neg hin]
        refine ih (h.enter hin) (fun b hb => ?_) ?_
        · rcases List.mem_append.mp hb with hb | hb
          · exact hpoints current hsub.1 b (List.mem_reverse.mp hb)
          · exact hsub.2 b hb
        · rw [List.length_append, List.length_reverse]
          omega

theorem visit_start {points : List α} (hpoints : ∀ a ∈ points, ∀ b ∈ next a, b ∈ points)
    (hnodup : points.Nodup) (hstart : start ∈ points) :
    ∃ r, visit next (1 + (points.map fun b => (next b).length).sum) [start] [] = some r ∧
      r.Nodup ∧ ∀ b, b ∈ r ↔ ReflTransGen (Edge next) start b := by
  refine visit_of_visiting hpoints ⟨Or.inr (List.mem_singleton_self _), ?_, ?_, List.nodup_nil⟩
    (fun b hb => List.mem_singleton.mp hb ▸ hstart) ?_
  · rintro b (hb | hb)
    · cases hb
    · rw [List.mem_singleton.mp hb]
  · intro b hb
    cases hb
  · rw [unseen, List.toFinset_nil, Finset.sdiff_empty, List.sum_toFinset _ hnodup]
    exact Nat.le_refl _

/-! ## The order -/

/-- One that waits for the point just taken: it waits for one point less, and goes to the queue
when there is no more. -/
def release (s : (α → ℤ) × List α) (child : α) : (α → ℤ) × List α :=
  (Function.update s.1 child (s.1 child - 1),
    if s.1 child - 1 = 0 then s.2 ++ [child] else s.2)

/-- Take the first of the queue and release what depends on it, until nothing waits. -/
def kahn (children : α → List α) : ℕ → (α → ℤ) × List α → List α → Option (List α)
  | _, (_, []), ordered => some ordered
  | 0, (_, _ :: _), _ => none
  | fuel + 1, (degree, current :: queue), ordered =>
    kahn children fuel ((children current).foldl release (degree, queue)) (ordered ++ [current])

theorem foldl_release {l : List α} (hl : l.Nodup) (degree : α → ℤ) (queue : List α) :
    (∀ c, (l.foldl release (degree, queue)).1 c = if c ∈ l then degree c - 1 else degree c) ∧
      (l.foldl release (degree, queue)).2 = queue ++ l.filter fun c => degree c = 1 := by
  induction l generalizing degree queue with
  | nil => simp
  | cons a l ih =>
    obtain ⟨ha, hl⟩ := List.nodup_cons.mp hl
    obtain ⟨hdegree, hqueue⟩ := ih hl (release (degree, queue) a).1 (release (degree, queue) a).2
    have hother : ∀ c, c ≠ a → (release (degree, queue) a).1 c = degree c := fun c hc =>
      Function.update_of_ne hc _ _
    refine ⟨fun c => ?_, ?_⟩
    · rw [List.foldl_cons, hdegree c]
      by_cases hc : c = a
      · rw [hc, if_neg ha, if_pos List.mem_cons_self]
        exact Function.update_self ..
      · rw [hother c hc]
        simp only [List.mem_cons, hc, false_or]
    · have hrest : (l.filter fun c => decide ((release (degree, queue) a).1 c = 1)) =
          l.filter fun c => decide (degree c = 1) :=
        List.filter_congr fun c hc => by rw [hother c fun he => ha (he ▸ hc)]
      rw [List.foldl_cons, hqueue, hrest, List.filter_cons]
      by_cases hone : degree a = 1
      · simp [release, hone]
      · have hzero : ¬ degree a - 1 = 0 := by omega
        simp only [release, hone, hzero, if_false, decide_false, Bool.false_eq_true]

/-- A finite graph: what a point depends on, and what depends on it, each once. -/
structure Dependencies (points : List α) (deps children : α → List α) : Prop where
  nodup : points.Nodup
  mem : ∀ c ∈ points, ∀ d ∈ deps c, d ∈ points
  deps_nodup : ∀ c, (deps c).Nodup
  children_nodup : ∀ d, (children d).Nodup
  mem_children : ∀ c d, c ∈ children d ↔ c ∈ points ∧ d ∈ deps c

/-- The state of the sort: at hand is what depends on nothing else, and `degree` counts what a
point waits for. -/
structure Sorting (points : List α) (deps : α → List α) (s : (α → ℤ) × List α)
    (ordered : List α) : Prop where
  nodup : (ordered ++ s.2).Nodup
  mem : ∀ c, c ∈ ordered ++ s.2 ↔ c ∈ points ∧ ∀ d ∈ deps c, d ∈ ordered
  degree : ∀ c ∈ points, s.1 c = ((deps c).filter (· ∉ ordered)).length
  before : ∀ c ∈ ordered, ∀ d ∈ deps c, List.Sublist [d, c] ordered

variable {points : List α} {deps children : α → List α} {degree : α → ℤ} {queue ordered : List α}

theorem length_waiting {l : List α} (hl : l.Nodup) (hnew : current ∉ ordered) :
    ((l.filter (· ∉ ordered)).length : ℤ) =
      (l.filter (· ∉ ordered ++ [current])).length + if current ∈ l then 1 else 0 := by
  have hrest : l.filter (· ∉ ordered ++ [current]) =
      (l.filter (· ∉ ordered)).erase current := by
    rw [(hl.filter _).erase_eq_filter, List.filter_filter]
    refine List.filter_congr fun b _ => ?_
    rw [Bool.eq_iff_iff]
    simp [and_comm]
  rw [hrest, List.length_erase]
  by_cases hin : current ∈ l
  · have hmem : current ∈ l.filter (· ∉ ordered) :=
      List.mem_filter.mpr ⟨hin, decide_eq_true hnew⟩
    have := List.length_pos_of_mem hmem
    rw [if_pos hmem, if_pos hin]
    omega
  · have hmem : current ∉ l.filter (· ∉ ordered) := fun h => hin (List.mem_filter.mp h).1
    rw [if_neg hmem, if_neg hin]
    omega

/-- One point waits for exactly the one that is taken. -/
theorem Sorting.ready_iff (h : Sorting points deps (degree, current :: queue) ordered)
    (hdeps : Dependencies points deps children) {c : α} (hc : c ∈ points)
    (hcur : current ∈ deps c) :
    degree c = 1 ↔ ∀ d ∈ deps c, d ∈ ordered ++ [current] := by
  have hnew : current ∉ ordered := fun hin =>
    (List.nodup_append.mp h.nodup).2.2 current hin current List.mem_cons_self rfl
  have hlen := length_waiting (hdeps.deps_nodup c) hnew
  rw [if_pos hcur] at hlen
  have hdegree : degree c = _ := h.degree c hc
  rw [hdegree, hlen]
  constructor
  · intro hone d hd
    have hnil := List.length_eq_zero_iff.mp (by omega :
      ((deps c).filter (· ∉ ordered ++ [current])).length = 0)
    by_contra hout
    exact List.filter_eq_nil_iff.mp hnil d hd (decide_eq_true hout)
  · intro hall
    have hnil : (deps c).filter (· ∉ ordered ++ [current]) = [] :=
      List.filter_eq_nil_iff.mpr fun d hd => by
        simpa only [decide_eq_true_eq, not_not] using hall d hd
    rw [hnil]
    rfl

/-- One round keeps the sort going. -/
theorem Sorting.take (h : Sorting points deps (degree, current :: queue) ordered)
    (hdeps : Dependencies points deps children) :
    Sorting points deps ((children current).foldl release (degree, queue))
      (ordered ++ [current]) := by
  obtain ⟨hdegree, hqueue⟩ := foldl_release (hdeps.children_nodup current) degree queue
  have hnew : current ∉ ordered := fun hin =>
    (List.nodup_append.mp h.nodup).2.2 current hin current List.mem_cons_self rfl
  have hcurrent := (h.mem current).mp (List.mem_append_right _ List.mem_cons_self)
  have hall : ordered ++ [current] ++ ((children current).foldl release (degree, queue)).2 =
      (ordered ++ current :: queue) ++ (children current).filter fun c => degree c = 1 := by
    rw [hqueue]
    simp only [List.append_assoc, List.cons_append, List.nil_append]
  have hreleased : ∀ c, c ∈ (children current).filter (fun c => decide (degree c = 1)) ↔
      c ∈ points ∧ current ∈ deps c ∧ ∀ d ∈ deps c, d ∈ ordered ++ [current] := by
    intro c
    rw [List.mem_filter, hdeps.mem_children, decide_eq_true_eq, and_assoc]
    refine and_congr_right fun hc => and_congr_right fun hcur => ?_
    exact h.ready_iff hdeps hc hcur
  refine ⟨?_, ?_, ?_, ?_⟩
  · rw [hall]
    refine List.nodup_append.mpr ⟨h.nodup, (hdeps.children_nodup current).filter _, ?_⟩
    rintro c hold _ hrel rfl
    exact hnew (((h.mem c).mp hold).2 current ((hreleased c).mp hrel).2.1)
  · intro c
    rw [hall, List.mem_append, h.mem c, hreleased c]
    constructor
    · rintro (⟨hc, hin⟩ | ⟨hc, -, hin⟩)
      · exact ⟨hc, fun d hd => List.mem_append_left _ (hin d hd)⟩
      · exact ⟨hc, hin⟩
    · rintro ⟨hc, hin⟩
      by_cases hcur : current ∈ deps c
      · exact Or.inr ⟨hc, hcur, hin⟩
      · refine Or.inl ⟨hc, fun d hd => ?_⟩
        refine (List.mem_append.mp (hin d hd)).resolve_right fun he => hcur ?_
        exact List.mem_singleton.mp he ▸ hd
  · intro c hc
    have hlen := length_waiting (hdeps.deps_nodup c) hnew
    have hdc : degree c = _ := h.degree c hc
    rw [hdegree c]
    by_cases hcur : current ∈ deps c
    · rw [if_pos hcur] at hlen
      rw [if_pos ((hdeps.mem_children c current).mpr ⟨hc, hcur⟩), hdc, hlen]
      omega
    · rw [if_neg hcur] at hlen
      rw [if_neg fun hin => hcur ((hdeps.mem_children c current).mp hin).2, hdc, hlen]
      omega
  · intro c hc d hd
    rcases List.mem_append.mp hc with hc | hc
    · exact (h.before c hc d hd).trans (List.sublist_append_left _ _)
    · obtain rfl := List.mem_singleton.mp hc
      exact Forest.pair_sublist_append_cons (hcurrent.2 d hd)

theorem kahn_of_sorting (hdeps : Dependencies points deps children) {fuel : ℕ}
    {s : (α → ℤ) × List α} (h : Sorting points deps s ordered)
    (hfuel : points.length ≤ fuel + ordered.length) :
    ∃ r degree, kahn children fuel s ordered = some r ∧ Sorting points deps (degree, []) r := by
  induction fuel generalizing s ordered with
  | zero =>
    obtain ⟨degree, queue⟩ := s
    have hle : (ordered ++ queue).length ≤ points.length :=
      (h.nodup.subperm fun c hc => ((h.mem c).mp hc).1).length_le
    rw [List.length_append] at hle
    obtain rfl : queue = [] := List.length_eq_zero_iff.mp (by omega)
    exact ⟨ordered, degree, rfl, h⟩
  | succ fuel ih =>
    obtain ⟨degree, queue⟩ := s
    cases queue with
    | nil => exact ⟨ordered, degree, rfl, h⟩
    | cons current queue =>
      refine ih (h.take hdeps) ?_
      rw [List.length_append, List.length_singleton]
      omega

theorem Sorting.transGen (h : Sorting points deps (degree, []) ordered) {c d : α}
    (hc : c ∈ ordered) (hpath : TransGen (Edge deps) c d) : List.Sublist [d, c] ordered := by
  have hnodup : ordered.Nodup := (List.nodup_append.mp h.nodup).1
  induction hpath with
  | single hd => exact h.before c hc _ hd
  | tail _ hd ih =>
    have hmem := ih.subset List.mem_cons_self
    exact Forest.pair_sublist_trans hnodup (h.before _ hmem _ hd) ih

omit [DecidableEq α] in
/-- Of finitely many points on no cycle, one has no path to any of them. -/
theorem exists_last {r : α → α → Prop} {p : α → Prop} {l : List α} (hne : ∃ a ∈ l, p a)
    (hfree : ∀ a ∈ l, p a → ¬ TransGen r a a) :
    ∃ b ∈ l, p b ∧ ∀ d ∈ l, p d → ¬ TransGen r b d := by
  induction l with
  | nil => simp at hne
  | cons a l ih =>
    rw [List.forall_mem_cons] at hfree
    by_cases htail : ∃ b ∈ l, p b
    · obtain ⟨b, hb, hpb, hlast⟩ := ih htail hfree.2
      by_cases hback : p a ∧ TransGen r b a
      · refine ⟨a, List.mem_cons_self, hback.1, List.forall_mem_cons.mpr ⟨hfree.1, ?_⟩⟩
        exact fun d hd hpd had => hlast d hd hpd (hback.2.trans had)
      · refine ⟨b, List.mem_cons_of_mem _ hb, hpb, List.forall_mem_cons.mpr ⟨?_, hlast⟩⟩
        exact fun hpa hba => hback ⟨hpa, hba⟩
    · obtain ⟨b, hb, hpb⟩ := hne
      obtain rfl := (List.mem_cons.mp hb).resolve_right fun hin => htail ⟨b, hin, hpb⟩
      refine ⟨b, List.mem_cons_self, hpb, List.forall_mem_cons.mpr ⟨hfree.1, ?_⟩⟩
      exact fun d hd hpd => absurd ⟨d, hd, hpd⟩ htail

/-- A point from which a cycle can be reached. -/
def Entangled (deps : α → List α) (c : α) : Prop :=
  ∃ d, ReflTransGen (Edge deps) c d ∧ TransGen (Edge deps) d d

/-- What is sorted are the points from which no cycle can be reached. -/
theorem Sorting.mem_iff (h : Sorting points deps (degree, []) ordered)
    (hdeps : Dependencies points deps children) {c : α} (hc : c ∈ points) :
    c ∈ ordered ↔ ¬ Entangled deps c := by
  have hmem := h.mem
  rw [List.append_nil] at hmem
  constructor
  · rintro hin ⟨d, hpath, hcycle⟩
    have hd : d ∈ ordered := by
      rcases Relation.reflTransGen_iff_eq_or_transGen.mp hpath with rfl | hpath
      · exact hin
      · exact (h.transGen hin hpath).subset List.mem_cons_self
    have hnodup : ordered.Nodup := (List.nodup_append.mp h.nodup).1
    have htwice := (h.transGen hd hcycle).nodup hnodup
    exact (List.nodup_cons.mp htwice).1 (List.mem_singleton_self d)
  · intro hfree
    by_contra hout
    -- among the points reached from `c` that are not sorted, one has no dependency among them
    obtain ⟨b, hbp, ⟨hbpath, hbout⟩, hlast⟩ := exists_last
      (p := fun b => ReflTransGen (Edge deps) c b ∧ b ∉ ordered) ⟨c, hc, .refl, hout⟩
      fun b _ hb hcycle => hfree ⟨b, hb.1, hcycle⟩
    obtain ⟨d, hd, hdout⟩ : ∃ d ∈ deps b, d ∉ ordered := by
      by_contra hall
      refine hbout ((hmem b).mpr ⟨hbp, fun d hd => ?_⟩)
      by_contra hdout
      exact hall ⟨d, hd, hdout⟩
    exact hlast d (hdeps.mem b hbp d hd) ⟨hbpath.tail hd, hdout⟩ (.single hd)

end Search
