import DataForge.Forest.Search
import Mathlib.Data.List.Nodup

/-!
# Everything reachable

A worklist that collects what is reachable from a point. It ends after as many rounds as there
are points, cycles or not, with exactly what there is a path to.
-/

namespace Search

open Relation

variable {α : Type} [DecidableEq α]

/-- What is reached, and what of it waits in the queue, after a neighbor is seen. -/
def discover (s : List α × List α) (neighbor : α) : List α × List α :=
  if neighbor ∈ s.1 then s else (s.1 ++ [neighbor], s.2 ++ [neighbor])

/-- Take the first of the queue and see its neighbors, until nothing waits. -/
def closure (next : α → List α) : ℕ → List α × List α → Option (List α)
  | _, (reached, []) => some reached
  | 0, (_, _ :: _) => none
  | fuel + 1, (reached, current :: queue) =>
    closure next fuel ((next current).foldl discover (reached, queue))

theorem mem_reached_discover {s : List α × List α} {a b : α} :
    b ∈ (discover s a).1 ↔ b ∈ s.1 ∨ b = a := by
  rw [discover]
  split
  · next h =>
    refine ⟨Or.inl, ?_⟩
    rintro (hb | rfl)
    · exact hb
    · exact h
  · rw [List.mem_append, List.mem_singleton]

theorem mem_reached_foldl {l : List α} {s : List α × List α} {b : α} :
    b ∈ (l.foldl discover s).1 ↔ b ∈ s.1 ∨ b ∈ l := by
  induction l generalizing s with
  | nil => simp
  | cons a l ih => rw [List.foldl_cons, ih, mem_reached_discover, or_assoc, List.mem_cons]

/-- The state of a search from `start`: what is reached has a path from there, and what does not
wait any more has only neighbors that are reached, but for the points of `current`. -/
structure Exploring (next : α → List α) (start : α) (current : List α) (s : List α × List α) :
    Prop where
  started : start ∈ s.1
  sound : ∀ b ∈ s.1, ReflTransGen (Edge next) start b
  closed : ∀ b ∈ s.1, b ∉ s.2 → b ∉ current → ∀ c ∈ next b, c ∈ s.1
  waiting : ∀ b ∈ s.2, b ∈ s.1
  nodup : s.1.Nodup

variable {next : α → List α} {start : α} {current : List α} {s : List α × List α}

theorem Exploring.discover (h : Exploring next start current s) {a : α}
    (ha : ReflTransGen (Edge next) start a) : Exploring next start current (discover s a) := by
  rw [Search.discover]
  split
  · exact h
  · next hnew =>
    refine ⟨List.mem_append_left _ h.started, ?_, ?_, ?_, ?_⟩
    · intro b hb
      rcases List.mem_append.mp hb with hb | hb
      · exact h.sound b hb
      · rw [List.mem_singleton.mp hb]
        exact ha
    · intro b hb hq hne c hc
      rw [List.mem_append, not_or] at hq
      have hold := (List.mem_append.mp hb).resolve_right hq.2
      exact List.mem_append_left _ (h.closed b hold hq.1 hne c hc)
    · intro b hb
      exact List.mem_append.mpr ((List.mem_append.mp hb).imp_left (h.waiting b))
    · refine List.nodup_append.mpr ⟨h.nodup, List.nodup_singleton a, ?_⟩
      intro b hb c hc hbc
      rw [List.mem_singleton.mp hc] at hbc
      exact hnew (hbc ▸ hb)

theorem Exploring.foldl {l : List α} (hl : ∀ a ∈ l, ReflTransGen (Edge next) start a)
    (h : Exploring next start current s) :
    Exploring next start current (l.foldl Search.discover s) := by
  induction l generalizing s with
  | nil => exact h
  | cons a l ih =>
    rw [List.forall_mem_cons] at hl
    exact ih hl.2 (h.discover hl.1)

theorem Exploring.expand {reached queue : List α} {a : α}
    (h : Exploring next start [] (reached, a :: queue)) :
    Exploring next start [] ((next a).foldl Search.discover (reached, queue)) := by
  have hpath := h.sound a (h.waiting a List.mem_cons_self)
  have hbegin : Exploring next start [a] (reached, queue) := by
    refine ⟨h.started, h.sound, ?_, fun b hb => h.waiting b (List.mem_cons_of_mem _ hb), h.nodup⟩
    intro b hb hq hne
    refine h.closed b hb (fun hmem => ?_) List.not_mem_nil
    exact (List.mem_cons.mp hmem).elim (fun he => hne (List.mem_singleton.mpr he)) hq
  have hend := hbegin.foldl fun b hb => hpath.tail hb
  refine ⟨hend.started, hend.sound, ?_, hend.waiting, hend.nodup⟩
  intro b hb hq _ c hc
  by_cases hne : b = a
  · rw [hne] at hc
    exact mem_reached_foldl.mpr (Or.inr hc)
  · exact hend.closed b hb hq (fun hmem => hne (List.mem_singleton.mp hmem)) c hc

theorem closure_mono {fuel : ℕ} {r : List α} (h : closure next fuel s = some r) {fuel' : ℕ}
    (hle : fuel ≤ fuel') : closure next fuel' s = some r := by
  induction fuel generalizing s fuel' with
  | zero =>
    obtain ⟨reached, queue⟩ := s
    cases queue with
    | nil => cases fuel' <;> exact h
    | cons a queue => cases h
  | succ fuel ih =>
    obtain ⟨reached, queue⟩ := s
    obtain ⟨fuel', rfl⟩ : ∃ k, fuel' = k + 1 := ⟨fuel' - 1, by omega⟩
    cases queue with
    | nil => exact h
    | cons a queue => exact ih (s := (next a).foldl discover (reached, queue)) h (by omega)

theorem length_foldl_discover (l : List α) (s : List α × List α) :
    (l.foldl discover s).1.length + s.2.length = s.1.length + (l.foldl discover s).2.length := by
  induction l generalizing s with
  | nil => rfl
  | cons a l ih =>
    have hstep : (discover s a).1.length + s.2.length = s.1.length + (discover s a).2.length := by
      rw [discover]
      split
      · rfl
      · rw [List.length_append, List.length_append]
        exact Nat.add_right_comm ..
    have := ih (discover s a)
    rw [List.foldl_cons]
    omega

omit [DecidableEq α] in
theorem Exploring.mem_iff {reached : List α} (h : Exploring next start [] (reached, [])) {b : α} :
    b ∈ reached ↔ ReflTransGen (Edge next) start b := by
  refine ⟨h.sound b, fun hpath => ?_⟩
  induction hpath with
  | refl => exact h.started
  | tail _ hstep ih => exact h.closed _ ih List.not_mem_nil List.not_mem_nil _ hstep

/-- The search ends within as many rounds as points wait or are not reached. -/
theorem closure_of_exploring {points : List α} (hpoints : ∀ a ∈ points, ∀ b ∈ next a, b ∈ points)
    {fuel : ℕ} (h : Exploring next start [] s) (hsub : ∀ b ∈ s.1, b ∈ points)
    (hfuel : points.length + s.2.length ≤ fuel + s.1.length) :
    ∃ r, closure next fuel s = some r ∧ ∀ b, b ∈ r ↔ ReflTransGen (Edge next) start b := by
  induction fuel generalizing s with
  | zero =>
    obtain ⟨reached, queue⟩ := s
    cases queue with
    | nil => exact ⟨reached, rfl, fun _ => h.mem_iff⟩
    | cons a queue =>
      have hlen : reached.length ≤ points.length := (h.nodup.subperm hsub).length_le
      rw [List.length_cons] at hfuel
      dsimp only at hfuel
      omega
  | succ fuel ih =>
    obtain ⟨reached, queue⟩ := s
    cases queue with
    | nil => exact ⟨reached, rfl, fun _ => h.mem_iff⟩
    | cons a queue =>
      have ha : a ∈ points := hsub a (h.waiting a List.mem_cons_self)
      have hlen := length_foldl_discover (next a) (reached, queue)
      rw [List.length_cons] at hfuel
      refine ih h.expand (fun b hb => ?_) (by dsimp only at hlen hfuel; omega)
      exact (mem_reached_foldl.mp hb).elim (hsub b) (hpoints a ha b)

theorem closure_start {points : List α} (hpoints : ∀ a ∈ points, ∀ b ∈ next a, b ∈ points)
    (hstart : start ∈ points) {fuel : ℕ} (hfuel : points.length ≤ fuel) :
    ∃ r, closure next fuel ([start], [start]) = some r ∧
      ∀ b, b ∈ r ↔ ReflTransGen (Edge next) start b := by
  refine closure_of_exploring hpoints ?_ (fun b hb => ?_) (Nat.add_le_add_right hfuel 1)
  · refine ⟨List.mem_singleton_self _, ?_, fun b hb hq => absurd hb hq, fun _ hb => hb,
      List.nodup_singleton _⟩
    intro b hb
    rw [List.mem_singleton.mp hb]
  · rw [List.mem_singleton.mp hb]
    exact hstart

end Search
