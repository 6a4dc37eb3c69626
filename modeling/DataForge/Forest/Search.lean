import Mathlib.Data.Finset.Card
import Mathlib.Data.Finset.SDiff
import Mathlib.Logic.Relation

/-!
# Depth-first search and acyclic relations

A search that marks what it has visited ends on every finite graph, cycles or not, and finds its
goal exactly when there is a path to it. Changing the edges out of one point of an acyclic relation
keeps it acyclic exactly when none of them leads back.
-/

namespace Search

open Relation

variable {α : Type}

section Reaches

/-- Visit the points of a list in turn, until one visit succeeds. -/
def anyFrom (visit : α → List α → Option (Bool × List α)) :
    List α → List α → Option (Bool × List α)
  | [], visited => some (false, visited)
  | x :: xs, visited =>
    match visit x visited with
    | none => none
    | some (true, visited) => some (true, visited)
    | some (false, visited) => anyFrom visit xs visited

variable [DecidableEq α] (next : α → List α) (goal : α)

/-- Search for the goal from a point, depth first, passing over the points visited before. -/
def reaches : ℕ → α → List α → Option (Bool × List α)
  | 0, _, _ => none
  | fuel + 1, target, visited =>
    if target = goal then some (true, visited)
    else if target ∈ visited then some (false, visited)
    else anyFrom (reaches fuel) (next target) (target :: visited)

/-- The edges of the graph that is searched. -/
def Edge (a b : α) : Prop := b ∈ next a

variable {visit : α → List α → Option (Bool × List α)} {xs : List α}

omit [DecidableEq α] in
private theorem anyFrom_true :
    ∀ {visited visited' : List α}, anyFrom visit xs visited = some (true, visited') →
      ∃ x ∈ xs, ∃ v v', visit x v = some (true, v') := by
  induction xs with
  | nil => intro visited visited' h; simp [anyFrom] at h
  | cons x xs ih =>
    intro visited visited' h
    simp only [anyFrom] at h
    split at h
    · cases h
    · next heq => exact ⟨x, List.mem_cons_self, visited, _, heq⟩
    · obtain ⟨y, hy, hv⟩ := ih h
      exact ⟨y, List.mem_cons_of_mem _ hy, hv⟩

variable {next goal}

variable {fuel : ℕ}

theorem reaches_sound : ∀ {target : α} {visited visited' : List α},
    reaches next goal fuel target visited = some (true, visited') →
    ReflTransGen (Edge next) target goal := by
  induction fuel with
  | zero => intro target visited visited' h; cases h
  | succ fuel ih =>
    intro target visited visited' h
    simp only [reaches] at h
    split at h
    · next heq => rw [heq]
    · split at h
      · cases h
      · obtain ⟨x, hx, v, v', hv⟩ := anyFrom_true h
        exact .head hx (ih hv)

/-- What a search that fails leaves: it has visited more points, and the new ones lead only to
points that it has visited, and are not the goal. -/
private def Closed (next : α → List α) (goal : α) (visited visited' : List α) : Prop :=
  visited ⊆ visited' ∧
  ∀ x ∈ visited', x ∉ visited → x ≠ goal ∧ ∀ y ∈ next x, y ∈ visited'

omit [DecidableEq α] in
private theorem anyFrom_false
    (hvisit : ∀ x v v', visit x v = some (false, v') → Closed next goal v v' ∧ x ∈ v') :
    ∀ {visited visited' : List α},
      anyFrom visit xs visited = some (false, visited') →
      Closed next goal visited visited' ∧ ∀ x ∈ xs, x ∈ visited' := by
  induction xs with
  | nil =>
    intro visited visited' h
    cases h
    exact ⟨⟨List.Subset.refl _, fun x hx hn => absurd hx hn⟩, nofun⟩
  | cons x xs ih =>
    intro visited visited' h
    simp only [anyFrom] at h
    split at h
    · cases h
    · cases h
    · next v heq =>
      obtain ⟨⟨hsub, hclosed⟩, hx⟩ := hvisit x visited v heq
      obtain ⟨⟨hsub', hclosed'⟩, hxs⟩ := ih h
      refine ⟨⟨List.Subset.trans hsub hsub', fun y hy hn => ?_⟩, ?_⟩
      · by_cases hv : y ∈ v
        · exact ⟨(hclosed y hv hn).1, fun z hz => hsub' ((hclosed y hv hn).2 z hz)⟩
        · exact hclosed' y hy hv
      · rintro y (_ | ⟨_, hy⟩)
        · exact hsub' hx
        · exact hxs y hy

private theorem reaches_closed : ∀ {target : α} {visited visited' : List α},
    reaches next goal fuel target visited = some (false, visited') →
    Closed next goal visited visited' ∧ target ∈ visited' := by
  induction fuel with
  | zero => intro target visited visited' h; cases h
  | succ fuel ih =>
    intro target visited visited' h
    simp only [reaches] at h
    split at h
    · cases h
    · next hgoal =>
      split at h
      · next hmem =>
        cases h
        exact ⟨⟨List.Subset.refl _, fun x hx hn => absurd hx hn⟩, hmem⟩
      · obtain ⟨⟨hsub, hclosed⟩, hnext⟩ := anyFrom_false (fun x v v' => ih) h
        refine ⟨⟨fun x hx => hsub (List.mem_cons_of_mem _ hx), fun x hx hn => ?_⟩,
          hsub List.mem_cons_self⟩
        by_cases heq : x = target
        · subst heq
          exact ⟨hgoal, hnext⟩
        · exact hclosed x hx (by simp [heq, hn])

theorem reaches_complete {target : α} {visited : List α}
    (h : reaches next goal fuel target [] = some (false, visited)) :
    ¬ ReflTransGen (Edge next) target goal := by
  obtain ⟨⟨-, hclosed⟩, htarget⟩ := reaches_closed h
  intro hpath
  have hmem : ∀ {x}, ReflTransGen (Edge next) target x → x ∈ visited := by
    intro x hx
    induction hx with
    | refl => exact htarget
    | tail _ hstep ih => exact (hclosed _ ih List.not_mem_nil).2 _ hstep
  exact (hclosed goal (hmem hpath) List.not_mem_nil).1 rfl

/-- The points of `U` that a search may still visit. -/
private def unvisited (U : Finset α) (visited : List α) : ℕ := (U \ visited.toFinset).card

variable {U : Finset α}

private theorem unvisited_le {v v' : List α} (h : v ⊆ v') :
    unvisited U v' ≤ unvisited U v :=
  Finset.card_le_card (Finset.sdiff_subset_sdiff le_rfl
    fun _ hx => List.mem_toFinset.mpr (h (List.mem_toFinset.mp hx)))

private theorem unvisited_cons {x : α} {v : List α} (hx : x ∈ U) (hv : x ∉ v) :
    unvisited U (x :: v) < unvisited U v := by
  refine Finset.card_lt_card ⟨fun y hy => ?_, fun hsub => ?_⟩
  · simp only [List.toFinset_cons, Finset.mem_sdiff, Finset.mem_insert, not_or] at hy ⊢
    exact ⟨hy.1, hy.2.2⟩
  · have hmem : x ∈ U \ (x :: v).toFinset :=
      hsub (Finset.mem_sdiff.mpr ⟨hx, by simpa using hv⟩)
    simp at hmem

private theorem anyFrom_ends {n : ℕ}
    (hvisit : ∀ x ∈ U, ∀ v, unvisited U v < n → ∃ r, visit x v = some r ∧ v ⊆ r.2) :
    (∀ x ∈ xs, x ∈ U) → ∀ {v : List α}, unvisited U v < n →
      ∃ r, anyFrom visit xs v = some r ∧ v ⊆ r.2 := by
  induction xs with
  | nil => exact fun _ v _ => ⟨(false, v), rfl, List.Subset.refl _⟩
  | cons x xs ih =>
    intro hxs v hv
    obtain ⟨⟨b, v'⟩, hr, hsub⟩ := hvisit x (hxs x List.mem_cons_self) v hv
    simp only [anyFrom, hr]
    cases b with
    | true => exact ⟨(true, v'), rfl, hsub⟩
    | false =>
      obtain ⟨r, hr', hsub'⟩ := ih (fun y hy => hxs y (List.mem_cons_of_mem _ hy))
        (lt_of_le_of_lt (unvisited_le hsub) hv)
      exact ⟨r, hr', List.Subset.trans hsub hsub'⟩

theorem reaches_ends (hU : ∀ x ∈ U, ∀ y ∈ next x, y ∈ U) :
    ∀ target ∈ U, ∀ visited, unvisited U visited < fuel →
      ∃ r, reaches next goal fuel target visited = some r ∧ visited ⊆ r.2 := by
  induction fuel with
  | zero => exact fun _ _ _ h => absurd h (Nat.not_lt_zero _)
  | succ fuel ih =>
    intro target ht visited hv
    simp only [reaches]
    split
    · exact ⟨_, rfl, List.Subset.refl _⟩
    · split
      · exact ⟨_, rfl, List.Subset.refl _⟩
      · next hn =>
        have hlt : unvisited U (target :: visited) < fuel := by
          have := unvisited_cons ht hn
          omega
        obtain ⟨r, hr, hsub⟩ := anyFrom_ends ih (hU target ht) hlt
        exact ⟨r, hr, fun x hx => hsub (List.mem_cons_of_mem _ hx)⟩

theorem reaches_iff (hU : ∀ x ∈ U, ∀ y ∈ next x, y ∈ U) {target : α} (ht : target ∈ U)
    (hfuel : U.card < fuel) :
    ∃ found visited, reaches next goal fuel target [] = some (found, visited) ∧
      (found = true ↔ ReflTransGen (Edge next) target goal) := by
  have hcard : unvisited U [] < fuel := by simpa [unvisited] using hfuel
  obtain ⟨⟨found, visited⟩, hr, -⟩ := reaches_ends hU target ht [] hcard
  refine ⟨found, visited, hr, ?_⟩
  cases found with
  | true => exact ⟨fun _ => reaches_sound hr, fun _ => rfl⟩
  | false => exact ⟨nofun, fun hp => absurd hp (reaches_complete hr)⟩

end Reaches

section Acyclic

/-- No path leads back. -/
def Acyclic (r : α → α → Prop) : Prop := ∀ a, ¬ TransGen r a a

variable {r r' : α → α → Prop} {a : α}

theorem reflTransGen_to_congr (h : ∀ x ≠ a, ∀ y, r x y → r' x y) {y : α}
    (hp : ReflTransGen r y a) : ReflTransGen r' y a := by
  induction hp using ReflTransGen.head_induction_on with
  | refl => exact .refl
  | @head x z hstep _ ih =>
    by_cases hx : x = a
    · rw [hx]
    · exact .head (h x hx z hstep) ih

/-- Changing the edges out of one point of an acyclic relation keeps it acyclic exactly when none
of the edges that are there now leads back. -/
theorem acyclic_change_out (hr : Acyclic r) (h : ∀ x ≠ a, ∀ y, r x y ↔ r' x y) :
    Acyclic r' ↔ ∀ y, r' a y → ¬ ReflTransGen r y a := by
  refine ⟨fun hacyc y hay hp => ?_, fun hback c hc => ?_⟩
  · exact hacyc a (.head' hay (reflTransGen_to_congr (fun x hx y => (h x hx y).mp) hp))
  · -- A cycle that passes the point leads back to it, and one that does not was there before.
    have hpass : ∀ {x y}, TransGen r' x y → TransGen r x y ∨
        ∃ z, ReflTransGen r' x a ∧ r' a z ∧ ReflTransGen r' z y := by
      intro x y hxy
      induction hxy with
      | single hstep =>
        next z =>
        by_cases hx : x = a
        · exact .inr ⟨z, by rw [hx], hx ▸ hstep, .refl⟩
        · exact .inl (.single ((h x hx _).mpr hstep))
      | tail hp hstep ih =>
        next u v =>
        by_cases hu : u = a
        · exact .inr ⟨v, hu ▸ hp.to_reflTransGen, hu ▸ hstep, .refl⟩
        · rcases ih with ih | ⟨z, hxa, haz, hzu⟩
          · exact .inl (.tail ih ((h u hu _).mpr hstep))
          · exact .inr ⟨z, hxa, haz, .tail hzu hstep⟩
    rcases hpass hc with hc | ⟨z, hca, haz, hzc⟩
    · exact hr c hc
    · exact hback z haz
        (reflTransGen_to_congr (fun x hx y => (h x hx y).mpr) (hzc.trans hca))

theorem acyclic_change_in (hr : Acyclic r) (h : ∀ x, ∀ y ≠ a, r x y ↔ r' x y) :
    Acyclic r' ↔ ∀ x, r' x a → ¬ ReflTransGen r a x := by
  have hswap : ∀ {s : α → α → Prop}, Acyclic (Function.swap s) ↔ Acyclic s := fun {s} =>
    forall_congr' fun c => not_congr transGen_swap
  rw [← hswap, acyclic_change_out (hswap.mpr hr) fun x hx y => h y x hx]
  exact forall_congr' fun x => imp_congr Iff.rfl (not_congr reflTransGen_swap)

end Acyclic

end Search
