import DataForge.Pipeline.Build

/-!
# Required steps

Every leaf is required, and with a required step that is not cached also its parent: so no step
that is executed misses the frame it reads.
-/

namespace DataForge.Pipeline

open ReadCommitted

variable {κ : Type} {parent : String → Option String} {cached : String → Bool}

private theorem require_spec {all : List String}
    (hclosed : ∀ x ∈ all, ∀ p, parent x = some p → p ∈ all) (n : ℕ) :
    ∀ (required : List String) (id : String), required.Nodup → required ⊆ all → id ∈ all →
      all.length ≤ required.length + n →
      (require parent cached n required id).Nodup ∧
      require parent cached n required id ⊆ all ∧
      required ⊆ require parent cached n required id ∧
      id ∈ require parent cached n required id ∧
      ∀ x ∈ require parent cached n required id, x ∉ required → cached x = false →
        ∀ p, parent x = some p → p ∈ require parent cached n required id := by
  induction n with
  | zero =>
    intro required id hd hsub hid hlen
    have hperm := (List.subperm_of_subset hd hsub).perm_of_length_le hlen
    exact ⟨hd, hsub, List.Subset.refl _, hperm.symm.subset hid, fun x hx hn => absurd hx hn⟩
  | succ n ih =>
    intro required id hd hsub hid hlen
    rw [require]
    split
    case isTrue hm =>
      exact ⟨hd, hsub, List.Subset.refl _, hm, fun x hx hn => absurd hx hn⟩
    case isFalse hm =>
      have hd' : (required ++ [id]).Nodup := by
        rw [List.nodup_append]
        refine ⟨hd, List.nodup_singleton _, fun a ha b hb hab => ?_⟩
        rw [List.mem_singleton] at hb
        exact hm (hb ▸ hab ▸ ha)
      have hsub' : required ++ [id] ⊆ all := by
        intro x hx
        rcases List.mem_append.mp hx with hx | hx
        · exact hsub hx
        · rw [List.mem_singleton.mp hx]
          exact hid
      have hnew : ∀ x ∈ required ++ [id], x ∉ required → x = id := by
        intro x hx hn
        simpa [hn] using hx
      split
      case isTrue hc =>
        refine ⟨hd', hsub', List.subset_append_left _ _, by simp, fun x hx hn hx' => ?_⟩
        rw [hnew x hx hn, hc] at hx'
        cases hx'
      case isFalse hc =>
        split
        case h_1 hp =>
          refine ⟨hd', hsub', List.subset_append_left _ _, by simp, fun x hx hn _ p hp' => ?_⟩
          rw [hnew x hx hn, hp] at hp'
          cases hp'
        case h_2 q hq =>
          have hlen' : all.length ≤ (required ++ [id]).length + n := by
            rw [List.length_append, List.length_singleton]
            omega
          obtain ⟨h1, h2, h3, h4, h5⟩ := ih (required ++ [id]) q hd' hsub'
            (hclosed id hid q hq) hlen'
          refine ⟨h1, h2, fun x hx => h3 (List.mem_append_left _ hx), h3 (by simp),
            fun x hx hn hxc p hp => ?_⟩
          by_cases hxi : x = id
          · rw [hxi, hq, Option.some_inj] at hp
            exact hp ▸ h4
          · exact h5 x hx (by simp [hn, hxi]) hxc p hp

/-- What `required_steps` holds. -/
structure Required (p : Plan κ) (cached : String → Bool) (required : List String) : Prop where
  subset : required ⊆ p.steps.rows.map Prod.fst
  leaf : ∀ id ∈ p.steps.rows.map Prod.fst, p.graph.dependentsOf id = [] → id ∈ required
  parent : ∀ id ∈ required, cached id = false → ∀ q, p.graph.parent id = some q → q ∈ required

theorem requiredSteps_spec (p : Plan κ) (cached : String → Bool)
    (hclosed : ∀ x ∈ p.steps.rows.map Prod.fst, ∀ q, p.graph.parent x = some q →
      q ∈ p.steps.rows.map Prod.fst) : Required p cached (requiredSteps p cached) := by
  have hlen : (p.steps.rows.map Prod.fst).length = p.steps.rows.length := List.length_map ..
  have hfold : ∀ (l required : List String), l ⊆ p.steps.rows.map Prod.fst → required.Nodup →
      required ⊆ p.steps.rows.map Prod.fst →
      (∀ id ∈ required, cached id = false → ∀ q, p.graph.parent id = some q → q ∈ required) →
      let R := l.foldl (fun required id => if p.graph.dependentsOf id ≠ [] then required
        else require p.graph.parent cached p.steps.rows.length required id) required
      R ⊆ p.steps.rows.map Prod.fst ∧ required ⊆ R ∧
      (∀ id ∈ l, p.graph.dependentsOf id = [] → id ∈ R) ∧
      ∀ id ∈ R, cached id = false → ∀ q, p.graph.parent id = some q → q ∈ R := by
    intro l
    induction l with
    | nil =>
      intro required _ _ hsub hpar
      exact ⟨hsub, List.Subset.refl _, by simp, hpar⟩
    | cons a rest ih =>
      intro required hl hd hsub hpar
      have hrest : rest ⊆ p.steps.rows.map Prod.fst := fun x hx => hl (List.mem_cons_of_mem _ hx)
      rw [List.foldl_cons]
      by_cases ha : p.graph.dependentsOf a = []
      · have hspec := @require_spec _ cached _ hclosed p.steps.rows.length required a hd
          hsub (hl List.mem_cons_self) (by omega)
        obtain ⟨h1, h2, h3, h4, h5⟩ := hspec
        have hpar' : ∀ id ∈ require p.graph.parent cached p.steps.rows.length required a,
            cached id = false → ∀ q, p.graph.parent id = some q →
            q ∈ require p.graph.parent cached p.steps.rows.length required a := by
          intro id hid hc q hq
          by_cases hr : id ∈ required
          · exact h3 (hpar id hr hc q hq)
          · exact h5 id hid hr hc q hq
        obtain ⟨g1, g2, g3, g4⟩ := ih _ hrest h1 h2 hpar'
        simp only [ha, ne_eq, not_true_eq_false, if_false]
        refine ⟨g1, fun x hx => g2 (h3 hx), fun id hid hleaf => ?_, g4⟩
        rcases List.mem_cons.mp hid with rfl | hid
        · exact g2 h4
        · exact g3 id hid hleaf
      · obtain ⟨g1, g2, g3, g4⟩ := ih required hrest hd hsub hpar
        simp only [ha, ne_eq, not_false_eq_true, if_true]
        refine ⟨g1, g2, fun id hid hleaf => ?_, g4⟩
        rcases List.mem_cons.mp hid with rfl | hid
        · exact absurd hleaf ha
        · exact g3 id hid hleaf
  obtain ⟨h1, -, h3, h4⟩ := hfold (p.steps.rows.map Prod.fst) [] (List.Subset.refl _)
    List.nodup_nil (List.nil_subset _) (by simp)
  exact ⟨h1, h3, h4⟩

end DataForge.Pipeline
