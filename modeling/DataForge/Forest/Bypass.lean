import Mathlib.Logic.Relation
import Mathlib.Data.List.Nodup

/-!
# Passing over a point

Library `Forest`. The order that a parent relation induces on all points but one depends on the
relation only through what it is when that point is passed over; and among relations with at most
one parent and no cycle, the order determines the parents. Of pairs in a list without repetitions,
`[a, b] <+ l` says that `a` stands before `b`.
-/

namespace Forest

variable {α : Type} {r s : α → α → Prop} {x a b c : α}

/-- The relation with `x` passed over. -/
def Bypass (r : α → α → Prop) (x a b : α) : Prop :=
  a ≠ x ∧ b ≠ x ∧ (r a b ∨ r a x ∧ r x b)

private theorem transGen_of_bypass (h : Relation.TransGen (Bypass r x) a b) :
    Relation.TransGen r a b := by
  have hstep : ∀ {a b}, Bypass r x a b → Relation.TransGen r a b := by
    rintro a b ⟨-, -, h | ⟨h, h'⟩⟩
    · exact .single h
    · exact .tail (.single h) h'
  induction h with
  | single h => exact hstep h
  | tail _ h ih => exact ih.trans (hstep h)

/-- Paths between other points do not change when a point is passed over. -/
theorem transGen_bypass (ha : a ≠ x) (hb : b ≠ x) :
    Relation.TransGen (Bypass r x) a b ↔ Relation.TransGen r a b := by
  constructor
  · exact transGen_of_bypass
  · intro h
    -- from the end: a path that starts at the point is one from each point that leads to it
    have hpath : (a ≠ x → Relation.TransGen (Bypass r x) a b) ∧
        (a = x → ∀ a', a' ≠ x → r a' x → Relation.TransGen (Bypass r x) a' b) := by
      clear ha
      induction h using Relation.TransGen.head_induction_on with
      | @single a h =>
        constructor
        · exact fun ha => .single ⟨ha, hb, .inl h⟩
        · rintro rfl a' ha' h'
          exact .single ⟨ha', hb, .inr ⟨h', h⟩⟩
      | @head a c h _ ih =>
        by_cases hc : c = x
        · constructor
          · exact fun ha => ih.2 hc a ha (hc ▸ h)
          · exact fun _ => ih.2 hc
        · constructor
          · exact fun ha => .head ⟨ha, hc, .inl h⟩ (ih.1 hc)
          · rintro rfl a' ha' h'
            exact .head ⟨ha', hc, .inr ⟨h', h⟩⟩ (ih.1 hc)
    exact hpath.1 ha

/-- The order of a relation with one parent each and no cycle determines the parents. -/
theorem eq_of_transGen_iff (hr : ∀ a b c, r a b → r a c → b = c)
    (hs : ∀ a b c, s a b → s a c → b = c) (hacyclic : ∀ a, ¬ Relation.TransGen r a a)
    (h : ∀ a b, Relation.TransGen r a b ↔ Relation.TransGen s a b) : r a b ↔ s a b := by
  -- a parent is the first step of every path
  have hfirst : ∀ {t : α → α → Prop}, (∀ a b c, t a b → t a c → b = c) → ∀ {a b c},
      t a b → Relation.TransGen t a c → b = c ∨ Relation.TransGen t b c := by
    intro t ht a b c hab hac
    rcases Relation.TransGen.head'_iff.mp hac with ⟨d, had, hdc⟩
    rw [ht a b d hab had]
    exact Relation.reflTransGen_iff_eq_or_transGen.mp hdc |>.imp Eq.symm id
  have hparent : ∀ {b c}, r a b → s a c → b = c := by
    intro b c hab hac
    rcases hfirst hr hab ((h a c).mpr (.single hac)) with hbc | hbc
    · exact hbc
    · rcases hfirst hs hac ((h a b).mp (.single hab)) with hcb | hcb
      · exact hcb.symm
      · exact absurd (hbc.trans ((h c b).mpr hcb)) (hacyclic b)
  constructor
  · intro hab
    obtain ⟨c, hac, -⟩ := Relation.TransGen.head'_iff.mp ((h a b).mp (.single hab))
    rwa [hparent hab hac]
  · intro hab
    obtain ⟨c, hac, -⟩ := Relation.TransGen.head'_iff.mp ((h a b).mpr (.single hab))
    rwa [← hparent hac hab]

/-! ## Standing before -/

open List

theorem pair_sublist_append_cons {l1 l2 : List α} (h : a ∈ l1) : [a, b] <+ l1 ++ b :: l2 :=
  (singleton_sublist.mpr h).append (singleton_sublist.mpr mem_cons_self)

theorem pair_sublist_cons {l : List α} (h : b ∈ l) : [a, b] <+ a :: l :=
  (singleton_sublist.mpr h).cons_cons a

theorem mem_of_sublist_pair {l1 l2 : List α} (hl : (l1 ++ a :: l2).Nodup)
    (h : [a, b] <+ l1 ++ a :: l2) : b ∈ l2 := by
  induction l1 with
  | nil =>
    rw [nil_append, cons_sublist_cons'] at h
    rcases h with h | ⟨-, h⟩
    · exact h.subset (by simp)
    · exact h.subset (by simp)
  | cons c rest ih =>
    rw [cons_append, cons_sublist_cons'] at h
    rcases h with h | ⟨rfl, -⟩
    · exact ih (nodup_cons.mp hl).2 h
    · exact absurd (by simp) (nodup_cons.mp hl).1

theorem pair_sublist_trans {l : List α} (hl : l.Nodup) (hab : [a, b] <+ l) (hbc : [b, c] <+ l) :
    [a, c] <+ l := by
  induction l with
  | nil => cases hab
  | cons d rest ih =>
    have hd := (nodup_cons.mp hl).1
    rw [cons_sublist_cons'] at hab hbc
    rcases hab with hab | ⟨rfl, hb⟩
    · rcases hbc with hbc | ⟨rfl, -⟩
      · exact (ih (nodup_cons.mp hl).2 hab hbc).cons d
      · exact absurd (hab.subset (by simp)) hd
    · rcases hbc with hbc | ⟨rfl, -⟩
      · exact pair_sublist_cons (hbc.subset (by simp))
      · exact absurd (singleton_sublist.mp hb) hd

end Forest

