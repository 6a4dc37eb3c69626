import Mathlib.Data.List.Forall2

/-!
# Computations that may fail

When a sequence of computations in `Except` succeeds.
-/

namespace Effects

variable {ε α β : Type}

variable {f : α → Except ε β} {x : Except ε α}

theorem bind_ok {r : β} :
    (x >>= f) = .ok r ↔ ∃ a, x = .ok a ∧ f a = .ok r := by
  cases x with
  | error e =>
    constructor
    · intro h
      cases h
    · rintro ⟨a, h, -⟩
      cases h
  | ok a =>
    constructor
    · exact fun h => ⟨a, rfl, h⟩
    · rintro ⟨a', h, hf⟩
      cases h
      exact hf

theorem map_ok {f : α → β} {r : β} :
    x.map f = .ok r ↔ ∃ a, x = .ok a ∧ f a = r := by
  cases x <;> simp [Except.map]

theorem map_error {f : α → β} {e : ε} : x.map f = .error e ↔ x = .error e := by
  cases x <;> simp [Except.map]

variable {l : List α}

theorem forM_ok {f : α → Except ε PUnit} :
    l.forM f = .ok () ↔ ∀ x ∈ l, f x = .ok () := by
  induction l with
  | nil => exact ⟨fun _ _ hx => (List.not_mem_nil hx).elim, fun _ => rfl⟩
  | cons a l ih =>
    rw [List.forM_eq_forM] at ih ⊢
    rw [List.forM_cons, bind_ok, List.forall_mem_cons, ← ih]
    constructor
    · rintro ⟨⟨⟩, ha, hl⟩
      exact ⟨ha, hl⟩
    · rintro ⟨ha, hl⟩
      exact ⟨(), ha, hl⟩

variable {r : List β}

theorem mapM_ok :
    l.mapM f = .ok r ↔ List.Forall₂ (fun a b => f a = .ok b) l r := by
  induction l generalizing r with
  | nil =>
    rw [List.forall₂_nil_left_iff]
    exact ⟨fun h => by cases h; rfl, fun h => by rw [h]; rfl⟩
  | cons a l ih =>
    rw [List.mapM_cons, bind_ok]
    constructor
    · rintro ⟨b, hb, h⟩
      obtain ⟨bs, hbs, h⟩ := bind_ok.mp h
      cases h
      exact .cons hb (ih.mp hbs)
    · rintro (_ | ⟨hb, h⟩)
      exact ⟨_, hb, bind_ok.mpr ⟨_, ih.mpr h, rfl⟩⟩

theorem mapM_error {e : ε} (h : l.mapM f = .error e) :
    ∃ a ∈ l, f a = .error e := by
  induction l with
  | nil => cases h
  | cons a l ih =>
    rw [List.mapM_cons] at h
    cases ha : f a with
    | error e' =>
      rw [ha] at h
      cases h
      exact ⟨a, List.mem_cons_self, ha⟩
    | ok b =>
      rw [ha] at h
      cases hl : l.mapM f with
      | error e' =>
        rw [hl] at h
        cases h
        obtain ⟨a', ha', he⟩ := ih hl
        exact ⟨a', List.mem_cons_of_mem a ha', he⟩
      | ok bs =>
        rw [hl] at h
        cases h

variable {R : α → β → Prop}

theorem forall₂_left (h : List.Forall₂ R l r) {a : α} (ha : a ∈ l) : ∃ b ∈ r, R a b := by
  induction h with
  | nil => cases ha
  | cons hab _ ih =>
    cases ha with
    | head => exact ⟨_, List.mem_cons_self, hab⟩
    | tail _ ha =>
      obtain ⟨b, hb, hR⟩ := ih ha
      exact ⟨b, List.mem_cons_of_mem _ hb, hR⟩

theorem forall₂_getElem? (h : List.Forall₂ R l r) {i : ℕ} {a : α} (ha : l[i]? = some a) :
    ∃ b, r[i]? = some b ∧ R a b := by
  induction h generalizing i with
  | nil => cases ha
  | cons hab _ ih =>
    cases i with
    | zero =>
      cases ha
      exact ⟨_, rfl, hab⟩
    | succ i => exact ih ha

theorem forall₂_imp_mem {R S : α → β → Prop} (h : List.Forall₂ R l r)
    (himp : ∀ a ∈ l, ∀ b, R a b → S a b) : List.Forall₂ S l r := by
  induction h with
  | nil => exact .nil
  | cons hab _ ih =>
    refine .cons (himp _ (List.mem_cons_self ..) _ hab) (ih fun a ha => ?_)
    exact himp a (List.mem_cons_of_mem _ ha)

theorem forall₂_append_map {l l' : List α} {f : α → β} :
    List.Forall₂ R (l ++ l') (l.map f ++ r) ↔ (∀ a ∈ l, R a (f a)) ∧ List.Forall₂ R l' r := by
  induction l with
  | nil => exact ⟨fun h => ⟨fun _ ha => (List.not_mem_nil ha).elim, h⟩, fun h => h.2⟩
  | cons a l ih =>
    rw [List.map_cons, List.cons_append, List.cons_append, List.forall₂_cons, ih,
      List.forall_mem_cons, and_assoc]

theorem forall₂_forall_iff {p : α → Prop} {q : β → Prop} (h : List.Forall₂ R l r)
    (hpq : ∀ a b, R a b → (p a ↔ q b)) :
    (∀ a ∈ l, p a) ↔ ∀ b ∈ r, q b := by
  induction h with
  | nil => simp
  | cons hab _ ih => rw [List.forall_mem_cons, List.forall_mem_cons, ih, hpq _ _ hab]

theorem mapM_map_results {γ : Type} (l : List α) (f : α → Except ε β) (g : β → γ) :
    l.mapM (fun a => g <$> f a) = List.map g <$> l.mapM f := by
  induction l with
  | nil => rfl
  | cons a l ih =>
    rw [List.mapM_cons, List.mapM_cons, ih]
    cases f a with
    | error e => rfl
    | ok b =>
      cases l.mapM f with
      | error e => rfl
      | ok bs => rfl

theorem mapM_batches (f : α → Except ε β) (batches : List (List α)) :
    List.flatten <$> batches.mapM (fun batch => batch.mapM f) = batches.flatten.mapM f := by
  induction batches with
  | nil => rfl
  | cons batch rest ih =>
    rw [List.mapM_cons, List.flatten_cons, List.mapM_append, ← ih]
    cases batch.mapM f with
    | error e => rfl
    | ok r =>
      cases rest.mapM (fun batch => batch.mapM f) with
      | error e => rfl
      | ok rs => rfl

theorem mapM_exists (h : ∀ a ∈ l, ∃ b, f a = .ok b) : ∃ r, l.mapM f = .ok r := by
  cases hl : l.mapM f with
  | ok r => exact ⟨r, rfl⟩
  | error e =>
    obtain ⟨a, ha, he⟩ := mapM_error hl
    obtain ⟨b, hb⟩ := h a ha
    cases hb.symm.trans he

end Effects
