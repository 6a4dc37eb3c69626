import DataForge.Effects.Related
import Mathlib.Data.List.Basic

/-!
# Programs with exceptions over a state

The outcome of a program is its result or exception and the state that it leaves, which an
exception does not undo. An invariant that the parts keep is kept by the whole; exceptions
come from the parts; and a program that has a result has run its parts to theirs.
-/

namespace Effects

variable {ε σ ι α β : Type}

/-- Programs with exceptions over a state. -/
abbrev Stateful (ε σ α : Type) := ExceptT ε (StateM σ) α

/-- The result of a program and the state behind it. -/
def outcome (x : Stateful ε σ α) (s : σ) : Except ε α × σ :=
  StateT.run (ExceptT.run x) s

theorem outcome_pure (a : α) (s : σ) :
    outcome (pure a : Stateful ε σ α) s = (.ok a, s) := rfl

theorem outcome_throw (e : ε) (s : σ) :
    outcome (throw e : Stateful ε σ α) s = (.error e, s) := rfl

theorem outcome_bind (x : Stateful ε σ α) (f : α → Stateful ε σ β) (s : σ) :
    outcome (x >>= f) s =
      match outcome x s with
      | (.ok a, s') => outcome (f a) s'
      | (.error e, s') => (.error e, s') := by
  change (match outcome x s with
    | (r, s') => StateT.run (ExceptT.bindCont (fun a => f a) r) s') = _
  rcases outcome x s with ⟨r, s'⟩
  cases r <;> rfl

variable {f : α → Stateful ε σ β} {x : Stateful ε σ α}

theorem outcome_bind_ok {s s' : σ} {b : β} :
    outcome (x >>= f) s = (.ok b, s') ↔
      ∃ a t, outcome x s = (.ok a, t) ∧ outcome (f a) t = (.ok b, s') := by
  rw [outcome_bind]
  rcases outcome x s with ⟨r, t⟩
  cases r with
  | error e =>
    constructor
    · intro h
      cases h
    · rintro ⟨a, t', h, -⟩
      cases h
  | ok a =>
    constructor
    · exact fun h => ⟨a, t, rfl, h⟩
    · rintro ⟨a', t', h, hf⟩
      cases h
      exact hf

/-! ## Invariants -/

/-- A program keeps an invariant of the state, whether it raises or not. -/
def Keeps (I : σ → Prop) (x : Stateful ε σ α) : Prop :=
  ∀ s, I s → I (outcome x s).2

theorem Keeps.bind {I : σ → Prop} (hx : Keeps I x) (hf : ∀ a, Keeps I (f a)) :
    Keeps I (x >>= f) := by
  intro s hs
  have h := hx s hs
  rw [outcome_bind]
  rcases hr : outcome x s with ⟨r, s'⟩
  rw [hr] at h
  cases r with
  | ok a => exact hf a s' h
  | error e => exact h

theorem related_keeps (I : σ → Prop) :
    Related ε (ExceptT ε (StateM σ)) (ExceptT ε (StateM σ)) fun _ x y => x = y ∧ Keeps I x where
  pure _ := ⟨rfl, fun _ hs => hs⟩
  bind hx hf := ⟨by rw [hx.1, funext fun a => (hf a).1], hx.2.bind fun a => (hf a).2⟩
  throw _ := ⟨rfl, fun _ hs => hs⟩

/-! ## Exceptions -/

/-- The exceptions of a program are among the given ones. -/
def Raises (B : ε → Prop) (x : Stateful ε σ α) : Prop :=
  ∀ s e s', outcome x s = (.error e, s') → B e

variable {B : ε → Prop}

theorem raises_pure (a : α) : Raises B (pure a : Stateful ε σ α) := by
  intro s e s' h
  cases h

theorem raises_throw {e : ε} (h : B e) : Raises B (throw e : Stateful ε σ α) := by
  intro s e' s' he
  cases he
  exact h

theorem Raises.bind_ok (hx : Raises B x)
    (hf : ∀ a, (∃ s s', outcome x s = (.ok a, s')) → Raises B (f a)) : Raises B (x >>= f) := by
  intro s e s' h
  rw [outcome_bind] at h
  rcases hr : outcome x s with ⟨r, t⟩
  rw [hr] at h
  cases r with
  | ok a => exact hf a ⟨s, t, hr⟩ t e s' h
  | error e' =>
    cases h
    exact hx s _ _ hr

theorem Raises.bind (hx : Raises B x) (hf : ∀ a, Raises B (f a)) : Raises B (x >>= f) :=
  hx.bind_ok fun a _ => hf a

theorem Raises.foldlM {f : β → α → Stateful ε σ β} {l : List α}
    (hf : ∀ b, ∀ a ∈ l, Raises B (f b a)) (b : β) : Raises B (l.foldlM f b) := by
  induction l generalizing b with
  | nil => exact raises_pure b
  | cons a rest ih =>
    rw [List.foldlM_cons]
    exact (hf b a List.mem_cons_self).bind fun b' =>
      ih (fun b a ha => hf b a (List.mem_cons_of_mem _ ha)) b'

/-! ## Results -/

/-- The programs of some indices have results, one after the other. -/
inductive RunAll (f : ι → Stateful ε σ α) : List ι → σ → σ → Prop
  | nil (s : σ) : RunAll f [] s s
  | cons {i : ι} {l : List ι} {a : α} {s t u : σ} (head : outcome (f i) s = (.ok a, t))
      (tail : RunAll f l t u) : RunAll f (i :: l) s u

theorem RunAll.append {f : ι → Stateful ε σ α} {l l' : List ι} {s t u : σ} (h : RunAll f l s t)
    (h' : RunAll f l' t u) : RunAll f (l ++ l') s u := by
  induction h with
  | nil _ => exact h'
  | cons head _ ih => exact .cons head (ih h')

theorem RunAll.exists {f : ι → Stateful ε σ α} {l : List ι} {s u : σ} (h : RunAll f l s u)
    {I : σ → Prop} (hf : ∀ i ∈ l, Keeps I (f i)) (hs : I s) {i : ι} (hi : i ∈ l) :
    ∃ t a t', I t ∧ outcome (f i) t = (.ok a, t') := by
  induction h with
  | nil _ => exact (List.not_mem_nil hi).elim
  | @cons j l a s t u head _ ih =>
    rcases List.mem_cons.mp hi with rfl | hi
    · exact ⟨s, a, t, hs, head⟩
    · have ht := hf j List.mem_cons_self s hs
      rw [head] at ht
      exact ih (fun k hk => hf k (List.mem_cons_of_mem _ hk)) ht hi

end Effects
