import Mathlib.Logic.Basic

/-!
# Relations between two monads with exceptions

One program, written for any monad with exceptions, run in two of them: what relates the two
runs is a relation between computations that is closed under `pure`, `bind` and `throw`.
-/

namespace Effects

/-- A relation between computations that the combinators keep. -/
structure Related (ε : Type) (m n : Type → Type) [Monad m] [Monad n] [MonadExceptOf ε m]
    [MonadExceptOf ε n] (R : ∀ α : Type, m α → n α → Prop) : Prop where
  pure : ∀ {α : Type} (a : α), R α (Pure.pure a) (Pure.pure a)
  bind : ∀ {α β : Type} {x : m α} {y : n α} {f : α → m β} {g : α → n β}, R α x y →
    (∀ a, R β (f a) (g a)) → R β (x >>= f) (y >>= g)
  throw : ∀ {α : Type} (e : ε), R α (throw e) (throw e)

variable {ε : Type} {m n : Type → Type} [Monad m] [Monad n] [MonadExceptOf ε m]
  [MonadExceptOf ε n]

namespace Related

variable {R : ∀ α : Type, m α → n α → Prop}

theorem foldlM [LawfulMonad m] [LawfulMonad n] (h : Related ε m n R) {α β : Type}
    {f : β → α → m β} {g : β → α → n β} (l : List α)
    (hfg : ∀ b, ∀ a ∈ l, R β (f b a) (g b a)) (b : β) :
    R β (l.foldlM f b) (l.foldlM g b) := by
  induction l generalizing b with
  | nil => exact h.pure b
  | cons a rest ih =>
    rw [List.foldlM_cons, List.foldlM_cons]
    refine h.bind (hfg b a List.mem_cons_self) fun b' => ?_
    exact ih (fun b a ha => hfg b a (List.mem_cons_of_mem _ ha)) b'

end Related

theorem related_eq : Related ε m m fun _ x y => x = y where
  pure _ := rfl
  bind hx hf := by rw [hx, funext hf]
  throw _ := rfl

end Effects
