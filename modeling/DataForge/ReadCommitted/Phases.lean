import DataForge.ReadCommitted.System

/-!
# Phases of a call

Library `ReadCommitted`. What a call is at, as a property of the rest of its script, of what it
has staged and of the committed state, and how such a property follows the steps of a system.
-/

namespace ReadCommitted

variable {σ W ρ α β : Type}

namespace Script

/-- The script executes statements up to one that satisfies `B`, with the writes staged before
it, unless it returns one of `D` or raises. -/
def Until (D : α → Prop) (B : Script σ W ρ α → List W → Prop) : Script σ W ρ α → List W → Prop
  | .done a, _ => D a
  | .raise _, _ => True
  | .exec effect next, ws =>
    B (.exec effect next) ws ∨ ∀ e, (next e).Until D B (ws ++ (effect e).writes)
  | .commit _, _ => False
  | .rollback _, _ => False

variable {D : β → Prop} {B : Script σ W ρ β → List W → Prop}

theorem until_statement {effect : Env σ ρ → Effect W ρ} {result : Env σ ρ → α}
    {k : α → Script σ W ρ β} {ws : List W}
    (h : ∀ e, (k (result e)).Until D B (ws ++ (effect e).writes)) :
    (statement effect result >>= k).Until D B ws := Or.inr h

theorem until_query {result : Env σ ρ → α} {k : α → Script σ W ρ β} {ws : List W}
    (h : ∀ a, (k a).Until D B ws) : (query result >>= k).Until D B ws := by
  refine until_statement fun e => ?_
  rw [List.append_nil]
  exact h (result e)

theorem Until.mono {B' : Script σ W ρ β → List W → Prop} (hB : ∀ q ws, B q ws → B' q ws)
    {q : Script σ W ρ β} {ws : List W} (h : q.Until D B ws) : q.Until D B' ws := by
  induction q generalizing ws with
  | done a => exact h
  | raise e => trivial
  | exec effect next ih => exact h.imp (hB _ _) fun hall e => ih e (hall e)
  | commit next => exact h.elim
  | rollback next => exact h.elim

end Script

variable [DecidableEq ρ] [Storage σ W ρ] {Op : Type} {code : ℕ → Op → Script σ W ρ α}
  {s s' : System Op σ W ρ α} {a : Action Op}

/-- The phases of the calls after a step, from those before it: a call that does not step keeps
its phase while the committed state changes. -/
theorem Stepped.phases {S T : Op → Script σ W ρ α → List W → Prop} (hs : Stepped code s a s')
    (h : ∀ c ∈ s.calls, c.script.ended = false → S c.op c.script c.txn.writes)
    (hkeep : ∀ op p ws, S op p ws → T op p ws) (hcode : ∀ i op, T op (code i op) [])
    (hexec : ∀ i op effect next (t : Txn W ρ), a = .run i → s'.db = s.db →
      s.calls[i]? = some ⟨op, .exec effect next, t⟩ → S op (.exec effect next) t.writes →
      (next (t.env s.world (s.free i))).ended = false →
      T op (next (t.env s.world (s.free i)))
        (t.writes ++ (effect (t.env s.world (s.free i))).writes))
    (hcommit : ∀ op next (t : Txn W ρ), s'.db = view t.writes s.db → S op (.commit next) t.writes →
      T op next [])
    (hrollback : ∀ op next ws, s'.db = s.db → S op (.rollback next) ws → T op next []) :
    ∀ c ∈ s'.calls, c.script.ended = false → T c.op c.script c.txn.writes := by
  have settled {c d : Call Op σ W ρ α} (hd : d = c.settle)
      (hc : c.script.ended = false → T c.op c.script c.txn.writes)
      (he : d.script.ended = false) : T d.op d.script d.txn.writes := by
    subst hd
    unfold Call.settle at he ⊢
    split
    · next hend => simp [hend] at he
    · next hend =>
      rw [if_neg hend] at he
      exact hc he
  have kept : ∀ c ∈ s.calls, c.script.ended = false → T c.op c.script c.txn.writes :=
    fun c hc he => hkeep _ _ _ (h c hc he)
  have resumed {u : System Op σ W ρ α} {i : ℕ} {c : Call Op σ W ρ α} (hu : u.calls = s.calls)
      (hc : c.script.ended = false → T c.op c.script c.txn.writes) :
      ∀ d ∈ (u.resume i c).calls, d.script.ended = false → T d.op d.script d.txn.writes := by
    intro d hd
    rw [System.resume, hu] at hd
    rcases List.mem_or_eq_of_mem_set hd with hd | rfl
    · exact kept d hd
    · exact settled rfl hc
  cases hs with
  | tick => exact kept
  | spawn op =>
    intro d hd
    rcases List.mem_append.mp hd with hd | hd
    · exact kept d hd
    · exact settled (List.mem_singleton.mp hd) fun _ => hcode _ op
  | exec hc =>
    exact resumed rfl fun he => hexec _ _ _ _ _ rfl rfl hc (h _ (List.mem_of_getElem? hc) rfl) he
  | commit hc =>
    exact resumed rfl fun _ => hcommit _ _ _ rfl (h _ (List.mem_of_getElem? hc) rfl)
  | rollback hc =>
    exact resumed rfl fun _ => hrollback _ _ _ rfl (h _ (List.mem_of_getElem? hc) rfl)
  | abort hc => exact resumed rfl fun he => by cases he

end ReadCommitted
