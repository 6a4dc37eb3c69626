import DataForge.ReadCommitted.Logic

/-!
# Gated scripts, and calls that return by a commit

Library `ReadCommitted`. A script over a part of a larger database each of whose transactions
first locks a row in shared mode, and raises unless the row admits it. Whoever changes that row
waits for the transactions that it has admitted, so what they commit is committed under it. And
scripts that return at their commits only: the step by which such a call returns is the commit of
exactly what it has staged.
-/

namespace ReadCommitted

section Gates

variable {Op σ W ρ σ' W' ρ' α β : Type}

/-- A gate: the row that is locked, the test of the committed state, and the error. -/
structure Gate (σ' ρ' : Type) where
  row : ρ'
  admits : σ' → Bool
  error : String

/-- How a script sees a larger database. -/
structure Part (σ W ρ σ' W' ρ' : Type) where
  part : σ' → σ
  write : W → W'
  res : ρ → ρ'

/-- What a statement of the part sees. -/
def Part.env (π : Part σ W ρ σ' W' ρ') (e : Env σ' ρ') : Env σ ρ :=
  ⟨e.now, e.began, π.part e.db, fun r => e.free (π.res r)⟩

/-- What a statement of the part does. -/
def Part.effect (π : Part σ W ρ σ' W' ρ') (f : Effect W ρ) : Effect W' ρ' where
  locks := f.locks.map (Prod.map π.res id)
  writes := f.writes.map π.write

/-- The script over a part, with the gate in front of each of its transactions; `begun` tells
whether the current transaction has passed it. -/
def Script.gated (π : Part σ W ρ σ' W' ρ') (gate : Gate σ' ρ') :
    Script σ W ρ α → Bool → Script σ' W' ρ' α
  | .done a, _ => .done a
  | .raise e, _ => .raise e
  | .exec effect next, begun =>
    let statement : Script σ' W' ρ' α :=
      .exec (fun e => π.effect (effect (π.env e))) (fun e => (next (π.env e)).gated π gate true)
    if begun then statement
    else .exec (fun _ => { locks := [(gate.row, .shared)] })
      (fun e => if gate.admits e.db then statement else .raise gate.error)
  | .commit next, _ => .commit (next.gated π gate false)
  | .rollback next, _ => .rollback (next.gated π gate false)

variable [Storage σ' W' ρ'] {P : Protocol Op σ' W' ρ'} {π : Part σ W ρ σ' W' ρ'}
  {gate : Gate σ' ρ'} {i : ℕ} {op : Op} {t : Txn W' ρ'} {w : World σ'}

/-- The transaction has passed the gate, or it has not begun. -/
def Passed (gate : Gate σ' ρ') (begun : Bool) (t : Txn W' ρ') (w : World σ') : Prop :=
  if begun then (∃ k ∈ t.held, k.res = gate.row) ∧ gate.admits w.db = true else t.writes = []

/-- The test reads the row of the gate only. -/
def Gate.Local (W' : Type) [Storage σ' W' ρ'] (gate : Gate σ' ρ') : Prop :=
  ∀ {a b : σ'}, Storage.same W' gate.row a b → gate.admits a = gate.admits b

theorem Passed.rely {begun : Bool} {w' : World σ'} (hlocal : gate.Local W')
    (hr : P.Rely t.held w w') (h : Passed gate begun t w) : Passed gate begun t w' := by
  unfold Passed at h ⊢
  split
  · next hbegun =>
    rw [if_pos hbegun] at h
    obtain ⟨⟨k, hk, hres⟩, hadmits⟩ := h
    refine ⟨⟨k, hk, hres⟩, ?_⟩
    rw [hlocal (hres ▸ hr.same hk)]
    exact hadmits
  · next hbegun =>
    rw [if_neg hbegun] at h
    exact h

/-- A gated script commits what it writes to its part while the gate admits it. -/
theorem Protocol.wp_gated {Q : α → Txn W' ρ' → World σ' → Prop} {p : Script σ W ρ α}
    {begun : Bool} (ws : List W) (hlocal : gate.Local W')
    (hact : ∀ held w (ws : List W), P.inv w → (ws ≠ [] → gate.admits w.db = true) →
      P.act i op held w (view (ws.map π.write) w.db))
    (hq : ∀ a t w, Q a t w) (ht : t.writes = ws.map π.write) (hpassed : Passed gate begun t w) :
    P.wp i op Q (p.gated π gate begun) t w := by
  have commits {t : Txn W' ρ'} {w w' : World σ'} {begun : Bool} {ws : List W}
      (ht : t.writes = ws.map π.write) (hpassed : Passed gate begun t w)
      (hr : P.Rely t.held w w') (hinv : P.inv w') :
      P.act i op t.held w' (view t.writes w'.db) := by
    rw [ht]
    refine hact _ _ _ hinv fun hne => ?_
    have hpassed' := hpassed.rely hlocal hr
    unfold Passed at hpassed'
    split at hpassed'
    · exact hpassed'.2
    · rw [ht, List.map_eq_nil_iff] at hpassed'
      exact absurd hpassed' hne
  induction p generalizing t w begun ws with
  | done a => exact hq _ _ _
  | raise e => trivial
  | exec effect next ih =>
    have statement {t : Txn W' ρ'} {w : World σ'} (ws : List W) (ht : t.writes = ws.map π.write)
        (hpassed : Passed gate true t w) :
        P.wp i op Q (.exec (fun e => π.effect (effect (π.env e)))
          (fun e => (next (π.env e)).gated π gate true)) t w := by
      intro w' free hr hinv _
      have hafter : (t.after (t.env w' free)
          (π.effect (effect (π.env (t.env w' free))))).writes =
          (ws ++ (effect (π.env (t.env w' free))).writes).map π.write := by
        rw [Txn.after, ht, List.map_append]
        rfl
      refine ih _ _ hafter ?_
      obtain ⟨⟨k, hk, hres⟩, hadmits⟩ := hpassed.rely hlocal hr
      exact ⟨⟨k, t.held_subset_after _ _ hk, hres⟩, hadmits⟩
    rw [Script.gated]
    split
    · next hbegun =>
      subst hbegun
      exact statement ws ht hpassed
    · next hbegun =>
      rw [Bool.not_eq_true] at hbegun
      subst hbegun
      have hempty : t.writes = [] := hpassed
      intro w' free hr hinv _
      dsimp only
      split
      · next hadmits =>
        rw [Txn.env, hempty] at hadmits
        apply statement []
        · rw [Txn.after, hempty]
          rfl
        · have hheld : ∃ k ∈ (t.after (t.env w' free) { locks := [(gate.row, .shared)] }).held,
              k.res = gate.row :=
            ⟨_, t.lock_mem_after _ (List.mem_append_left _ List.mem_cons_self), rfl⟩
          exact ⟨hheld, hadmits⟩
      · trivial
  | commit next ih =>
    rw [Script.gated]
    intro w' hr hinv _
    exact ⟨commits ht hpassed hr hinv, ih [] rfl rfl⟩
  | rollback next ih =>
    rw [Script.gated]
    intro w' hr hinv
    exact ih [] rfl rfl

theorem Protocol.wp_part {Q : α → Txn W' ρ' → World σ' → Prop} {p : Script σ W ρ α} (ws : List W)
    (hact : ∀ held w (ws : List W), P.inv w → P.act i op held w (view (ws.map π.write) w.db))
    (hq : ∀ a t w, Q a t w) (ht : t.writes = ws.map π.write) :
    P.wp i op Q (p.within π.part π.write π.res) t w := by
  induction p generalizing t w ws with
  | done a => exact hq _ _ _
  | raise e => trivial
  | exec effect next ih =>
    intro w' free _ _ _
    refine ih _ (ws ++ (effect (π.env (t.env w' free))).writes) ?_
    rw [Txn.after, ht, List.map_append]
    rfl
  | commit next ih =>
    intro w' _ hinv _
    rw [ht]
    exact ⟨hact _ _ _ hinv, ih [] rfl⟩
  | rollback next ih => exact fun w' _ _ => ih [] rfl

end Gates

/-! ## Calls that return by a commit -/

section Returns

variable {Op σ W ρ α β : Type}

/-- Every value of the script is returned by a commit, whose value and writes satisfy `D`. -/
def Script.ReturnsByCommit (D : α → List W → Prop) : Script σ W ρ α → List W → Prop
  | .done _, _ => False
  | .raise _, _ => True
  | .exec effect next, ws => ∀ e, (next e).ReturnsByCommit D (ws ++ (effect e).writes)
  | .commit next, ws => (∃ a, next = .done a ∧ D a ws) ∨ next.ReturnsByCommit D []
  | .rollback next, _ => next.ReturnsByCommit D []

theorem Script.returnsByCommit_statement {D : β → List W → Prop} {effect : Env σ ρ → Effect W ρ}
    {result : Env σ ρ → α} {k : α → Script σ W ρ β} {ws : List W}
    (h : ∀ e, (k (result e)).ReturnsByCommit D (ws ++ (effect e).writes)) :
    (Script.statement effect result >>= k).ReturnsByCommit D ws := h

variable [DecidableEq ρ] [Storage σ W ρ] {code : ℕ → Op → Script σ W ρ α}
  {s s' : System Op σ W ρ α} {ok : System Op σ W ρ α → Action Op → System Op σ W ρ α → Prop}

/-- Along a run, the calls of the operations `P` return by their commits. -/
theorem Run.returnsByCommit {P : Op → Prop} {D : α → List W → Prop}
    (hcode : ∀ i op, P op → (code i op).ReturnsByCommit D []) (hr : Run code ok s s')
    (h : s.calls = []) : ∀ c ∈ s'.calls, P c.op → c.script.ended = false →
      c.script.ReturnsByCommit D c.txn.writes := by
  intro c hc hp he
  have hstart : ∀ c ∈ s.calls, c.script.ended = false →
      (P c.op → c.script.ended = true ∨ c.script.ReturnsByCommit D c.txn.writes) := by
    intro c hc
    rw [h] at hc
    cases hc
  refine (Run.scripts (S := fun op p ws => P op → p.ended = true ∨ p.ReturnsByCommit D ws)
    (fun i op hp => Or.inr (hcode i op hp)) ?_ ?_ ?_ hr hstart c hc he hp).resolve_left
    (by rw [he]; exact Bool.false_ne_true)
  · intro _ _ _ _ e hS _ hp
    exact Or.inr ((hS hp).resolve_left Bool.false_ne_true e)
  · intro _ next _ hS hp
    rcases (hS hp).resolve_left Bool.false_ne_true with ⟨a, rfl, -⟩ | hS
    · exact Or.inl rfl
    · exact Or.inr hS
  · intro _ _ _ hS hp
    exact Or.inr ((hS hp).resolve_left Bool.false_ne_true)

/-- The step by which such a call returns is a commit of what it has staged. -/
theorem Stepped.returnsByCommit {D : α → List W → Prop} {i : ℕ} {c : Call Op σ W ρ α} {r : α}
    (h : ∀ d ∈ s.calls, d.op = c.op → d.script.ended = false →
      d.script.ReturnsByCommit D d.txn.writes)
    (hs : Stepped code s (.run i) s') (hc : s'.calls[i]? = some c) (hr : c.script = .done r) :
    ∃ d next, s.calls[i]? = some d ∧ d.op = c.op ∧ d.script = .commit next ∧
      s'.db = view d.txn.writes s.db ∧ D r d.txn.writes := by
  cases hs with
  | @exec _ _ _ _ t hd hf =>
    obtain ⟨hdone, hop⟩ := System.done_resume hc hr
    have hreturns : Script.ReturnsByCommit D (.exec _ _) _ := h _ (List.mem_of_getElem? hd) hop rfl
    have hno := hreturns (t.env s.world (s.free i))
    dsimp only at hdone
    rw [hdone] at hno
    exact hno.elim
  | commit hd =>
    obtain ⟨hdone, hop⟩ := System.done_resume hc hr
    have hreturns : Script.ReturnsByCommit D (.commit _) _ := h _ (List.mem_of_getElem? hd) hop rfl
    dsimp only at hdone
    rw [hdone] at hreturns
    rcases hreturns with ⟨a, ha, hD⟩ | hno
    · cases ha
      exact ⟨_, _, hd, hop, rfl, rfl, hD⟩
    · exact hno.elim
  | rollback hd =>
    obtain ⟨hdone, hop⟩ := System.done_resume hc hr
    have hreturns : Script.ReturnsByCommit D (.rollback _) _ :=
      h _ (List.mem_of_getElem? hd) hop rfl
    dsimp only at hdone
    rw [hdone] at hreturns
    exact hreturns.elim

end Returns
end ReadCommitted
