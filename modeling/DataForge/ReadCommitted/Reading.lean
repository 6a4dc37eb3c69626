import DataForge.ReadCommitted.Logic

/-!
# Calls that change little

Library `ReadCommitted`. A part of a script that stays in its transaction and writes rows of one
kind only keeps what is known about the others. A call that only reads in the states it can meet
changes nothing, and what it returns was read in one of them. A call that returns by its commit
has changed nothing when it ends otherwise.
-/

namespace ReadCommitted

variable {Op σ W ρ α β : Type}

namespace Script

/-- A part of a script that does not end its transaction and writes rows of `B` only. -/
def Stays (B : W → Prop) : Script σ W ρ α → Prop
  | .done _ => True
  | .raise _ => True
  | .exec effect next => ∀ e, (∀ v ∈ (effect e).writes, B v) ∧ (next e).Stays B
  | .commit _ => False
  | .rollback _ => False

variable {B : W → Prop}

theorem Stays.bind {p : Script σ W ρ α} {k : α → Script σ W ρ β} (hp : p.Stays B)
    (hk : ∀ a, (k a).Stays B) : (p >>= k).Stays B := by
  change (Script.bind p k).Stays B
  induction p with
  | done a => exact hk a
  | raise e => trivial
  | exec effect next ih => exact fun e => ⟨(hp e).1, ih e (hp e).2⟩
  | commit next => exact hp.elim
  | rollback next => exact hp.elim

variable {result : Env σ ρ → α}

theorem stays_statement {effect : Env σ ρ → Effect W ρ} (h : ∀ e, ∀ v ∈ (effect e).writes, B v) :
    (statement effect result).Stays B :=
  fun e => ⟨h e, trivial⟩

theorem stays_query :
    (query result : Script σ W ρ α).Stays B := stays_statement fun _ _ h => by cases h

/-- In states of `I` the script writes and commits nothing, and what it returns is returned by a
statement in such a state, where `R` holds of it. -/
def ReadsOnly (I : σ → Prop) (R : σ → α → Prop) : Script σ W ρ α → Prop
  | .done _ => True
  | .raise _ => True
  | .exec effect next => ∀ e, I e.db →
      (effect e).writes = [] ∧ (∀ a, next e = .done a → R e.db a) ∧ (next e).ReadsOnly I R
  | .commit _ => False
  | .rollback next => (∀ a, next ≠ .done a) ∧ next.ReadsOnly I R

/-- The script returns by its only commit, and raises before it, errors of `E` only. -/
def EndsBy (E : String → Prop) : Script σ W ρ α → Prop
  | .done _ => False
  | .raise error => E error
  | .exec _ next => ∀ e, (next e).EndsBy E
  | .commit next => ∃ a, next = .done a
  | .rollback next => next.EndsBy E

theorem endsBy_statement {E : String → Prop} {effect : Env σ ρ → Effect W ρ}
    {k : α → Script σ W ρ β} (h : ∀ a, (k a).EndsBy E) :
    (statement effect result >>= k).EndsBy E := fun e => h (result e)

end Script

namespace Protocol

variable [Storage σ W ρ] {P : Protocol Op σ W ρ} {i : ℕ} {op : Op} {t : Txn W ρ} {w : World σ}

theorem wp_free {Q : α → Txn W ρ → World σ → Prop} (hact : ∀ h w db, P.act i op h w db)
    (hQ : ∀ a t w, Q a t w) (p : Script σ W ρ α) : P.wp i op Q p t w := by
  induction p generalizing t w with
  | done a => exact hQ a t w
  | raise e => trivial
  | exec effect next ih => exact fun _ _ _ _ _ => ih _
  | commit next ih => exact fun _ _ _ _ => ⟨hact _ _ _, ih⟩
  | rollback next ih => exact fun _ _ _ => ih

/-- A part of a script that writes rows of `B` only keeps what survives interference and such
writes. -/
theorem wp_stays {B : W → Prop} {M : Txn W ρ → World σ → Prop}
    {Q : β → Txn W ρ → World σ → Prop} {p : Script σ W ρ α} {k : α → Script σ W ρ β}
    (hrely : ∀ t w w', M t w → P.Rely t.held w w' → M t w')
    (hstep : ∀ t w e f, M t w → P.inv w → P.Sees i t w e → (∀ v ∈ f.writes, B v) →
      M (t.after e f) w)
    (hp : p.Stays B) (hM : M t w)
    (hk : ∀ a t' w', M t' w' → t.held ⊆ t'.held → P.Rely t.held w w' →
      (∃ ws, t'.writes = t.writes ++ ws ∧ ∀ v ∈ ws, B v) → P.wp i op Q (k a) t' w') :
    P.wp i op Q (p >>= k) t w := by
  change P.wp i op Q (Script.bind p k) t w
  induction p generalizing t w with
  | done a => exact hk a t w hM (List.Subset.refl _) .refl ⟨[], by simp⟩
  | raise e => trivial
  | exec effect next ih =>
    refine wp_exec fun w1 e hr hi hs => ?_
    have hsub := t.held_subset_after e (effect e)
    refine ih e (hp e).2 (hstep _ _ _ _ (hrely _ _ _ hM hr) hi hs (hp e).1)
      fun a t' w' hM' hsub' hr' hws => ?_
    obtain ⟨ws, hws, hB⟩ := hws
    refine hk a t' w' hM' (fun k hk => hsub' (hsub hk)) (hr.trans (hr'.mono hsub))
      ⟨(effect e).writes ++ ws, by rw [hws, Txn.after, List.append_assoc], fun v hv => ?_⟩
    rcases List.mem_append.mp hv with hv | hv
    · exact (hp e).1 v hv
    · exact hB v hv
  | commit next => exact hp.elim
  | rollback next => exact hp.elim

end Protocol

section Runs

variable [DecidableEq ρ] [Storage σ W ρ] {code : ℕ → Op → Script σ W ρ α}
  {s s' : System Op σ W ρ α} {ok : System Op σ W ρ α → Action Op → System Op σ W ρ α → Prop}
  {P : Op → Prop} {I : σ → Prop} {R : σ → α → Prop}

/-- A call that has written nothing and only reads from now on. -/
def Call.Reads (I : σ → Prop) (R : σ → α → Prop) (c : Call Op σ W ρ α) : Prop :=
  c.txn.writes = [] ∧ c.script.ReadsOnly I R

variable {c : Call Op σ W ρ α}

omit [DecidableEq ρ] [Storage σ W ρ] in
theorem Call.Reads.settle (h : c.Reads I R) : c.settle.Reads I R := by
  unfold Call.settle
  split
  · exact ⟨rfl, h.2⟩
  · exact h

/-- Along a run through states of `I`, the calls of `P` that start during the run only read. -/
theorem Run.reads (hcode : ∀ i op, P op → (code i op).ReadsOnly I R)
    (hI : ∀ u a u', ok u a u' → I u.db) (hr : Run code ok s s') {j : ℕ} (hj : s.calls.length ≤ j)
    (hc : s'.calls[j]? = some c) (hP : P c.op) : c.Reads I R := by
  induction hr generalizing c with
  | refl =>
    obtain ⟨hlt, -⟩ := List.getElem?_eq_some_iff.mp hc
    omega
  | @step u u' a _ hs hok ih =>
    have resumed {v : System Op σ W ρ α} {i : ℕ} {d : Call Op σ W ρ α}
        (hv : ∀ {c}, v.calls[j]? = some c → P c.op → c.Reads I R)
        (hd : i = j → P d.op → d.Reads I R) (hc : (v.resume i d).calls[j]? = some c) :
        c.Reads I R := by
      rcases System.calls_resume hc with ⟨rfl, rfl⟩ | ⟨-, hc⟩
      · have hop : d.settle.op = d.op := by unfold Call.settle; split <;> rfl
        exact (hd rfl (hop ▸ hP)).settle
      · exact hv hc hP
    cases stepped hs with
    | tick => exact ih hc hP
    | spawn op =>
      rw [List.getElem?_append] at hc
      split at hc
      · exact ih hc hP
      · rw [List.getElem?_singleton] at hc
        split at hc
        · cases hc
          have hop : (Call.settle ⟨op, code u.calls.length op, {}⟩ : Call Op σ W ρ α).op = op := by
            unfold Call.settle
            split <;> rfl
          exact Call.Reads.settle ⟨rfl, hcode _ _ (hop ▸ hP)⟩
        · cases hc
    | @exec i op effect next t hd hf =>
      refine resumed (fun hc hP => ih hc hP) (fun hij hop => ?_) hc
      subst hij
      obtain ⟨hw, hreads⟩ := ih hd hop
      dsimp only at hw
      have hdb : I (t.env u.world (u.free i)).db := by
        rw [Txn.env, hw]
        exact hI _ _ _ hok
      obtain ⟨hnil, -, hnext⟩ := hreads _ hdb
      exact ⟨by rw [Txn.after, hw, hnil]; rfl, hnext⟩
    | commit hd =>
      refine resumed (v := ⟨_, _, _⟩) (fun hc hP => ih hc hP) (fun hij hop => ?_) hc
      subst hij
      exact (ih hd hop).2.elim
    | rollback hd =>
      refine resumed (fun hc hP => ih hc hP) (fun hij hop => ?_) hc
      subst hij
      exact ⟨rfl, (ih hd hop).2.2⟩
    | @abort i d hd =>
      exact resumed (d := ⟨d.op, .raise "aborted", {}⟩) (fun hc hP => ih hc hP)
        (fun _ _ => ⟨rfl, trivial⟩) hc

theorem Call.Reads.step {j : ℕ} {c d : Call Op σ W ρ α} (h : c.Reads I R) (hI : I s.db)
    (hc : s.calls[j]? = some c) (hs : s.step code (.run j) = some s') :
    s'.db = s.db ∧ ∀ a, s'.calls[j]? = some d → d.script = .done a → R s.db a := by
  cases stepped hs with
  | @exec _ op effect next t hd hf =>
    cases hc.symm.trans hd
    obtain ⟨hw, hreads⟩ := h
    dsimp only at hw
    have hdb : (t.env s.world (s.free j)).db = s.db := by
      rw [Txn.env, hw]
      rfl
    refine ⟨rfl, fun a hd' hdone => ?_⟩
    obtain ⟨hnext, -⟩ := System.done_resume hd' hdone
    rw [← hdb]
    exact (hreads _ (hdb ▸ hI)).2.1 a hnext
  | commit hd =>
    cases hc.symm.trans hd
    exact h.2.elim
  | rollback hd =>
    cases hc.symm.trans hd
    refine ⟨rfl, fun a hd' hdone => ?_⟩
    exact absurd (System.done_resume hd' hdone).1 (h.2.1 a)

theorem Run.endsBy {E : String → Prop} (hcode : ∀ i op, P op → (code i op).EndsBy E)
    (hr : Run code ok s s') (h : s.calls = []) :
    ∀ c ∈ s'.calls, P c.op → c.script.ended = false → c.script.EndsBy E := by
  have hall := Run.scripts (S := fun op p _ => P op → p.ended = false → p.EndsBy E)
    (fun i op hp _ => hcode i op hp) (fun _ _ _ _ e hS _ hp _ => hS hp rfl e) ?_
    (fun _ _ _ hS hp _ => hS hp rfl) hr fun c hc => by rw [h] at hc; cases hc
  · exact fun c hc hp he => hall c hc he hp he
  · intro op next ws hS hp he
    obtain ⟨a, rfl⟩ := hS hp rfl
    cases he

/-- The step that ends such a call is its commit, or leaves the committed state alone and raises
an error of `E`. -/
theorem Stepped.endsBy {E : String → Prop} {i : ℕ}
    (h : ∀ d ∈ s.calls, d.op = c.op → d.script.ended = false → d.script.EndsBy E)
    (hs : Stepped code s (.run i) s') (hc : s'.calls[i]? = some c) (hended : c.script.ended = true)
    :
    (∃ d next, s.calls[i]? = some d ∧ d.op = c.op ∧ d.script = .commit next) ∨
      (s'.db = s.db ∧ ∃ error, c.script = .raise error ∧ E error) := by
  have hsettle {d : Call Op σ W ρ α} {u : System Op σ W ρ α}
      (hc : (u.resume i d).calls[i]? = some c) : d.script = c.script ∧ d.op = c.op := by
    rcases System.calls_resume hc with ⟨-, rfl⟩ | ⟨hne, -⟩
    · unfold Call.settle
      split <;> exact ⟨rfl, rfl⟩
    · exact absurd rfl hne
  have raised {p : Script σ W ρ α} (hp : p.EndsBy E) (hscript : p = c.script) :
      ∃ error, c.script = .raise error ∧ E error := by
    subst hscript
    cases hcs : c.script with
    | raise error =>
      rw [hcs] at hp
      exact ⟨error, rfl, hp⟩
    | done a => rw [hcs] at hp; exact hp.elim
    | _ => rw [hcs] at hended; cases hended
  cases hs with
  | exec hd hf =>
    obtain ⟨hscript, hop⟩ := hsettle hc
    exact Or.inr ⟨rfl, raised (h _ (List.mem_of_getElem? hd) hop rfl _) hscript⟩
  | commit hd => exact Or.inl ⟨_, _, hd, (hsettle hc).2, rfl⟩
  | @rollback _ op next t hd =>
    obtain ⟨hscript, hop⟩ := hsettle hc
    have hp : next.EndsBy E := h ⟨op, .rollback next, t⟩ (List.mem_of_getElem? hd) hop rfl
    exact Or.inr ⟨rfl, raised hp hscript⟩

end Runs

end ReadCommitted
