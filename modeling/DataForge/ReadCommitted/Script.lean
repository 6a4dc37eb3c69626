import Mathlib.Data.List.Basic

/-!
# Transaction scripts

Library `ReadCommitted`. A script is a client call against a PostgreSQL-like store: a tree
of statements, commits and rollbacks. Each statement is one atomic step that sees the
committed state overlaid with the writes of its own open transaction, which is what
`READ COMMITTED` promises. Row locks (`FOR UPDATE`, `FOR SHARE`, the lock of every written
row) and transaction-scoped advisory locks are one kind of resource; they are released
when the transaction ends.
-/

namespace ReadCommitted

/-- Lock modes; two holders may share a resource only when both hold it `shared`. -/
inductive Mode where
  | shared
  | exclusive
  deriving DecidableEq, Repr

/-- Whether two different transactions may hold one resource in these modes. -/
def Mode.compatible : Mode → Mode → Bool
  | .shared, .shared => true
  | _, _ => false

/-- A held lock, with the clock value at which it was granted. -/
structure Lock (ρ : Type) where
  res : ρ
  mode : Mode
  since : ℕ

/-- How row writes act on a state, and the row each one locks exclusively. `same r` says that
two states agree on the resource `r`; a write changes its target only, and what it leaves
there depends on nothing else. -/
class Storage (σ : outParam Type) (W : Type) (ρ : outParam Type) where
  apply : W → σ → σ
  target : W → ρ
  same : ρ → σ → σ → Prop
  same_equiv (r : ρ) : Equivalence (same r)
  same_apply {w : W} {r : ρ} (db : σ) : target w ≠ r → same r (apply w db) db
  apply_same {r : ρ} {db db' : σ} (w : W) : same r db db' → same r (apply w db) (apply w db')

/-- What one statement sees. `now` is the wall clock, `began` the transaction timestamp,
`db` the committed state under the transaction's own writes, and `free` tells which
resources no other transaction holds in a conflicting mode. -/
structure Env (σ ρ : Type) where
  now : ℕ
  began : ℕ
  db : σ
  free : ρ → Mode → Bool

/-- What one statement does: the locks it takes besides those of the rows it writes. -/
structure Effect (W ρ : Type) where
  locks : List (ρ × Mode) := []
  writes : List W := []

/-- A client call. `exec` is one statement; `raise` is an uncaught exception. -/
inductive Script (σ W ρ α : Type) where
  | done (a : α)
  | raise (error : String)
  | exec (effect : Env σ ρ → Effect W ρ) (next : Env σ ρ → Script σ W ρ α)
  | commit (next : Script σ W ρ α)
  | rollback (next : Script σ W ρ α)

namespace Script

variable {σ W ρ α β : Type}

/-- Sequential composition. -/
def bind : Script σ W ρ α → (α → Script σ W ρ β) → Script σ W ρ β
  | .done a, k => k a
  | .raise e, _ => .raise e
  | .exec effect next, k => .exec effect (fun e => bind (next e) k)
  | .commit next, k => .commit (bind next k)
  | .rollback next, k => .rollback (bind next k)

instance : Monad (Script σ W ρ) where
  pure := .done
  bind

/-- One statement: take locks, write rows, return a value read from the same snapshot. -/
def statement (effect : Env σ ρ → Effect W ρ) (result : Env σ ρ → α) : Script σ W ρ α :=
  .exec effect (fun e => .done (result e))

/-- A plain `SELECT`. -/
def query (result : Env σ ρ → α) : Script σ W ρ α := statement (fun _ => {}) result

/-- `session.commit()`. -/
def commitNow : Script σ W ρ Unit := .commit (.done ())

/-- `session.rollback()`. -/
def rollbackNow : Script σ W ρ Unit := .rollback (.done ())

/-- The call has returned or raised; its session is closed. -/
def ended : Script σ W ρ α → Bool
  | .done _ => true
  | .raise _ => true
  | _ => false

@[simp] theorem pure_eq_done (a : α) : (pure a : Script σ W ρ α) = .done a := rfl

@[simp] theorem done_bind (a : α) (k : α → Script σ W ρ β) : (Script.done a >>= k) = k a := rfl

@[simp] theorem raise_bind (e : String) (k : α → Script σ W ρ β) :
    (Script.raise e >>= k) = .raise e := rfl

theorem statement_bind (effect : Env σ ρ → Effect W ρ) (result : Env σ ρ → α)
    (k : α → Script σ W ρ β) :
    (statement effect result >>= k) = .exec effect (fun e => k (result e)) := rfl

theorem commitNow_bind (k : Unit → Script σ W ρ β) : (commitNow >>= k) = .commit (k ()) := rfl

theorem rollbackNow_bind (k : Unit → Script σ W ρ β) :
    (rollbackNow >>= k) = .rollback (k ()) := rfl

theorem bind_assoc {γ : Type} (p : Script σ W ρ α) (f : α → Script σ W ρ β)
    (g : β → Script σ W ρ γ) : ((p >>= f) >>= g) = (p >>= fun a => f a >>= g) := by
  change bind (bind p f) g = bind p (fun a => bind (f a) g)
  induction p with
  | done a => rfl
  | raise e => rfl
  | exec effect next ih => simp only [bind, ih]
  | commit next ih => simp only [bind, ih]
  | rollback next ih => simp only [bind, ih]

/-- What a script does whatever other transactions do: `C` holds of what follows a commit, and
`Q` of a returned value and the writes that are staged by then. -/
def Ensures (C : Script σ W ρ α → Prop) (Q : α → List W → Prop) : Script σ W ρ α → List W → Prop
  | .done a, ws => Q a ws
  | .raise _, _ => True
  | .exec effect next, ws => ∀ e, (next e).Ensures C Q (ws ++ (effect e).writes)
  | .commit next, _ => C next ∧ next.Ensures C Q []
  | .rollback next, _ => next.Ensures C Q []

variable {k : α → Script σ W ρ β} {ws : List W} {C : Script σ W ρ β → Prop} {p : Script σ W ρ α}
  {Q : β → List W → Prop}

theorem Ensures.bind (h : p.Ensures (fun _ => False) (fun a ws => (k a).Ensures C Q ws) ws) :
    (p >>= k).Ensures C Q ws := by
  change (Script.bind p k).Ensures C Q ws
  induction p generalizing ws with
  | done a => exact h
  | raise e => trivial
  | exec effect next ih => exact fun e => ih e (h e)
  | commit next _ => exact h.1.elim
  | rollback next ih => exact ih h

theorem Ensures.mono {C : Script σ W ρ α → Prop} {Q Q' : α → List W → Prop}
    (hq : ∀ a ws, Q a ws → Q' a ws) (h : p.Ensures C Q ws) : p.Ensures C Q' ws := by
  induction p generalizing ws with
  | done a => exact hq a ws h
  | raise e => trivial
  | exec effect next ih => exact fun e => ih e (h e)
  | commit next ih => exact ⟨h.1, ih h.2⟩
  | rollback next ih => exact ih h

theorem Ensures.seq (h : p.Ensures (fun _ => False) (fun _ _ => True) ws)
    (hk : ∀ a ws, (k a).Ensures C Q ws) : (p >>= k).Ensures C Q ws :=
  .bind (h.mono fun a ws _ => hk a ws)

section Within

variable {σ' W' ρ' : Type} (part : σ' → σ) (write : W → W') (res : ρ → ρ')

/-- A script over a part of a larger database. -/
def within : Script σ W ρ α → Script σ' W' ρ' α
  | .done a => .done a
  | .raise e => .raise e
  | .exec effect next =>
    let env (e : Env σ' ρ') : Env σ ρ := ⟨e.now, e.began, part e.db, fun r => e.free (res r)⟩
    .exec (fun e =>
        { locks := (effect (env e)).locks.map (Prod.map res id)
          writes := (effect (env e)).writes.map write })
      (fun e => (next (env e)).within)
  | .commit next => .commit next.within
  | .rollback next => .rollback next.within

end Within

/-- Each commit of the script, with the writes that it commits and what follows it, is a `C`. -/
def Commits (C : List W → Script σ W ρ α → Prop) : Script σ W ρ α → List W → Prop
  | .done _, _ => True
  | .raise _, _ => True
  | .exec effect next, ws => ∀ e, (next e).Commits C (ws ++ (effect e).writes)
  | .commit next, ws => C ws next ∧ next.Commits C []
  | .rollback next, _ => next.Commits C []

variable {effect : Env σ ρ → Effect W ρ} {result : Env σ ρ → α}

theorem commits_statement {C : List W → Script σ W ρ β → Prop} (h : ∀ a ws, (k a).Commits C ws) :
    (statement effect result >>= k).Commits C ws :=
  fun e => h (result e) _

theorem commits_within {σ' W' ρ' γ : Type} {part : σ → σ'} {write : W' → W} {res : ρ' → ρ}
    {C : List W → Script σ W ρ β → Prop} {p : Script σ' W' ρ' γ} {k : γ → Script σ W ρ β}
    (hC : ∀ (ws : List W') q, C (ws.map write) q) (hws : ∃ vs : List W', ws = vs.map write)
    (h : ∀ a ws, (k a).Commits C ws) : (p.within part write res >>= k).Commits C ws := by
  change (Script.bind _ k).Commits C ws
  induction p generalizing ws with
  | done a => exact h a ws
  | raise e => trivial
  | exec effect next ih =>
    obtain ⟨vs, rfl⟩ := hws
    exact fun e => ih _ ⟨_, List.map_append.symm⟩
  | commit next ih =>
    obtain ⟨vs, rfl⟩ := hws
    exact ⟨hC vs _, ih ⟨[], rfl⟩⟩
  | rollback next ih => exact ih ⟨[], rfl⟩

/-- Every value of the script is returned by a statement that satisfies `B`, together with the
writes that are staged before it. -/
def ReturnsAt (B : Script σ W ρ α → List W → Prop) : Script σ W ρ α → List W → Prop
  | .done _, _ => False
  | .raise _, _ => True
  | .exec effect next, ws => ∀ e, ((next e).ended = true ∧ B (.exec effect next) ws) ∨
      (next e).ReturnsAt B (ws ++ (effect e).writes)
  | .commit next, _ => next.ReturnsAt B []
  | .rollback next, _ => next.ReturnsAt B []

theorem returnsAt_statement {B : Script σ W ρ β → List W → Prop} (h : ∀ a ws, (k a).ReturnsAt B ws)
    : (statement effect result >>= k).ReturnsAt B ws :=
  fun e => Or.inr (h (result e) _)

/-- What a call has met: what a statement saw, or the writes of a commit. -/
inductive Seen (σ W ρ : Type) where
  | saw (e : Env σ ρ)
  | committed (writes : List W)

/-- Every exception of the script satisfies `P` together with what the call has met by then, the
latest first. -/
def Raises (P : String → List (Seen σ W ρ) → Prop) :
    Script σ W ρ α → List W → List (Seen σ W ρ) → Prop
  | .done _, _, _ => True
  | .raise error, _, past => P error past
  | .exec effect next, ws, past =>
    ∀ e, (next e).Raises P (ws ++ (effect e).writes) (.saw e :: past)
  | .commit next, ws, past => next.Raises P [] (.committed ws :: past)
  | .rollback next, _, past => next.Raises P [] past

theorem raises_statement {P : String → List (Seen σ W ρ) → Prop} {past : List (Seen σ W ρ)}
    (h : ∀ e, (k (result e)).Raises P (ws ++ (effect e).writes) (.saw e :: past)) :
    (statement effect result >>= k).Raises P ws past := h

/-- Every value of the script is returned after a commit. -/
def CommitsFirst : Script σ W ρ α → Prop
  | .done _ => False
  | .raise _ => True
  | .exec _ next => ∀ e, (next e).CommitsFirst
  | .commit _ => True
  | .rollback next => next.CommitsFirst

theorem commitsFirst_statement (h : ∀ a, (k a).CommitsFirst) :
    (statement effect result >>= k).CommitsFirst :=
  fun e => h (result e)

theorem commitsFirst_rollback {k : Unit → Script σ W ρ β} (h : (k ()).CommitsFirst) :
    (rollbackNow >>= k).CommitsFirst := h

/-- At most `n` statements of the script have an effect of this kind. -/
def AtMost (kind : Effect W ρ → Prop) : Script σ W ρ α → ℕ → Prop
  | .done _, _ => True
  | .raise _, _ => True
  | .exec effect next, n => ∀ e, (0 < n ∧ (next e).AtMost kind (n - 1)) ∨
      (¬ kind (effect e) ∧ (next e).AtMost kind n)
  | .commit next, n => next.AtMost kind n
  | .rollback next, n => next.AtMost kind n

variable {kind : Effect W ρ → Prop}

theorem AtMost.mono {n m : ℕ} (hle : n ≤ m) (h : p.AtMost kind n) : p.AtMost kind m := by
  induction p generalizing n m with
  | done a => trivial
  | raise e => trivial
  | exec effect next ih =>
    refine fun e => (h e).imp (fun hl => ?_) fun hr => ⟨hr.1, ih e hle hr.2⟩
    exact ⟨Nat.lt_of_lt_of_le hl.1 hle, ih e (Nat.sub_le_sub_right hle 1) hl.2⟩
  | commit next ih => exact ih hle h
  | rollback next ih => exact ih hle h

theorem atMost_statement {n : ℕ} (h : ∀ a, (k a).AtMost kind n) :
    (statement effect result >>= k).AtMost kind (n + 1) :=
  fun e => Or.inl ⟨n.succ_pos, h (result e)⟩

theorem atMost_query {n : ℕ} (hkind : ¬ kind {}) (h : ∀ a, (k a).AtMost kind n) :
    (query result >>= k).AtMost kind n :=
  fun e => Or.inr ⟨hkind, h (result e)⟩

theorem ensures_query (h : ∀ e, (k (result e)).Ensures C Q ws) :
    (query result >>= k).Ensures C Q ws := by
  intro e
  rw [List.append_nil]
  exact h e

end Script

/-- The committed state and the clock. -/
structure World (σ : Type) where
  now : ℕ
  db : σ

/-- A transaction in progress: its locks, its uncommitted writes and its timestamp. -/
structure Txn (W ρ : Type) where
  held : List (Lock ρ) := []
  writes : List W := []
  began : Option ℕ := none

section Semantics

variable {σ W ρ α : Type} [Storage σ W ρ]

/-- A state under a list of writes, in order. -/
def view (writes : List W) (db : σ) : σ := writes.foldl (fun d w => Storage.apply w d) db

@[simp] theorem view_nil (db : σ) : view ([] : List W) db = db := rfl

theorem view_append (ws vs : List W) (db : σ) : view (ws ++ vs) db = view vs (view ws db) :=
  List.foldl_append

theorem view_same_of_ne {ws : List W} {r : ρ} (db : σ) (h : ∀ v ∈ ws, Storage.target v ≠ r) :
    Storage.same W r (view ws db) db := by
  induction ws generalizing db with
  | nil => exact (Storage.same_equiv r).refl db
  | cons v vs ih =>
    have hv := Storage.same_apply db (h v List.mem_cons_self)
    exact (Storage.same_equiv r).trans
      (ih (Storage.apply v db) (fun u hu => h u (List.mem_cons_of_mem v hu))) hv

theorem view_same {r : ρ} {db db' : σ} (ws : List W) (h : Storage.same W r db db') :
    Storage.same W r (view ws db) (view ws db') := by
  induction ws generalizing db db' with
  | nil => exact h
  | cons v vs ih => exact ih (Storage.apply_same v h)

/-- Every resource a statement must be granted: its explicit locks and its written rows. -/
def Effect.needs (f : Effect W ρ) : List (ρ × Mode) :=
  f.locks ++ f.writes.map (fun w => (Storage.target w, Mode.exclusive))

/-- What the next statement of a transaction sees. -/
def Txn.env (t : Txn W ρ) (w : World σ) (free : ρ → Mode → Bool) : Env σ ρ :=
  ⟨w.now, t.began.getD w.now, view t.writes w.db, free⟩

/-- The transaction after a statement. -/
def Txn.after (t : Txn W ρ) (e : Env σ ρ) (f : Effect W ρ) : Txn W ρ :=
  ⟨f.needs.map (fun n => ⟨n.1, n.2, e.now⟩) ++ t.held, t.writes ++ f.writes, some e.began⟩

theorem Txn.after_query (t : Txn W ρ) (e : Env σ ρ) :
    t.after e {} = ⟨t.held, t.writes, some e.began⟩ := by
  simp [Txn.after, Effect.needs]

/-- Run a script to its end while no other transaction is open; statement `n` reads `clock n`. -/
def Script.alone : Script σ W ρ α → (ℕ → ℕ) → Txn W ρ → σ → Except String α × σ
  | .done a, _, _, db => (.ok a, db)
  | .raise e, _, _, db => (.error e, db)
  | .exec effect next, clock, t, db =>
    let e := t.env ⟨clock 0, db⟩ (fun _ _ => true)
    (next e).alone (fun n => clock (n + 1)) (t.after e (effect e)) db
  | .commit next, clock, t, db => next.alone clock {} (view t.writes db)
  | .rollback next, clock, _, db => next.alone clock {} db

section Alone

variable {β : Type} {clock : ℕ → ℕ} {t : Txn W ρ} {db : σ}

/-- What the next statement sees when nothing else runs. -/
abbrev Txn.aloneEnv (t : Txn W ρ) (clock : ℕ → ℕ) (db : σ) : Env σ ρ :=
  t.env ⟨clock 0, db⟩ (fun _ _ => true)

theorem Script.alone_statement (effect : Env σ ρ → Effect W ρ) (result : Env σ ρ → α)
    (k : α → Script σ W ρ β) : (Script.statement effect result >>= k).alone clock t db =
      (k (result (t.aloneEnv clock db))).alone (fun n => clock (n + 1))
        (t.after (t.aloneEnv clock db) (effect (t.aloneEnv clock db))) db := rfl

theorem Script.alone_query (result : Env σ ρ → α) (k : α → Script σ W ρ β) :
    (Script.query result >>= k : Script σ W ρ β).alone clock t db =
      (k (result (t.aloneEnv clock db))).alone (fun n => clock (n + 1))
        ⟨t.held, t.writes, some (t.aloneEnv clock db).began⟩ db := by
  rw [← Txn.after_query]
  rfl

theorem Script.alone_commit (k : Unit → Script σ W ρ β) :
    (Script.commitNow >>= k).alone clock t db = (k ()).alone clock {} (view t.writes db) := rfl

theorem Script.alone_rollback (k : Unit → Script σ W ρ β) :
    (Script.rollbackNow >>= k).alone clock t db = (k ()).alone clock {} db := rfl

end Alone
end Semantics
end ReadCommitted
