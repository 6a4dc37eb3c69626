import DataForge.ReadCommitted.Gated

/-!
# The runtime coordinator: lease and fence

The lease of `src/packages/backend/runtime_coordinator.py` and the fence of
`src/packages/backend/backend_core/database.py`. The lease is an advisory lock of a PostgreSQL
session; each activation draws a new generation. A process whose generation is set checks it in
the first statement of every transaction. The tables that the transactions write, and what they
do, are arbitrary.
-/

namespace DataForge.Coordinator

open ReadCommitted

variable {σ W ρ : Type}

/-- `public.runtime_coordinator_state`, the session that holds the advisory lock, and the other
tables. -/
structure Tables (σ : Type) where
  generation : ℕ
  owner : Option ℕ
  store : σ

/-- A write. -/
inductive TableWrite (W : Type) where
  | generation (n : ℕ)
  | owner (session : Option ℕ)
  | store (w : W)

/-- What can be locked. -/
inductive TableRow (ρ : Type) where
  | generation
  | owner
  | store (r : ρ)
  deriving DecidableEq

/-- Perform one write. -/
def Tables.write [Storage σ W ρ] (db : Tables σ) : TableWrite W → Tables σ
  | .generation n => { db with generation := n }
  | .owner session => { db with owner := session }
  | .store w => { db with store := Storage.apply w db.store }

/-- What a write touches. -/
def TableWrite.target [Storage σ W ρ] : TableWrite W → TableRow ρ
  | .generation _ => .generation
  | .owner _ => .owner
  | .store w => .store (Storage.target w)

/-- Two databases agree. -/
def Tables.Same (W : Type) [Storage σ W ρ] (a b : Tables σ) : TableRow ρ → Prop
  | .generation => a.generation = b.generation
  | .owner => a.owner = b.owner
  | .store r => Storage.same W r a.store b.store

instance coordinatorStorage [Storage σ W ρ] : Storage (Tables σ) (TableWrite W) (TableRow ρ) where
  apply w db := db.write w
  target := TableWrite.target
  same r a b := Tables.Same W a b r
  same_equiv r := by
    cases r with
    | store r =>
      have h := Storage.same_equiv (W := W) r
      exact ⟨fun a => h.refl a.store, h.symm, h.trans⟩
    | _ => exact ⟨fun _ => rfl, Eq.symm, Eq.trans⟩
  same_apply {w r} db hne := by
    cases r with
    | store r =>
      cases w with
      | store w => exact Storage.same_apply db.store fun he => hne (congrArg TableRow.store he)
      | _ => exact (Storage.same_equiv (W := W) r).refl db.store
    | _ =>
      cases w <;> first
        | rfl
        | exact absurd rfl hne
  apply_same {r a b} w h := by
    cases r with
    | store r =>
      cases w with
      | store w => exact Storage.apply_same w h
      | _ => exact h
    | _ =>
      cases w <;> first
        | exact h
        | rfl

/-- What a call returns. -/
inductive Reply where
  | done
  | acquired (owned : Bool)
  | generation (n : ℕ)
  deriving DecidableEq

abbrev CoordinatorScript (σ W ρ : Type) :=
  Script (Tables σ) (TableWrite W) (TableRow ρ)

/-- The operations. A session is that of a lease: a process opens a new one after it has lost the
old one. -/
inductive Op (σ W ρ : Type) where
  | acquire (session : ℕ)
  | activateGeneration (session : ℕ)
  | endSession (session : ℕ)
  | transactions (generation : Option ℕ) (body : Script σ W ρ Unit)

/-- `RuntimeCoordinatorLease.acquire` (`runtime_coordinator.py:96-126`) on a new session:
`pg_try_advisory_lock` does not wait. -/
def acquire (session : ℕ) : CoordinatorScript σ W ρ Reply := do
  let owned ← Script.statement
    (fun e =>
      { writes := if e.db.owner = none ∧ e.free .owner .exclusive = true then
          [TableWrite.owner (some session)] else [] })
    (fun e => decide (e.db.owner = none ∧ e.free .owner .exclusive = true))
  Script.commitNow
  pure (.acquired owned)

/-- `RuntimeCoordinatorLease.activate_generation` (`runtime_coordinator.py:128-146`). The statement
runs on the session of the lock: it fails when that session is gone. -/
def activateGeneration (session : ℕ) : CoordinatorScript σ W ρ Reply := do
  let row ← Script.statement
    (fun e => if e.db.owner = some session then
      { locks := [(.owner, .shared)], writes := [TableWrite.generation (e.db.generation + 1)] }
      else {})
    (fun e => if e.db.owner = some session then some (e.db.generation + 1) else none)
  match row with
  | none => .raise "Runtime coordinator lease must be held before activating its generation"
  | some generation => do
    Script.commitNow
    pure (.generation generation)

/-- PostgreSQL releases the advisory lock of a session: `release` (`runtime_coordinator.py:215-230`)
closes it, or its process or connection is gone. -/
def endSession (session : ℕ) : CoordinatorScript σ W ρ Reply := do
  Script.statement
    (fun e =>
      { writes := if e.db.owner = some session then [TableWrite.owner none] else [] })
    (fun _ => ())
  Script.commitNow
  pure .done

/-- `_fence_runtime_transaction` (`database.py:177-189`), the listener of `after_begin`. -/
def fence (generation : ℕ) : Gate (Tables σ) (TableRow ρ) where
  row := .generation
  admits db := db.generation = generation
  error := "Runtime coordinator generation is fenced"

/-- The tables besides the fencing row. -/
def stored : Part σ W ρ (Tables σ) (TableWrite W) (TableRow ρ) where
  part := Tables.store
  write := .store
  res := .store

/-- The transactions of a session while `active_runtime_coordinator_generation` is `generation`. -/
def transactions (body : Script σ W ρ Unit) : Option ℕ → CoordinatorScript σ W ρ Unit
  | none => body.within Tables.store TableWrite.store TableRow.store
  | some generation => body.gated stored (fence generation) false

/-- The script of an operation. -/
def code : ℕ → Op σ W ρ → CoordinatorScript σ W ρ Reply
  | _, .acquire session => acquire session
  | _, .activateGeneration session => activateGeneration session
  | _, .endSession session => endSession session
  | _, .transactions generation body => do
    transactions body generation
    pure .done

end DataForge.Coordinator
