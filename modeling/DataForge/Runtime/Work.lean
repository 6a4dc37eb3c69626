import DataForge.ReadCommitted.Table
import DataForge.ReadCommitted.Logic
import Mathlib.Data.List.Sort
import Mathlib.Data.List.Dedup

/-!
# Durable namespace wakes

The database as the runtime sees it, one tenant schema per namespace and the `public` work
tables, and the wake service over it (`backend_core/runtime_work_service.py`). Wakes are
appended by producers and deleted by consumers under exact ids; a marker per namespace and
kind projects what is left to do. PostgreSQL with the distributed runtime is assumed
(`is_distributed_postgres`).
-/

namespace DataForge.Runtime

open ReadCommitted

/-- `timedelta(seconds=n)`; timestamps are microseconds. -/
def seconds (n : ℕ) : ℕ := n * 1000000

/-- `CLAIM_DELIVERY_LEASE_SECONDS` (`claiming.py:14`). -/
def claimDeliveryLease : ℕ := seconds 20

/-- `RuntimeWorkKind` (`runtime_work_service.py:20-26`). -/
inductive RuntimeWorkKind where
  | outbox
  | build
  | compute
  | datasourceDelete
  | storageCleanup
  | schedule
  deriving DecidableEq, Repr

/-- A row of `runtime_namespace_work_wakes` (`persistence/runtime_events/models.py:99-111`).
A deleted row stays as `acknowledged`, since the identity column never reissues an id. -/
structure Wake where
  ns : String
  kind : RuntimeWorkKind
  createdAt : ℕ
  acknowledged : Bool := false
  deriving DecidableEq, Repr

/-- A row of `runtime_namespace_work` (`persistence/runtime_events/models.py:75-96`). -/
structure Marker where
  pending : Bool
  generation : ℕ
  processedGeneration : ℕ
  dueAt : Option ℕ
  updatedAt : ℕ
  deriving DecidableEq, Repr

/-- The `public` work tables. -/
structure Work where
  wakes : Table ℕ Wake
  markers : Table (String × RuntimeWorkKind) Marker

/-- The database: one schema per namespace, and the `public` tables. -/
structure Db (τ : Type) where
  tenants : String → τ
  work : Work

/-- A row write. -/
inductive Write (W : Type) where
  | tenant (ns : String) (w : W)
  | wake (id : ℕ) (row : Option Wake)
  | marker (key : String × RuntimeWorkKind) (row : Option Marker)

/-- What a transaction can lock: rows, and advisory keys, which are global. -/
inductive Resource (ρ : Type) where
  | tenant (ns : String) (r : ρ)
  | advisory (key : ℤ)
  | wake (id : ℕ)
  | marker (key : String × RuntimeWorkKind)
  deriving DecidableEq

section Storage

variable {τ W ρ : Type} [Storage τ W ρ]

/-- Perform one row write. -/
def Db.write (db : Db τ) : Write W → Db τ
  | .tenant ns w =>
    { db with tenants := Function.update db.tenants ns (Storage.apply w (db.tenants ns)) }
  | .wake id row => { db with work := { db.work with wakes := db.work.wakes.put id row } }
  | .marker key row => { db with work := { db.work with markers := db.work.markers.put key row } }

/-- The row a write touches. -/
def Write.target : Write W → Resource ρ
  | .tenant ns w => .tenant ns (Storage.target w)
  | .wake id _ => .wake id
  | .marker key _ => .marker key

/-- Two databases agree on a resource. -/
def Db.Same (W : Type) [Storage τ W ρ] (a b : Db τ) : Resource ρ → Prop
  | .tenant ns r => Storage.same W r (a.tenants ns) (b.tenants ns)
  | .advisory _ => True
  | .wake id => a.work.wakes.get id = b.work.wakes.get id
  | .marker key => a.work.markers.get key = b.work.markers.get key

instance : Storage (Db τ) (Write W) (Resource ρ) where
  apply w db := db.write w
  target := Write.target
  same r a b := a.Same W b r
  same_equiv r := by
    cases r with
    | tenant ns r =>
      have h := Storage.same_equiv (W := W) (σ := τ) r
      exact ⟨fun _ => h.refl _, h.symm, h.trans⟩
    | advisory key => exact ⟨fun _ => trivial, fun _ => trivial, fun _ _ => trivial⟩
    | wake id => exact ⟨fun _ => rfl, Eq.symm, Eq.trans⟩
    | marker key => exact ⟨fun _ => rfl, Eq.symm, Eq.trans⟩
  same_apply {w r} db hne := by
    cases r with
    | tenant ns r =>
      cases w with
      | tenant ns' w =>
        by_cases hns : ns = ns'
        · subst hns
          have hr : Storage.target w ≠ r := fun he => hne (by rw [← he]; rfl)
          simpa [Db.Same, Db.write] using Storage.same_apply (db.tenants ns) hr
        · simpa [Db.Same, Db.write, hns] using (Storage.same_equiv (W := W) r).refl (db.tenants ns)
      | wake id row => exact (Storage.same_equiv (W := W) r).refl _
      | marker key row => exact (Storage.same_equiv (W := W) r).refl _
    | advisory key => trivial
    | wake id =>
      cases w with
      | wake id' row =>
        have hid : id ≠ id' := fun he => hne (by rw [he]; rfl)
        simp [Db.Same, Db.write, hid]
      | tenant ns w => rfl
      | marker key row => rfl
    | marker key =>
      cases w with
      | marker key' row =>
        have hk : key ≠ key' := fun he => hne (by rw [he]; rfl)
        simp [Db.Same, Db.write, hk]
      | tenant ns w => rfl
      | wake id row => rfl
  apply_same {r a b} w h := by
    cases r with
    | tenant ns r =>
      cases w with
      | tenant ns' w =>
        by_cases hns : ns = ns'
        · subst hns
          simpa [Db.Same, Db.write] using Storage.apply_same w h
        · simpa [Db.Same, Db.write, hns] using h
      | wake id row => exact h
      | marker key row => exact h
    | advisory key => trivial
    | wake id =>
      cases w with
      | wake id' row =>
        have h' : a.work.wakes.get id = b.work.wakes.get id := h
        simp [Db.Same, Db.write, h']
      | tenant ns w => exact h
      | marker key row => exact h
    | marker key =>
      cases w with
      | marker key' row =>
        have h' : a.work.markers.get key = b.work.markers.get key := h
        simp [Db.Same, Db.write, h']
      | tenant ns w => exact h
      | wake id row => exact h

end Storage

/-- A wake row that still stands for work of `kind` in `ns`. -/
def Wake.live (ns : String) (kind : RuntimeWorkKind) (w : Wake) : Bool :=
  w.ns = ns && w.kind = kind && !w.acknowledged

/-- `_WAKE_BATCH_SIZE`. -/
def wakeBatchSize : ℕ := 256

/-- When a marker row makes its namespace a candidate, and with which priority. -/
def Marker.candidate (now : ℕ) (m : Marker) : Option ℕ :=
  if m.pending then some m.updatedAt else m.dueAt.filter (· ≤ now)

namespace Work

/-- Ids of the wakes of a queue, in order. -/
def liveIds (work : Work) (ns : String) (kind : RuntimeWorkKind) : List ℕ :=
  ((work.wakes.rows.filter (fun e => e.2.live ns kind)).map Prod.fst).insertionSort (· ≤ ·)

/-- The bounded id set a consumer acknowledges (`runtime_work_service.py:240-248`). -/
def captured (work : Work) (ns : String) (kind : RuntimeWorkKind) : List ℕ :=
  (work.liveIds ns kind).take wakeBatchSize

/-- `COALESCE(work.generation, 0)`. -/
def generation (work : Work) (ns : String) (kind : RuntimeWorkKind) : ℕ :=
  ((work.markers.get (ns, kind)).map Marker.generation).getD 0

/-- The inner union of `list_pending_namespaces` (`runtime_work_service.py:203-216`). -/
def pendingWork (work : Work) (kinds : List RuntimeWorkKind) (now : ℕ) : List (String × ℕ) :=
  (work.markers.rows.filterMap fun e =>
    if e.1.2 ∈ kinds then (Marker.candidate now e.2).map (e.1.1, ·) else none) ++
  (work.wakes.rows.filterMap fun e =>
    if e.2.kind ∈ kinds ∧ e.2.acknowledged = false then some (e.2.ns, e.2.createdAt) else none)

/-- `min(priority_at)` of one namespace. -/
def priorityAt (candidates : List (String × ℕ)) (ns : String) : ℕ :=
  (((candidates.filter (·.1 = ns)).map Prod.snd).min?).getD 0

/-- `list_pending_namespaces` (`runtime_work_service.py:188-221`) at statement time `now`. -/
def listPendingNamespaces (work : Work) (kinds : List RuntimeWorkKind) (now : ℕ) : List String :=
  let candidates := work.pendingWork kinds now
  ((candidates.map Prod.fst).dedup).insertionSort fun a b =>
    priorityAt candidates a < priorityAt candidates b ∨
      (priorityAt candidates a = priorityAt candidates b ∧ a ≤ b)

/-- The namespaces `list_due_schedule_namespaces` unites (`runtime_work_service.py:91-98`). -/
def scheduleCandidates (work : Work) (now : ℕ) : List String :=
  ((work.markers.rows.filter fun e => e.1.2 = .schedule && (e.2.candidate now).isSome).map
      (·.1.1) ++
    (work.wakes.rows.filter fun e => e.2.kind = .schedule && !e.2.acknowledged).map (·.2.ns)).dedup

/-- The sort key of a due namespace (`runtime_work_service.py:112-119`). -/
def scheduleOrder (work : Work) (now : ℕ) (ns : String) : ℕ :=
  match (work.markers.get (ns, .schedule)).bind (Marker.candidate now) with
  | some priority => priority
  | none =>
    (((work.wakes.rows.filter fun e => e.2.live ns .schedule).map (·.2.createdAt)).min?).getD now

/-- `list_due_schedule_namespaces` (`runtime_work_service.py:79-124`) at statement time `now`:
each due namespace with its generation and the wakes captured for it. -/
def listDueScheduleNamespaces (work : Work) (now : ℕ) (limit : ℕ := 100) :
    List (String × ℕ × List ℕ) :=
  (((work.scheduleCandidates now).insertionSort fun a b =>
    work.scheduleOrder now a < work.scheduleOrder now b ∨
      (work.scheduleOrder now a = work.scheduleOrder now b ∧ a ≤ b)).take limit).map fun ns =>
    (ns, work.generation ns .schedule, work.captured ns .schedule)

end Work

section Scripts

variable {τ W ρ : Type}

/-- `append_wake` (`runtime_work_service.py:43-71`). The identity column hands out `id`; an id
that was ever committed is not handed out again. -/
def appendWake (ns : String) (kind : RuntimeWorkKind) (id : ℕ) :
    Script (Db τ) (Write W) (Resource ρ) ℕ :=
  .exec
    (fun e => match e.db.work.wakes.get id with
      | none => { writes := [.wake id (some ⟨ns, kind, e.now, false⟩)] }
      | some _ => {})
    (fun e => match e.db.work.wakes.get id with
      | none => .done id
      | some _ => .raise "duplicate key value violates unique constraint")

/-- The marker an acknowledged snapshot leaves (`runtime_work_service.py:268-288`). -/
def refreshedMarker (generation : ℕ) (pending : Bool) (dueAt : Option ℕ) (now : ℕ) : Marker :=
  { pending
    generation := generation + 1
    processedGeneration := generation + 1
    dueAt := if pending then none else dueAt
    updatedAt := now }

/-- The `DELETE` of exactly the captured ids that are still there. -/
def acknowledge (work : Work) (ns : String) (kind : RuntimeWorkKind) (ids : List ℕ) :
    List (Write W) :=
  ids.filterMap fun id => (work.wakes.get id).bind fun w =>
    if w.live ns kind then some (.wake id (some { w with acknowledged := true })) else none

/-- `refresh_pending_work` (`runtime_work_service.py:228-309`): capture a bounded id set,
snapshot the queue, compare-and-set the marker, and delete the captured rows. -/
def refreshPendingWork (ns : String) (kind : RuntimeWorkKind) (pendingQuery : ℕ → τ → Bool)
    (dueQuery : ℕ → τ → Option ℕ) : Script (Db τ) (Write W) (Resource ρ) Unit := do
  let capturedIds ← Script.query fun e => e.db.work.captured ns kind
  let (generation, pending, dueAt) ← Script.query fun e =>
    (e.db.work.generation ns kind, pendingQuery e.now (e.db.tenants ns),
      dueQuery e.now (e.db.tenants ns))
  -- `ON CONFLICT DO UPDATE` locks the marker before it evaluates `work.generation = :generation`
  let updated ← Script.statement
    (fun e =>
      { locks := [(.marker (ns, kind), .exclusive)]
        writes := if e.db.work.markers.get (ns, kind) = none ∨
            e.db.work.generation ns kind = generation then
          [.marker (ns, kind) (some (refreshedMarker generation pending dueAt e.now))] else [] })
    (fun e => decide (e.db.work.markers.get (ns, kind) = none ∨
      e.db.work.generation ns kind = generation))
  if updated ∧ capturedIds ≠ [] then
    Script.statement (fun e => { writes := acknowledge e.db.work ns kind capturedIds })
      (fun _ => ())
  else pure ()

end Scripts
end DataForge.Runtime
