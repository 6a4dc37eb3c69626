import Mathlib.Data.List.Basic
import DataForge.ReadCommitted.Table
import DataForge.Transitions.Fair

/-!
# Waiting for compute responses

The local waiters of durable compute requests: the registry
(`backend/backend_core/compute_response_recovery.py`) and the calls that wait
(`_submit_and_wait` from its registration on, `backend/modules/compute/executor_client.py:359-449`).
A step is what one coroutine does between two suspensions. The registry's lock is never held across
a suspension, so no step waits for it.
-/

namespace DataForge.Responses

open ReadCommitted (Table)

variable {ρ : Type}

/-- A durable request row: not terminal yet, or terminal with its response. -/
inductive Row (ρ : Type) where
  | active
  | terminal (response : ρ)
deriving DecidableEq

/-- `_PendingComputeResponse` (`compute_response_recovery.py:24-31`); `event` is the identity of
its `wake_event`. -/
structure Pending (ρ : Type) where
  ns : String
  waiterCount : ℕ
  wakeVersion : ℕ
  terminal : Option ρ
  event : ℕ
deriving DecidableEq

/-- The registry: `_pending`, and the identity of the next `wake_event`. -/
structure Registry (ρ : Type) where
  pending : Table String (Pending ρ)
  nextEvent : ℕ

namespace Registry

/-- Write one entry of `_pending`. -/
def set (g : Registry ρ) (requestId : String) (p : Option (Pending ρ)) : Registry ρ :=
  { g with pending := g.pending.put requestId p }

/-- `register` (lines 70-78); `none` is the `ValueError`. -/
def register (g : Registry ρ) (requestId ns : String) : Option (Registry ρ) :=
  match g.pending.get requestId with
  | none =>
    some { g.set requestId (some ⟨ns, 1, 0, none, g.nextEvent⟩) with nextEvent := g.nextEvent + 1 }
  | some current =>
    if current.ns = ns then
      some (g.set requestId (some { current with waiterCount := current.waiterCount + 1 }))
    else none

/-- `unregister` (lines 80-88). -/
def unregister (g : Registry ρ) (requestId : String) : Registry ρ :=
  match g.pending.get requestId with
  | none => g
  | some current =>
    if current.waiterCount ≤ 1 then g.set requestId none
    else g.set requestId (some { current with waiterCount := current.waiterCount - 1 })

/-- `terminal_request` (lines 90-93). -/
def terminalRequest (g : Registry ρ) (requestId : String) : Option ρ :=
  (g.pending.get requestId).bind Pending.terminal

/-- `wake_version` (lines 95-98). -/
def wakeVersion (g : Registry ρ) (requestId : String) : ℕ :=
  ((g.pending.get requestId).map Pending.wakeVersion).getD 0

end Registry

/-- How a call ends: with the terminal response, because the row is gone, because its read
raised, because it was cancelled or its client went away, or because its registration was
refused. -/
inductive Outcome (ρ : Type) where
  | completed (response : ρ)
  | disappeared
  | raised
  | interrupted
  | refused
deriving DecidableEq

/-- Where a call is suspended. `read` and `failed` say that its database thread is done,
`starting` that its `response_task` is created, `woke` that this task is done, `abandoning` that
the cancelled call retires its request. -/
inductive Phase (ρ : Type) where
  | staged
  | reading
  | read (row : Option (Row ρ))
  | failed
  | starting
  | waiting (event : ℕ) (woken : Bool)
  | woke (version : ℕ)
  | abandoning
  | returned (outcome : Outcome ρ)
deriving DecidableEq

/-- One call of `_submit_and_wait`; `shared` says that its kind is a shared flight. -/
structure Waiter (ρ : Type) where
  requestId : String
  ns : String
  shared : Bool
  seen : ℕ
  phase : Phase ρ
deriving DecidableEq

namespace Waiter

/-- Leave through `finally` (lines 448-449). -/
def leave (g : Registry ρ) (w : Waiter ρ) (outcome : Outcome ρ) : Registry ρ × Waiter ρ :=
  (g.unregister w.requestId, { w with phase := .returned outcome })

/-- The head of the loop (lines 382-386, 404-417): the recovered response, or else a read. -/
def check (g : Registry ρ) (w : Waiter ρ) : Registry ρ × Waiter ρ :=
  match g.terminalRequest w.requestId with
  | some response => w.leave g (.completed response)
  | none => (g, { w with phase := .reading })

/-- `wait_for_wake` has returned (lines 424-426). -/
def wake (g : Registry ρ) (w : Waiter ρ) (version : ℕ) : Registry ρ × Waiter ρ :=
  if w.shared then { w with seen := version }.check g else (g, { w with phase := .woke version })

/-- One round of `wait_for_wake` (`compute_response_recovery.py:113-127`). -/
def waitForWake (g : Registry ρ) (w : Waiter ρ) : Registry ρ × Waiter ρ :=
  match g.pending.get w.requestId with
  | none => w.wake g w.seen
  | some pending =>
    if pending.wakeVersion ≠ w.seen then w.wake g pending.wakeVersion
    else (g, { w with phase := .waiting pending.event false })

/-- What the call does when it is resumed; `none` where it cannot be. -/
def resume (g : Registry ρ) (w : Waiter ρ) : Option (Registry ρ × Waiter ρ) :=
  match w.phase with
  | .staged =>
    match g.register w.requestId w.ns with
    | none => some (g, { w with phase := .returned .refused })
    | some g' => some ({ w with seen := g'.wakeVersion w.requestId }.check g')
  | .read none => some (w.leave g .disappeared)
  | .read (some (.terminal response)) => some (w.leave g (.completed response))
  | .read (some .active) =>
    if w.shared then some (w.waitForWake g) else some (g, { w with phase := .starting })
  | .failed => some (w.leave g .raised)
  | .starting => some (w.waitForWake g)
  | .waiting _ true => some (w.waitForWake g)
  | .woke version => some ({ w with seen := version }.check g)
  | .abandoning => some (w.leave g .interrupted)
  | .reading => none
  | .waiting _ false => none
  | .returned _ => none

/-- A cancellation, or the client's disconnect (lines 438-449). Before the registration it ends
the call; a call for a shared flight leaves at once, another first retires its request. -/
def interrupt (g : Registry ρ) (w : Waiter ρ) : Option (Registry ρ × Waiter ρ) :=
  match w.phase with
  | .staged => some (g, { w with phase := .returned .interrupted })
  | .abandoning => some (w.leave g .interrupted)
  | .returned _ => none
  | _ =>
    if w.shared then some (w.leave g .interrupted) else some (g, { w with phase := .abandoning })

/-- The database thread of a call is done: it has read the row, or it has raised. -/
def threadDone (w : Waiter ρ) (phase : Phase ρ) : Option (Waiter ρ) :=
  match w.phase with
  | .reading => some { w with phase }
  | _ => none

/-- `wake_event.set()`, seen from a call that waits for the event. -/
def signalled (requestId : String) (event : ℕ) (w : Waiter ρ) : Waiter ρ :=
  match w.phase with
  | .waiting e _ =>
    if w.requestId = requestId ∧ e = event then { w with phase := .waiting e true } else w
  | _ => w

end Waiter

/-- Where `_poll_once` is suspended (lines 171-246): a batch of one namespace is read, or has been
read. -/
inductive Pass (ρ : Type) where
  | idle
  | polling (ns : String) (batch : List String) (rest : List (String × List String))
  | polled (ns : String) (found : List (String × ρ)) (rest : List (String × List String))

/-- The next batch of a pass. -/
def Pass.next : List (String × List String) → Pass ρ
  | [] => .idle
  | (ns, batch) :: rest => .polling ns batch rest

/-- `_MAX_REQUESTS_PER_NAMESPACE_POLL` (line 20). -/
def batchSize : ℕ := 256

/-- `batched` of `itertools`. -/
def batched {α : Type} (n : ℕ) (l : List α) : List (List α) :=
  (List.range ((l.length + n - 1) / n)).map fun i => (l.drop (i * n)).take n

/-- The batches of a pass (lines 172-180): the requests without a terminal response, by
namespace. -/
def Registry.batches (g : Registry ρ) : List (String × List String) :=
  let open_ := g.pending.rows.filter fun e => e.2.terminal.isNone
  (open_.map (·.2.ns)).eraseDups.flatMap fun ns =>
    (batched batchSize ((open_.filter (·.2.ns = ns)).map (·.1))).map (ns, ·)

/-- The durable rows by namespace and id, the registry, the calls and the recovery pass. -/
structure System (ρ : Type) where
  rows : String → String → Option (Row ρ)
  registry : Registry ρ
  waiters : List (Waiter ρ)
  pass : Pass ρ

/-- What can happen: a row is staged or becomes terminal, a call begins, goes on, is interrupted,
or its thread reads its row or fails; a notification arrives; the recovery pass starts, its thread
reads a batch or fails, or it goes on. -/
inductive Action (ρ : Type) where
  | stage (ns requestId : String)
  | commit (ns requestId : String) (response : ρ)
  | submit (ns requestId : String) (shared : Bool)
  | resume (i : ℕ)
  | interrupt (i : ℕ)
  | readRow (i : ℕ)
  | readFails (i : ℕ)
  | notify (requestId : String)
  | passStart
  | passRead
  | passFails
  | passResume
deriving DecidableEq

namespace System

/-- Wake the followers of a request: raise the version and set the event. -/
def signal (s : System ρ) (requestId : String) (p : Pending ρ) : System ρ :=
  { s with
    registry := s.registry.set requestId (some { p with wakeVersion := p.wakeVersion + 1 })
    waiters := s.waiters.map (Waiter.signalled requestId p.event) }

/-- `notify` (`compute_response_recovery.py:136-143`). -/
def notify (s : System ρ) (requestId : String) : System ρ :=
  match s.registry.pending.get requestId with
  | none => s
  | some p => s.signal requestId p

/-- One recovered response (lines 218-228). -/
def deliver (ns : String) (s : System ρ) (found : String × ρ) : System ρ :=
  match s.registry.pending.get found.1 with
  | none => s
  | some p => if p.ns = ns then s.signal found.1 { p with terminal := some found.2 } else s

/-- `list_terminal_requests` of one batch (`compute_requests_service.py:518-560`). -/
def terminalRequests (s : System ρ) (ns : String) (batch : List String) : List (String × ρ) :=
  batch.filterMap fun requestId =>
    match s.rows ns requestId with
    | some (.terminal response) => some (requestId, response)
    | _ => none

/-- Write one durable row. -/
def setRow (s : System ρ) (ns requestId : String) (row : Row ρ) : System ρ :=
  { s with rows := fun ns' id =>
      if ns' = ns ∧ id = requestId then some row else s.rows ns' id }

/-- Put back what a call did. -/
def update (s : System ρ) (i : ℕ) (x : Registry ρ × Waiter ρ) : System ρ :=
  { s with registry := x.1, waiters := s.waiters.set i x.2 }

end System

/-- One step. -/
def step (s : System ρ) : Action ρ → Option (System ρ)
  | .stage ns requestId =>
    if (s.rows ns requestId).isNone then some (s.setRow ns requestId .active) else none
  | .commit ns requestId response =>
    match s.rows ns requestId with
    | some .active => some (s.setRow ns requestId (.terminal response))
    | _ => none
  | .submit ns requestId shared =>
    if (s.rows ns requestId).isSome then
      some { s with waiters := s.waiters ++ [⟨requestId, ns, shared, 0, .staged⟩] }
    else none
  | .resume i => (s.waiters[i]?).bind fun w => (w.resume s.registry).map (s.update i)
  | .interrupt i => (s.waiters[i]?).bind fun w => (w.interrupt s.registry).map (s.update i)
  | .readRow i => (s.waiters[i]?).bind fun w =>
    (w.threadDone (.read (s.rows w.ns w.requestId))).map fun w' => s.update i (s.registry, w')
  | .readFails i => (s.waiters[i]?).bind fun w =>
    (w.threadDone .failed).map fun w' => s.update i (s.registry, w')
  | .notify requestId => some (s.notify requestId)
  | .passStart =>
    match s.pass with
    | .idle => some { s with pass := .next s.registry.batches }
    | _ => none
  | .passRead =>
    match s.pass with
    | .polling ns batch rest =>
      some { s with pass := .polled ns (s.terminalRequests ns batch) rest }
    | _ => none
  | .passFails =>
    match s.pass with
    | .polling _ _ rest => some { s with pass := .next rest }
    | _ => none
  | .passResume =>
    match s.pass with
    | .polled ns found rest => some { found.foldl (System.deliver ns) s with pass := .next rest }
    | _ => none

/-- No call has begun. -/
def System.start (rows : String → String → Option (Row ρ)) : System ρ :=
  ⟨rows, ⟨.empty, 0⟩, [], .idle⟩

end DataForge.Responses
