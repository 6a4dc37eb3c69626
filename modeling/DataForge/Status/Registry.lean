import Mathlib.Data.Int.Notation
import DataForge.Status.Stores

/-!
# The registry of engine status

`ComputeWorkerRegistry` (`backend_core/compute_worker_live.py:14-206`) and the tasks that call it.
A step is one section of the registry's lock, one end of an await, or one step of a load; no
section awaits anything while it holds the lock. `clear` and `recover_active` are left out.
-/

namespace DataForge.Status

/-- The `asyncio.Future` of a waiter. -/
inductive Future where
  | pending
  | resolved (token : String)
  | cancelled
deriving DecidableEq, Repr

/-- `set_result` of a future that is not done. -/
def Future.resolve (token : String) : Future → Future
  | .pending => .resolved token
  | future => future

/-- `cancel`. -/
def Future.cancel : Future → Future
  | .pending => .cancelled
  | future => future

/-- What a task calls. The last is the loop of `compute_workers_stream`
(`modules/compute/routes.py:240-258, 681-703`). -/
inductive Call where
  | loadSnapshot
  | loadSerializedSnapshot
  | waitForNamespace (lastSeen : Option String)
  | stream
deriving DecidableEq, Repr

/-- Where a task stands: before and at the two awaits of a load (lines 102-135, 161), with what
`_load_versioned_snapshot` or `load_serialized_snapshot` gave it, before the section of
`wait_for_namespace`, at its await, in its `finally` (lines 46-58), or at an end. -/
inductive Phase (S T : Type) where
  | called
  | loading (k : ℕ)
  | loaded (version : ℕ) (snapshot : S)
  | serializing (k : ℕ)
  | returned (version : ℕ) (serialized : T)
  | entered (lastSeen : Option String)
  | waiting (future : ℕ)
  | leaving (future : ℕ) (token : Option String)
  | woken (token : String)
  | failed
deriving DecidableEq, Repr

/-- A task. `sent` is what its socket was last sent. -/
structure Caller (S T : Type) where
  call : Call
  ns : String
  sent : Option (ℕ × T)
  phase : Phase S T

/-- The registry, with all the futures of waiters there have been, and the tasks. -/
structure Registry (S T : Type) where
  version : String → ℕ
  subscribers : String → ℤ
  waiters : String → List ℕ
  futures : List Future
  snapshots : Stores Unit S
  serialized : Stores S T
  callers : List (Caller S T)

/-- What can happen: the registry's own methods, a call, a step of a task, its cancellation, or
the start or the end of a load. A read may give any snapshot, and both loads may raise. -/
inductive StatusAction (S : Type) where
  | subscribe (ns : String)
  | unsubscribe (ns : String)
  | publish (ns : String)
  | call (ns : String) (call : Call)
  | run (i : ℕ)
  | interrupt (i : ℕ)
  | startLoad (k : ℕ)
  | finishLoad (k : ℕ) (snapshot : Option S)
  | startSerialize (k : ℕ)
  | finishSerialize (k : ℕ) (raises : Bool)
deriving DecidableEq, Repr

/-- Where a call starts. -/
def Call.first {S T : Type} : Call → Phase S T
  | .waitForNamespace lastSeen => .entered lastSeen
  | _ => .called

/-- Go on with a cached value, or wait for a load. -/
def Shared.phase {α S T : Type} (cached : ℕ → α → Phase S T) (load : ℕ → Phase S T) :
    Shared α → Phase S T
  | .cached version value => cached version value
  | .load k => load k

/-- What an await of a load comes back with. -/
def Load.phase {ι α S T : Type} (l : Load ι α) (done : ℕ → α → Phase S T) : Option (Phase S T) :=
  match l.state with
  | .settled (some value) => some (done l.version value)
  | .settled none => some .failed
  | _ => none

namespace Registry

variable {S T : Type}

/-- A new registry. -/
def empty : Registry S T where
  version _ := 0
  subscribers _ := 0
  waiters _ := []
  futures := []
  snapshots := .empty
  serialized := .empty
  callers := []

variable (s : Registry S T)

/-- Change a task. -/
def setCaller (i : ℕ) (c : Caller S T) : Registry S T := { s with callers := s.callers.set i c }

/-- A new version of a namespace, with nothing cached. -/
def bump (ns : String) : Registry S T := { s with
  version := Function.update s.version ns (s.version ns + 1)
  snapshots := s.snapshots.forget ns
  serialized := s.serialized.forget ns }

/-- `subscribe` (lines 60-66). -/
def subscribe (ns : String) : Registry S T :=
  let counted := { s with subscribers := Function.update s.subscribers ns (s.subscribers ns + 1) }
  if s.subscribers ns + 1 = 1 then counted.bump ns else counted

/-- `unsubscribe` (lines 68-74). -/
def unsubscribe (ns : String) : Registry S T :=
  if s.subscribers ns - 1 ≤ 0 then
    { s with
      subscribers := Function.update s.subscribers ns 0
      snapshots := s.snapshots.forget ns
      serialized := s.serialized.forget ns }
  else { s with subscribers := Function.update s.subscribers ns (s.subscribers ns - 1) }

/-- The futures after some of them were resolved. -/
def resolve (waiters : List ℕ) (token : String) : List Future :=
  s.futures.mapIdx fun f x => if f ∈ waiters then x.resolve token else x

/-- `publish_namespace` (lines 83-92). Nothing is awaited between the section and the loop. -/
def publish (ns : String) : Registry S T := { s.bump ns with
  waiters := Function.update s.waiters ns []
  futures := s.resolve (s.waiters ns) (toString (s.version ns + 1)) }

/-- The section of `_discard_waiter` (lines 197-206). -/
def discardWaiter (ns : String) (future : ℕ) : String → List ℕ :=
  Function.update s.waiters ns
    ((s.waiters ns).filter fun f => f ≠ future ∧ s.futures[f]? = some .pending)

/-- The next step of a task. -/
def runCaller (i : ℕ) (c : Caller S T) : Option (Registry S T) :=
  match c.phase with
  | .called =>
    let (snapshots, found) := s.snapshots.sharedLoad c.ns (s.version c.ns) ()
    some { s with
      snapshots
      callers := s.callers.set i { c with phase := found.phase .loaded .loading } }
  | .loading k =>
    s.snapshots.tasks[k]?.bind fun l =>
      (l.phase .loaded).map fun phase => s.setCaller i { c with phase }
  | .loaded version snapshot =>
    if c.call = .loadSnapshot then none
    else
      let (serialized, found) := s.serialized.sharedLoad c.ns version snapshot
      some { s with
        serialized
        callers := s.callers.set i { c with phase := found.phase .returned .serializing } }
  | .serializing k =>
    s.serialized.tasks[k]?.bind fun l =>
      (l.phase .returned).map fun phase => s.setCaller i { c with phase }
  | .returned version serialized =>
    -- The socket is sent the text; its next wait has seen the version.
    if c.call = .stream then
      some (s.setCaller i { c with
        sent := some (version, serialized)
        phase := .entered (some (toString version)) })
    else none
  | .entered lastSeen =>
    let currentToken := toString (s.version c.ns)
    if lastSeen.any (currentToken ≠ ·) then
      some (s.setCaller i { c with phase := .woken currentToken })
    else
      some { s with
        waiters := Function.update s.waiters c.ns (s.waiters c.ns ++ [s.futures.length])
        futures := s.futures ++ [.pending]
        callers := s.callers.set i { c with phase := .waiting s.futures.length } }
  | .waiting f =>
    match s.futures[f]? with
    | some (.resolved token) => some (s.setCaller i { c with phase := .leaving f (some token) })
    | some .cancelled => some (s.setCaller i { c with phase := .leaving f none })
    | _ => none
  | .leaving f token =>
    some { s with
      waiters := s.discardWaiter c.ns f
      callers := s.callers.set i { c with phase := token.elim .failed .woken } }
  | .woken _ => if c.call = .stream then some (s.setCaller i { c with phase := .called }) else none
  | .failed => none

/-- A task is cancelled, or its socket breaks. A load that it waits for is shielded. -/
def interruptCaller (i : ℕ) (c : Caller S T) : Option (Registry S T) :=
  match c.phase with
  | .waiting f =>
    some { s with
      futures := s.futures.modify f Future.cancel
      callers := s.callers.set i { c with phase := .leaving f none } }
  | .leaving _ _ => none
  | _ => some (s.setCaller i { c with phase := .failed })

end Registry

/-- One step. -/
def statusStep {S T : Type} (serialize : S → T) (s : Registry S T) :
    StatusAction S → Option (Registry S T)
  | .subscribe ns => some (s.subscribe ns)
  | .unsubscribe ns => some (s.unsubscribe ns)
  | .publish ns => some (s.publish ns)
  | .call ns call => some { s with callers := s.callers ++ [⟨call, ns, none, call.first⟩] }
  | .run i => s.callers[i]?.bind (s.runCaller i)
  | .interrupt i => s.callers[i]?.bind (s.interruptCaller i)
  | .startLoad k => (s.snapshots.start k).map fun snapshots => { s with snapshots }
  | .finishLoad k snapshot =>
    (s.snapshots.finish s.version k fun _ => snapshot).map fun snapshots => { s with snapshots }
  | .startSerialize k => (s.serialized.start k).map fun serialized => { s with serialized }
  | .finishSerialize k raises =>
    (s.serialized.finish s.version k fun snapshot =>
      if raises then none else some (serialize snapshot)).map
      fun serialized => { s with serialized }

end DataForge.Status
