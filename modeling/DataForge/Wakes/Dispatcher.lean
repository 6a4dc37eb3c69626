import Mathlib.Data.Finset.Dedup
import Mathlib.Data.Finset.Erase
import Mathlib.Data.Finset.Insert
import DataForge.Transitions.Fair
import DataForge.Wakes.Hub

/-!
# The namespace wake dispatcher

`NamespaceWakeDispatcher.run` (`backend_core/runtime_outbox_dispatcher.py:69-185`) as a machine
over its local variables and fields. A step goes up to the next await or the next section of the
hub's lock; between two steps any thread may publish to the hub. Times are milliseconds.
-/

namespace DataForge.Wakes

/-- The fields of a `NamespaceWakeDispatcher` that `run` uses (lines 57, 61-64). -/
structure NamespaceWakeDispatcher where
  namespaceRefresh : ℕ
  namespaces : List String
  nextRefresh : ℕ
  pendingNamespaces : List String
  pendingNamespaceSet : Finset String

namespace NamespaceWakeDispatcher

/-- `__init__` (lines 41-64). -/
def new (namespaceRefresh : ℕ) : NamespaceWakeDispatcher where
  namespaceRefresh := max namespaceRefresh 1000
  namespaces := []
  nextRefresh := 0
  pendingNamespaces := []
  pendingNamespaceSet := ∅

variable (d : NamespaceWakeDispatcher)

/-- `_enqueue_namespace` (lines 105-109). -/
def enqueueNamespace (ns : String) : NamespaceWakeDispatcher :=
  if ns = "" ∨ ns ∈ d.pendingNamespaceSet then d
  else
    { d with
      pendingNamespaces := d.pendingNamespaces ++ [ns]
      pendingNamespaceSet := insert ns d.pendingNamespaceSet }

/-- A loop of `_enqueue_namespace`. -/
def enqueueAll (names : List String) : NamespaceWakeDispatcher :=
  names.foldl enqueueNamespace d

/-- `_enqueue_wake_namespaces` (lines 100-103). -/
def enqueueWakeNamespaces (hub : VersionHub String) (lastSeen : ℕ) : NamespaceWakeDispatcher :=
  d.enqueueAll ((hub.payloadsSince lastSeen).filterMap id)

/-- `_next_namespace` after the names were listed (lines 122-126). -/
def refreshed (names : List String) (now : ℕ) : NamespaceWakeDispatcher :=
  { d with
    namespaces := (names.filter (· ≠ "")).eraseDups
    nextRefresh := now + d.namespaceRefresh }.enqueueAll names

/-- `_next_namespace` after listing the names raised (lines 116-121, 125-126); without a
snapshot it raises itself. -/
def refreshFailed (now : ℕ) : Option NamespaceWakeDispatcher :=
  if d.namespaces = [] then none
  else some ({ d with nextRefresh := now + min d.namespaceRefresh 1000 }.enqueueAll d.namespaces)

end NamespaceWakeDispatcher

/-- What `run` does next: the top of its loop, the wakes since `wake_version` (line 75), the two
parts of `_next_namespace` around its await, the awaits of a dispatch and of the three waits
(lines 79, 90, 97), and the wakes after the last two (lines 91, 98). -/
inductive Phase where
  | top
  | wakes (currentVersion : ℕ)
  | next
  | refreshing
  | pop
  | dispatching (ns : String)
  | idle
  | resting
  | failing
  | wakesAfter (lastSeen : ℕ)
  | ended
deriving DecidableEq, Repr

/-- The phases in which `run` waits for a wake. -/
def Phase.waits : Phase → Bool
  | .idle | .resting | .failing => true
  | _ => false

/-- The hub, the stop event, the dispatcher and the local `wake_version`. -/
structure State where
  hub : VersionHub String
  stop : Bool
  dispatcher : NamespaceWakeDispatcher
  wakeVersion : ℕ
  phase : Phase

/-- `run` of a new dispatcher before its first pass (line 71). -/
def State.start (hub : VersionHub String) (namespaceRefresh : ℕ) : State where
  hub
  stop := false
  dispatcher := .new namespaceRefresh
  wakeVersion := hub.version
  phase := .top

/-- What the environment and the dispatcher can do. `advance` is a step of the dispatcher's own,
with the event loop's time; the others are how its awaits end. -/
inductive Action where
  | publish (payload : Option String)
  | requestStop
  | advance (now : ℕ)
  | listed (names : List String) (now : ℕ)
  | listingFails (now : ℕ)
  | dispatched (count : ℤ)
  | dispatchFails
  | woken (version : ℕ)
  | lapsed
  | cancelled
deriving DecidableEq, Repr

namespace State

/-- A step between two awaits. -/
def advance (s : State) (now : ℕ) : Option State :=
  match s.phase with
  | .top => some { s with phase := if s.stop then .ended else .wakes s.hub.version }
  | .wakes currentVersion => some { s with
      dispatcher := s.dispatcher.enqueueWakeNamespaces s.hub s.wakeVersion
      wakeVersion := currentVersion
      phase := .next }
  | .next => some { s with phase := if s.dispatcher.nextRefresh ≤ now then .refreshing else .pop }
  | .pop =>
    match s.dispatcher.pendingNamespaces with
    | [] => some { s with phase := .idle }
    | ns :: rest => some { s with
        dispatcher := { s.dispatcher with
          pendingNamespaces := rest
          pendingNamespaceSet := s.dispatcher.pendingNamespaceSet.erase ns }
        phase := .dispatching ns }
  | .wakesAfter lastSeen => some { s with
      dispatcher := s.dispatcher.enqueueWakeNamespaces s.hub lastSeen
      phase := .top }
  | _ => none

/-- The names were listed. -/
def listed (s : State) (names : List String) (now : ℕ) : Option State :=
  if s.phase = .refreshing then
    some { s with dispatcher := s.dispatcher.refreshed names now, phase := .pop }
  else none

/-- Listing the names raised. -/
def listingFails (s : State) (now : ℕ) : Option State :=
  if s.phase = .refreshing then
    match s.dispatcher.refreshFailed now with
    | some dispatcher => some { s with dispatcher, phase := .pop }
    | none => some { s with phase := .failing }
  else none

/-- `dispatch_namespace` came back (lines 81-89). -/
def dispatched (s : State) (count : ℤ) : Option State :=
  match s.phase with
  | .dispatching ns =>
    let dispatcher := if count = 0 then s.dispatcher else s.dispatcher.enqueueNamespace ns
    some { s with
      dispatcher
      phase := if dispatcher.pendingNamespaces = [] then .resting else .top }
  | _ => none

/-- `dispatch_namespace` raised. -/
def dispatchFails (s : State) : Option State :=
  match s.phase with
  | .dispatching _ => some { s with phase := .failing }
  | _ => none

/-- A wait came back with a version (lines 79-80, 90-91, 97-98): the idle wait goes on at the
top of the loop. -/
def waited (s : State) (version : ℕ) : Option State :=
  match s.phase with
  | .idle => some { s with wakeVersion := version, phase := .top }
  | .resting | .failing =>
    some { s with wakeVersion := version, phase := .wakesAfter s.wakeVersion }
  | _ => none

/-- `CancelledError` at an await. -/
def cancelled (s : State) : Option State :=
  match s.phase with
  | .refreshing | .dispatching _ | .idle | .resting | .failing => some { s with phase := .ended }
  | _ => none

/-- One step of the dispatcher and its environment. `_wait_for_wakeup_or_stop` (lines 168-185)
returns what the hub's `wait` gave, which is a version other than the awaited one, or else the
hub's version. -/
def step (s : State) : Action → Option State
  | .publish payload => some { s with hub := s.hub.publish payload }
  | .requestStop => some { s with stop := true }
  | .advance now => s.advance now
  | .listed names now => s.listed names now
  | .listingFails now => s.listingFails now
  | .dispatched count => s.dispatched count
  | .dispatchFails => s.dispatchFails
  | .woken version =>
    if s.wakeVersion < version ∧ version ≤ s.hub.version then s.waited version else none
  | .lapsed => s.waited s.hub.version
  | .cancelled => s.cancelled

end State

end DataForge.Wakes
