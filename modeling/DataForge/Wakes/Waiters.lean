import Mathlib.Logic.Function.Basic
import DataForge.Wakes.Hub

/-!
# Waiting on a version hub

`publish` and `wait` of `VersionHub` and `KeyedVersionHub` (`backend_core/live_hubs.py:13-187`)
as threads and tasks over the state under the hub's lock. A step is one section of the lock, one
round of a loop outside of it, one end of an await, or one callback of an event loop. The two
hubs differ in what they keep beside the waiters (`Hub`); `clear` is left out.
-/

namespace DataForge.Wakes

/-- What a hub keeps under its lock beside its waiters, and the limit of these. -/
structure Hub (σ κ π : Type) where
  version : σ → κ → ℕ
  publish : κ → π → σ → σ
  maxWaiters : Option ℕ

/-- `VersionHub` (lines 44-125). -/
def versionHub (maxWaiters : ℕ) : Hub (VersionHub String) Unit (Option String) where
  version h _ := h.version
  publish _ payload h := h.publish payload
  maxWaiters := some maxWaiters

/-- `_MAX_KEYED_VERSIONS` (line 8). -/
def maxKeyedVersions : ℕ := 4096

/-- `_versions` of a `KeyedVersionHub` (line 129), the oldest key first. -/
abbrev KeyedVersions : Type := List (String × ℕ)

namespace KeyedVersions

/-- `version` (lines 148-150). -/
def version (h : KeyedVersions) (key : String) : ℕ :=
  ((h.find? (·.1 = key)).map (·.2)).getD 0

/-- What `publish` does to the versions (lines 135-141). -/
def publish (h : KeyedVersions) (key : String) : KeyedVersions :=
  let versions := h.filter (·.1 ≠ key) ++ [(key, h.version key + 1)]
  versions.drop (versions.length - maxKeyedVersions)

end KeyedVersions

/-- `KeyedVersionHub` (lines 127-187). -/
def keyedVersionHub : Hub KeyedVersions String Unit where
  version := KeyedVersions.version
  publish key _ h := h.publish key
  maxWaiters := none

/-- An `asyncio.Future`. -/
inductive FutureState where
  | pending
  | resolved (version : ℕ)
  | cancelled
deriving DecidableEq, Repr

/-- What a wait returns or raises. -/
inductive Outcome where
  | version (v : ℕ)
  | cancelled
deriving DecidableEq, Repr

/-- Where a `wait` stands: before its two sections of the lock, in the loop that cancels the
waiters it evicted, at its await, in its `finally`, or at its end (lines 82-102, 156-172). -/
inductive WaitPhase where
  | entered
  | checked
  | evicting (rest : List ℕ)
  | awaiting
  | leaving (outcome : Outcome)
  | returned (outcome : Outcome)
deriving DecidableEq, Repr

/-- A call of `wait`. Its future has the number of the call. -/
structure Wait (κ : Type) where
  key : κ
  lastSeen : Option ℕ
  future : FutureState
  phase : WaitPhase

/-- A `publish` after its section of the lock: the waiters it still has to notify. -/
structure Publisher where
  version : ℕ
  rest : List ℕ

/-- A callback that an event loop was handed by `call_soon_threadsafe`: `resolve_waiter` or
`future.cancel` (lines 13-26). -/
inductive Callback where
  | resolve (future : ℕ) (version : ℕ)
  | cancel (future : ℕ)
deriving DecidableEq, Repr

/-- The state under the lock, the calls, and the callbacks that are to run. -/
structure World (σ κ : Type) where
  values : σ
  waiters : κ → List ℕ
  waits : List (Wait κ)
  publishers : List Publisher
  callbacks : List Callback

/-- Who can go on by itself: a `wait`, a `publish`, or an event loop with a callback. -/
inductive Agent where
  | wait (i : ℕ)
  | publisher (p : ℕ)
  | callback (c : Callback)
deriving DecidableEq, Repr

/-- What can happen: a call of `wait` or `publish`, the cancellation of a task that awaits, or a
step of an agent. -/
inductive HubAction (κ π : Type) where
  | call (key : κ) (lastSeen : Option ℕ)
  | publish (key : κ) (payload : π)
  | interrupt (i : ℕ)
  | run (g : Agent)

section Steps

variable {σ κ π : Type} [DecidableEq κ] (hub : Hub σ κ π) (s : World σ κ)

/-- A new hub. -/
def World.start (values : σ) : World σ κ where
  values
  waiters _ := []
  waits := []
  publishers := []
  callbacks := []

/-- `future.done()`. -/
def World.done (i : ℕ) : Bool :=
  s.waits[i]?.all (·.future ≠ .pending)

/-- `_evict_overflow_locked` (lines 115-120): who is evicted and who stays. -/
def evictOverflow (maxWaiters : Option ℕ) (waiters : List ℕ) : List ℕ × List ℕ :=
  match maxWaiters with
  | none => ([], waiters)
  | some n =>
    -- The slices `[:-0]` and `[-0:]` are empty and whole.
    if waiters.length ≤ n ∨ n = 0 then ([], waiters)
    else (waiters.take (waiters.length - n), waiters.drop (waiters.length - n))

/-- The condition of the early returns (lines 85, 91, 159, 165). -/
def Wait.stale (w : Wait κ) (version : ℕ) : Bool := w.lastSeen.any (version ≠ ·)

/-- Change a call of `wait`. -/
def World.setWait (i : ℕ) (w : Wait κ) : World σ κ := { s with waits := s.waits.set i w }

/-- The next step of a `wait`. -/
def runWait (i : ℕ) (w : Wait κ) : Option (World σ κ) :=
  let version := hub.version s.values w.key
  match w.phase with
  | .entered =>
    some (s.setWait i { w with
      phase := if w.stale version then .returned (.version version) else .checked })
  | .checked =>
    if w.stale version then some (s.setWait i { w with phase := .returned (.version version) })
    else
      let current := (s.waiters w.key).filter (!s.done ·) ++ [i]
      let (evicted, kept) := evictOverflow hub.maxWaiters current
      some { s with
        waiters := Function.update s.waiters w.key kept
        waits := s.waits.set i { w with phase := .evicting evicted } }
  | .evicting (f :: rest) =>
    some { s with
      callbacks := if f = i ∨ s.done f = true then s.callbacks else s.callbacks ++ [.cancel f]
      waits := s.waits.set i { w with phase := .evicting rest } }
  | .evicting [] => some (s.setWait i { w with phase := .awaiting })
  | .awaiting =>
    match w.future with
    | .pending => none
    | .resolved v => some (s.setWait i { w with phase := .leaving (.version v) })
    | .cancelled => some (s.setWait i { w with phase := .leaving .cancelled })
  | .leaving outcome =>
    some { s with
      waiters := Function.update s.waiters w.key
        ((s.waiters w.key).filter fun f => f ≠ i ∧ !s.done f)
      waits := s.waits.set i { w with phase := .returned outcome } }
  | .returned _ => none

/-- A future becomes done, unless it already is. -/
def World.settle (i : ℕ) (x : FutureState) : World σ κ :=
  match s.waits[i]? with
  | some w => if w.future = .pending then s.setWait i { w with future := x } else s
  | none => s

/-- What a callback does to its future. -/
def Callback.run : Callback → World σ κ
  | .resolve f version => s.settle f (.resolved version)
  | .cancel f => s.settle f .cancelled

/-- The next step of an agent. -/
def runAgent : Agent → Option (World σ κ)
  | .wait i => s.waits[i]?.bind (runWait hub s i)
  | .publisher p =>
    match s.publishers[p]? with
    | some ⟨version, f :: rest⟩ =>
      some { s with
        publishers := s.publishers.set p ⟨version, rest⟩
        callbacks := if s.done f = true then s.callbacks else s.callbacks ++ [.resolve f version] }
    | _ => none
  | .callback c =>
    if c ∈ s.callbacks then some (c.run { s with callbacks := s.callbacks.erase c }) else none

/-- One step. `publish` takes its waiters off under the lock (lines 53-59, 134-142). -/
def hubStep : HubAction κ π → Option (World σ κ)
  | .call key lastSeen =>
    some { s with waits := s.waits ++ [⟨key, lastSeen, .pending, .entered⟩] }
  | .publish key payload =>
    let values := hub.publish key payload s.values
    some { s with
      values
      waiters := Function.update s.waiters key []
      publishers := s.publishers ++ [⟨hub.version values key, s.waiters key⟩] }
  | .interrupt i =>
    s.waits[i]?.bind fun w =>
      if w.phase = .awaiting then
        some (s.setWait i { w with
          future := if w.future = .pending then .cancelled else w.future
          phase := .leaving .cancelled })
      else none
  | .run g => runAgent hub s g

end Steps

end DataForge.Wakes
