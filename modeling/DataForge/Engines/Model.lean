import DataForge.ReadCommitted.Table
import Mathlib.Data.List.MinMax
import Mathlib.Data.Finset.Card
import Mathlib.Data.Int.Notation

/-!
# State of the process manager

`src/packages/worker/runtime/compute_manager.py:40-300,478-585,1240-1292`. One
`ProcessManager` owns the compute engines of a worker. Its dictionaries are tables in
insertion order; engines, lifecycle events, admissions and waiters are objects and are
named by numbers that are never reused. Mutable fields of an object are kept in the state,
under its number.

`History` holds auxiliary variables. The code has no counterpart of them and no branch of
the model reads them; they name what the theorems speak about (which event was installed
when, who was granted which admission, whether a clamp took effect).
-/

namespace DataForge.Engines

open ReadCommitted

/-- `ComputeWorkerIdentityKey` (`compute_manager.py:57-62`). -/
structure ComputeWorkerIdentityKey where
  ns : String
  scope : ℤ
  reusePolicy : ℤ
  resourceId : String
deriving DecidableEq, Repr

abbrev Key := ComputeWorkerIdentityKey
abbrev EngineId := ℕ
abbrev EventId := ℕ
abbrev AdmissionId := ℕ
abbrev WaiterId := ℕ

/-- The values of `_RESOURCE_KEYS` in a resource configuration (`compute_manager.py:26`). -/
structure ResourceConfig where
  maxThreads : Option ℤ
  maxMemoryMb : Option ℤ
  streamingChunkSize : Option ℤ
deriving DecidableEq, Repr

/-- Setup and constructor arguments of a manager, and the answers of `check_health()` of
the warm candidates: each of them is asked at most once. -/
structure Setup where
  computeWorkers : ℕ
  warmWorkerTarget : ℤ
  warmWorkerFactory : Bool
  idleTtlSeconds : ℤ
  defaults : ResourceConfig
  checkHealth : EngineId → Bool

/-- `_normalize_config`: values that are missing or equal to the default are dropped
(`compute_manager.py:1234-1238`). -/
def normalizeConfig (cfg : Setup) (c : ResourceConfig) : ResourceConfig where
  maxThreads := if c.maxThreads = cfg.defaults.maxThreads then none else c.maxThreads
  maxMemoryMb := if c.maxMemoryMb = cfg.defaults.maxMemoryMb then none else c.maxMemoryMb
  streamingChunkSize :=
    if c.streamingChunkSize = cfg.defaults.streamingChunkSize then none else c.streamingChunkSize

/-- Admission classes, scheduled round-robin (`compute_manager.py:31-40`). -/
inductive AdmissionPriority where
  | datasource
  | interactive
  | lifecycle
deriving DecidableEq, Repr

/-- The class after this one in the rotation. -/
def AdmissionPriority.next : AdmissionPriority → AdmissionPriority
  | .datasource => .interactive
  | .interactive => .lifecycle
  | .lifecycle => .datasource

/-- `ComputeWorkerInfo`, with the fields of its engine that the manager reads. -/
structure ComputeWorkerInfo where
  lastActivity : ℕ
  activeReservations : ℕ
  currentJobId : Option String
  lastKnownAlive : Bool
  resourceConfig : ResourceConfig

/-- The engine is executing a job: `bool(engine.current_job_id)`. -/
def ComputeWorkerInfo.busy (i : ComputeWorkerInfo) : Bool := i.currentJobId.any (· ≠ "")

/-- `evicted` and `eviction_event` of an admission, which are set together. -/
structure Eviction where
  key : Key
  engine : EngineId
  event : EventId
deriving DecidableEq, Repr

/-- `_CapacityAdmission` (`compute_manager.py:77-90`) without its mutable flags. -/
structure CapacityAdmission where
  id : AdmissionId
  evicted : Option Eviction
  warmClaim : Bool
  coldStart : Bool
deriving DecidableEq, Repr

/-- `_SpawnWaiter` (`compute_manager.py:93-101`) without its mutable fields. -/
structure SpawnWaiter where
  id : WaiterId
  key : Key
  priority : AdmissionPriority
  reserveExistingRequest : Bool
deriving DecidableEq, Repr

/-- What the admission loop decides for a waiter: `owns_admission`,
`reserved_existing_request` and the result scheduled on its future are written together. -/
inductive Resolution where
  | owns (admission : AdmissionId)
  | existing (reserved : Bool)
  | shutDown
deriving DecidableEq, Repr

/-- `_WarmWorkerCleanup` (`compute_manager.py:65-70`) without its log fields. -/
structure WarmWorkerCleanup where
  engine : EngineId
  attempts : ℕ
deriving DecidableEq, Repr

/-- Auxiliary variables. -/
structure History where
  /-- Every lifecycle event ever installed, with its identity. -/
  installed : List (Key × EventId) := []
  /-- Events that were still installed when another one took their place. -/
  overwritten : List (Key × EventId) := []
  /-- How often one of the `max(…, 0)` took effect. -/
  clamps : ℕ := 0
  /-- Reservations taken, one entry each. -/
  taken : List Key := []
  /-- Reservations released, one entry each. -/
  released : List Key := []
  /-- Admissions granted by the admission loop, with the waiter they were granted to. -/
  granted : List (AdmissionId × WaiterId) := []
  /-- The waiters that the admissions were granted to. -/
  served : List SpawnWaiter := []
  /-- Queued admissions claimed by a spawn, with the waiter on whose behalf it runs. -/
  claims : List (AdmissionId × Option WaiterId) := []
  /-- Admissions returned by `release_spawn_admission`, with the waiter on whose behalf. -/
  returns : List (AdmissionId × Option WaiterId) := []

/-- The fields of `ProcessManager` (`compute_manager.py:198-300`). -/
structure Manager where
  engines : Table Key EngineId
  infos : EngineId → ComputeWorkerInfo
  capacityStarts : ℕ
  capacityReservedStops : Finset EngineId
  coldStarts : ℕ
  spawnWaiters : List SpawnWaiter
  resolutions : WaiterId → Option Resolution
  nextSpawnPriority : AdmissionPriority
  /-- The admission queues, one list for all identities: the queue of an identity is the
  sublist under its key. -/
  spawnAdmissions : List (Key × CapacityAdmission)
  claimed : Finset AdmissionId
  released : Finset AdmissionId
  engineEvents : Table Key EventId
  setEvents : Finset EventId
  requestReservations : Key → ℕ
  startingEngines : Finset EngineId
  stoppingEngines : Finset EngineId
  stoppingWarmWorkers : Finset EngineId
  warmWorkerCleanups : List WarmWorkerCleanup
  warmWorkers : List EngineId
  warmWorkerClaims : ℕ
  warmWorkerStarts : ℕ
  closed : Bool
  nextEngine : EngineId
  nextEvent : EventId
  nextAdmission : AdmissionId
  nextWaiter : WaiterId
  history : History

namespace Manager

/-- A manager as `__init__` leaves it. -/
def init : Manager where
  engines := .empty
  infos := fun _ => ⟨0, 0, none, false, ⟨none, none, none⟩⟩
  capacityStarts := 0
  capacityReservedStops := ∅
  coldStarts := 0
  spawnWaiters := []
  resolutions := fun _ => none
  nextSpawnPriority := .datasource
  spawnAdmissions := []
  claimed := ∅
  released := ∅
  engineEvents := .empty
  setEvents := ∅
  requestReservations := fun _ => 0
  startingEngines := ∅
  stoppingEngines := ∅
  stoppingWarmWorkers := ∅
  warmWorkerCleanups := []
  warmWorkers := []
  warmWorkerClaims := 0
  warmWorkerStarts := 0
  closed := false
  nextEngine := 0
  nextEvent := 0
  nextAdmission := 0
  nextWaiter := 0
  history := {}

/-- `_capacity_used_locked` (`compute_manager.py:1256-1263`). -/
def capacityUsedLocked (m : Manager) : ℤ :=
  m.engines.rows.length + m.stoppingEngines.card - m.capacityReservedStops.card + m.capacityStarts

/-- `_warm_worker_available_locked` (`compute_manager.py:1265-1266`). -/
def warmWorkerAvailableLocked (m : Manager) : Bool := m.warmWorkerClaims < m.warmWorkers.length

/-- The filter of `_find_idle_engine_locked`. -/
def idle (m : Manager) (k : Key) (e : EngineId) : Bool :=
  (m.infos e).activeReservations = 0 && m.requestReservations k = 0 && !(m.infos e).busy

/-- `_find_idle_engine_locked`: the least recently used engine without reservation and
without job (`compute_manager.py:1240-1254`). -/
def findIdleEngineLocked (m : Manager) : Option (Key × EngineId) :=
  (m.engines.rows.filter fun p => m.idle p.1 p.2).argmin fun p => (m.infos p.2).lastActivity

/-- The queue of an identity is not empty. -/
def hasAdmission (m : Manager) (k : Key) : Bool := m.spawnAdmissions.any fun p => p.1 = k

/-- The head of the queue of an identity. -/
def headAdmission (m : Manager) (k : Key) : Option CapacityAdmission :=
  (m.spawnAdmissions.find? fun p => p.1 = k).map Prod.snd

/-- `_identity_busy_locked` (`compute_manager.py:459-460`). -/
def identityBusyLocked (m : Manager) (k : Key) : Bool :=
  (m.engineEvents.get k).isSome || m.hasAdmission k || m.spawnWaiters.any fun w => w.key = k

/-- Assign to the info object of an engine. -/
def setInfo (m : Manager) (e : EngineId) (f : ComputeWorkerInfo → ComputeWorkerInfo) : Manager :=
  { m with infos := Function.update m.infos e (f (m.infos e)) }

/-- `info.touch()`. -/
def touch (m : Manager) (now : ℕ) (e : EngineId) : Manager :=
  m.setInfo e fun i => { i with lastActivity := now }

/-- `_engine_events[key] = threading.Event()`; the new event is `m.nextEvent`. -/
def installEvent (m : Manager) (k : Key) : Manager :=
  { m with
    engineEvents := m.engineEvents.put k (some m.nextEvent)
    nextEvent := m.nextEvent + 1
    history :=
      { m.history with
        installed := m.history.installed ++ [(k, m.nextEvent)]
        overwritten :=
          m.history.overwritten ++ (m.engineEvents.get k).toList.map fun e => (k, e) } }

/-- Pop the event of an identity and set it. -/
def popEvent (m : Manager) (k : Key) : Manager :=
  { m with
    engineEvents := m.engineEvents.put k none
    setEvents := m.setEvents ∪ (m.engineEvents.get k).toList.toFinset }

/-- The locked part of `_finish_engine_event` (`compute_manager.py:484-491`). -/
def finishEvent (m : Manager) (k : Key) (ev : EventId) : Manager :=
  if m.engineEvents.get k = some ev then m.popEvent k else m

/-- Decrement `_capacity_starts`, clamped at zero. -/
def releaseStart (m : Manager) : Manager :=
  { m with
    capacityStarts := m.capacityStarts - 1
    history :=
      { m.history with clamps := m.history.clamps + if m.capacityStarts = 0 then 1 else 0 } }

/-- Decrement `_cold_starts`, clamped at zero. -/
def releaseCold (m : Manager) : Manager :=
  { m with
    coldStarts := m.coldStarts - 1
    history := { m.history with clamps := m.history.clamps + if m.coldStarts = 0 then 1 else 0 } }

/-- Decrement `_warm_worker_claims`, clamped at zero. -/
def releaseWarmClaim (m : Manager) : Manager :=
  { m with
    warmWorkerClaims := m.warmWorkerClaims - 1
    history :=
      { m.history with clamps := m.history.clamps + if m.warmWorkerClaims = 0 then 1 else 0 } }

/-- Move a registered engine to the engines being stopped. -/
def beginStop (m : Manager) (k : Key) (e : EngineId) : Manager :=
  { m with engines := m.engines.put k none, stoppingEngines := insert e m.stoppingEngines }

/-- `_untrack_stopping_engine` (`compute_manager.py:353-356`). -/
def untrackStoppingEngine (m : Manager) (e : EngineId) : Manager :=
  { m with
    stoppingEngines := m.stoppingEngines.erase e
    capacityReservedStops := m.capacityReservedStops.erase e }

/-- Take a start ticket, with a warm claim or a cold start. -/
def takeStart (m : Manager) (warm : Bool) : Manager :=
  { m with
    capacityStarts := m.capacityStarts + 1
    coldStarts := m.coldStarts + (!warm).toNat
    warmWorkerClaims := m.warmWorkerClaims + warm.toNat }

/-- Take a start ticket whose capacity is that of an engine being stopped. -/
def takeReplacement (m : Manager) (k : Key) (e : EngineId) (warm : Bool) : Manager :=
  let m := (m.beginStop k e).takeStart warm
  { m with capacityReservedStops := insert e m.capacityReservedStops }

/-- `_reserve_capacity_locked` (`compute_manager.py:507-539`). The eviction installs its
event without looking whether one is installed. -/
def reserveCapacityLocked (cfg : Setup) (m : Manager) : Option (CapacityAdmission × Manager) :=
  let warm := m.warmWorkerAvailableLocked
  if m.capacityUsedLocked < cfg.computeWorkers then
    some (⟨m.nextAdmission, none, warm, !warm⟩,
      { m.takeStart warm with nextAdmission := m.nextAdmission + 1 })
  else
    match m.findIdleEngineLocked with
    | none => none
    | some (k, e) =>
      some (⟨m.nextAdmission, some ⟨k, e, m.nextEvent⟩, warm, !warm⟩,
        { (m.takeReplacement k e warm).installEvent k with nextAdmission := m.nextAdmission + 1 })

/-- The waiter that the round-robin picks: the first eligible one of the next class that has
any (`compute_manager.py:549-567`). -/
def pickWaiter (m : Manager) : Option SpawnWaiter :=
  let eligible := m.spawnWaiters.filter fun w =>
    (m.engineEvents.get w.key).isNone && !m.hasAdmission w.key
  let p := m.nextSpawnPriority
  [p, p.next, p.next.next].findSome? fun q => eligible.find? fun w => w.priority = q

/-- Remove a waiter from the queue and schedule the result of its future. -/
def resolveWaiter (m : Manager) (w : SpawnWaiter) (r : Resolution) : Manager :=
  { m with
    spawnWaiters := m.spawnWaiters.erase w
    resolutions := Function.update m.resolutions w.id (some r) }

/-- Count one more request reservation of an identity. -/
def takeReservation (m : Manager) (k : Key) : Manager :=
  { m with
    requestReservations :=
      Function.update m.requestReservations k (m.requestReservations k + 1)
    history := { m.history with taken := m.history.taken ++ [k] } }

/-- Let a waiter use the registered engine of its identity. -/
def admitExisting (now : ℕ) (m : Manager) (w : SpawnWaiter) (e : EngineId) : Manager :=
  let m := m.resolveWaiter w (.existing w.reserveExistingRequest)
  if w.reserveExistingRequest then (m.takeReservation w.key).touch now e else m

/-- Queue an admission for a waiter. -/
def grant (m : Manager) (w : SpawnWaiter) (a : CapacityAdmission) : Manager :=
  let m := m.resolveWaiter w (.owns a.id)
  { m with
    nextSpawnPriority := w.priority.next
    spawnAdmissions := m.spawnAdmissions ++ [(w.key, a)]
    history :=
      { m.history with
        granted := m.history.granted ++ [(a.id, w.id)]
        served := m.history.served ++ [w] } }

/-- One round of `_admit_spawn_waiters_locked`; `none` when the loop returns. -/
def admitRound (cfg : Setup) (now : ℕ) (m : Manager) : Option Manager :=
  match m.pickWaiter with
  | none => none
  | some w =>
    match m.engines.get w.key with
    | some e => some (m.admitExisting now w e)
    | none => (m.reserveCapacityLocked cfg).map fun x => x.2.grant w x.1

/-- The rounds of `_admit_spawn_waiters_locked`, at most `n` of them. -/
def admitRounds (cfg : Setup) (now : ℕ) : ℕ → Manager → Manager
  | 0, m => m
  | n + 1, m =>
    match m.admitRound cfg now with
    | none => m
    | some m' => admitRounds cfg now n m'

/-- Resolve every waiter with the shutdown error. -/
def rejectWaiters (m : Manager) : Manager :=
  { m with
    spawnWaiters := []
    resolutions := fun i =>
      if m.spawnWaiters.any fun w => w.id = i then some .shutDown else m.resolutions i }

/-- `_admit_spawn_waiters_locked` (`compute_manager.py:541-584`). Every round but the last
takes a waiter out of the queue, so the queue bounds the number of rounds. -/
def admitSpawnWaitersLocked (cfg : Setup) (now : ℕ) (m : Manager) : Manager :=
  if m.closed then m.rejectWaiters else admitRounds cfg now m.spawnWaiters.length m

end Manager
end DataForge.Engines
