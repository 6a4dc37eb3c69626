import DataForge.Engines.Model
import DataForge.Monitor.Pool

/-!
# Operations of the process manager

`src/packages/worker/runtime/compute_manager.py:358-1484,1587-1740` and their callers
`compute_request_runtime.py:489-677`, `builds/build_execution.py:26-63`. Every operation is a
frame, and each of its lock-protected sections is one step. Engine calls (`start`,
`shutdown`, `is_process_alive`, `check_health`) run between the sections; the `Choice` of a
step says how the call before the section ended. `shutdown_all` is not part of the model: no
operation sets `closed`.

The futures of `_capacity_waiters` and the condition variable only wake tasks up. A task that
waits for its turn may look again at any time, which covers every order of the wake-ups.
-/

namespace DataForge.Engines

open ReadCommitted

/-- What a step learns from outside. -/
structure Choice where
  /-- The engine call returned, or answered yes. -/
  ok : Bool := true
  /-- The task is cancelled at this `await`. -/
  cancel : Bool := false
  now : ℕ := 0
  /-- The engines whose process answered the probes of the reaper. -/
  alive : List EngineId := []
  /-- What a request executes next: a spawn with a configuration, reserved or not. -/
  spawn : Option (ResourceConfig × Bool) := none

/-- How the last spawn ended. -/
inductive Outcome where
  | engine (e : EngineId)
  | raised
deriving DecidableEq, Repr

/-- The arguments of `spawn_compute_worker`, the configuration normalised, and the waiter
of the request on whose behalf it runs. -/
structure SpawnCall where
  key : Key
  config : ResourceConfig
  reserve : Bool
  onBehalf : Option WaiterId
deriving DecidableEq, Repr

/-- The local variables of `spawn_compute_worker` behind its identity gate. `own` is the
event the gate installed; the code does not keep it. -/
structure SpawnLocals where
  call : SpawnCall
  own : EventId
  admission : Option CapacityAdmission
  shutdownTarget : Option EngineId
  admissionConsumed : Bool := false
  capacityStartHeld : Bool := false
  warmClaimHeld : Bool := false
  coldStartHeld : Bool := false
  engine : Option EngineId := none
  spawned : Bool := false
deriving DecidableEq, Repr

/-- Where `spawn_compute_worker` stands behind its gate. -/
inductive SpawnPc where
  | stopTarget
  | claim
  | stopEvicted (x : Eviction)
  | popWarm
  | health (e : EngineId)
  | reject (e : EngineId)
  | bind
  | countCold
  | create
  | track
  | start
  | alive
  | stopDead
  | register
  | failed
  | released
  | stopEngine
  | untrack
  | leave
deriving DecidableEq, Repr

/-- The arguments of `await_spawn_admission`, and whether a request awaits the result. -/
structure AdmissionCall where
  key : Key
  priority : AdmissionPriority
  reserveExistingRequest : Bool
  forRequest : Bool
deriving DecidableEq, Repr

/-- Where `await_spawn_admission` stands. -/
inductive AdmissionPc where
  | turn
  | enqueue
  | parked (w : SpawnWaiter)
  | cancelled (w : SpawnWaiter)
  | releasing (w : SpawnWaiter)
  | unreserving (w : SpawnWaiter)
  | ended
deriving DecidableEq, Repr

/-- Where a request stands around its execution. -/
inductive RequestPc where
  | admitted
  | executing
  | releaseRequest
  | releaseAdmission
deriving DecidableEq, Repr

/-- The local variables of a request: `owns_admission` with its waiter, `request_reserved`. -/
structure RequestLocals where
  key : Key
  owner : Option WaiterId
  reserved : Bool
deriving DecidableEq, Repr

/-- Where the replenisher stands. -/
inductive ReplenishPc where
  | decide
  | create
  | track (e : EngineId)
  | start (e : EngineId)
  | failed (e : EngineId)
  | settle (e : Option EngineId)
  | discard (e : EngineId)
  | cleanup (c : WarmWorkerCleanup)
deriving DecidableEq, Repr

/-- The operations, each at one of its sections. -/
inductive Frame where
  | notifyCapacityChanged
  | finishEngineEvent (k : Key) (ev : EventId)
  | releaseSpawnAdmission (k : Key) (onBehalf : Option WaiterId)
  | releaseProbe (x : Eviction)
  | releaseStop (x : Eviction)
  | reserveEngineRequest (k : Key)
  | releaseEngineRequest (k : Key)
  | admission (pc : AdmissionPc) (call : AdmissionCall)
  | spawnGate (call : SpawnCall)
  | spawnWait (call : SpawnCall) (ev : EventId)
  | spawn (pc : SpawnPc) (l : SpawnLocals)
  | acquire (call : SpawnCall)
  | acquired (k : Key)
  | holding (k : Key) (e : EngineId)
  | shutdownGate (k : Key)
  | shutdownWait (k : Key) (ev : EventId)
  | idleGate (k : Key)
  | idleWait (k : Key) (ev : EventId)
  | stopEngine (k : Key) (ev : EventId) (e : EngineId)
  | reapStart
  | reapMark (tracked : List (Key × EngineId))
  | reapStop (stale : List (Key × EngineId × EventId))
  | replenish (pc : ReplenishPc)
  | request (pc : RequestPc) (l : RequestLocals)
deriving DecidableEq, Repr

/-- Shared state, outcome register and remaining frames after a section. -/
abbrev Next := Manager × Option Outcome × List Frame

/-! ## Admissions -/

namespace Manager

/-- Take the head admission of an identity out of its queue. -/
def popAdmission (m : Manager) (k : Key) : Manager :=
  { m with spawnAdmissions := m.spawnAdmissions.eraseP fun p => p.1 = k }

/-- Return the tickets of an admission that was taken out of its queue, its start ticket
apart (`compute_manager.py:600-611`). -/
def giveBack (m : Manager) (a : CapacityAdmission) (onBehalf : Option WaiterId) : Manager :=
  let m := if a.warmClaim then m.releaseWarmClaim else m
  let m := if a.coldStart then m.releaseCold else m
  { m with
    released := insert a.id m.released
    history := { m.history with returns := m.history.returns ++ [(a.id, onBehalf)] } }

/-- Register an evicted engine again (`compute_manager.py:632-638`). -/
def restore (m : Manager) (x : Eviction) : Manager :=
  let m := (m.untrackStoppingEngine x.engine).releaseStart
  { m with engines := m.engines.put x.key (some x.engine) }

/-- `release_engine_request` (`compute_manager.py:703-713`). -/
def releaseReservation (m : Manager) (k : Key) : Manager :=
  { m with
    requestReservations := Function.update m.requestReservations k (m.requestReservations k - 1)
    history := { m.history with released := m.history.released ++ [k] } }

/-- `reserve_engine_request` (`compute_manager.py:687-701`). -/
def reserveEngineRequest (now : ℕ) (m : Manager) (k : Key) : Manager :=
  let m := m.takeReservation k
  match m.engines.get k with
  | some e => m.touch now e
  | none => m

end Manager

/-- `release_spawn_admission` with `owned=True`, up to the liveness probe
(`compute_manager.py:586-623`). -/
def releaseSection (cfg : Setup) (c : Choice) (m : Manager) (r : Option Outcome) (k : Key)
    (onBehalf : Option WaiterId) : Next :=
  match m.headAdmission k with
  | none => (m, r, [])
  | some a =>
    if a.id ∈ m.claimed then (m, r, [])
    else
      let m := (m.popAdmission k).giveBack a onBehalf
      match a.evicted with
      | none => (m.releaseStart.admitSpawnWaitersLocked cfg c.now, r, [.notifyCapacityChanged])
      | some x => (m, r, [.releaseProbe x])

/-- The restore branch of `release_spawn_admission` (`compute_manager.py:624-639,650-652`). -/
def releaseProbeSection (cfg : Setup) (c : Choice) (m : Manager) (r : Option Outcome)
    (x : Eviction) : Next :=
  if c.ok && !m.closed then
    ((m.restore x).admitSpawnWaitersLocked cfg c.now, r,
      [.finishEngineEvent x.key x.event, .notifyCapacityChanged])
  else (m, r, [.releaseStop x])

/-- The stop branch of `release_spawn_admission` (`compute_manager.py:640-649`). -/
def releaseStopSection (cfg : Setup) (c : Choice) (m : Manager) (r : Option Outcome)
    (x : Eviction) : Next :=
  (((m.untrackStoppingEngine x.engine).releaseStart).admitSpawnWaitersLocked cfg c.now, r,
    [.finishEngineEvent x.key x.event, .notifyCapacityChanged])

/-- `await_spawn_admission` returns: `owns_admission` with its waiter, or an existing engine
that is reserved already. A request takes the result over. -/
def AdmissionCall.resume (call : AdmissionCall) (owner : Option WaiterId) : List Frame :=
  if call.forRequest then [.request .admitted ⟨call.key, owner, owner.isNone⟩] else []

/-- The section of `await_spawn_admission` behind the turn wait
(`compute_manager.py:836-853`). -/
def enqueueSection (cfg : Setup) (c : Choice) (m : Manager) (call : AdmissionCall) : Next :=
  if m.closed then (m, some .raised, [])
  else
    match m.engines.get call.key with
    | some e =>
      let m := if call.reserveExistingRequest then (m.takeReservation call.key).touch c.now e else m
      (m, none, call.resume none)
    | none =>
      if m.identityBusyLocked call.key then (m, none, [.admission .turn call])
      else
        let w := ⟨m.nextWaiter, call.key, call.priority, call.reserveExistingRequest⟩
        let m := { m with spawnWaiters := m.spawnWaiters ++ [w], nextWaiter := m.nextWaiter + 1 }
        (m.admitSpawnWaitersLocked cfg c.now, none, [.admission (.parked w) call])

/-- `await_spawn_admission` (`compute_manager.py:800-891`). Cancelling the task a second time,
while it waits for a control thread, abandons what is left of its cleanup. -/
def admissionSection (cfg : Setup) (c : Choice) (m : Manager) (r : Option Outcome)
    (call : AdmissionCall) : AdmissionPc → Option Next
  | .turn =>
    if c.cancel || m.closed then some (m, some .raised, [])
    else if m.identityBusyLocked call.key then some (m, r, [.admission .turn call])
    else some (m, r, [.admission .enqueue call])
  | .enqueue => some (enqueueSection cfg c m call)
  | .parked w =>
    if c.cancel then some (m, r, [.admission (.cancelled w) call])
    else
      match m.resolutions w.id with
      | none => none
      | some (.owns _) => some (m, r, call.resume (some w.id))
      | some (.existing _) => some (m, r, call.resume none)
      | some .shutDown => some (m, r, [.admission (.cancelled w) call])
  | .cancelled w =>
    some (({ m with spawnWaiters := m.spawnWaiters.erase w }).admitSpawnWaitersLocked cfg c.now, r,
      [.admission (.releasing w) call])
  | .releasing w =>
    if c.cancel then some (m, some .raised, [])
    else
      match m.resolutions w.id with
      | some (.owns _) =>
        some (m, r, [.releaseSpawnAdmission call.key (some w.id), .admission (.unreserving w) call])
      | _ => some (m, r, [.admission (.unreserving w) call])
  | .unreserving w =>
    if c.cancel then some (m, some .raised, [])
    else
      match m.resolutions w.id with
      | some (.existing true) =>
        some (m, r, [.releaseEngineRequest call.key, .admission .ended call])
      | _ => some (m, r, [.admission .ended call])
  | .ended => some (m, some .raised, [.notifyCapacityChanged])

/-! ## Spawning -/

/-- Reuse the registered engine (`compute_manager.py:984-994`). -/
def reuseEngine (c : Choice) (m : Manager) (call : SpawnCall) (e : EngineId) : Next :=
  let m := m.touch c.now e
  let m := if call.reserve then
      m.setInfo e fun i => { i with activeReservations := i.activeReservations + 1 }
    else m
  (m, some (.engine e), [])

/-- Claim the head of the queue of the identity and install the lifecycle event
(`compute_manager.py:996-1000`). -/
def claimHead (m : Manager) (call : SpawnCall) : Manager :=
  let ids := (m.headAdmission call.key).toList.map CapacityAdmission.id
  let m := { m with
    claimed := m.claimed ∪ ids.toFinset
    history := { m.history with
      claims := m.history.claims ++ ids.map fun a => (a, call.onBehalf) } }
  m.installEvent call.key

/-- Start a spawn for an identity without a usable engine (`compute_manager.py:996-1021`). -/
def openSpawn (m : Manager) (call : SpawnCall) (target : Option EngineId) : Next :=
  let admission := m.headAdmission call.key
  let own := m.nextEvent
  let m := claimHead m call
  match target, admission with
  | none, _ => (m, none, [.spawn .claim ⟨call, own, admission, none, false, false, false, false,
      none, false⟩])
  | some e, some a => (m.beginStop call.key e, none,
      [.spawn .stopTarget ⟨call, own, some a, some e, false, false, false, false, none, false⟩])
  | some e, none =>
    let warm := m.warmWorkerAvailableLocked
    (m.takeReplacement call.key e warm, none,
      [.spawn .stopTarget ⟨call, own, none, some e, false, true, warm, !warm, none, false⟩])

/-- The identity gate of `spawn_compute_worker` (`compute_manager.py:974-1021`). -/
def gateSection (cfg : Setup) (c : Choice) (m : Manager) (call : SpawnCall) : Next :=
  if m.closed then (m, some .raised, [])
  else
    match m.engineEvents.get call.key with
    | some ev => (m, none, [.spawnWait call ev])
    | none =>
      match m.engines.get call.key with
      | none => openSpawn m call none
      | some e =>
        if normalizeConfig cfg (m.infos e).resourceConfig ≠ call.config ∨
            (m.infos e).lastKnownAlive = false then openSpawn m call (some e)
        else reuseEngine c m call e

namespace SpawnLocals

/-- Continue at another place. -/
def goto (l : SpawnLocals) (pc : SpawnPc) : List Frame := [.spawn pc l]

/-- Take over the tickets of a claimed admission (`compute_manager.py:1077-1082`). -/
def hold (l : SpawnLocals) (a : CapacityAdmission) : SpawnLocals :=
  { l with capacityStartHeld := true, warmClaimHeld := a.warmClaim, coldStartHeld := a.coldStart }

/-- Drop the tickets of an admission that was released (`compute_manager.py:1184-1187`). -/
def drop (l : SpawnLocals) : SpawnLocals :=
  { l with capacityStartHeld := false, warmClaimHeld := false, coldStartHeld := false }

/-- The end of the `except` block: stop an engine that was not registered. -/
def onStop (l : SpawnLocals) : List Frame :=
  if l.engine.isSome ∧ l.spawned = false then l.goto .stopEngine else l.goto .untrack

/-- The `except` block of `spawn_compute_worker` (`compute_manager.py:1173-1196`). -/
def onError (l : SpawnLocals) : List Frame :=
  if l.admission.isSome ∧ l.admissionConsumed = false then l.goto .failed else l.onStop

/-- Go on with the tickets of an admission: stop the engine it evicted, then look for a warm
worker. -/
def proceed (l : SpawnLocals) (a : CapacityAdmission) : List Frame :=
  match a.evicted with
  | some x => (l.hold a).goto (.stopEvicted x)
  | none => (l.hold a).goto .popWarm

end SpawnLocals

/-- Take the claimed admission, keep the replacement ticket, or claim a slot directly
(`compute_manager.py:1055-1090,1268-1292`). -/
def claimSection (cfg : Setup) (m : Manager) (l : SpawnLocals) : Next :=
  match l.admission with
  | some a =>
    if m.headAdmission l.call.key = some a then
      (m.popAdmission l.call.key, none, { l with admissionConsumed := true }.proceed a)
    else (m, none, l.proceed a)
  | none =>
    if l.shutdownTarget.isSome then
      (m, none, if l.capacityStartHeld then l.goto .popWarm else l.onError)
    else if m.closed || !m.spawnWaiters.isEmpty then (m, none, l.onError)
    else
      match m.reserveCapacityLocked cfg with
      | none => (m, none, l.onError)
      | some (a, m) => (m, none, l.proceed a)

/-- Pop a warm candidate (`compute_manager.py:1104-1121`). -/
def popWarmSection (m : Manager) (l : SpawnLocals) : Next :=
  let m := if l.warmClaimHeld then m.releaseWarmClaim else m
  let l := { l with warmClaimHeld := false }
  match m.warmWorkers with
  | [] => (m, none, l.goto .countCold)
  | e :: rest =>
    ({ m with warmWorkers := rest, startingEngines := insert e m.startingEngines }, none,
      l.goto (.health e))

/-- `_queue_rejected_warm_worker` (`compute_manager.py:358-367`). -/
def rejectSection (m : Manager) (l : SpawnLocals) (e : EngineId) : Next :=
  ({ m with
    startingEngines := m.startingEngines.erase e
    stoppingWarmWorkers := insert e m.stoppingWarmWorkers
    warmWorkerCleanups := m.warmWorkerCleanups ++ [⟨e, 0⟩] }, none, l.goto .popWarm)

/-- Count a cold start that the admission did not count (`compute_manager.py:1139-1143`). -/
def countColdSection (m : Manager) (l : SpawnLocals) : Next :=
  if l.coldStartHeld then (m, none, l.goto .create)
  else
    ({ m with coldStarts := m.coldStarts + 1 }, none, { l with coldStartHeld := true }.goto .create)

/-- Register the started engine (`compute_manager.py:1158-1172`). -/
def registerSection (c : Choice) (m : Manager) (l : SpawnLocals) (e : EngineId) : Next :=
  let m := m.setInfo e fun i =>
    { i with lastActivity := c.now, activeReservations := l.call.reserve.toNat,
             resourceConfig := l.call.config }
  let m := { m with
    startingEngines := m.startingEngines.erase e
    engines := m.engines.put l.call.key (some e) }
  let m := if l.capacityStartHeld then m.releaseStart else m
  (m, none, [.notifyCapacityChanged,
    .spawn .untrack { l with capacityStartHeld := false, spawned := true }])

/-- Hand a claimed admission back to its queue and release it
(`compute_manager.py:1174-1182`). -/
def failedSection (m : Manager) (l : SpawnLocals) : Next :=
  if m.headAdmission l.call.key = l.admission then
    ({ m with claimed := m.claimed \ (l.admission.toList.map CapacityAdmission.id).toFinset }, none,
      .releaseSpawnAdmission l.call.key l.call.onBehalf :: l.goto .released)
  else (m, none, l.goto .released)

/-- The locked part of the `finally` block (`compute_manager.py:1200-1213`). It pops whatever
event is installed. -/
def leaveSection (m : Manager) (l : SpawnLocals) : Next :=
  let m := if l.warmClaimHeld then m.releaseWarmClaim else m
  let m := if l.capacityStartHeld then m.releaseStart else m
  let m := if l.coldStartHeld then m.releaseCold else m
  (m.popEvent l.call.key, some (if l.spawned then l.engine.elim .raised .engine else .raised),
    [.notifyCapacityChanged])

/-- `spawn_compute_worker` behind its gate (`compute_manager.py:1041-1214`). -/
def spawnSection (cfg : Setup) (c : Choice) (m : Manager) (l : SpawnLocals) : SpawnPc → Next
  | .stopTarget =>
    (l.shutdownTarget.elim m m.untrackStoppingEngine, none,
      if c.ok then l.goto .claim else l.onError)
  | .claim => claimSection cfg m l
  | .stopEvicted x =>
    (m.untrackStoppingEngine x.engine, none,
      .finishEngineEvent x.key x.event :: if c.ok then l.goto .popWarm else l.onError)
  | .popWarm => popWarmSection m l
  | .health e =>
    (m, none,
      if cfg.checkHealth e then { l with engine := some e }.goto .bind else l.goto (.reject e))
  | .reject e => rejectSection m l e
  | .bind => (m, none, if c.ok then l.goto .alive else l.onError)
  | .countCold => countColdSection m l
  | .create =>
    if c.ok then
      ({ m with nextEngine := m.nextEngine + 1 }, none,
        { l with engine := some m.nextEngine }.goto .track)
    else (m, none, l.onError)
  | .track =>
    (l.engine.elim m fun e => { m with startingEngines := insert e m.startingEngines }, none,
      l.goto .start)
  | .start =>
    if c.ok then
      (l.engine.elim m fun e => m.setInfo e fun i => { i with lastKnownAlive := true }, none,
        l.goto .alive)
    else (m, none, l.onError)
  | .alive => (m, none, if c.ok then l.goto .register else l.goto .stopDead)
  | .stopDead => (m, none, l.onError)
  | .register =>
    match l.engine with
    | some e => registerSection c m l e
    | none => (m, none, l.onError)
  | .failed => failedSection m l
  | .released =>
    (m, none, (if l.admission.any fun a => a.id ∈ m.released then l.drop else l).onStop)
  | .stopEngine => (m, none, l.goto .untrack)
  | .untrack =>
    (l.engine.elim m fun e => { m with startingEngines := m.startingEngines.erase e }, none,
      l.goto .leave)
  | .leave => leaveSection m l

/-! ## Stopping and reaping -/

/-- The section of `shutdown_compute_worker` that decides (`compute_manager.py:1398-1416`). -/
def shutdownSection (m : Manager) (k : Key) : Manager × List Frame :=
  match m.engineEvents.get k with
  | some ev => (m, [.shutdownWait k ev])
  | none =>
    let own := m.nextEvent
    let m := m.installEvent k
    match m.engines.get k with
    | some e => (m.beginStop k e, [.stopEngine k own e])
    | none => (m, [.finishEngineEvent k own])

/-- The section of `shutdown_compute_worker_if_idle` that decides
(`compute_manager.py:1454-1473`). -/
def idleSection (m : Manager) (k : Key) : Manager × List Frame :=
  match m.engineEvents.get k with
  | some ev => (m, [.idleWait k ev])
  | none =>
    match m.engines.get k with
    | none => (m, [])
    | some e =>
      if m.idle k e then ((m.installEvent k).beginStop k e, [.stopEngine k m.nextEvent e])
      else (m, [])

/-- The reaper takes this engine (`compute_manager.py:1711-1727`). -/
def reapable (cfg : Setup) (c : Choice) (m : Manager) (k : Key) (e : EngineId) : Bool :=
  m.engines.get k = some e && m.idle k e &&
    !(c.alive.contains e && (c.now : ℤ) - (m.infos e).lastActivity < cfg.idleTtlSeconds) &&
    (m.engineEvents.get k).isNone

/-- The loop of `_reap_idle_engines_once` under the lock (`compute_manager.py:1708-1735`). -/
def reapEach (cfg : Setup) (c : Choice) :
    List (Key × EngineId) → Manager → Manager × List (Key × EngineId × EventId)
  | [], m => (m, [])
  | (k, e) :: rest, m =>
    if reapable cfg c m k e then
      let x := reapEach cfg c rest ((m.installEvent k).beginStop k e)
      (x.1, (k, e, m.nextEvent) :: x.2)
    else reapEach cfg c rest m

/-- What is left of the reaper's stops: each engine is untracked and its event finished
before the next one. -/
def reapStopSection (m : Manager) : List (Key × EngineId × EventId) → Manager × List Frame
  | [] => (m, [])
  | (k, e, ev) :: rest => (m.untrackStoppingEngine e, [.finishEngineEvent k ev, .reapStop rest])

/-! ## The warm reserve -/

/-- The decision of the replenisher (`compute_manager.py:1617-1638`). -/
def decideSection (cfg : Setup) (m : Manager) : Next :=
  if !m.closed && cfg.warmWorkerFactory && ((m.warmWorkers.length + m.warmWorkerStarts +
      m.stoppingWarmWorkers.card : ℕ) : ℤ) < max cfg.warmWorkerTarget 0 then
    ({ m with coldStarts := m.coldStarts + 1, warmWorkerStarts := m.warmWorkerStarts + 1 }, none,
      [.replenish .create])
  else
    match m.warmWorkerCleanups with
    | c :: rest => ({ m with warmWorkerCleanups := rest }, none, [.replenish (.cleanup c)])
    | [] => (m, none, if m.closed then [] else [.replenish .decide])

/-- The end of a warm start (`compute_manager.py:1652-1672`). -/
def settleSection (cfg : Setup) (m : Manager) (o : Option EngineId) : Next :=
  let m := { m.releaseCold with warmWorkerStarts := m.warmWorkerStarts - 1 }
  match o with
  | none => (m, none, [.notifyCapacityChanged, .replenish .decide])
  | some e =>
    if !m.closed && (m.warmWorkers.length : ℤ) < max cfg.warmWorkerTarget 0 then
      ({ m with
        startingEngines := m.startingEngines.erase e
        warmWorkers := m.warmWorkers ++ [e] }, none, [.notifyCapacityChanged, .replenish .decide])
    else (m, none, [.notifyCapacityChanged, .replenish (.discard e)])

/-- `_cleanup_rejected_warm_worker` (`compute_manager.py:369-426`). -/
def cleanupSection (c : Choice) (m : Manager) (x : WarmWorkerCleanup) : Next :=
  if c.ok || m.closed then
    ({ m with stoppingWarmWorkers := m.stoppingWarmWorkers.erase x.engine }, none,
      [.replenish .decide])
  else
    ({ m with warmWorkerCleanups := ⟨x.engine, x.attempts + 1⟩ :: m.warmWorkerCleanups }, none,
      [.replenish .decide])

/-- `_replenish_warm_workers_loop` and `_spawn_warm_worker`
(`compute_manager.py:1587-1676`). -/
def replenishSection (cfg : Setup) (c : Choice) (m : Manager) : ReplenishPc → Next
  | .decide => decideSection cfg m
  | .create =>
    if c.ok then
      ({ m with nextEngine := m.nextEngine + 1 }, none, [.replenish (.track m.nextEngine)])
    else (m, none, [.replenish (.settle none)])
  | .track e =>
    ({ m with startingEngines := insert e m.startingEngines }, none, [.replenish (.start e)])
  | .start e =>
    if c.ok then
      (m.setInfo e fun i => { i with lastKnownAlive := true }, none,
        [.replenish (.settle (some e))])
    else (m, none, [.replenish (.failed e)])
  | .failed e =>
    ({ m with startingEngines := m.startingEngines.erase e }, none, [.replenish (.settle none)])
  | .settle o => settleSection cfg m o
  | .discard e =>
    ({ m with startingEngines := m.startingEngines.erase e }, none, [.replenish .decide])
  | .cleanup x => cleanupSection c m x

/-! ## Requests -/

/-- A compute request or a build work slot: admission, reservation, execution, and the
releases of its `finally` block (`compute_request_runtime.py:489-677`,
`build_execution.py:26-63`). -/
def requestSection (cfg : Setup) (c : Choice) (m : Manager) (l : RequestLocals) :
    RequestPc → Next
  | .admitted =>
    if l.owner.isSome then
      if c.cancel || m.closed then (m, none, [.request .releaseRequest l])
      else (m.reserveEngineRequest c.now l.key, none,
        [.request .executing { l with reserved := true }])
    else (m, none, [.request .executing l])
  | .executing =>
    match c.spawn with
    | some (config, true) =>
      (m, none, [.acquire ⟨l.key, normalizeConfig cfg config, true, l.owner⟩,
        .request .executing l])
    | some (config, false) =>
      (m, none, [.spawnGate ⟨l.key, normalizeConfig cfg config, false, l.owner⟩,
        .request .executing l])
    | none => (m, none, [.request .releaseRequest l])
  | .releaseRequest =>
    (m, none, if l.reserved then
        [.releaseEngineRequest l.key, .request .releaseAdmission { l with reserved := false }]
      else [.request .releaseAdmission l])
  | .releaseAdmission =>
    match l.owner with
    | some w => (m, none, if c.cancel then [] else [.releaseSpawnAdmission l.key (some w)])
    | none => (m, none, [])

/-- One section of the running frame. -/
def Frame.advance (cfg : Setup) (c : Choice) (m : Manager) (r : Option Outcome) :
    Frame → Option Next
  | .notifyCapacityChanged => some (m.admitSpawnWaitersLocked cfg c.now, r, [])
  | .finishEngineEvent k ev => some (m.finishEvent k ev, r, [.notifyCapacityChanged])
  | .releaseSpawnAdmission k b => some (releaseSection cfg c m r k b)
  | .releaseProbe x => some (releaseProbeSection cfg c m r x)
  | .releaseStop x => some (releaseStopSection cfg c m r x)
  | .reserveEngineRequest k =>
    some (if m.closed then m else m.reserveEngineRequest c.now k, r, [])
  | .releaseEngineRequest k => some (m.releaseReservation k, r, [.notifyCapacityChanged])
  | .admission pc call => admissionSection cfg c m r call pc
  | .spawnGate call => some (gateSection cfg c m call)
  | .spawnWait call ev => if ev ∈ m.setEvents then some (m, none, [.spawnGate call]) else none
  | .spawn pc l => some (spawnSection cfg c m l pc)
  | .acquire call => some (m, none, [.spawnGate call, .acquired call.key])
  | .acquired k =>
    match r with
    | some (.engine e) => some (m, r, [.holding k e])
    | _ => some (m, r, [])
  | .holding k e =>
    some (if m.engines.get k = some e then
        m.setInfo e fun i => { i with activeReservations := i.activeReservations - 1 }
      else m, r, [.notifyCapacityChanged])
  | .shutdownGate k => some ((shutdownSection m k).1, r, (shutdownSection m k).2)
  | .shutdownWait k ev => if ev ∈ m.setEvents then some (m, r, [.shutdownGate k]) else none
  | .idleGate k => some ((idleSection m k).1, r, (idleSection m k).2)
  | .idleWait k ev => if ev ∈ m.setEvents then some (m, r, [.idleGate k]) else none
  | .stopEngine k ev e => some (m.untrackStoppingEngine e, r, [.finishEngineEvent k ev])
  | .reapStart => some (m, r, [.reapMark m.engines.rows])
  | .reapMark tracked =>
    some ((reapEach cfg c tracked m).1, r, [.reapStop (reapEach cfg c tracked m).2])
  | .reapStop stale => some ((reapStopSection m stale).1, r, (reapStopSection m stale).2)
  | .replenish pc => some (replenishSection cfg c m pc)
  | .request pc l => some (requestSection cfg c m l pc)

/-- What engines do by themselves: pick up and finish jobs, die, come back. -/
structure EngineChange where
  engine : EngineId
  currentJobId : Option String
  lastKnownAlive : Bool

/-- The manager of a worker process. -/
def code (cfg : Setup) : Monitor.Code Manager Frame Outcome Choice EngineChange where
  run c m r f := f.advance cfg c m r
  outside x m := m.setInfo x.engine fun i =>
    { i with currentJobId := x.currentJobId, lastKnownAlive := x.lastKnownAlive }

end DataForge.Engines
