import Mathlib.Data.Finset.Dedup
import Mathlib.Data.Finset.Erase
import Mathlib.Data.Finset.Insert
import Mathlib.Logic.Function.Basic
import DataForge.Transitions.Fair
import DataForge.Wakes.Hub

/-!
# The compute request dispatcher

One lane of the worker's claim loop (`worker/runtime/compute_request_runtime.py:238-405`) as a
machine over its local variables. A step is one round of one of its `for` and `while` loops, or
one of its awaits; between two steps the hub may be published to, and while the loop waits its
claim tasks (`_run_once`, lines 407-452) go on.
-/

namespace DataForge.Dispatch

/-- `ComputeRequestWake` (`runtime/domain/compute_requests/live.py:8-12`). -/
structure ComputeRequestWake where
  requestId : Option String
  ns : String
  kind : Option ℤ
deriving DecidableEq, Repr

/-- The wake that has a namespace drained. -/
def ComputeRequestWake.drain (ns : String) : ComputeRequestWake := ⟨none, ns, none⟩

/-- The hub that the lane polls. -/
abbrev VersionHub := Wakes.VersionHub ComputeRequestWake

/-- How a claim task ends: the claim found no request; the claimed request was executed, its
lease was lost, or it was malformed and rejected; or something raised, with or without a claimed
request. -/
inductive Outcome where
  | nothing
  | executed
  | leaseLost
  | rejected
  | raised (claimed : Bool)
deriving DecidableEq, Repr

/-- What `run_one` returns (lines 293-304). -/
def Outcome.result : Outcome → Bool
  | .nothing => false
  | .raised _ => false
  | _ => true

/-- Where a claim task stands in `_run_once`. -/
inductive TaskState where
  | created
  | claiming
  | executing
  | rejecting
  | finished (outcome : Outcome)
deriving DecidableEq, Repr

/-- What a claim task does next: it starts its claim, or the call it awaits comes back. -/
inductive TaskMove where
  | attempt
  | findsNothing
  | claims (malformed : Bool)
  | returns
  | losesLease
  | raises
deriving DecidableEq, Repr

/-- `_run_once` inside `run_one` (lines 293-304, 407-452). -/
def TaskState.step : TaskState → TaskMove → Option TaskState
  | .created, .attempt => some .claiming
  | .claiming, .findsNothing => some (.finished .nothing)
  | .claiming, .claims malformed => some (if malformed then .rejecting else .executing)
  | .claiming, .raises => some (.finished (.raised false))
  | .executing, .returns => some (.finished .executed)
  | .executing, .losesLease => some (.finished .leaseLost)
  | .executing, .raises => some (.finished (.raised true))
  | .rejecting, .returns => some (.finished .rejected)
  | .rejecting, .raises => some (.finished (.raised true))
  | _, _ => none

/-- `task.done()`. -/
def TaskState.done : TaskState → Bool
  | .finished _ => true
  | _ => false

/-- One entry of `in_flight`. -/
structure Flight where
  task : ℕ
  wake : ComputeRequestWake
  state : TaskState
deriving DecidableEq, Repr

/-- Where `enqueue_notifications` goes on: at the top of the loop, or at the end of its body. -/
inductive After where
  | idle
  | top (polled : Bool)
deriving DecidableEq, Repr

/-- What the loop does next. `settle` still has the done tasks to look at, `woken` is the value
of `wait_task`, `polled` says that `poll_task` is done. -/
inductive Phase where
  | poll
  | notify (rest : List (Option ComputeRequestWake)) (version : ℕ) (after : After)
  | idle
  | revive (rest : List String)
  | fill
  | snapshot
  | recover (rest : List String)
  | waiting
  | cancelling (done : List ℕ) (woken : Option ℕ) (polled stopped : Bool)
  | settle (rest : List ℕ) (woken : Option ℕ) (polled : Bool)
  | returned
  | crashed
deriving DecidableEq

/-- The arguments and settings of one lane. -/
structure Lane where
  allowedKinds : List ℤ
  pollForWork : Bool
  maxConcurrency : Option ℤ
  workerCount : ℤ
  recoverySeconds : ℕ

/-- `concurrency` (line 252): an absent or zero `max_concurrency` is replaced. -/
def Lane.concurrency (lane : Lane) : ℕ :=
  (max 1 (match lane.maxConcurrency with
    | none => lane.workerCount
    | some n => if n = 0 then lane.workerCount else n)).toNat

/-- The hub, the stop event, and the local variables of the loop (lines 252-264, 320). -/
structure State where
  hub : VersionHub
  stop : Bool
  nextTask : ℕ
  lastSeen : ℕ
  pendingWakes : List ComputeRequestWake
  recentRequestIds : List String
  seenRequestIds : Finset String
  drainNamespaces : Finset String
  drainPermits : String → Option ℤ
  inFlight : List Flight
  nextRecoveryPoll : ℕ
  phase : Phase

/-- The maximal length of `recent_request_ids` (line 255). -/
def recentLength : ℕ := 4096

/-- The loop before its first round. -/
def State.start (hub : VersionHub) : State where
  hub
  stop := false
  nextTask := 0
  lastSeen := hub.version
  pendingWakes := []
  recentRequestIds := []
  seenRequestIds := ∅
  drainNamespaces := ∅
  drainPermits _ := none
  inFlight := []
  nextRecoveryPoll := 0
  phase := .poll

namespace State

/-- `enqueue_drain` (lines 266-269). -/
def enqueueDrain (s : State) (ns : String) (permits : ℕ) : State :=
  { s with
    drainNamespaces := insert ns s.drainNamespaces
    drainPermits := Function.update s.drainPermits ns
      (some ((s.drainPermits ns).getD 0 + permits))
    pendingWakes := s.pendingWakes ++ List.replicate permits (.drain ns) }

/-- `namespace_has_work` (lines 271-272). -/
def namespaceHasWork (s : State) (ns : String) : Bool :=
  s.pendingWakes.any (·.ns == ns) || s.inFlight.any (·.wake.ns == ns)

/-- Keep a request id among the recently seen ones (lines 287-290). -/
def remember (s : State) (id : String) : State :=
  match s.recentRequestIds with
  | oldest :: rest =>
    if s.recentRequestIds.length = recentLength then
      { s with
        recentRequestIds := rest ++ [id]
        seenRequestIds := insert id (s.seenRequestIds.erase oldest) }
    else
      { s with
        recentRequestIds := s.recentRequestIds ++ [id]
        seenRequestIds := insert id s.seenRequestIds }
  | [] => { s with recentRequestIds := [id], seenRequestIds := insert id s.seenRequestIds }

/-- One round of the loop of `enqueue_notifications` (lines 278-292). -/
def accept (lane : Lane) (s : State) : Option ComputeRequestWake → State
  | none => s
  | some wake =>
    if wake.ns = "" then s
    else match wake.requestId with
      | none => if wake.kind = none then s.enqueueDrain wake.ns 1 else s
      | some id =>
        if !(lane.allowedKinds.any fun k => wake.kind == some k) then s
        else if id ∈ s.seenRequestIds then s
        else
          let s := s.remember id
          { s with
            pendingWakes := s.pendingWakes ++ [wake]
            drainNamespaces := insert wake.ns s.drainNamespaces }

/-- Go on after `enqueue_notifications`; the end of the body resets the recovery poll when its
timer has fired (lines 391-392). -/
def goOn (s : State) : After → State
  | .idle => { s with phase := .idle }
  | .top polled =>
    { s with phase := .poll, nextRecoveryPoll := if polled then 0 else s.nextRecoveryPoll }

/-- `enqueue_notifications` up to its loop (lines 274-278). -/
def enqueueNotifications (s : State) (version : ℕ) (after : After) : State :=
  if version = s.lastSeen then s.goOn after
  else { s with phase := .notify (s.hub.payloadsSince s.lastSeen) version after }

/-- Create the claim task of the first pending wake (lines 329, 350-352). -/
def dispatch (s : State) (wake : ComputeRequestWake) (rest : List ComputeRequestWake) : State :=
  { s with
    pendingWakes := rest
    inFlight := s.inFlight ++ [⟨s.nextTask, wake, .created⟩]
    nextTask := s.nextTask + 1
    phase := .fill }

/-- Give back the permit of a drain wake that found nothing more (lines 378-385). A missing key
is the `KeyError` that ends the loop. -/
def release (s : State) (ns : String) : State :=
  match s.drainPermits ns with
  | none => { s with phase := .crashed }
  | some permits =>
    if permits - 1 ≠ 0 then
      { s with drainPermits := Function.update s.drainPermits ns (some (permits - 1)) }
    else
      let s := { s with drainPermits := Function.update s.drainPermits ns none }
      if s.namespaceHasWork ns then s
      else { s with drainNamespaces := s.drainNamespaces.erase ns }

/-- Take a done task off `in_flight` (lines 374-385). -/
def settle (s : State) (f : Flight) : State :=
  let s := { s with inFlight := s.inFlight.filter (·.task ≠ f.task) }
  match f.wake.requestId, f.state with
  | some _, _ => s
  | none, .finished outcome =>
    if outcome.result then { s with pendingWakes := s.pendingWakes ++ [f.wake] }
    else s.release f.wake.ns
  | none, _ => { s with phase := .crashed }

/-- The tasks of `in_flight` that are done. -/
def doneTasks (s : State) : List ℕ := (s.inFlight.filter (·.state.done)).map (·.task)

end State

/-- What the loop reads at a step: the clock, the namespaces that an iteration over
`drain_namespaces` or `namespace_directory.snapshot()` yields or that it raises, and which of
the awaited tasks are done. -/
structure Reading where
  now : ℕ := 0
  namespaces : List String := []
  raised : Bool := false
  woken : Option ℕ := none
  polled : Bool := false
  stopped : Bool := false

/-- What the environment and the loop can do. -/
inductive Action where
  | publish (payload : Option ComputeRequestWake)
  | requestStop
  | task (k : ℕ) (move : TaskMove)
  | loop (r : Reading)

/-- One step of the loop. -/
def loopStep (lane : Lane) (r : Reading) (s : State) : Option State :=
  match s.phase with
  | .poll =>
    if s.stop then some { s with phase := .returned }
    else some (s.enqueueNotifications s.hub.version .idle)
  | .notify (payload :: rest) version after =>
    some { s.accept lane payload with phase := .notify rest version after }
  | .notify [] version after => some ({ s with lastSeen := version }.goOn after)
  | .idle =>
    if s.pendingWakes = [] ∧ s.inFlight = [] then
      if r.namespaces.Nodup ∧ r.namespaces.toFinset = s.drainNamespaces then
        some { s with phase := .revive r.namespaces }
      else none
    else some { s with phase := .fill }
  | .revive (ns :: rest) =>
    let s := if (s.drainPermits ns).getD 0 = 0 then s.enqueueDrain ns 1 else s
    some { s with phase := .revive rest }
  | .revive [] => some { s with phase := .fill }
  | .fill =>
    if s.inFlight.length < lane.concurrency then
      match s.pendingWakes with
      | wake :: rest => some (s.dispatch wake rest)
      | [] =>
        if lane.pollForWork ∧ s.nextRecoveryPoll ≤ r.now then some { s with phase := .snapshot }
        else some { s with phase := .waiting }
    else some { s with phase := .waiting }
  | .snapshot =>
    if r.raised then some { s with phase := .returned }
    else
      let phase := if r.namespaces = [] then Phase.waiting else Phase.recover r.namespaces
      some { s with nextRecoveryPoll := r.now + lane.recoverySeconds, phase }
  | .recover (ns :: rest) =>
    let s := if s.namespaceHasWork ns ∨ (s.drainPermits ns).getD 0 ≠ 0 then s
      else s.enqueueDrain ns 1
    some { s with phase := .recover rest }
  | .recover [] =>
    match s.pendingWakes with
    | wake :: rest => some (s.dispatch wake rest)
    | [] => some { s with phase := .fill }
  | .waiting =>
    -- `asyncio.wait` comes back with at least one of its tasks done.
    if (s.doneTasks ≠ [] ∨ r.woken ≠ none ∨ r.polled ∨ r.stopped) ∧ (r.stopped → s.stop) ∧
        (r.polled → lane.pollForWork) ∧ (∀ v ∈ r.woken, v ≠ s.lastSeen ∧ v ≤ s.hub.version) then
      some { s with phase := .cancelling s.doneTasks r.woken r.polled r.stopped }
    else none
  | .cancelling done woken polled stopped =>
    some { s with phase := if stopped then .returned else .settle done woken polled }
  | .settle (k :: rest) woken polled =>
    match s.inFlight.find? (·.task = k) with
    | none => some { s with phase := .settle rest woken polled }
    | some f =>
      let s := { s with phase := .settle rest woken polled }
      some (s.settle f)
  | .settle [] woken polled =>
    match woken with
    | some version => some (s.enqueueNotifications version (.top polled))
    | none => some (s.goOn (.top polled))
  | .returned => none
  | .crashed => none

/-- The loop is suspended, so that its claim tasks can run. -/
def Phase.suspended : Phase → Bool
  | .snapshot | .waiting | .cancelling .. => true
  | _ => false

/-- A claim task of `in_flight` goes on. -/
def taskStep (k : ℕ) (move : TaskMove) (s : State) : Option State :=
  if s.phase.suspended then
    (s.inFlight.find? (·.task = k)).bind fun f => (f.state.step move).map fun state =>
      { s with inFlight := s.inFlight.map fun g => if g.task = k then { g with state } else g }
  else none

/-- One step of the lane and its environment. -/
def step (lane : Lane) (s : State) : Action → Option State
  | .publish payload => some { s with hub := s.hub.publish payload }
  | .requestStop => some { s with stop := true }
  | .task k move => taskStep k move s
  | .loop r => loopStep lane r s

end DataForge.Dispatch
