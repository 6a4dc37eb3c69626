import Mathlib.Data.Nat.Notation

/-!
# The admission lanes of the runtime RPCs

`_RpcAdmissionLane` (`backend_grpc/server.py:406-459`) and the calls of `acquire` and `release` on
it. A step is one section of the lane's lock, or one thing that happens to a call at its await.
-/

namespace DataForge.Admission

/-- The states of a `concurrent.futures.Future`. -/
inductive FutureState where
  | pending
  | cancelled
  | cancelledAndNotified
  | finished
deriving DecidableEq, Repr

/-- `done`. -/
def FutureState.done (x : FutureState) : Bool := x ≠ .pending

/-- `cancelled`. -/
def FutureState.isCancelled (x : FutureState) : Bool :=
  x = .cancelled ∨ x = .cancelledAndNotified

/-- `cancel`: a finished future stays. -/
def FutureState.cancel : FutureState → FutureState
  | .pending => .cancelled
  | x => x

/-- What `_release_locked` raises: its own error, and the one of `set_running_or_notify_cancel` on
a future that was notified or is finished. -/
inductive LaneError where
  | releasedWithoutActiveCall
  | futureInUnexpectedState
deriving DecidableEq, Repr

/-- Where a call stands: at its await, between the `TimeoutError` or `CancelledError` there and
`_withdraw`, after `acquire` raised that error or returned `False` or `True`, after its `release`,
or at an error of the lane. -/
inductive CallPhase where
  | awaiting
  | leaving
  | raised
  | refused
  | granted
  | released
  | failed (error : LaneError)
deriving DecidableEq, Repr

/-- A call. Its waiter has the number of the call; a call that is not queued has none. -/
structure LaneCall where
  waiter : Option FutureState
  phase : CallPhase
deriving DecidableEq, Repr

/-- The state of a lane, and all the calls there have been. -/
structure Lane where
  active : ℕ
  waiters : List ℕ
  calls : List LaneCall
deriving DecidableEq, Repr

/-- What can happen: a call of `acquire`, the end of its await by the grant or by a timeout or a
cancellation, which may come at any time, `_withdraw`, and the one `release` of a granted call. -/
inductive LaneAction where
  | acquire
  | wake (i : ℕ)
  | interrupt (i : ℕ)
  | withdraw (i : ℕ)
  | release (i : ℕ)
deriving DecidableEq, Repr

namespace Lane

/-- A new lane. -/
def empty : Lane := ⟨0, [], []⟩

variable (s : Lane)

/-- Change the phase of a call. -/
def setPhase (i : ℕ) (phase : CallPhase) : Lane :=
  { s with calls := s.calls.modify i fun c => { c with phase } }

/-- Change the waiter of a call. -/
def setWaiter (i : ℕ) (x : FutureState) : Lane :=
  { s with calls := s.calls.modify i fun c => { c with waiter := some x } }

/-- The section of `acquire` (lines 416-423). -/
def acquire (capacity queueLimit : ℕ) : Lane :=
  if s.active < capacity ∧ s.waiters = [] then
    { s with active := s.active + 1, calls := s.calls ++ [⟨none, .granted⟩] }
  else if queueLimit ≤ s.waiters.length then
    { s with calls := s.calls ++ [⟨none, .refused⟩] }
  else
    { s with
      waiters := s.waiters ++ [s.calls.length]
      calls := s.calls ++ [⟨some .pending, .awaiting⟩] }

/-- `_release_locked` (lines 451-459) with the waiters that are left: the first one that is not
cancelled gets the slot. -/
def releaseLocked (s : Lane) : List ℕ → Lane × Option LaneError
  | [] =>
    if s.active ≤ 0 then ({ s with waiters := [] }, some .releasedWithoutActiveCall)
    else ({ s with waiters := [], active := s.active - 1 }, none)
  | w :: rest =>
    match s.calls[w]?.bind (·.waiter) with
    | some .pending => ({ s.setWaiter w .finished with waiters := rest }, none)
    | some .cancelled => (s.setWaiter w .cancelledAndNotified).releaseLocked rest
    | _ => ({ s with waiters := rest }, some .futureInUnexpectedState)

/-- A call ends with `_release_locked`, in the phase or with the error. -/
def endWith (i : ℕ) (phase : CallPhase) : Lane :=
  let (s', error) := s.releaseLocked s.waiters
  s'.setPhase i (error.elim phase .failed)

/-- `_withdraw` (lines 441-449). -/
def withdraw (i : ℕ) (x : FutureState) : Lane :=
  if i ∈ s.waiters then
    ({ s with waiters := s.waiters.erase i }.setWaiter i x.cancel).setPhase i .raised
  else if x.done ∧ ¬ x.isCancelled then s.endWith i .raised
  else s.setPhase i .raised

end Lane

/-- One step. -/
def laneStep (capacity queueLimit : ℕ) (s : Lane) : LaneAction → Option Lane
  | .acquire => some (s.acquire capacity queueLimit)
  | .wake i =>
    match s.calls[i]? with
    | some ⟨some .finished, .awaiting⟩ => some (s.setPhase i .granted)
    | _ => none
  | .interrupt i =>
    match s.calls[i]? with
    | some ⟨_, .awaiting⟩ => some (s.setPhase i .leaving)
    | _ => none
  | .withdraw i =>
    match s.calls[i]? with
    | some ⟨some x, .leaving⟩ => some (s.withdraw i x)
    | _ => none
  | .release i =>
    match s.calls[i]? with
    | some ⟨_, .granted⟩ => some (s.endWith i .released)
    | _ => none

end DataForge.Admission
