import Mathlib.Data.Prod.Lex
import Mathlib.Order.WellFounded
import DataForge.Dispatch.Accounting

/-!
# Every accepted wake is followed by a claim attempt

Pending wakes are dispatched first in, first out, and a claim task that ends makes room. So a
pending wake comes to its claim attempt whenever the claim tasks end and the loop goes on.
-/

namespace DataForge.Dispatch

open Transitions (Run)

variable {lane : Lane} {s s' : State} {ns : String}

/-- What a step of the loop does to the pending wakes and the flights: it appends wakes, it sends
the first one off, or it takes a done task off. -/
inductive Moves (s s' : State) : Prop where
  | appends (new : List ComputeRequestWake) (hp : s'.pendingWakes = s.pendingWakes ++ new)
      (hf : s'.inFlight = s.inFlight)
  | dispatches (wake : ComputeRequestWake) (rest : List ComputeRequestWake)
      (hp : s.pendingWakes = wake :: rest) (hs : s' = s.dispatch wake rest)
  | settles (f : Flight) (new : List ComputeRequestWake) (hf : f ∈ s.inFlight)
      (hdone : f.state.done = true) (hp : s'.pendingWakes = s.pendingWakes ++ new)
      (hf' : s'.inFlight = s.inFlight.filter (·.task ≠ f.task))

theorem Moves.quiet (hp : s'.pendingWakes = s.pendingWakes) (hf : s'.inFlight = s.inFlight) :
    Moves s s' :=
  .appends [] (by rw [hp, List.append_nil]) hf

theorem Moves.goOn (s : State) (after : After) : Moves s (s.goOn after) := by
  cases after <;> exact .quiet rfl rfl

theorem Moves.enqueueNotifications (s : State) (version : ℕ) (after : After) :
    Moves s (s.enqueueNotifications version after) := by
  unfold State.enqueueNotifications
  split
  · exact .goOn s after
  · exact .quiet rfl rfl

theorem State.accept_appends (s : State) (lane : Lane) (payload : Option ComputeRequestWake) :
    (∃ new, (s.accept lane payload).pendingWakes = s.pendingWakes ++ new) ∧
      (s.accept lane payload).inFlight = s.inFlight := by
  obtain heq | ⟨ns, heq⟩ | ⟨wake, id, -, heq⟩ := s.accept_cases lane payload
  · rw [heq]
    exact ⟨⟨[], (List.append_nil _).symm⟩, rfl⟩
  · rw [heq]
    exact ⟨⟨_, rfl⟩, rfl⟩
  · rw [heq]
    exact ⟨⟨[wake], rfl⟩, (State.remember_same id).2.1⟩

theorem Core.settle_appends (h : Core lane s) {f : Flight} (hf : f ∈ s.inFlight)
    (hdone : f.state.done = true) :
    (∃ new, (s.settle f).pendingWakes = s.pendingWakes ++ new) ∧
      (s.settle f).inFlight = s.inFlight.filter (·.task ≠ f.task) := by
  unfold State.settle
  cases hid : f.wake.requestId with
  | some id => exact ⟨⟨[], (List.append_nil _).symm⟩, rfl⟩
  | none =>
    cases hstate : f.state with
    | finished outcome =>
      dsimp only
      cases outcome.result with
      | true => exact ⟨⟨[f.wake], rfl⟩, rfl⟩
      | false =>
        obtain ⟨permits, kept, heq, -, -⟩ := h.release_cases hf hid
        rw [State.without] at heq
        simp only [Bool.false_eq_true, if_false, heq]
        exact ⟨⟨[], (List.append_nil _).symm⟩, trivial⟩
    | created | claiming | executing | rejecting => simp [hstate, TaskState.done] at hdone

theorem Sound.moves (h : Sound lane s) {r : Reading} (hs : Dispatch.loopStep lane r s = some s') :
    Moves s s' := by
  unfold DataForge.Dispatch.loopStep at hs
  split at hs
  case h_1 =>
    split at hs <;> cases hs
    · exact .quiet rfl rfl
    · exact .enqueueNotifications ..
  case h_2 payload rest version after _ =>
    cases hs
    obtain ⟨⟨new, hp⟩, hf⟩ := s.accept_appends lane payload
    exact .appends new hp hf
  case h_3 version after _ =>
    cases hs
    cases after <;> exact .quiet rfl rfl
  case h_4 =>
    split at hs
    · split at hs <;> cases hs
      exact .quiet rfl rfl
    · cases hs
      exact .quiet rfl rfl
  case h_5 ns rest _ =>
    cases hs
    split
    · exact .appends _ rfl rfl
    · exact .quiet rfl rfl
  case h_6 =>
    cases hs
    exact .quiet rfl rfl
  case h_7 =>
    split at hs
    · split at hs
      · cases hs
        exact .dispatches _ _ ‹_› rfl
      · split at hs <;> cases hs <;> exact .quiet rfl rfl
    · cases hs
      exact .quiet rfl rfl
  case h_8 => split at hs <;> cases hs <;> exact .quiet rfl rfl
  case h_9 ns rest _ =>
    cases hs
    split
    · exact .quiet rfl rfl
    · exact .appends _ rfl rfl
  case h_10 =>
    split at hs <;> cases hs
    · exact .dispatches _ _ ‹_› rfl
    · exact .quiet rfl rfl
  case h_11 =>
    split at hs <;> cases hs
    exact .quiet rfl rfl
  case h_12 =>
    cases hs
    exact .quiet rfl rfl
  case h_13 k rest woken polled hph =>
    obtain ⟨f, hf, rfl, hdone, hfind, -⟩ := h.settle hph
    rw [hfind] at hs
    cases hs
    have hcore : Core lane { s with phase := .settle rest woken polled } :=
      h.toCore.same rfl rfl rfl rfl
    obtain ⟨⟨new, hp⟩, hf'⟩ := hcore.settle_appends hf hdone
    exact .settles f new hf hdone hp hf'
  case h_14 woken polled _ =>
    cases woken with
    | some version =>
      cases hs
      exact .enqueueNotifications ..
    | none =>
      cases hs
      exact .goOn s _
  case h_15 => cases hs
  case h_16 => cases hs

/-- How far the loop is from its next wait or dispatch. -/
def Phase.rank : Phase → ℕ ×ₗ ℕ
  | .cancelling .. => toLex (8, 0)
  | .settle rest _ _ => toLex (7, rest.length)
  | .notify rest _ (.top _) => toLex (6, rest.length)
  | .poll => toLex (5, 0)
  | .notify rest _ .idle => toLex (4, rest.length)
  | .idle | .snapshot => toLex (3, 0)
  | .revive rest | .recover rest => toLex (2, rest.length)
  | .fill => toLex (1, 0)
  | .waiting | .returned | .crashed => toLex (0, 0)

theorem rank_lt {a b c d : ℕ} (h : a < c ∨ a = c ∧ b < d) :
    (toLex (a, b) : ℕ ×ₗ ℕ) < toLex (c, d) :=
  Prod.Lex.toLex_lt_toLex.mpr h

theorem State.rank_enqueueNotifications (version : ℕ) (polled : Bool) :
    (s.enqueueNotifications version (.top polled)).phase.rank < toLex (7, 0) ∧
      (s.enqueueNotifications version .idle).phase.rank < toLex (5, 0) := by
  unfold State.enqueueNotifications
  split <;> exact ⟨rank_lt (by simp), rank_lt (by simp)⟩

/-- With a wake pending, a step of the loop dispatches, or it comes closer to that or to the
next wait. -/
theorem Sound.rank (h : Sound lane s) {r : Reading} (hp : s.pendingWakes ≠ [])
    (hs : Dispatch.loopStep lane r s = some s') (hw : s.phase ≠ .waiting) :
    (∃ wake rest, s.pendingWakes = wake :: rest ∧ s' = s.dispatch wake rest) ∨
      s'.phase.rank < s.phase.rank := by
  unfold DataForge.Dispatch.loopStep at hs
  split at hs
  case h_1 hph =>
    rw [hph]
    split at hs <;> cases hs
    · exact .inr (rank_lt (by simp))
    · exact .inr (State.rank_enqueueNotifications _ true).2
  case h_2 payload rest version after hph =>
    cases hs
    rw [hph]
    cases after <;> exact .inr (rank_lt (by simp))
  case h_3 version after hph =>
    cases hs
    rw [hph]
    cases after <;> exact .inr (rank_lt (by simp))
  case h_4 hph =>
    rw [if_neg (fun hn => hp hn.1)] at hs
    cases hs
    rw [hph]
    exact .inr (rank_lt (by simp))
  case h_5 hph =>
    cases hs
    rw [hph]
    exact .inr (rank_lt (by simp))
  case h_6 hph =>
    cases hs
    rw [hph]
    exact .inr (rank_lt (by simp))
  case h_7 hph =>
    rw [hph]
    split at hs
    · split at hs
      · cases hs
        exact .inl ⟨_, _, ‹_›, rfl⟩
      · exact absurd ‹_› hp
    · cases hs
      exact .inr (rank_lt (by simp))
  case h_8 hph =>
    rw [hph]
    split at hs <;> cases hs
    · exact .inr (rank_lt (by simp))
    · dsimp only
      split <;> exact .inr (rank_lt (by simp))
  case h_9 hph =>
    cases hs
    rw [hph]
    exact .inr (rank_lt (by simp))
  case h_10 hph =>
    split at hs
    · cases hs
      exact .inl ⟨_, _, ‹_›, rfl⟩
    · exact absurd ‹_› hp
  case h_11 hph => exact absurd hph hw
  case h_12 done woken polled stopped hph =>
    cases hs
    rw [hph]
    dsimp only
    split <;> exact .inr (rank_lt (by simp))
  case h_13 k rest woken polled hph =>
    obtain ⟨f, hf, rfl, hdone, hfind, -⟩ := h.settle hph
    rw [hfind] at hs
    cases hs
    have hcore : Core lane { s with phase := .settle rest woken polled } :=
      h.toCore.same rfl rfl rfl rfl
    rw [(hcore.settle hf hdone).2, hph]
    exact .inr (rank_lt (by simp))
  case h_14 woken polled hph =>
    rw [hph]
    cases woken with
    | some version =>
      cases hs
      exact .inr (State.rank_enqueueNotifications _ _).1
    | none =>
      cases hs
      exact .inr (rank_lt (by simp))
  case h_15 => cases hs
  case h_16 => cases hs

/-- The loop waits, or asks for the namespaces with work, only with nothing to dispatch. -/
structure Waits (lane : Lane) (s : State) : Prop where
  full : s.phase = .waiting → s.pendingWakes = [] ∨ lane.concurrency ≤ s.inFlight.length
  empty : s.phase = .snapshot → s.pendingWakes = []

theorem Waits.of_ne (hw : s.phase ≠ .waiting) (hs : s.phase ≠ .snapshot) : Waits lane s :=
  ⟨fun h => absurd h hw, fun h => absurd h hs⟩

theorem Waits.goOn (s : State) (after : After) : Waits lane (s.goOn after) := by
  cases after <;> exact .of_ne nofun nofun

theorem Waits.enqueueNotifications (s : State) (version : ℕ) (after : After) :
    Waits lane (s.enqueueNotifications version after) := by
  unfold State.enqueueNotifications
  split
  · exact .goOn s after
  · exact .of_ne nofun nofun

theorem Waits.loopStep (h : Waits lane s) (hsound : Sound lane s) {r : Reading}
    (hs : Dispatch.loopStep lane r s = some s') : Waits lane s' := by
  unfold DataForge.Dispatch.loopStep at hs
  split at hs
  case h_1 =>
    split at hs <;> cases hs
    · exact .of_ne nofun nofun
    · exact .enqueueNotifications ..
  case h_2 | h_5 | h_6 | h_9 =>
    cases hs
    exact .of_ne nofun nofun
  case h_3 =>
    cases hs
    exact .goOn ..
  case h_4 =>
    split at hs
    · split at hs <;> cases hs
      exact .of_ne nofun nofun
    · cases hs
      exact .of_ne nofun nofun
  case h_7 =>
    split at hs
    · split at hs
      · cases hs
        exact .of_ne nofun nofun
      · split at hs <;> cases hs
        · exact ⟨nofun, fun _ => ‹_›⟩
        · exact ⟨fun _ => .inl ‹_›, nofun⟩
    · cases hs
      exact ⟨fun _ => .inr (not_lt.mp ‹_›), nofun⟩
  case h_8 hph =>
    split at hs <;> cases hs
    · exact .of_ne nofun nofun
    · refine ⟨fun _ => .inl (h.empty hph), fun hn => ?_⟩
      dsimp only at hn
      split at hn <;> cases hn
  case h_10 =>
    split at hs <;> cases hs <;> exact .of_ne nofun nofun
  case h_11 =>
    split at hs <;> cases hs
    exact .of_ne nofun nofun
  case h_12 stopped _ =>
    cases hs
    cases stopped <;> exact .of_ne nofun nofun
  case h_13 k rest woken polled hph =>
    obtain ⟨f, hf, rfl, hdone, hfind, -⟩ := hsound.settle hph
    rw [hfind] at hs
    cases hs
    have hcore : Core lane { s with phase := .settle rest woken polled } :=
      hsound.toCore.same rfl rfl rfl rfl
    have hph' := (hcore.settle hf hdone).2
    exact .of_ne (hph' ▸ nofun) (hph' ▸ nofun)
  case h_14 woken polled _ =>
    cases woken with
    | some version =>
      cases hs
      exact .enqueueNotifications ..
    | none =>
      cases hs
      exact .goOn ..
  case h_15 => cases hs
  case h_16 => cases hs

end DataForge.Dispatch
