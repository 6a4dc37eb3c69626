import Mathlib.Data.List.Basic
import DataForge.Admission.Lane
import DataForge.Entries.Numbered

/-!
# What a step of a lane can do

A slot is held by a granted call and by a call whose waiter is finished, and every waiter in the
queue is pending (`Lane.Sound`). From a sound lane a step takes one of the forms of `LaneMoves`: a
release hands the slot to the first waiter or gives it back.
-/

namespace DataForge.Admission

/-- Whether a call has a slot: it was granted, perhaps without having seen it yet. -/
def LaneCall.holds (c : LaneCall) : Bool :=
  match c.phase with
  | .granted => true
  | .awaiting | .leaving => c.waiter = some .finished
  | _ => false

/-- Whether a call waits for a slot. -/
def LaneCall.Queued (c : LaneCall) : Prop :=
  c.waiter = some .pending ∧ (c.phase = .awaiting ∨ c.phase = .leaving)

/-- A call at its await or before `_withdraw` has a pending or a finished waiter, and the lane
raised no error in the call. -/
def LaneCall.Proper (c : LaneCall) : Prop :=
  (c.phase = .awaiting ∨ c.phase = .leaving →
    c.waiter = some .pending ∨ c.waiter = some .finished) ∧
  ∀ error, c.phase ≠ .failed error

/-- What holds between any two sections of the lock. -/
structure Lane.Sound (capacity queueLimit : ℕ) (s : Lane) : Prop where
  active : s.active = s.calls.countP LaneCall.holds
  bounded : s.active ≤ capacity
  limited : s.waiters.length ≤ queueLimit
  full : s.waiters ≠ [] → s.active = capacity
  sorted : s.waiters.Pairwise (· < ·)
  listed : ∀ i, i ∈ s.waiters ↔ ∃ c, s.calls[i]? = some c ∧ c.Queued
  proper : ∀ (i : ℕ) (c : LaneCall), s.calls[i]? = some c → c.Proper

/-- What a step can do. -/
inductive LaneMoves (capacity queueLimit : ℕ) (s : Lane) : LaneAction → Lane → Prop where
  | immediate (hfree : s.active < capacity) (hwaiters : s.waiters = []) :
      LaneMoves capacity queueLimit s .acquire
        { s with active := s.active + 1, calls := s.calls ++ [⟨none, .granted⟩] }
  | refused : LaneMoves capacity queueLimit s .acquire
      { s with calls := s.calls ++ [⟨none, .refused⟩] }
  | queued (hfull : s.waiters = [] → capacity ≤ s.active) (hlimit : s.waiters.length < queueLimit) :
      LaneMoves capacity queueLimit s .acquire { s with
        waiters := s.waiters ++ [s.calls.length]
        calls := s.calls ++ [⟨some .pending, .awaiting⟩] }
  | stepped (i : ℕ) (c : LaneCall) (phase : CallPhase) (a : LaneAction)
      (ha : a = .wake i ∨ a = .interrupt i) (hi : s.calls[i]? = some c) (hp : c.phase = .awaiting)
      (hphase : phase = .leaving ∨ phase = .granted ∧ c.waiter = some .finished) :
      LaneMoves capacity queueLimit s a { s with calls := s.calls.set i { c with phase } }
  | dropped (i : ℕ) (c : LaneCall) (hi : s.calls[i]? = some c) (hq : c.Queued) :
      LaneMoves capacity queueLimit s (.withdraw i) { s with
        waiters := s.waiters.erase i
        calls := s.calls.set i ⟨some .cancelled, .raised⟩ }
  | passed (i w : ℕ) (c d : LaneCall) (rest : List ℕ) (phase : CallPhase) (a : LaneAction)
      (ha : a = .withdraw i ∨ a = .release i)
      (hi : s.calls[i]? = some c) (hc : c.holds = true) (hw : s.calls[w]? = some d)
      (hd : d.Queued) (hwaiters : s.waiters = w :: rest)
      (hphase : phase = .raised ∨ phase = .released) :
      LaneMoves capacity queueLimit s a { s with
        waiters := rest
        calls := (s.calls.set w { d with waiter := some .finished }).set i { c with phase } }
  | freed (i : ℕ) (c : LaneCall) (phase : CallPhase) (a : LaneAction)
      (ha : a = .withdraw i ∨ a = .release i)
      (hi : s.calls[i]? = some c) (hc : c.holds = true) (hwaiters : s.waiters = [])
      (hphase : phase = .raised ∨ phase = .released) :
      LaneMoves capacity queueLimit s a { s with
        active := s.active - 1
        waiters := []
        calls := s.calls.set i { c with phase } }

section Steps

variable {capacity queueLimit : ℕ} {s s' : Lane} {a : LaneAction} {i : ℕ} {c : LaneCall}

theorem modify_of_get {l : List LaneCall} (hi : l[i]? = some c) (f : LaneCall → LaneCall) :
    l.modify i f = l.set i (f c) := by
  rw [List.modify_eq_set_getElem?, hi]
  rfl

theorem LaneCall.Queued.not_holds (h : c.Queued) : c.holds = false := by
  obtain ⟨waiter, phase⟩ := c
  obtain ⟨rfl, rfl | rfl⟩ := h <;> rfl

/-- A call with a slot hands it on, or gives it back. -/
theorem endWith_moves (hs : s.Sound capacity queueLimit) (hi : s.calls[i]? = some c)
    (hc : c.holds = true) (ha : a = .withdraw i ∨ a = .release i) {phase : CallPhase}
    (hphase : phase = .raised ∨ phase = .released) :
    LaneMoves capacity queueLimit s a (s.endWith i phase) := by
  unfold Lane.endWith
  cases hwaiters : s.waiters with
  | nil =>
    have hpos : 0 < s.active := by
      rw [hs.active]
      exact List.countP_pos_iff.mpr ⟨c, List.mem_of_getElem? hi, hc⟩
    rw [Lane.releaseLocked, if_neg (by omega)]
    dsimp only [Lane.setPhase, Option.elim_none]
    rw [modify_of_get hi]
    exact .freed i c phase a ha hi hc hwaiters hphase
  | cons w rest =>
    obtain ⟨d, hw, hd⟩ := (hs.listed w).mp (hwaiters ▸ List.mem_cons_self)
    have hne : w ≠ i := by
      rintro rfl
      cases hi.symm.trans hw
      rw [hd.not_holds] at hc
      cases hc
    rw [Lane.releaseLocked, hw, Option.bind_some, hd.1]
    dsimp only [Lane.setPhase, Lane.setWaiter, Option.elim_none]
    rw [modify_of_get hw, modify_of_get ((List.getElem?_set_ne hne).trans hi)]
    exact .passed i w c d rest phase a ha hi hc hw hd hwaiters hphase

/-- From a sound lane a step takes one of the forms. -/
theorem laneStep_moves (hs : s.Sound capacity queueLimit)
    (h : laneStep capacity queueLimit s a = some s') : LaneMoves capacity queueLimit s a s' := by
  cases a with
  | acquire =>
    cases h
    unfold Lane.acquire
    split
    case isTrue hfree => exact .immediate hfree.1 hfree.2
    case isFalse hfull =>
      split
      case isTrue => exact .refused
      case isFalse hlimit =>
        exact .queued (fun hw => Nat.le_of_not_lt fun hlt => hfull ⟨hlt, hw⟩)
          (Nat.lt_of_not_le hlimit)
  | wake i =>
    dsimp only [laneStep] at h
    split at h
    case h_1 hi =>
      cases h
      dsimp only [Lane.setPhase]
      rw [modify_of_get hi]
      exact .stepped i _ .granted _ (.inl rfl) hi rfl (.inr ⟨rfl, rfl⟩)
    case h_2 => cases h
  | interrupt i =>
    dsimp only [laneStep] at h
    split at h
    case h_1 waiter hi =>
      cases h
      dsimp only [Lane.setPhase]
      rw [modify_of_get hi]
      exact .stepped i _ .leaving _ (.inr rfl) hi rfl (.inl rfl)
    case h_2 => cases h
  | withdraw i =>
    dsimp only [laneStep] at h
    split at h
    case h_1 x hi =>
      cases h
      unfold Lane.withdraw
      rcases (hs.proper i _ hi).1 (.inr rfl) with hx | hx <;> cases hx
      · have hmem : i ∈ s.waiters := (hs.listed i).mpr ⟨_, hi, rfl, .inr rfl⟩
        rw [if_pos hmem]
        dsimp only [Lane.setPhase, Lane.setWaiter]
        rw [modify_of_get hi, modify_of_get (Entries.set_self hi), List.set_set]
        exact .dropped i _ hi ⟨rfl, .inr rfl⟩
      · have hmem : i ∉ s.waiters := by
          intro hmem
          obtain ⟨c, hc, hq⟩ := (hs.listed i).mp hmem
          cases hi.symm.trans hc
          cases hq.1
        rw [if_neg hmem, if_pos (by decide)]
        exact endWith_moves hs hi rfl (.inl rfl) (.inl rfl)
    case h_2 => cases h
  | release i =>
    dsimp only [laneStep] at h
    split at h
    case h_1 waiter hi =>
      cases h
      exact endWith_moves hs hi rfl (.inr rfl) (.inr rfl)
    case h_2 => cases h

end Steps

end DataForge.Admission
