import Mathlib.Data.List.Nodup
import DataForge.Admission.Moves
import DataForge.Transitions.Fair

/-!
# The lanes keep their slots

In every run of a lane the slots are counted, none is lost, and calls get them in the order in which
they came (`rpc_admission_lane`).
-/

namespace DataForge.Admission

open Transitions

/-- A call has a slot. -/
def Lane.Holds (s : Lane) (i : ℕ) : Prop := ∃ c, s.calls[i]? = some c ∧ c.holds = true

section Steps

variable {capacity queueLimit : ℕ} {s s' : Lane} {a : LaneAction} {i : ℕ} {c c' d : LaneCall}

theorem queued_append : (∃ d, (s.calls ++ [c])[i]? = some d ∧ d.Queued) ↔
    (∃ d, s.calls[i]? = some d ∧ d.Queued) ∨ i = s.calls.length ∧ c.Queued := by
  constructor
  · rintro ⟨d, hd, hq⟩
    rcases Entries.append_cases hd with hd | ⟨rfl, rfl⟩
    · exact .inl ⟨d, hd, hq⟩
    · exact .inr ⟨rfl, hq⟩
  · rintro (⟨d, hd, hq⟩ | ⟨rfl, hq⟩)
    · exact ⟨d, Entries.append_old hd, hq⟩
    · exact ⟨c, List.getElem?_concat_length, hq⟩

variable {l : List LaneCall} {j : ℕ}

theorem queued_set (hi : l[i]? = some c) :
    (∃ d, (l.set i c')[j]? = some d ∧ d.Queued) ↔
      j = i ∧ c'.Queued ∨ j ≠ i ∧ ∃ d, l[j]? = some d ∧ d.Queued := by
  constructor
  · rintro ⟨d, hd, hq⟩
    rcases Entries.set_cases hd with ⟨rfl, rfl⟩ | ⟨hne, hd⟩
    · exact .inl ⟨rfl, hq⟩
    · exact .inr ⟨hne, d, hd, hq⟩
  · rintro (⟨rfl, hq⟩ | ⟨hne, d, hd, hq⟩)
    · exact ⟨c', Entries.set_self hi, hq⟩
    · exact ⟨d, (List.getElem?_set_ne fun heq => hne heq.symm).trans hd, hq⟩

theorem proper_append (hs : s.Sound capacity queueLimit) (hc : c.Proper) (i : ℕ) (d : LaneCall)
    (hd : (s.calls ++ [c])[i]? = some d) : d.Proper := by
  rcases Entries.append_cases hd with hd | ⟨-, rfl⟩
  · exact hs.proper i d hd
  · exact hc

theorem proper_set (h : ∀ (i : ℕ) (c : LaneCall), l[i]? = some c → c.Proper) (hc : c'.Proper)
    (j : ℕ) (d : LaneCall) (hd : (l.set i c')[j]? = some d) : d.Proper := by
  rcases Entries.set_cases hd with ⟨-, rfl⟩ | ⟨-, hd⟩
  · exact hc
  · exact h j d hd

theorem Lane.Sound.nodup (hs : s.Sound capacity queueLimit) : s.waiters.Nodup :=
  hs.sorted.imp Nat.ne_of_lt

variable {phase : CallPhase}

theorem ended_call (hphase : phase = .raised ∨ phase = .released) (waiter : Option FutureState) :
    (LaneCall.mk waiter phase).Proper ∧
      (LaneCall.mk waiter phase).holds = false ∧ ¬ (LaneCall.mk waiter phase).Queued := by
  rcases hphase with rfl | rfl <;> simp [LaneCall.Proper, LaneCall.holds, LaneCall.Queued]

theorem sound_immediate (hs : s.Sound capacity queueLimit) (hfree : s.active < capacity)
    (hwaiters : s.waiters = []) : Lane.Sound capacity queueLimit
      { s with active := s.active + 1, calls := s.calls ++ [⟨none, .granted⟩] } where
  active := by simp [List.countP_append, hs.active, LaneCall.holds]
  bounded := hfree
  limited := hs.limited
  full hne := absurd hwaiters hne
  sorted := hs.sorted
  listed i := by
    rw [queued_append, hs.listed i]
    simp [LaneCall.Queued]
  proper := proper_append hs (by simp [LaneCall.Proper])

theorem sound_refused (hs : s.Sound capacity queueLimit) : Lane.Sound capacity queueLimit
    { s with calls := s.calls ++ [⟨none, .refused⟩] } where
  active := by simp [List.countP_append, hs.active, LaneCall.holds]
  bounded := hs.bounded
  limited := hs.limited
  full := hs.full
  sorted := hs.sorted
  listed i := by
    rw [queued_append, hs.listed i]
    simp [LaneCall.Queued]
  proper := proper_append hs (by simp [LaneCall.Proper])

theorem sound_queued (hs : s.Sound capacity queueLimit)
    (hfull : s.waiters = [] → capacity ≤ s.active) (hlimit : s.waiters.length < queueLimit) :
    Lane.Sound capacity queueLimit { s with
      waiters := s.waiters ++ [s.calls.length]
      calls := s.calls ++ [⟨some .pending, .awaiting⟩] } where
  active := by simp [List.countP_append, hs.active, LaneCall.holds]
  bounded := hs.bounded
  limited := by
    rw [List.length_append]
    exact hlimit
  full _ := by
    by_cases hwaiters : s.waiters = []
    · exact Nat.le_antisymm hs.bounded (hfull hwaiters)
    · exact hs.full hwaiters
  sorted := by
    refine List.pairwise_append.mpr ⟨hs.sorted, List.pairwise_singleton .., fun i hi j hj => ?_⟩
    obtain ⟨c, hc, -⟩ := (hs.listed i).mp hi
    rw [List.mem_singleton.mp hj]
    exact (List.getElem?_eq_some_iff.mp hc).1
  listed i := by
    rw [queued_append, List.mem_append, hs.listed i]
    simp [LaneCall.Queued]
  proper := proper_append hs (by simp [LaneCall.Proper])

theorem sound_stepped (hs : s.Sound capacity queueLimit) (hi : s.calls[i]? = some c)
    (hp : c.phase = .awaiting)
    (hphase : phase = .leaving ∨ phase = .granted ∧ c.waiter = some .finished) :
    Lane.Sound capacity queueLimit { s with calls := s.calls.set i { c with phase } } := by
  obtain ⟨waiter, phase0⟩ := c
  dsimp only at hp hphase
  subst hp
  have hholds : (LaneCall.mk waiter phase).holds = (LaneCall.mk waiter .awaiting).holds := by
    rcases hphase with rfl | ⟨rfl, rfl⟩ <;> rfl
  have hqueued : (LaneCall.mk waiter phase).Queued ↔ (LaneCall.mk waiter .awaiting).Queued := by
    rcases hphase with rfl | ⟨rfl, rfl⟩ <;> simp [LaneCall.Queued]
  have hwaiting := (hs.proper i _ hi).1 (.inl rfl)
  refine ⟨?_, hs.bounded, hs.limited, hs.full, hs.sorted, fun j => ?_, proper_set hs.proper ?_⟩
  · have hcount := Entries.countP_set_add LaneCall.holds (x := ⟨waiter, phase⟩) hi
    rw [hholds] at hcount
    exact hs.active.trans (Nat.add_right_cancel hcount).symm
  · rw [queued_set hi, hqueued, hs.listed j]
    constructor
    · rintro ⟨d, hd, hq⟩
      by_cases hji : j = i
      · subst hji
        cases hi.symm.trans hd
        exact .inl ⟨rfl, hq⟩
      · exact .inr ⟨hji, d, hd, hq⟩
    · rintro (⟨rfl, hq⟩ | ⟨-, hq⟩)
      · exact ⟨_, hi, hq⟩
      · exact hq
  · refine ⟨fun _ => hwaiting, fun error herror => ?_⟩
    dsimp only at herror
    rcases hphase with rfl | ⟨rfl, -⟩ <;> cases herror

theorem sound_dropped (hs : s.Sound capacity queueLimit) (hi : s.calls[i]? = some c)
    (hq : c.Queued) : Lane.Sound capacity queueLimit { s with
      waiters := s.waiters.erase i
      calls := s.calls.set i ⟨some .cancelled, .raised⟩ } := by
  obtain ⟨hproper, hholds, hnot⟩ := ended_call (.inl rfl) (some .cancelled)
  refine ⟨?_, hs.bounded, List.length_erase_le.trans hs.limited, fun hne => hs.full ?_,
    hs.sorted.sublist List.erase_sublist, fun j => ?_, proper_set hs.proper hproper⟩
  · have hcount := Entries.countP_set_add LaneCall.holds (x := ⟨some .cancelled, .raised⟩) hi
    rw [hq.not_holds, hholds] at hcount
    exact hs.active.trans (Nat.add_right_cancel hcount).symm
  · rintro hnil
    rw [hnil] at hne
    exact hne rfl
  · rw [queued_set hi, hs.nodup.mem_erase_iff, hs.listed j]
    simp [hnot]

theorem sound_passed (hs : s.Sound capacity queueLimit) {w : ℕ} {rest : List ℕ}
    (hi : s.calls[i]? = some c) (hc : c.holds = true) (hw : s.calls[w]? = some d) (hd : d.Queued)
    (hwaiters : s.waiters = w :: rest) (hphase : phase = .raised ∨ phase = .released) :
    Lane.Sound capacity queueLimit { s with
      waiters := rest
      calls := (s.calls.set w { d with waiter := some .finished }).set i { c with phase } } := by
  obtain ⟨hproper, hholds, hnot⟩ := ended_call hphase c.waiter
  have hne : w ≠ i := by
    rintro rfl
    cases hi.symm.trans hw
    rw [hd.not_holds] at hc
    cases hc
  have hi' : (s.calls.set w { d with waiter := some .finished })[i]? = some c :=
    (List.getElem?_set_ne hne).trans hi
  have hgranted : (LaneCall.mk (some .finished) d.phase).holds = true := by
    obtain ⟨waiter, phase⟩ := d
    obtain ⟨-, rfl | rfl⟩ := hd <;> rfl
  have hsorted := hs.sorted
  rw [hwaiters, List.pairwise_cons] at hsorted
  have hfull := hs.full (by rw [hwaiters]; exact List.cons_ne_nil w rest)
  refine ⟨?_, hs.bounded, ?_, fun _ => hfull, hsorted.2, fun j => ?_,
    proper_set (proper_set hs.proper ⟨fun _ => .inr rfl, (hs.proper w d hw).2⟩) hproper⟩
  · have hfirst := Entries.countP_set_add LaneCall.holds
      (x := { d with waiter := some .finished }) hw
    have hsecond := Entries.countP_set_add LaneCall.holds (x := { c with phase }) hi'
    simp only [hd.not_holds, hgranted, hc, hholds, if_true, Bool.false_eq_true, if_false]
      at hfirst hsecond
    have hactive := hs.active
    dsimp only
    omega
  · have hlimited := hs.limited
    rw [hwaiters, List.length_cons] at hlimited
    exact Nat.le_of_succ_le hlimited
  · have hlisted := hs.listed j
    rw [hwaiters, List.mem_cons] at hlisted
    rw [queued_set hi', queued_set hw]
    constructor
    · intro hj
      obtain ⟨x, hx, hq⟩ := hlisted.mp (.inr hj)
      have hji : j ≠ i := by
        rintro rfl
        cases hi.symm.trans hx
        rw [hq.not_holds] at hc
        cases hc
      exact .inr ⟨hji, .inr ⟨(Nat.ne_of_lt (hsorted.1 j hj)).symm, x, hx, hq⟩⟩
    · rintro (⟨-, hq⟩ | ⟨-, ⟨-, hq⟩ | ⟨hjw, hq⟩⟩)
      · exact absurd hq hnot
      · cases hq.1
      · exact (hlisted.mpr hq).resolve_left hjw

theorem sound_freed (hs : s.Sound capacity queueLimit) (hi : s.calls[i]? = some c)
    (hc : c.holds = true) (hwaiters : s.waiters = []) (hphase : phase = .raised ∨ phase = .released)
    : Lane.Sound capacity queueLimit { s with
      active := s.active - 1
      waiters := []
      calls := s.calls.set i { c with phase } } := by
  obtain ⟨hproper, hholds, hnot⟩ := ended_call hphase c.waiter
  refine ⟨?_, (Nat.sub_le ..).trans hs.bounded, Nat.zero_le _, fun hne => absurd rfl hne, .nil,
    fun j => ?_, proper_set hs.proper hproper⟩
  · have hcount := Entries.countP_set_add LaneCall.holds (x := { c with phase }) hi
    simp only [hc, hholds, if_true, Bool.false_eq_true, if_false] at hcount
    have hactive := hs.active
    dsimp only
    omega
  · have hlisted := hs.listed j
    rw [hwaiters] at hlisted
    rw [queued_set hi, ← hlisted]
    simp [hnot]

theorem LaneMoves.sound (h : LaneMoves capacity queueLimit s a s')
    (hs : s.Sound capacity queueLimit) : s'.Sound capacity queueLimit := by
  cases h with
  | immediate hfree hwaiters => exact sound_immediate hs hfree hwaiters
  | refused => exact sound_refused hs
  | queued hfull hlimit => exact sound_queued hs hfull hlimit
  | stepped i c phase _ _ hi hp hphase => exact sound_stepped hs hi hp hphase
  | dropped i c hi hq => exact sound_dropped hs hi hq
  | passed i w c d rest phase _ _ hi hc hw hd hwaiters hphase =>
    exact sound_passed hs hi hc hw hd hwaiters hphase
  | freed i c phase _ _ hi hc hwaiters hphase => exact sound_freed hs hi hc hwaiters hphase

theorem holds_append (hc : c.holds = false)
    (hj : ∃ d, (s.calls ++ [c])[j]? = some d ∧ d.holds = true) : s.Holds j := by
  obtain ⟨d, hd, hholds⟩ := hj
  rcases Entries.append_cases hd with hd | ⟨-, rfl⟩
  · exact ⟨d, hd, hholds⟩
  · rw [hc] at hholds
    cases hholds

theorem holds_set (hc : c.holds = false) (hj : ∃ d, (l.set i c)[j]? = some d ∧ d.holds = true) :
    ∃ d, l[j]? = some d ∧ d.holds = true := by
  obtain ⟨d, hd, hholds⟩ := hj
  rcases Entries.set_cases hd with ⟨-, rfl⟩ | ⟨-, hd⟩
  · rw [hc] at hholds
    cases hholds
  · exact ⟨d, hd, hholds⟩

/-- A step grants a slot to nobody behind a call that stays in the queue. -/
theorem LaneMoves.granted_first (h : LaneMoves capacity queueLimit s a s')
    (hs : s.Sound capacity queueLimit) (hold : ¬ s.Holds j) (hnew : s'.Holds j) (hi : i ∈ s.waiters)
    (hi' : i ∈ s'.waiters) : j < i := by
  cases h with
  | immediate hfree hwaiters =>
    rw [hwaiters] at hi
    cases hi
  | refused => exact absurd (holds_append rfl hnew) hold
  | queued hfull hlimit => exact absurd (holds_append rfl hnew) hold
  | stepped k c phase _ _ hk hp hphase =>
    obtain ⟨d, hd, hholds⟩ := hnew
    rcases Entries.set_cases hd with ⟨rfl, rfl⟩ | ⟨-, hd⟩
    · refine absurd ⟨c, hk, ?_⟩ hold
      rcases hphase with rfl | ⟨rfl, hfinished⟩
      · simpa [LaneCall.holds, hp] using hholds
      · simp [LaneCall.holds, hp, hfinished]
    · exact absurd ⟨d, hd, hholds⟩ hold
  | dropped k c hk hq => exact absurd (holds_set rfl hnew) hold
  | passed k w c d rest phase _ _ hk hc hw hd hwaiters hphase =>
    obtain ⟨x, hx, hholds⟩ := holds_set (ended_call hphase c.waiter).2.1 hnew
    rcases Entries.set_cases hx with ⟨rfl, -⟩ | ⟨-, hx⟩
    · have hsorted := hs.sorted
      rw [hwaiters, List.pairwise_cons] at hsorted
      exact hsorted.1 i hi'
    · exact absurd ⟨x, hx, hholds⟩ hold
  | freed k c phase _ _ hk hc hwaiters hphase =>
    rw [hwaiters] at hi
    cases hi

theorem LaneMoves.mem_waiters (h : LaneMoves capacity queueLimit s a s') (hi' : i ∈ s'.waiters)
    (hlt : i < s.calls.length) : i ∈ s.waiters := by
  cases h with
  | immediate | refused | stepped => exact hi'
  | queued =>
    refine (List.mem_append.mp hi').resolve_right fun hlast => ?_
    rw [List.mem_singleton.mp hlast] at hlt
    exact Nat.lt_irrefl _ hlt
  | dropped => exact List.mem_of_mem_erase hi'
  | passed k w c d rest phase _ _ hk hc hw hd hwaiters =>
    exact hwaiters ▸ List.mem_cons_of_mem w hi'
  | freed => cases hi'

theorem LaneMoves.length_le (h : LaneMoves capacity queueLimit s a s') :
    s.calls.length ≤ s'.calls.length := by
  cases h <;> simp

/-- A slot that a call gives up goes to the first waiter, and is free when nobody waits. -/
theorem LaneMoves.passes_on (h : LaneMoves capacity queueLimit s a s')
    (ha : a = .withdraw i ∨ a = .release i) (hi : s.Holds i) :
    (∃ w rest, s.waiters = w :: rest ∧ s'.waiters = rest ∧ s'.Holds w ∧ s'.active = s.active) ∨
      s.waiters = [] ∧ s'.active = s.active - 1 := by
  obtain ⟨x, hx, hholds⟩ := hi
  cases h with
  | immediate | refused | queued => rcases ha with ha | ha <;> cases ha
  | stepped k c phase _ ha' => rcases ha with rfl | rfl <;> rcases ha' with h | h <;> cases h
  | dropped k c hk hq =>
    rcases ha with ha | ha <;> cases ha
    cases hk.symm.trans hx
    rw [hq.not_holds] at hholds
    cases hholds
  | passed k w c d rest phase _ ha' hk hc hw hd hwaiters hphase =>
    have hne : k ≠ w := by
      rintro rfl
      cases hk.symm.trans hw
      rw [hd.not_holds] at hc
      cases hc
    refine .inl ⟨w, rest, hwaiters, rfl, ⟨{ d with waiter := some .finished }, ?_, ?_⟩, rfl⟩
    · exact (List.getElem?_set_ne hne).trans (Entries.set_self hw)
    · obtain ⟨waiter, phase⟩ := d
      obtain ⟨-, rfl | rfl⟩ := hd <;> rfl
  | freed k c phase _ ha' hk hc hwaiters => exact .inr ⟨hwaiters, rfl⟩

end Steps

section Runs

variable {capacity queueLimit : ℕ} {ρ : Run (laneStep capacity queueLimit)}

theorem sound_of_empty (h0 : ρ.st 0 = .empty) (t : ℕ) : (ρ.st t).Sound capacity queueLimit := by
  refine ρ.invariant (P := fun s => s.Sound capacity queueLimit) ?_
    (fun s a s' hs h => (laneStep_moves hs h).sound hs) t
  rw [h0]
  exact ⟨rfl, Nat.zero_le _, Nat.zero_le _, fun hne => absurd rfl hne, .nil,
    fun i => by simp [Lane.empty], fun i c h => by cases h⟩

/-- While a call stays in the queue, no later one gets a slot. -/
theorem not_overtaken (h0 : ρ.st 0 = .empty) {t t' i j : ℕ} (ht : t ≤ t')
    (hi : i ∈ (ρ.st t).waiters) (hi' : i ∈ (ρ.st t').waiters) (hij : i < j)
    (hj : ¬ (ρ.st t).Holds j) : ¬ (ρ.st t').Holds j := by
  have hlength : i < (ρ.st t).calls.length := by
    obtain ⟨c, hc, -⟩ := ((sound_of_empty h0 t).listed i).mp hi
    exact (List.getElem?_eq_some_iff.mp hc).1
  suffices h : i < (ρ.st t').calls.length ∧ (i ∈ (ρ.st t').waiters → ¬ (ρ.st t').Holds j) from
    h.2 hi'
  clear hi'
  induction t', ht using Nat.le_induction with
  | base => exact ⟨hlength, fun _ => hj⟩
  | succ m _ ih =>
    cases ha : ρ.act m with
    | none => exact ρ.next_of_pause ha ▸ ih
    | some a =>
      have hsound := sound_of_empty h0 m
      have hm := laneStep_moves hsound (ρ.next_of_act ha)
      refine ⟨lt_of_lt_of_le ih.1 hm.length_le, fun hi' hnew => ?_⟩
      have hbefore := hm.mem_waiters hi' ih.1
      exact absurd (hm.granted_first hsound (ih.2 hbefore) hnew hbefore hi') (by omega)

/-- The slots of a lane: the active count is the number of calls with a slot and at most the
capacity, the queue keeps its limit, a slot is free only when nobody waits, a slot that is given up
goes to the first waiter, nobody is overtaken, and the lane raises no error. -/
theorem rpc_admission_lane (ρ : Run (laneStep capacity queueLimit)) (h0 : ρ.st 0 = .empty) :
    (∀ t, (ρ.st t).active = (ρ.st t).calls.countP LaneCall.holds ∧ (ρ.st t).active ≤ capacity ∧
      (ρ.st t).waiters.length ≤ queueLimit) ∧
    (∀ t, (ρ.st t).waiters ≠ [] → (ρ.st t).active = capacity) ∧
    (∀ t i, (ρ.st t).Holds i → ρ.act t = some (.withdraw i) ∨ ρ.act t = some (.release i) →
      (∃ w rest, (ρ.st t).waiters = w :: rest ∧ (ρ.st (t + 1)).waiters = rest ∧
        (ρ.st (t + 1)).Holds w ∧ (ρ.st (t + 1)).active = (ρ.st t).active) ∨
      (ρ.st t).waiters = [] ∧ (ρ.st (t + 1)).active = (ρ.st t).active - 1) ∧
    (∀ t t' i j, t ≤ t' → i ∈ (ρ.st t).waiters → i ∈ (ρ.st t').waiters → i < j →
      ¬ (ρ.st t).Holds j → ¬ (ρ.st t').Holds j) ∧
    ∀ t, ∀ c ∈ (ρ.st t).calls, ∀ error, c.phase ≠ .failed error := by
  refine ⟨fun t => ?_, fun t => (sound_of_empty h0 t).full, fun t i hi ha => ?_, ?_, ?_⟩
  · have hsound := sound_of_empty h0 t
    exact ⟨hsound.active, hsound.bounded, hsound.limited⟩
  · have hsound := sound_of_empty h0 t
    rcases ha with ha | ha
    · exact (laneStep_moves hsound (ρ.next_of_act ha)).passes_on (.inl rfl) hi
    · exact (laneStep_moves hsound (ρ.next_of_act ha)).passes_on (.inr rfl) hi
  · exact fun t t' i j ht hi hi' hij hj => not_overtaken h0 ht hi hi' hij hj
  · intro t c hc
    obtain ⟨i, hi⟩ := List.getElem?_of_mem hc
    exact ((sound_of_empty h0 t).proper i c hi).2

end Runs

/-- Two calls wait for the only slot. The first one times out at the moment of the grant, and its
slot goes to the second. -/
def handedOnActs : List LaneAction :=
  [.acquire, .acquire, .acquire, .release 0, .interrupt 1, .withdraw 1, .wake 2, .release 2]

def handedOnRun : Run (laneStep 1 8) :=
  .ofReplay .empty handedOnActs (Option.some_get (by rfl)).symm

theorem rpc_admission_lane_handed_on : (handedOnRun.st 6).Holds 2 := by
  have hgranted : (handedOnRun.st 5).Holds 1 := ⟨⟨some .finished, .leaving⟩, rfl, rfl⟩
  rcases (rpc_admission_lane handedOnRun rfl).2.2.1 5 1 hgranted (.inl rfl) with
    ⟨w, rest, hwaiters, -, hholds, -⟩ | ⟨hnil, -⟩
  · cases hwaiters
    exact hholds
  · cases hnil

end DataForge.Admission
