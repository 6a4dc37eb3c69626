import Mathlib.Data.List.Sublists
import DataForge.Dispatch.Drain

/-!
# Runs of the dispatcher

In every run the permits count the drain wakes, the flights stay below the concurrency, and a
namespace is dropped only by its last drain wake. In a run in which the claim tasks end and the
loop goes on, every wake that becomes pending is followed by a claim attempt.
-/

namespace DataForge.Dispatch

open Transitions (Run)

variable {lane : Lane} {s s' : State} {a : Action} {ns : String} {k : ℕ}

/-- The loop sleeps in its wait, and no claim task is done. -/
def Asleep (s : State) : Prop := s.phase = .waiting ∧ ∀ f ∈ s.inFlight, f.state.done = false

/-- Every claim task ends, the loop is resumed unless it sleeps, and it is not left. -/
structure Fair (ρ : Run (step lane)) : Prop where
  tasks : ∀ t, ∀ f ∈ (ρ.st t).inFlight,
    ∃ t' ≥ t, ∀ g ∈ (ρ.st t').inFlight, g.task = f.task → g.state.done = true
  loop : ∀ t, ∃ t' ≥ t, (∃ r, ρ.act t' = some (.loop r)) ∨ Asleep (ρ.st t')
  running : ∀ t, (ρ.st t).phase ≠ .returned

/-- The invariant of runs. -/
def Good (lane : Lane) (s : State) : Prop := Sound lane s ∧ Waits lane s

theorem Good.step (h : Good lane s) (hs : Dispatch.step lane s a = some s') : Good lane s' := by
  refine ⟨h.1.step hs, ?_⟩
  cases a with
  | publish payload =>
    cases hs
    exact ⟨h.2.full, h.2.empty⟩
  | requestStop =>
    cases hs
    exact ⟨h.2.full, h.2.empty⟩
  | task k move =>
    obtain ⟨-, f, state, -, -, rfl⟩ := taskStep_cases hs
    exact ⟨by simpa using h.2.full, h.2.empty⟩
  | loop r => exact h.2.loopStep h.1 hs

theorem Good.start (lane : Lane) (hub : VersionHub) : Good lane (.start hub) :=
  ⟨Sound.start lane hub, .of_ne nofun nofun⟩

theorem Lane.concurrency_pos (lane : Lane) : 0 < lane.concurrency := by
  unfold Lane.concurrency
  omega

/-- The tasks in flight. -/
def State.tasks (s : State) : List ℕ := s.inFlight.map (·.task)

/-- A wake of the namespace has `k` wakes before it. -/
def AtPlace (ns : String) (k : ℕ) (s : State) : Prop := s.pendingWakes[k]?.map (·.ns) = some ns

/-- The wake that was at place `k` has moved up, or its claim task is created. -/
def Advanced (ns : String) : ℕ → State → Prop
  | 0, s => ∃ f ∈ s.inFlight, f.wake.ns = ns ∧ f.state = .created
  | k + 1, s => AtPlace ns k s

theorem AtPlace.ne_nil (h : AtPlace ns k s) : s.pendingWakes ≠ [] := by
  intro hn
  simp [AtPlace, hn] at h

theorem AtPlace.append (h : AtPlace ns k s) {new : List ComputeRequestWake}
    (hp : s'.pendingWakes = s.pendingWakes ++ new) : AtPlace ns k s' := by
  unfold AtPlace at h ⊢
  obtain ⟨w, hw, hns⟩ := Option.map_eq_some_iff.mp h
  have hlt : k < s.pendingWakes.length := (List.getElem?_eq_some_iff.mp hw).1
  rw [hp, List.getElem?_append_left hlt, hw]
  exact congrArg some hns

theorem AtPlace.dispatch (h : AtPlace ns k s) {wake : ComputeRequestWake}
    {rest : List ComputeRequestWake} (hp : s.pendingWakes = wake :: rest) :
    Advanced ns k (s.dispatch wake rest) := by
  unfold AtPlace at h
  rw [hp] at h
  cases k with
  | zero => exact ⟨_, List.mem_append_right _ (List.mem_singleton_self _), by simpa using h, rfl⟩
  | succ k => exact h

theorem AtPlace.step (h : AtPlace ns k s) (hsound : Sound lane s)
    (hs : Dispatch.step lane s a = some s') :
    Advanced ns k s' ∨ AtPlace ns k s' ∧ s'.tasks.Sublist s.tasks := by
  cases a with
  | publish payload =>
    cases hs
    exact .inr ⟨h, .refl _⟩
  | requestStop =>
    cases hs
    exact .inr ⟨h, .refl _⟩
  | task k' move =>
    obtain ⟨-, f, state, -, -, rfl⟩ := taskStep_cases hs
    refine .inr ⟨h, ?_⟩
    rw [State.tasks, map_state (·.task) k' state s.inFlight fun _ => rfl]
    exact .refl _
  | loop r =>
    cases hsound.moves hs with
    | appends new hp hf =>
      refine .inr ⟨h.append hp, ?_⟩
      rw [State.tasks, hf]
      exact .refl _
    | dispatches wake rest hp hs' =>
      rw [hs']
      exact .inl (h.dispatch hp)
    | settles f new hf hdone hp hf' =>
      refine .inr ⟨h.append hp, ?_⟩
      rw [State.tasks, hf']
      exact List.filter_sublist.map _

variable {f : Flight}

/-- A flight stays as it is until its task goes on, or is done and taken off. -/
theorem Sound.flight_step (h : Sound lane s) (hs : Dispatch.step lane s a = some s')
    (hf : f ∈ s.inFlight) : f ∈ s'.inFlight ∨ (∃ move, a = .task f.task move) ∨
      f.state.done = true ∧ f.task ∉ s'.tasks := by
  cases a with
  | publish payload =>
    cases hs
    exact .inl hf
  | requestStop =>
    cases hs
    exact .inl hf
  | task k move =>
    obtain ⟨-, g, state, -, -, rfl⟩ := taskStep_cases hs
    by_cases hk : f.task = k
    · exact .inr (.inl ⟨move, by rw [hk]⟩)
    · exact .inl (List.mem_map.mpr ⟨f, hf, if_neg hk⟩)
  | loop r =>
    cases h.moves hs with
    | appends new hp hf' => exact .inl (hf' ▸ hf)
    | dispatches wake rest hp hs' =>
      rw [hs']
      exact .inl (List.mem_append_left _ hf)
    | settles g new hg hdone hp hf' =>
      by_cases hk : f.task = g.task
      · have heq := h.toCore.find_eq hf
        rw [hk, h.toCore.find_eq hg] at heq
        cases heq
        refine .inr (.inr ⟨hdone, fun hmem => ?_⟩)
        rw [State.tasks, hf'] at hmem
        obtain ⟨g', hg', heq⟩ := List.mem_map.mp hmem
        simp [heq] at hg'
      · rw [hf']
        exact .inl (List.mem_filter.mpr ⟨hf, by simpa using hk⟩)

theorem Sound.done_step (h : Sound lane s) (hs : Dispatch.step lane s a = some s')
    (hf : f ∈ s.inFlight) (hdone : f.state.done = true) :
    f ∈ s'.inFlight ∨ f.task ∉ s'.tasks := by
  obtain hin | ⟨move, rfl⟩ | ⟨-, hout⟩ := h.flight_step hs hf
  · exact .inl hin
  · obtain ⟨-, g, state, hfind, hstep, -⟩ := taskStep_cases hs
    rw [h.toCore.find_eq hf] at hfind
    cases hfind
    rw [TaskState.step_done hstep] at hdone
    cases hdone
  · exact .inr hout

theorem Sound.created_step (h : Sound lane s) (hs : Dispatch.step lane s a = some s')
    (hf : f ∈ s.inFlight) (hc : f.state = .created) (hout : f ∉ s'.inFlight) :
    a = .task f.task .attempt := by
  obtain hin | ⟨move, rfl⟩ | ⟨hdone, -⟩ := h.flight_step hs hf
  · exact absurd hin hout
  · obtain ⟨-, g, state, hfind, hstep, -⟩ := taskStep_cases hs
    rw [h.toCore.find_eq hf] at hfind
    cases hfind
    rw [hc] at hstep
    cases move with
    | attempt => rfl
    | findsNothing | claims | returns | losesLease | raises => cases hstep
  · rw [hc] at hdone
    cases hdone

variable {ρ : Run (Dispatch.step lane)} {hub : VersionHub}

theorem good_of_start (h0 : ρ.st 0 = .start hub) (t : ℕ) : Good lane (ρ.st t) :=
  ρ.invariant (P := Good lane) (h0 ▸ .start lane hub) (fun _ _ _ h hs => h.step hs) t

variable {t : ℕ}

theorem Fair.attempts (hfair : Fair ρ) (h0 : ρ.st 0 = .start hub) (hf : f ∈ (ρ.st t).inFlight)
    (hc : f.state = .created) :
    ∃ t' ≥ t, f ∈ (ρ.st t').inFlight ∧ ρ.act t' = some (.task f.task .attempt) := by
  obtain ⟨t2, h2, hdone⟩ := hfair.tasks t f hf
  have hout : f ∉ (ρ.st t2).inFlight := by
    intro hin
    have h := hdone f hin rfl
    rw [hc] at h
    cases h
  obtain ⟨u, hu, -, hin, hgone, a, ha⟩ :=
    Run.exists_ends (P := fun s : State => f ∈ s.inFlight) h2 hf hout
  have heq := (good_of_start h0 u).1.created_step (ρ.next_of_act ha) hin hc hgone
  exact ⟨u, hu, hin, heq ▸ ha⟩

/-- A wake of the namespace is at its place, and only tasks of `tasks` are in flight. -/
def Queued (lane : Lane) (ns : String) (k : ℕ) (tasks : List ℕ) (s : State) : Prop :=
  Good lane s ∧ AtPlace ns k s ∧ s.tasks.Sublist tasks

variable {tasks : List ℕ}

theorem Queued.step (h : Queued lane ns k tasks s) (hs : Dispatch.step lane s a = some s') :
    Advanced ns k s' ∨ Queued lane ns k tasks s' :=
  (h.2.1.step h.1.1 hs).imp id fun h' => ⟨h.1.step hs, h'.1, h'.2.trans h.2.2⟩

theorem Queued.not_waiting (h : Queued lane ns k [] s) : s.phase ≠ .waiting := by
  intro hw
  have hnil : s.inFlight = [] := List.map_eq_nil_iff.mp (List.eq_nil_of_sublist_nil h.2.2)
  cases h.1.2.full hw with
  | inl he => exact h.2.1.ne_nil he
  | inr hl =>
    have hpos := lane.concurrency_pos
    rw [hnil, List.length_nil] at hl
    omega

theorem phase_step (hs : Dispatch.step lane s a = some s') (ha : ∀ r, a ≠ .loop r) :
    s'.phase = s.phase := by
  cases a with
  | publish payload =>
    cases hs
    rfl
  | requestStop =>
    cases hs
    rfl
  | task k move =>
    obtain ⟨-, f, state, -, -, rfl⟩ := taskStep_cases hs
    rfl
  | loop r => exact absurd rfl (ha r)

theorem Queued.nearer (h : Queued lane ns k tasks s) {r : Reading}
    (hs : Dispatch.step lane s (.loop r) = some s') (hadv : ¬ Advanced ns k s')
    (hw : s.phase ≠ .waiting) : s'.phase.rank < s.phase.rank := by
  cases h.1.1.rank h.2.1.ne_nil hs hw with
  | inl hd =>
    obtain ⟨wake, rest, hp, rfl⟩ := hd
    exact absurd (h.2.1.dispatch hp) hadv
  | inr hlt => exact hlt

theorem Fair.leads_idle (hfair : Fair ρ) : ρ.LeadsTo (Queued lane ns k []) (Advanced ns k) := by
  refine Run.leadsTo_of_rank (fun s => s.phase.rank) (fun a => ∃ r, a = .loop r) ?_ ?_
  · intro t _
    obtain ⟨t', ht', h⟩ := hfair.loop t
    refine ⟨t', ht', ?_⟩
    cases h with
    | inl h =>
      obtain ⟨r, hr⟩ := h
      exact .inl ⟨_, hr, r, rfl⟩
    | inr h => exact .inr fun hq => hq.not_waiting h.1
  · intro t a ha hq
    have hs := ρ.next_of_act ha
    by_cases hadv : Advanced ns k (ρ.st (t + 1))
    · exact .inl hadv
    · refine .inr ⟨(hq.step hs).resolve_left hadv, ?_⟩
      cases a with
      | loop r =>
        have hlt := hq.nearer hs hadv hq.not_waiting
        exact ⟨hlt.le, fun _ => hlt⟩
      | publish | requestStop | task =>
        exact ⟨(phase_step hs nofun ▸ le_rfl), fun h => by obtain ⟨r, hr⟩ := h; cases hr⟩

/-- How far the loop is from settling a done task: it still has to come to its wait, it waits, or
it has found the task done. -/
def Phase.distance (task : ℕ) : Phase → ℕ
  | .waiting => 1
  | p => if task ∈ p.remaining then 0 else 2

theorem Phase.distance_le (task : ℕ) (p : Phase) : p.distance task ≤ 2 := by
  unfold Phase.distance
  split
  · omega
  · split <;> omega

theorem Phase.distance_of_mem {task : ℕ} {p : Phase} (h : task ∈ p.remaining) :
    p.distance task = 0 := by
  unfold Phase.distance
  split
  · cases h
  · exact if_pos h

/-- A task found done stays so until it is settled. -/
theorem Sound.remaining_step (h : Sound lane s) {r : Reading}
    (hs : Dispatch.step lane s (.loop r) = some s') {task : ℕ} (hm : task ∈ s.phase.remaining) :
    s'.phase = .returned ∨ task ∈ s'.phase.remaining ∨ task ∉ s'.tasks := by
  obtain ⟨f0, hf0, rfl, hdone0⟩ := h.known task hm
  change Dispatch.loopStep lane r s = some s' at hs
  cases hph : s.phase with
  | cancelling done woken polled stopped =>
    unfold Dispatch.loopStep at hs
    rw [hph] at hs hm
    cases hs
    cases stopped with
    | true => exact .inl rfl
    | false => exact .inr (.inl hm)
  | settle rest woken polled =>
    rw [hph] at hm
    cases rest with
    | nil => cases hm
    | cons k rest =>
      obtain ⟨f, hf, rfl, hdone, hfind, -⟩ := h.settle hph
      unfold Dispatch.loopStep at hs
      rw [hph] at hs
      dsimp only at hs
      rw [hfind] at hs
      cases hs
      have hcore : Core lane { s with phase := .settle rest woken polled } :=
        h.toCore.same rfl rfl rfl rfl
      cases List.mem_cons.mp hm with
      | inl heq =>
        refine .inr (.inr fun hin => ?_)
        rw [State.tasks, (hcore.settle_appends hf hdone).2] at hin
        obtain ⟨g, hg, hgk⟩ := List.mem_map.mp hin
        simp [hgk, heq] at hg
      | inr hin =>
        rw [(hcore.settle hf hdone).2]
        exact .inr (.inl hin)
  | _ =>
    rw [hph] at hm
    cases hm

/-- A done task in flight, next to a pending wake. -/
def Settling (lane : Lane) (ns : String) (k : ℕ) (tasks : List ℕ) (f : Flight) (s : State) : Prop :=
  Queued lane ns k tasks s ∧ f ∈ s.inFlight ∧ f.state.done = true

/-- A step of the loop that neither moves the wake up nor takes the done task off comes closer
to that. -/
theorem Settling.nearer (h : Settling lane ns k tasks f s) {r : Reading}
    (hs : Dispatch.step lane s (.loop r) = some s') (hadv : ¬ Advanced ns k s')
    (hin : f.task ∈ s'.tasks) (hret : s'.phase ≠ .returned) :
    (toLex (s'.phase.distance f.task, s'.phase.rank) : ℕ ×ₗ (ℕ ×ₗ ℕ)) <
      toLex (s.phase.distance f.task, s.phase.rank) := by
  rw [Prod.Lex.toLex_lt_toLex]
  by_cases hw : s.phase = .waiting
  · -- The wait comes back with the task among the done ones.
    have hmem : f.task ∈ s.doneTasks := List.mem_map_of_mem (List.mem_filter.mpr h.2)
    change Dispatch.loopStep lane r s = some s' at hs
    unfold Dispatch.loopStep at hs
    rw [hw] at hs ⊢
    dsimp only at hs
    split at hs
    · cases hs
      have hd : Phase.distance f.task (.cancelling s.doneTasks r.woken r.polled r.stopped) = 0 :=
        Phase.distance_of_mem hmem
      exact .inl (Nat.lt_of_le_of_lt (Nat.le_of_eq hd) Nat.one_pos)
    · cases hs
  · have hrank := h.1.nearer hs hadv hw
    by_cases hm : f.task ∈ s.phase.remaining
    · obtain hr | hm' | hout := h.1.1.1.remaining_step hs hm
      · exact absurd hr hret
      · rw [Phase.distance_of_mem hm, Phase.distance_of_mem hm']
        exact .inr ⟨rfl, hrank⟩
      · exact absurd hin hout
    · have hfar : s.phase.distance f.task = 2 := by
        unfold Phase.distance
        split
        · exact absurd ‹_› hw
        · exact if_neg hm
      rw [hfar]
      cases Nat.lt_or_eq_of_le (s'.phase.distance_le f.task) with
      | inl h => exact .inl h
      | inr h => exact .inr ⟨h, hrank⟩

/-- A pending wake moves up, or a done task is taken off. -/
theorem Fair.leads_settled (hfair : Fair ρ) :
    ρ.LeadsTo (Settling lane ns k tasks f)
      (fun s => Advanced ns k s ∨ Queued lane ns k tasks s ∧ f.task ∉ s.tasks) := by
  refine Run.leadsTo_of_rank
    (fun s => (toLex (s.phase.distance f.task, s.phase.rank) : ℕ ×ₗ (ℕ ×ₗ ℕ)))
    (fun a => ∃ r, a = .loop r) ?_ ?_
  · intro t _
    obtain ⟨t', ht', h⟩ := hfair.loop t
    refine ⟨t', ht', ?_⟩
    cases h with
    | inl h =>
      obtain ⟨r, hr⟩ := h
      exact .inl ⟨_, hr, r, rfl⟩
    | inr h =>
      refine .inr fun hq => ?_
      have hno := h.2 f hq.2.1
      rw [hq.2.2] at hno
      cases hno
  · intro t a ha hq
    have hs := ρ.next_of_act ha
    by_cases hadv : Advanced ns k (ρ.st (t + 1))
    · exact .inl (.inl hadv)
    have hq' := (hq.1.step hs).resolve_left hadv
    by_cases hgone : f.task ∈ (ρ.st (t + 1)).tasks
    · have hin : f ∈ (ρ.st (t + 1)).inFlight :=
        (hq.1.1.1.done_step hs hq.2.1 hq.2.2).resolve_right (not_not_intro hgone)
      refine .inr ⟨⟨hq', hin, hq.2.2⟩, ?_⟩
      cases a with
      | loop r =>
        have hlt := hq.nearer hs hadv hgone (hfair.running _)
        exact ⟨hlt.le, fun _ => hlt⟩
      | publish | requestStop | task =>
        exact ⟨(phase_step hs nofun ▸ le_rfl), fun h => by obtain ⟨r, hr⟩ := h; cases hr⟩
    · exact .inl (.inr ⟨hq', hgone⟩)

private theorem length_lt_of_sublist {l l' : List ℕ} {x : ℕ} (h : l'.Sublist l) (hx : x ∈ l)
    (hx' : x ∉ l') : l'.length < l.length :=
  Nat.lt_of_le_of_ne h.length_le fun he => hx' (h.eq_of_length he ▸ hx)

/-- A pending wake moves up: by induction on the number of tasks in flight, which settle one by
one until there is room. -/
theorem Fair.advances (hfair : Fair ρ) (hq : Queued lane ns k tasks (ρ.st t)) :
    ∃ t' ≥ t, Advanced ns k (ρ.st t') := by
  induction hn : tasks.length using Nat.strong_induction_on generalizing tasks t with
  | _ n ih =>
    cases hnil : (ρ.st t).inFlight with
    | nil =>
      refine hfair.leads_idle t ⟨hq.1, hq.2.1, ?_⟩
      rw [State.tasks, hnil]
      exact .refl _
    | cons f rest =>
      have hf : f ∈ (ρ.st t).inFlight := hnil ▸ List.mem_cons_self ..
      have hmem : f.task ∈ (ρ.st t).tasks := List.mem_map_of_mem hf
      -- Once the task is taken off, fewer tasks are in flight.
      have hless : ∀ u ≥ t, Queued lane ns k (ρ.st t).tasks (ρ.st u) →
          f.task ∉ (ρ.st u).tasks → ∃ t' ≥ t, Advanced ns k (ρ.st t') := by
        intro u hu hqu hout
        have hlt := (length_lt_of_sublist hqu.2.2 hmem hout).trans_le hq.2.2.length_le
        obtain ⟨t', ht', hadv⟩ := ih _ (hn ▸ hlt) ⟨hqu.1, hqu.2.1, .refl _⟩ rfl
        exact ⟨t', hu.trans ht', hadv⟩
      obtain ⟨t2, h2, hdone⟩ := hfair.tasks t f hf
      have hstays : Queued lane ns k (ρ.st t).tasks (ρ.st t2) ∨ ∃ u ≥ t, Advanced ns k (ρ.st u) :=
        Run.stays_until ⟨hq.1, hq.2.1, .refl _⟩ h2 fun u _ _ a ha hu => hu.step (ρ.next_of_act ha)
      cases hstays with
      | inl hq2 =>
        by_cases hin : f.task ∈ (ρ.st t2).tasks
        · obtain ⟨g, hg, hgf⟩ := List.mem_map.mp hin
          obtain ⟨t3, h3, h⟩ := hfair.leads_settled t2 ⟨hq2, hg, hdone g hg hgf⟩
          cases h with
          | inl h => exact ⟨t3, h2.trans h3, h⟩
          | inr h => exact hless t3 (h2.trans h3) h.1 (hgf ▸ h.2)
        · exact hless t2 h2 hq2 hin
      | inr h => exact h

/-- A pending wake is dispatched: by induction on its place. -/
theorem Fair.dispatches (hfair : Fair ρ) (h0 : ρ.st 0 = .start hub) (hat : AtPlace ns k (ρ.st t)) :
    ∃ t' ≥ t, ∃ f ∈ (ρ.st t').inFlight, f.wake.ns = ns ∧ f.state = .created := by
  induction k generalizing t with
  | zero => exact hfair.advances ⟨good_of_start h0 t, hat, .refl _⟩
  | succ k ih =>
    obtain ⟨t1, h1, hat1⟩ := hfair.advances ⟨good_of_start h0 t, hat, .refl _⟩
    obtain ⟨t2, h2, hf⟩ := ih hat1
    exact ⟨t2, h1.trans h2, hf⟩

theorem Lane.concurrency_eq {n : ℤ} (hn : 0 < n) (h : lane.maxConcurrency = some n) :
    (lane.concurrency : ℤ) = n := by
  unfold Lane.concurrency
  rw [h]
  dsimp only
  rw [if_neg (by omega)]
  omega

/-- In every run of a lane, `drain_permits` counts the drain wakes that are pending or in flight
and the decrement never misses its key; the claim tasks in flight stay below the concurrency,
which is `max_concurrency` where that is positive; a namespace leaves `drain_namespaces` only
where the claim attempt of a drain wake returned nothing or raised and no other wake of it is
pending or in flight; and where the claim tasks end and the loop goes on, every wake that becomes
pending is followed by a claim attempt for its namespace. -/
theorem claim_loop_drains (ρ : Run (step lane)) (h0 : ρ.st 0 = .start hub) :
    (∀ t, Accounted (ρ.st t) ∧ (ρ.st t).phase ≠ .crashed ∧
      (ρ.st t).inFlight.length ≤ lane.concurrency ∧
      ∀ n > 0, lane.maxConcurrency = some n → ((ρ.st t).inFlight.length : ℤ) ≤ n) ∧
    (∀ t, ∀ ns ∈ (ρ.st t).drainNamespaces, ns ∉ (ρ.st (t + 1)).drainNamespaces →
      DroppedAfter (·.result = false) (ρ.st t) (ρ.st (t + 1)) ns) ∧
    (Fair ρ → ∀ t w, (ρ.st (t + 1)).pendingWakes = (ρ.st t).pendingWakes ++ [w] →
      ∃ t' > t, ∃ f ∈ (ρ.st t').inFlight, f.wake.ns = w.ns ∧
        ρ.act t' = some (.task f.task .attempt)) := by
  refine ⟨fun t => ?_, fun t ns hin hout => ?_, fun hfair t w hp => ?_⟩
  · have hs := (good_of_start h0 t).1
    refine ⟨hs.permits, hs.intact, hs.limit, fun n hn hmax => ?_⟩
    rw [← lane.concurrency_eq hn hmax]
    exact_mod_cast hs.limit
  · cases ha : ρ.act t with
    | none => exact absurd (ρ.next_of_pause ha ▸ hin) hout
    | some a => exact (good_of_start h0 t).1.dropped (ρ.next_of_act ha) hin hout
  · have hat : AtPlace w.ns (ρ.st t).pendingWakes.length (ρ.st (t + 1)) := by
      simp [AtPlace, hp]
    obtain ⟨t1, h1, f, hf, hns, hc⟩ := hfair.dispatches h0 hat
    obtain ⟨t2, h2, hf2, hact⟩ := hfair.attempts h0 hf hc
    exact ⟨t2, by omega, f, hf2, hns, hact⟩

/-- A lane with one place that does not poll. -/
def singleLane : Lane := ⟨[], false, some 1, 4, 5⟩

/-- A response wake is published and comes to its claim task, which does `moves`; then the loop
settles the task and takes `rounds` more steps. -/
def singleWake (moves : List TaskMove) (rounds : ℕ) : List Action :=
  Action.publish (some (.drain "t")) :: List.replicate 6 (.loop {}) ++ moves.map (.task 0) ++
    List.replicate (3 + rounds) (Action.loop {})

/-- The claim task finds nothing, and the loop comes back to its wait. -/
def emptyRun : Run (step singleLane) :=
  .ofReplay (.start ⟨0, []⟩) (singleWake [.attempt, .findsNothing] 5)
    (Option.some_get (by decide +kernel)).symm

theorem emptyRun_end (ht : 17 ≤ t) : emptyRun.st t = emptyRun.st 17 := by
  rw [emptyRun, Run.ofReplay_end _ ht, Run.ofReplay_end _ (le_refl 17)]

theorem emptyRun_fair : Fair emptyRun where
  tasks t _ _ := by
    refine ⟨max t 17, le_max_left .., fun g hg => ?_⟩
    rw [emptyRun_end (le_max_right ..), show (emptyRun.st 17).inFlight = [] by decide +kernel] at hg
    cases hg
  loop t := by
    refine ⟨max t 17, le_max_left .., .inr ?_⟩
    rw [emptyRun_end (le_max_right ..)]
    exact ⟨by decide +kernel, by decide +kernel⟩
  running t := by
    by_cases ht : t < 17
    · have hall : ∀ t < 17, (emptyRun.st t).phase ≠ .returned := by decide +kernel
      exact hall t ht
    · rw [emptyRun_end (not_lt.mp ht)]
      decide +kernel

theorem claim_loop_drains_wake : ∃ t' > 2, ∃ f ∈ (emptyRun.st t').inFlight, f.wake.ns = "t" ∧
    emptyRun.act t' = some (.task f.task .attempt) :=
  (claim_loop_drains emptyRun rfl).2.2 emptyRun_fair 2 (.drain "t") (by decide +kernel)

/-- The claim task is given a request, and its execution raises. -/
def raisingRun : Run (step singleLane) :=
  .ofReplay (.start ⟨0, []⟩) (singleWake [.attempt, .claims true, .raises] 0)
    (Option.some_get (by decide +kernel)).symm

/-- The namespace is dropped although its claim attempt returned a request. -/
theorem dropped_after_request : ¬ ∀ (lane : Lane) (ρ : Run (step lane)) (hub : VersionHub),
    ρ.st 0 = .start hub → ∀ t, ∀ ns ∈ (ρ.st t).drainNamespaces,
      ns ∉ (ρ.st (t + 1)).drainNamespaces →
        DroppedAfter (· = .nothing) (ρ.st t) (ρ.st (t + 1)) ns := by
  intro h
  obtain ⟨f, hf, outcome, -, -, hstate, rfl, -⟩ :=
    h singleLane raisingRun ⟨0, []⟩ rfl 12 "t" (by decide +kernel) (by decide +kernel)
  have hraised : ∀ f ∈ (raisingRun.st 12).inFlight, f.state = .finished (.raised true) := by
    decide +kernel
  rw [hraised f hf] at hstate
  cases hstate

end DataForge.Dispatch
