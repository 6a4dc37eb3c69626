import DataForge.Engines.Safety

/-!
# The order of admissions

`_admit_spawn_waiters_locked` and `_try_claim_capacity_slot`
(`src/packages/worker/runtime/compute_manager.py:507-584,1268-1292`) from any state of the
manager. A grant moves the rotation behind the class it serves, and nothing else moves it.
-/

namespace DataForge.Engines

open ReadCommitted Monitor

namespace Manager

variable {cfg : Setup} {m m' : Manager} {v w : SpawnWaiter} {now : ℕ}

/-- The identity of a waiter has no lifecycle event and no queued admission. -/
def eligible (m : Manager) (w : SpawnWaiter) : Bool :=
  (m.engineEvents.get w.key).isNone && !m.hasAdmission w.key

/-- A queued waiter that is eligible. -/
def Awaits (m : Manager) (w : SpawnWaiter) : Prop := w ∈ m.spawnWaiters ∧ m.eligible w = true

instance (m : Manager) (w : SpawnWaiter) : Decidable (m.Awaits w) :=
  inferInstanceAs (Decidable (_ ∧ _))

end Manager

/-- The classes that are served before a class. -/
def AdmissionPriority.before (p c : AdmissionPriority) : ℕ :=
  if p = c then 0 else if p.next = c then 1 else 2

theorem AdmissionPriority.before_le (p c : AdmissionPriority) : p.before c ≤ 2 := by
  cases p <;> cases c <;> decide

theorem AdmissionPriority.before_next {p q c : AdmissionPriority} (h : p.before q < p.before c) :
    q.next.before c < p.before c := by
  revert h
  cases p <;> cases q <;> cases c <;> decide

theorem AdmissionPriority.before_inj {p q c : AdmissionPriority} (h : p.before q = p.before c) :
    q = c := by
  revert h
  cases p <;> cases q <;> cases c <;> decide

namespace Manager

variable {cfg : Setup} {m m' : Manager} {v w : SpawnWaiter} {now : ℕ}

/-! ## One round -/

theorem reserveCapacityLocked_turn {a : CapacityAdmission}
    (h : m.reserveCapacityLocked cfg = some (a, m')) :
    m'.turn = m.turn ∧ m'.spawnWaiters = m.spawnWaiters := by
  unfold reserveCapacityLocked at h
  dsimp only at h
  split at h
  · cases h
    exact ⟨rfl, rfl⟩
  · split at h
    · cases h
    · cases h
      exact ⟨rfl, rfl⟩

/-- The first waiter of the first class that has eligible ones. -/
theorem pickWaiter_first (h : m.pickWaiter = some v) :
    (m.spawnWaiters.filter m.eligible).find? (fun x => x.priority = v.priority) = some v ∧
      ∀ w, m.Awaits w → m.nextSpawnPriority.before v.priority ≤
        m.nextSpawnPriority.before w.priority := by
  have hfind : ∀ {q}, (m.spawnWaiters.filter m.eligible).find? (fun x => x.priority = q) = some v →
      v.priority = q := fun hq => by simpa using List.find?_some hq
  have hnone : ∀ {q}, (m.spawnWaiters.filter m.eligible).find? (fun x => x.priority = q) = none →
      ∀ w, m.Awaits w → w.priority ≠ q := by
    intro q hq w hw
    have hx := List.find?_eq_none.mp hq w (List.mem_filter.mpr hw)
    simpa using hx
  have h : [m.nextSpawnPriority, m.nextSpawnPriority.next, m.nextSpawnPriority.next.next].findSome?
      (fun q => (m.spawnWaiters.filter m.eligible).find? fun x => x.priority = q) = some v := h
  rw [List.findSome?_cons] at h
  split at h
  case h_1 x hx =>
    cases h
    rw [hfind hx]
    exact ⟨hx, fun w _ => by simp [AdmissionPriority.before]⟩
  case h_2 hx =>
    have hfirst := hnone hx
    rw [List.findSome?_cons] at h
    split at h
    case h_1 y hy =>
      cases h
      rw [hfind hy]
      refine ⟨hy, fun w hw => ?_⟩
      have hne := hfirst w hw
      revert hne
      cases m.nextSpawnPriority <;> cases w.priority <;> decide
    case h_2 hy =>
      have hsecond := hnone hy
      rw [List.findSome?_cons] at h
      split at h
      case h_1 z hz =>
        cases h
        rw [hfind hz]
        refine ⟨hz, fun w hw => ?_⟩
        have hne := hfirst w hw
        have hne' := hsecond w hw
        revert hne hne'
        cases m.nextSpawnPriority <;> cases w.priority <;> decide
      case h_2 => cases h

theorem pickWaiter_none (h : m.pickWaiter = none) (w : SpawnWaiter) : ¬ m.Awaits w := by
  intro hw
  have h : [m.nextSpawnPriority, m.nextSpawnPriority.next, m.nextSpawnPriority.next.next].findSome?
      (fun q => (m.spawnWaiters.filter m.eligible).find? fun x => x.priority = q) = none := h
  rw [List.findSome?_eq_none_iff] at h
  have hclass : w.priority ∈
      [m.nextSpawnPriority, m.nextSpawnPriority.next, m.nextSpawnPriority.next.next] := by
    cases m.nextSpawnPriority <;> cases w.priority <;> decide
  have hx := List.find?_eq_none.mp (h _ hclass) w (List.mem_filter.mpr hw)
  simp at hx

theorem pickWaiter_oldest (h : m.pickWaiter = some v) : ∃ l1 l2,
    m.spawnWaiters = l1 ++ v :: l2 ∧ v ∉ l1 ∧ m.eligible v = true ∧
      ∀ x ∈ l1, x.priority = v.priority → m.eligible x = false := by
  obtain ⟨hfind, -⟩ := pickWaiter_first h
  have hv : m.eligible v = true := (List.mem_filter.mp (List.mem_of_find?_eq_some hfind)).2
  rw [List.find?_filter] at hfind
  obtain ⟨-, l1, l2, hl, hbefore⟩ := List.find?_eq_some_iff_append.mp hfind
  have hnot : ∀ x ∈ l1, x.priority = v.priority → m.eligible x = false := by
    intro x hx hp
    have hb := hbefore x hx
    simpa [hp] using hb
  refine ⟨l1, l2, hl, fun hm => ?_, hv, hnot⟩
  rw [hnot v hm rfl] at hv
  cases hv

theorem admitRound_cases (h : m.admitRound cfg now = some m') :
    ∃ v, m.pickWaiter = some v ∧ m'.spawnWaiters = m.spawnWaiters.erase v ∧
      ((∃ e, m.engines.get v.key = some e ∧ m' = m.admitExisting now v e) ∨
        m.engines.get v.key = none ∧ ∃ a m1, m.reserveCapacityLocked cfg = some (a, m1) ∧
          m' = m1.grant v a) := by
  unfold admitRound at h
  cases hp : m.pickWaiter with
  | none =>
    rw [hp] at h
    cases h
  | some v =>
    rw [hp] at h
    dsimp only at h
    refine ⟨v, rfl, ?_⟩
    cases he : m.engines.get v.key with
    | some e =>
      rw [he] at h
      cases h
      refine ⟨?_, .inl ⟨e, rfl, rfl⟩⟩
      unfold admitExisting
      dsimp only
      split <;> rfl
    | none =>
      rw [he] at h
      obtain ⟨⟨a, m1⟩, hres, rfl⟩ := Option.map_eq_some_iff.mp h
      refine ⟨?_, .inr ⟨rfl, a, m1, hres, rfl⟩⟩
      change m1.spawnWaiters.erase v = _
      rw [(reserveCapacityLocked_turn hres).2]

/-! ## The return of the loop -/

theorem admitRound_none (h : m.admitRound cfg now = none) (hw : m.Awaits w) :
    ¬ m.capacityUsedLocked < cfg.computeWorkers ∧ m.findIdleEngineLocked = none := by
  unfold admitRound at h
  cases hp : m.pickWaiter with
  | none => exact absurd hw (pickWaiter_none hp w)
  | some v =>
    rw [hp] at h
    dsimp only at h
    split at h
    · cases h
    · rw [Option.map_eq_none_iff] at h
      unfold reserveCapacityLocked at h
      dsimp only at h
      split at h
      · cases h
      case isFalse hslot =>
        refine ⟨hslot, ?_⟩
        cases hidle : m.findIdleEngineLocked with
        | none => rfl
        | some x =>
          rw [hidle] at h
          cases h

theorem admitRounds_return (n : ℕ) (h : m.spawnWaiters.length ≤ n)
    (hw : (m.admitRounds cfg now n).Awaits w) :
    (m.admitRounds cfg now n).admitRound cfg now = none := by
  induction n generalizing m with
  | zero =>
    have hm : w ∈ m.spawnWaiters := hw.1
    rw [List.eq_nil_of_length_eq_zero (Nat.le_zero.mp h)] at hm
    cases hm
  | succ n ih =>
    rw [admitRounds] at hw ⊢
    cases hround : m.admitRound cfg now with
    | none => exact hround
    | some m1 =>
      rw [hround] at hw
      refine ih ?_ hw
      obtain ⟨v, hv, hqueue, -⟩ := admitRound_cases hround
      obtain ⟨l1, l2, hl, -⟩ := pickWaiter_oldest hv
      rw [hqueue, List.length_erase_of_mem (by rw [hl]; simp)]
      omega

theorem admitSpawnWaitersLocked_return (hw : (m.admitSpawnWaitersLocked cfg now).Awaits w) :
    ¬ (m.admitSpawnWaitersLocked cfg now).capacityUsedLocked < cfg.computeWorkers ∧
      (m.admitSpawnWaitersLocked cfg now).findIdleEngineLocked = none := by
  unfold admitSpawnWaitersLocked at hw ⊢
  split at hw
  · cases hw.1
  case isFalse hc =>
    rw [if_neg hc]
    exact admitRound_none (admitRounds_return _ le_rfl hw) hw

end Manager

/-! ## Overtaking -/

/-- From `m` to `m'` admissions were granted to `l`. Each of them brought the turn of the waiter
closer, or went to its own class and set the turn back by at most three. -/
def Overtakes (w : SpawnWaiter) (m m' : Manager) : Prop :=
  ∃ l, m'.history.served = m.history.served ++ l ∧
    l.length + m'.nextSpawnPriority.before w.priority ≤
      m.nextSpawnPriority.before w.priority + 3 * l.countP (·.priority = w.priority)

namespace Overtakes

variable {cfg : Setup} {w : SpawnWaiter} {m m1 m' : Manager} {now : ℕ}

theorem of_same (hp : m'.nextSpawnPriority = m.nextSpawnPriority)
    (hs : m'.history.served = m.history.served) : Overtakes w m m' :=
  ⟨[], by rw [hs, List.append_nil], by rw [hp]; simp⟩

theorem of_turn (h : m'.turn = m.turn) : Overtakes w m m' :=
  of_same (congrArg Prod.fst h) (congrArg (fun x => x.2.1) h)

theorem trans (h : Overtakes w m m1) (h' : Overtakes w m1 m') : Overtakes w m m' := by
  obtain ⟨l, hl, hb⟩ := h
  obtain ⟨l', hl', hb'⟩ := h'
  refine ⟨l ++ l', by rw [hl', hl, List.append_assoc], ?_⟩
  rw [List.length_append, List.countP_append]
  omega

/-- A round that passes over an eligible waiter. -/
theorem round (hw : m.Awaits w) (h : m.admitRound cfg now = some m') : Overtakes w m m' := by
  obtain ⟨v, hv, -, ⟨e, -, rfl⟩ | ⟨-, a, m1, hres, rfl⟩⟩ := Manager.admitRound_cases h
  · unfold Manager.admitExisting
    dsimp only
    split <;> exact of_same rfl rfl
  · have hserved := congrArg (fun x => x.2.1) (Manager.reserveCapacityLocked_turn hres).1
    refine ⟨[v], congrArg (· ++ [v]) hserved, ?_⟩
    change 1 + v.priority.next.before w.priority ≤ _
    by_cases hc : v.priority = w.priority
    · have hle := w.priority.next.before_le w.priority
      simp only [List.countP_singleton, hc, decide_true, if_true]
      omega
    · have hle := (Manager.pickWaiter_first hv).2 w hw
      have hlt : m.nextSpawnPriority.before v.priority < m.nextSpawnPriority.before w.priority :=
        lt_of_le_of_ne hle fun he => hc (AdmissionPriority.before_inj he)
      have hnext := AdmissionPriority.before_next hlt
      simp only [List.countP_singleton, hc, decide_false]
      omega

/-- A waiter that is queued and eligible behind a round was so in front of it: a round only takes
waiters out, installs events and queues admissions. -/
theorem awaits_round (h : m.admitRound cfg now = some m') (hw : m'.Awaits w) : m.Awaits w := by
  obtain ⟨v, -, hqueue, hserved⟩ := Manager.admitRound_cases h
  refine ⟨List.mem_of_mem_erase (hqueue ▸ hw.1), ?_⟩
  have heligible := hw.2
  simp only [Manager.eligible, Bool.and_eq_true, Option.isNone_iff_eq_none,
    Bool.not_eq_true'] at heligible ⊢
  rcases hserved with ⟨e, -, rfl⟩ | ⟨-, a, m1, hres, rfl⟩
  · revert heligible
    unfold Manager.admitExisting
    dsimp only
    split <;> exact id
  · obtain ⟨hev, hadm⟩ := heligible
    have hadm1 : m1.hasAdmission w.key = false := by
      rw [Manager.hasAdmission_eq_false] at hadm ⊢
      exact fun p hp => hadm p (List.mem_append_left _ hp)
    have hev1 : m1.engineEvents.get w.key = none := hev
    revert hadm1 hev1
    unfold Manager.reserveCapacityLocked at hres
    dsimp only at hres
    split at hres
    · cases hres
      exact fun hq he => ⟨he, hq⟩
    · split at hres <;> cases hres
      intro hq he
      refine ⟨?_, hq⟩
      change (Table.put m.engineEvents _ _).get w.key = none at he
      rw [Table.get_put] at he
      split at he
      · cases he
      · exact he

theorem rounds (n : ℕ) (hw : (m.admitRounds cfg now n).Awaits w) :
    Overtakes w m (m.admitRounds cfg now n) ∧ m.Awaits w := by
  induction n generalizing m with
  | zero => exact ⟨of_turn rfl, hw⟩
  | succ n ih =>
    rw [Manager.admitRounds] at hw ⊢
    cases hround : m.admitRound cfg now with
    | none =>
      rw [hround] at hw
      exact ⟨of_turn rfl, hw⟩
    | some m1 =>
      rw [hround] at hw
      obtain ⟨hrest, hw1⟩ := ih hw
      have hm := awaits_round hround hw1
      exact ⟨(round hm hround).trans hrest, hm⟩

theorem loop (hw : (m.admitSpawnWaitersLocked cfg now).Awaits w) :
    Overtakes w m (m.admitSpawnWaitersLocked cfg now) := by
  unfold Manager.admitSpawnWaitersLocked at hw ⊢
  split at hw
  · cases hw.1
  case isFalse hc =>
    rw [if_neg hc]
    exact (rounds _ hw).1

end Overtakes

/-! ## The sections of the manager -/

/-- The waiter that a section puts in the queue. -/
def Frame.arrivals (m : Manager) : Frame → List SpawnWaiter
  | .admission .enqueue call =>
    [⟨m.nextWaiter, call.key, call.priority, call.reserveExistingRequest⟩]
  | _ => []

/-- A change that leaves the turn alone, and perhaps a run of the admission loop over the waiters
queued before and the new ones. -/
def Turned (cfg : Setup) (new : List SpawnWaiter) (m m' : Manager) : Prop :=
  ∃ m1, m1.turn = m.turn ∧ (m' = m1 ∨ m1.spawnWaiters ⊆ m.spawnWaiters ++ new ∧
    ∃ now, m' = m1.admitSpawnWaitersLocked cfg now)

namespace Turned

variable {cfg : Setup} {new : List SpawnWaiter} {m m' m1 : Manager} {now : ℕ}

theorem of_turn (h : m'.turn = m.turn) : Turned cfg new m m' := ⟨m', h, .inl rfl⟩

theorem of_loop (h : m1.turn = m.turn) (hq : m1.spawnWaiters ⊆ m.spawnWaiters ++ new) :
    Turned cfg new m (m1.admitSpawnWaitersLocked cfg now) :=
  ⟨m1, h, .inr ⟨hq, now, rfl⟩⟩

theorem of_queue (h : m1.turn = m.turn) (hq : m1.spawnWaiters = m.spawnWaiters) :
    Turned cfg new m (m1.admitSpawnWaitersLocked cfg now) :=
  of_loop h (hq ▸ List.subset_append_left _ _)

theorem turn_giveBack (m : Manager) (a : CapacityAdmission) (b : Option WaiterId) :
    (m.giveBack a b).turn = m.turn := by
  unfold Manager.giveBack
  dsimp only
  cases a.warmClaim <;> cases a.coldStart <;> rfl

theorem turn_reserveEngineRequest (m : Manager) (now : ℕ) (k : Key) :
    (m.reserveEngineRequest now k).turn = m.turn := by
  unfold Manager.reserveEngineRequest
  dsimp only
  split <;> rfl

theorem turn_openSpawn (m : Manager) (call : SpawnCall) (target : Option EngineId) :
    (openSpawn m call target).1.turn = m.turn := by
  unfold openSpawn
  dsimp only
  split <;> rfl

variable {ch : Choice}

theorem releaseSection {r : Option Outcome} {k : Key} {b : Option WaiterId} :
    Turned cfg new m (releaseSection cfg ch m r k b).1 := by
  unfold Engines.releaseSection
  split
  · exact of_turn rfl
  case h_2 a _ =>
    split
    · exact of_turn rfl
    · dsimp only
      have hgive := turn_giveBack (m.popAdmission k) a b
      split
      · refine of_queue hgive ?_
        unfold Manager.giveBack
        dsimp only
        cases a.warmClaim <;> cases a.coldStart <;> rfl
      · exact of_turn hgive

theorem enqueueSection {call : AdmissionCall} :
    Turned cfg ((Frame.admission .enqueue call).arrivals m) m
      (enqueueSection cfg ch m call).1 := by
  unfold Engines.enqueueSection
  split
  · exact of_turn rfl
  · split
    · dsimp only
      split <;> exact of_turn rfl
    · split
      · exact of_turn rfl
      · exact of_loop rfl (List.Subset.refl _)

theorem admissionSection {r : Option Outcome} {pc : AdmissionPc} {call : AdmissionCall} {x : Next}
    (hx : admissionSection cfg ch m r call pc = some x) :
    Turned cfg ((Frame.admission pc call).arrivals m) m x.1 := by
  cases pc with
  | enqueue =>
    cases hx
    exact enqueueSection
  | cancelled w =>
    cases hx
    exact of_loop rfl fun v hv => List.mem_append_left _ (List.mem_of_mem_erase hv)
  | ended =>
    cases hx
    exact of_turn rfl
  | turn | releasing w | unreserving w | parked w =>
    simp only [Engines.admissionSection] at hx
    repeat' split at hx
    all_goals cases hx
    all_goals exact of_turn rfl

theorem gateSection {call : SpawnCall} :
    Turned cfg new m (gateSection cfg ch m call).1 := by
  unfold Engines.gateSection reuseEngine
  dsimp only
  repeat' split
  all_goals first | exact of_turn rfl | exact of_turn (turn_openSpawn _ _ _)

theorem spawnSection {l : SpawnLocals} {pc : SpawnPc} :
    Turned cfg new m (spawnSection cfg ch m l pc).1 := by
  by_cases hpc : pc = .claim
  · subst hpc
    simp only [Engines.spawnSection, claimSection]
    repeat' split
    case h_2 hr => exact of_turn (Manager.reserveCapacityLocked_turn hr).1
    all_goals exact of_turn rfl
  · exact of_turn (congrArg (fun v => v.2.2) (spawnSection_frame hpc))

end Turned

/-- Every section runs the loop at most once, at its end, and changes the turn only there. -/
theorem turned_advance {cfg : Setup} {m : Manager} {f : Frame} {ch : Choice} {r : Option Outcome}
    {x : Next} (hx : f.advance cfg ch m r = some x) : Turned cfg (f.arrivals m) m x.1 := by
  cases f with
  | notifyCapacityChanged =>
    cases hx
    exact .of_queue rfl rfl
  | releaseSpawnAdmission k b =>
    cases hx
    exact .releaseSection
  | releaseProbe e =>
    cases hx
    simp only [releaseProbeSection]
    split
    · exact .of_queue rfl rfl
    · exact .of_turn rfl
  | releaseStop e =>
    cases hx
    exact .of_queue rfl rfl
  | reserveEngineRequest k =>
    cases hx
    refine .of_turn ?_
    dsimp only
    split
    · rfl
    · exact Turned.turn_reserveEngineRequest _ _ _
  | admission pc call => exact .admissionSection hx
  | spawnGate call =>
    cases hx
    exact .gateSection
  | spawn pc l =>
    cases hx
    exact .spawnSection
  | replenish pc =>
    cases hx
    exact .of_turn (congrArg (fun v => v.2.2) (replenishSection_frame pc))
  | request pc l =>
    cases hx
    refine .of_turn ?_
    cases pc <;> simp only [requestSection] <;> repeat' split
    all_goals first | rfl | exact Turned.turn_reserveEngineRequest _ _ _
  | releaseEngineRequest k =>
    cases hx
    exact .of_turn rfl
  | _ => exact .of_turn (congrArg (fun v => v.2.2.1) (quiet_advance rfl hx))

/-! ## Bounded waiting -/

theorem Turned.overtakes {cfg : Setup} {new : List SpawnWaiter} {w : SpawnWaiter}
    {m m' : Manager} (h : Turned cfg new m m') (hw : m'.Awaits w) : Overtakes w m m' := by
  obtain ⟨m1, hturn, rfl | ⟨-, now, rfl⟩⟩ := h
  · exact .of_turn hturn
  · exact (Overtakes.of_turn hturn).trans (.loop hw)

theorem overtakes_step {cfg : Setup} {w : SpawnWaiter} {s s' : System} {a : Act}
    (hs : s.step (code cfg) a = some s') (hw : s'.shared.Awaits w) :
    Overtakes w s.shared s'.shared := by
  cases a with
  | call f =>
    cases hs
    exact .of_turn rfl
  | run i c =>
    simp only [Config.step] at hs
    split at hs
    case h_1 =>
      obtain ⟨x, hx, rfl⟩ := Option.map_eq_some_iff.mp hs
      exact (turned_advance hx).overtakes hw
    case h_2 => cases hs
  | outside o =>
    cases hs
    exact .of_turn rfl

theorem overtakes_run {cfg : Setup} {w : SpawnWaiter} {s s' : System}
    (h : s.Reaches (code cfg) (fun s _ => s.shared.Awaits w) s') (hw : s'.shared.Awaits w) :
    Overtakes w s.shared s'.shared := by
  induction h with
  | refl => exact .of_turn rfl
  | tail _ hstep ih =>
    obtain ⟨a, hu, hs⟩ := hstep
    exact (ih hu).trans (overtakes_step hs hw)

/-- The waiter is the oldest eligible one of its class. -/
def Manager.Oldest (m : Manager) (w : SpawnWaiter) : Prop :=
  (m.spawnWaiters.filter m.eligible).find? (fun x => x.priority = w.priority) = some w

instance (m : Manager) (w : SpawnWaiter) : Decidable (m.Oldest w) :=
  inferInstanceAs (Decidable (_ = _))

theorem Manager.Oldest.picked {m : Manager} {v w : SpawnWaiter} (h : m.Oldest w)
    (hv : m.pickWaiter = some v) (hclass : v.priority = w.priority) : v = w := by
  have hfind := (Manager.pickWaiter_first hv).1
  rw [hclass, h] at hfind
  exact (Option.some.inj hfind).symm

/-- The order of admissions: (1) a round serves the oldest eligible waiter of a class; (2) in
every run in which a waiter stays queued and eligible it is overtaken by at most two grants, and
three more for each grant to its class, (3) which goes to a waiter that is older at that time;
(4) the loop returns with an eligible waiter only if no slot is free and no engine can be evicted;
(5) a direct claim does not succeed next to a queue. -/
theorem spawn_admission_schedule (cfg : Setup) :
    (∀ (m m' : Manager) (now : ℕ), m.admitRound cfg now = some m' → ∃ v l1 l2,
      m.spawnWaiters = l1 ++ v :: l2 ∧ m'.spawnWaiters = l1 ++ l2 ∧ m.eligible v = true ∧
      (∀ x ∈ l1, x.priority = v.priority → m.eligible x = false) ∧
      ((∃ e, m.engines.get v.key = some e ∧ m' = m.admitExisting now v e) ∨
        m.engines.get v.key = none ∧ ∃ a m1, m.reserveCapacityLocked cfg = some (a, m1) ∧
          m' = m1.grant v a)) ∧
    (∀ (w : SpawnWaiter) (s s' : System),
      s.Reaches (code cfg) (fun s _ => s.shared.Awaits w) s' → s'.shared.Awaits w →
      ∃ l, s'.shared.history.served = s.shared.history.served ++ l ∧
        l.length ≤ 2 + 3 * l.countP (·.priority = w.priority)) ∧
    (∀ (m : Manager) (v w : SpawnWaiter), m.Oldest w → m.pickWaiter = some v →
      v.priority = w.priority → v = w) ∧
    (∀ (m : Manager) (w : SpawnWaiter) (now : ℕ),
      (m.admitSpawnWaitersLocked cfg now).Awaits w →
      ¬ (m.admitSpawnWaitersLocked cfg now).capacityUsedLocked < cfg.computeWorkers ∧
        (m.admitSpawnWaitersLocked cfg now).findIdleEngineLocked = none) ∧
    ∀ (m : Manager) (l : SpawnLocals), l.admission = none → m.spawnWaiters ≠ [] →
      l.shutdownTarget = none → claimSection cfg m l = (m, none, l.onError) := by
  refine ⟨fun m m' now h => ?_, fun w s s' h hw => ?_, fun m v w h hv => h.picked hv,
    fun m w now h => Manager.admitSpawnWaitersLocked_return h, fun m l ha hq ht => ?_⟩
  · obtain ⟨v, hv, hqueue, hserved⟩ := Manager.admitRound_cases h
    obtain ⟨l1, l2, hl, hnot, heligible, hyounger⟩ := Manager.pickWaiter_oldest hv
    refine ⟨v, l1, l2, hl, ?_, heligible, hyounger, hserved⟩
    rw [hqueue, hl, List.erase_append_right _ hnot, List.erase_cons_head]
  · obtain ⟨l, hl, hbound⟩ := overtakes_run h hw
    have hle := s.shared.nextSpawnPriority.before_le w.priority
    exact ⟨l, hl, by omega⟩
  · have hempty : m.spawnWaiters.isEmpty = false := by simpa using hq
    simp [claimSection, ha, ht, hempty]

/-- The waiter of the third task below. -/
def overtaken : SpawnWaiter := ⟨2, analysisKey "w", .interactive, false⟩

/-- A task of a class waits for its admission. -/
def callClass (resourceId : String) (c : AdmissionPriority) : List Act :=
  [.call (.admission .turn ⟨analysisKey resourceId, c, false, false⟩)]

/-- Engine `a` is admitted, five tasks of all classes wait, and the identity of the oldest gets a
lifecycle event: `w` is now the oldest eligible waiter of its class. -/
def overtakeQueue : List Act :=
  callClass "a" .interactive ++ sections 0 2 ++ callClass "v" .interactive ++ sections 1 2 ++
    callClass "w" .interactive ++ sections 2 2 ++ callClass "b" .lifecycle ++ sections 3 2 ++
    callClass "c" .datasource ++ sections 4 2 ++
    .call (.shutdownGate (analysisKey "v")) :: sections 5 1

/-- The first admission is given back. -/
def firstGrant : List Act :=
  .call (.releaseSpawnAdmission (analysisKey "a") none) :: sections 6 1

/-- Another class is served next, which counts as one of two. -/
theorem spawn_admission_schedule_rival :
    ∃ s s' : System, s.shared.Oldest overtaken ∧
      s'.shared.history.served.length = s.shared.history.served.length + 1 ∧
      ∃ l, s'.shared.history.served = s.shared.history.served ++ l ∧
        l.length ≤ 2 + 3 * l.countP (·.priority = overtaken.priority) := by
  obtain ⟨s, -, hold, hserved, hgrant⟩ : ∃ s,
      System.start.Reaches (code (plainSetup 1)) Called s ∧ s.shared.Oldest overtaken ∧
      s.shared.history.served.length = 1 ∧
      ((s.replay (code (plainSetup 1)) (fun s _ => decide (s.shared.Awaits overtaken))
        firstGrant).any fun s' => decide (s'.shared.Awaits overtaken ∧
          s'.shared.history.served.length = 2)) = true :=
    exists_of_script overtakeQueue (by decide +kernel)
  obtain ⟨s', hs', hwaits, hmore⟩ := Config.exists_of_replay firstGrant hgrant
  exact ⟨s, s', hold, by omega,
    (spawn_admission_schedule (plainSetup 1)).2.1 overtaken s s' hs' hwaits⟩

/-- Three admissions are given back one after the other, and before the third the lifecycle event
of `v` is finished. -/
def overtakeGrants : List Act :=
  firstGrant ++ .call (.releaseSpawnAdmission (analysisKey "b") none) :: sections 7 1 ++
    sections 5 1 ++ .call (.releaseSpawnAdmission (analysisKey "c") none) :: sections 8 1

/-- An older waiter of the class becomes eligible again, and is the third to overtake. -/
theorem oldest_overtaken_thrice :
    ¬ ∀ s s' : System, System.start.Reaches (code (plainSetup 1)) Called s →
      s.shared.Oldest overtaken →
      s.Reaches (code (plainSetup 1))
        (fun s a => Called s a ∧ s.shared.Awaits overtaken) s' →
      s'.shared.Awaits overtaken →
      s'.shared.history.granted.length ≤ s.shared.history.granted.length + 2 := by
  intro h
  obtain ⟨s, hr, hold, hgranted, hgrants⟩ : ∃ s,
      System.start.Reaches (code (plainSetup 1)) Called s ∧ s.shared.Oldest overtaken ∧
      s.shared.history.granted.length = 1 ∧
      ((s.replay (code (plainSetup 1))
        (fun s a => decide (Called s a ∧ s.shared.Awaits overtaken)) overtakeGrants).any
        fun s' => decide (s'.shared.Awaits overtaken ∧ s'.shared.history.granted.length = 4)) =
        true :=
    exists_of_script overtakeQueue (by decide +kernel)
  obtain ⟨s', hs', hwaits, hmore⟩ := Config.exists_of_replay overtakeGrants hgrants
  have hle := h s s' hr hold hs' hwaits
  omega

end DataForge.Engines
