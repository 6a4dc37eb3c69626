import DataForge.Engines.Safety

/-!
# The warm reserve

A warm candidate under health check is in none of the sets that the replenisher counts. It
stays within the budget when it is healthy; when it is rejected it comes back as a worker
being stopped, and the replenisher may have started a replacement in between.
-/

namespace DataForge.Engines

open ReadCommitted Monitor

namespace Frame

/-- Warm starts in flight. -/
def warmStarts : Frame → ℕ
  | .replenish pc => match pc with
    | .decide | .discard _ | .cleanup _ => 0
    | _ => 1
  | _ => 0

/-- Candidates that are, or will be, rejected by their health check. -/
def rejects (cfg : Setup) : Frame → ℕ
  | .spawn (.health e) _ => if cfg.checkHealth e then 0 else 1
  | .spawn (.reject _) _ => 1
  | _ => 0

end Frame

namespace Manager

/-- `len(_warm_workers) + _warm_worker_starts + len(_stopping_warm_workers)`. -/
def warmBudget (m : Manager) : ℕ :=
  m.warmWorkers.length + m.warmWorkerStarts + m.stoppingWarmWorkers.card

variable {cfg : Setup} {m m' : Manager}

theorem reserve_capacity {a : CapacityAdmission}
    (h : m.reserveCapacityLocked cfg = some (a, m')) : m'.reserve = m.reserve := by
  simp only [reserveCapacityLocked] at h
  split at h
  · cases h
    rfl
  · split at h <;> cases h
    rfl

private theorem reserve_admit {now : ℕ} :
    (m.admitSpawnWaitersLocked cfg now).reserve = m.reserve := by
  have hround : ∀ {m m' : Manager}, m.admitRound cfg now = some m' → m'.reserve = m.reserve := by
    intro m m' hr
    simp only [admitRound] at hr
    split at hr
    · cases hr
    · split at hr
      · cases hr
        unfold admitExisting
        dsimp only
        split <;> rfl
      · obtain ⟨⟨a, m1⟩, hres, rfl⟩ := Option.map_eq_some_iff.mp hr
        have hm := reserve_capacity hres
        exact hm
  have hrounds : ∀ (rounds : ℕ) (m : Manager),
      (admitRounds cfg now rounds m).reserve = m.reserve := by
    intro rounds
    induction rounds with
    | zero => exact fun _ => rfl
    | succ rounds ih =>
      intro m
      simp only [admitRounds]
      split
      · rfl
      case h_2 m' hm' => exact (ih m').trans (hround hm')
  unfold admitSpawnWaitersLocked
  split
  · rfl
  · exact hrounds _ m

/-- Only spawns and the replenisher touch the reserve. -/
theorem reserve_advance {ch : Choice} {r : Option Outcome} {f : Frame} {x : Next}
    (hs : f.family ≠ .spawn) (hr : f.family ≠ .replenish) (hx : f.advance cfg ch m r = some x) :
    x.1.reserve = m.reserve := by
  cases f with
  | spawn => exact absurd rfl hs
  | replenish => exact absurd rfl hr
  | admission pc call =>
    cases pc with
    | enqueue =>
      cases hx
      unfold enqueueSection
      repeat' split
      all_goals first | rfl | exact reserve_admit
    | cancelled w =>
      cases hx
      exact reserve_admit
    | _ =>
      simp only [Frame.advance, admissionSection] at hx
      repeat' split at hx
      all_goals
        cases hx
        try rfl
  | spawnGate call =>
    cases hx
    have hopen : ∀ target, (openSpawn m call target).1.reserve = m.reserve := by
      intro target
      unfold openSpawn
      cases target with
      | none => rfl
      | some e => cases m.headAdmission call.key <;> rfl
    unfold gateSection reuseEngine
    repeat' split
    all_goals first | exact hopen _ | rfl
  | releaseSpawnAdmission k b =>
    cases hx
    have hback : ∀ a, ((m.popAdmission k).giveBack a b).reserve = m.reserve := by
      intro a
      simp only [giveBack]
      cases a.warmClaim <;> cases a.coldStart <;> rfl
    simp only [releaseSection]
    repeat' split
    · rfl
    · rfl
    · exact reserve_admit.trans (hback _)
    · exact hback _
  | notifyCapacityChanged =>
    cases hx
    exact reserve_admit
  | releaseProbe e =>
    cases hx
    simp only [releaseProbeSection]
    split
    · exact reserve_admit
    · rfl
  | releaseStop e =>
    cases hx
    exact reserve_admit
  | reserveEngineRequest k =>
    cases hx
    simp only [reserveEngineRequest]
    repeat' split
    all_goals rfl
  | request pc l =>
    cases hx
    cases pc <;> simp only [requestSection, reserveEngineRequest] <;> repeat' split
    all_goals rfl
  | releaseEngineRequest k =>
    cases hx
    rfl
  | _ => exact congrArg (fun v => v.2.2.2) (quiet_advance rfl hx)

end Manager

variable {cfg : Setup} {m : Manager}

/-- Frames that neither start a warm worker nor check a candidate. -/
def Frame.Calm (cfg : Setup) (f : Frame) : Prop := f.warmStarts = 0 ∧ f.rejects cfg = 0

theorem Frame.calm_of_family {f : Frame} (hs : f.family ≠ .spawn) (hr : f.family ≠ .replenish) :
    f.Calm cfg := by
  cases f with
  | spawn => exact absurd rfl hs
  | replenish => exact absurd rfl hr
  | _ => exact ⟨rfl, rfl⟩

/-- A spawn checks candidates where it looks for one. -/
def SpawnPc.looks : SpawnPc → Bool
  | .popWarm | .health _ | .reject _ => true
  | _ => false

variable {ch : Choice} {l : SpawnLocals} {pc : SpawnPc}

private theorem calm_spawn (hpc : pc.looks = false) :
    (spawnSection cfg ch m l pc).1.reserve = m.reserve ∧
      ∀ g ∈ (spawnSection cfg ch m l pc).2.2, g.Calm cfg := by
  have hgoto : ∀ (l' : SpawnLocals) (pc' : SpawnPc), pc'.looks = false ∨ pc' = .popWarm →
      ∀ g ∈ l'.goto pc', g.Calm cfg := by
    intro l' pc' h' g hg
    rw [List.mem_singleton.mp hg]
    cases pc' with
    | health | reject => simp [SpawnPc.looks] at h'
    | _ => exact ⟨rfl, rfl⟩
  have hstop : ∀ l' : SpawnLocals, ∀ g ∈ l'.onStop, g.Calm cfg := by
    intro l'
    unfold SpawnLocals.onStop
    split <;> exact hgoto l' _ (Or.inl rfl)
  have herror : ∀ l' : SpawnLocals, ∀ g ∈ l'.onError, g.Calm cfg := by
    intro l'
    unfold SpawnLocals.onError
    split
    · exact hgoto l' _ (Or.inl rfl)
    · exact hstop l'
  have hproceed : ∀ (l' : SpawnLocals) (a : CapacityAdmission), ∀ g ∈ l'.proceed a,
      g.Calm cfg := by
    intro l' a
    unfold SpawnLocals.proceed
    split
    · exact hgoto _ _ (Or.inl rfl)
    · exact hgoto _ _ (Or.inr rfl)
  have hgo : ∀ (l' : SpawnLocals) (pc' : SpawnPc), pc'.looks = false →
      ∀ g ∈ l'.goto pc', g.Calm cfg := fun l' pc' h' => hgoto l' pc' (Or.inl h')
  have hpop : ∀ l' : SpawnLocals, ∀ g ∈ l'.goto .popWarm, g.Calm cfg :=
    fun l' => hgoto l' _ (Or.inr rfl)
  cases pc with
  | popWarm | health | reject => cases hpc
  | claim =>
    simp only [spawnSection, claimSection]
    repeat' split
    case h_2 hr => exact ⟨Manager.reserve_capacity hr, hproceed _ _⟩
    all_goals
      refine ⟨rfl, ?_⟩
      first | exact hproceed _ _ | exact herror _ | exact hpop _
  | stopEvicted x =>
    refine ⟨rfl, fun g hg => ?_⟩
    rcases List.mem_cons.mp hg with rfl | hg
    · exact ⟨rfl, rfl⟩
    · split at hg
      · exact hpop _ g hg
      · exact herror _ g hg
  | register =>
    simp only [spawnSection]
    split
    · simp only [registerSection]
      refine ⟨?_, by simp [Frame.Calm, Frame.warmStarts, Frame.rejects]⟩
      split <;> rfl
    · exact ⟨rfl, herror _⟩
  | failed =>
    simp only [spawnSection, failedSection]
    split
    · exact ⟨rfl, by simp [SpawnLocals.goto, Frame.Calm, Frame.warmStarts, Frame.rejects]⟩
    · exact ⟨rfl, hgo _ _ rfl⟩
  | countCold =>
    simp only [spawnSection, countColdSection]
    split <;> exact ⟨rfl, hgo _ _ rfl⟩
  | leave =>
    simp only [spawnSection, leaveSection]
    refine ⟨?_, by simp [Frame.Calm, Frame.warmStarts, Frame.rejects]⟩
    cases l.warmClaimHeld <;> cases l.capacityStartHeld <;> cases l.coldStartHeld <;> rfl
  | released => exact ⟨rfl, hstop _⟩
  | stopDead => exact ⟨rfl, herror _⟩
  | stopTarget =>
    simp only [spawnSection]
    refine ⟨by cases l.shutdownTarget <;> rfl, ?_⟩
    split
    · exact hgo _ _ rfl
    · exact herror _
  | track | untrack =>
    exact ⟨by simp only [spawnSection]; cases l.engine <;> rfl, hgo _ _ rfl⟩
  | start =>
    simp only [spawnSection]
    split
    · exact ⟨by cases l.engine <;> rfl, hgo _ _ rfl⟩
    · exact ⟨rfl, herror _⟩
  | _ =>
    simp only [spawnSection]
    repeat' split
    all_goals
      refine ⟨by trivial, ?_⟩
      first | exact hgo _ _ rfl | exact herror _

private theorem budget_eq {m m' : Manager} (h : m'.reserve = m.reserve) :
    m'.warmWorkerStarts = m.warmWorkerStarts ∧ m'.warmBudget = m.warmBudget := by
  simp only [Manager.reserve, Prod.mk.injEq] at h
  simp [Manager.warmBudget, h.1, h.2.1, h.2.2]

/-- Next to `n` warm starts and `b` rejections of other frames, and within `T`. -/
private def Within (cfg : Setup) (T : ℤ) (m : Manager) (fs : List Frame) (n b : ℕ) : Prop :=
  m.warmWorkerStarts = (fs.map Frame.warmStarts).sum + n ∧
    ((m.warmBudget + ((fs.map (Frame.rejects cfg)).sum + b) : ℕ) : ℤ) ≤ T

variable {T : ℤ} {n b : ℕ}

private theorem Within.calm {m' : Manager} {f : Frame} {fs : List Frame}
    (h : Within cfg T m [f] n b) (hf : f.warmStarts = 0) (hm : m'.reserve = m.reserve)
    (hfs : ∀ g ∈ fs, g.Calm cfg) : Within cfg T m' fs n b := by
  obtain ⟨hs, hb⟩ := budget_eq hm
  have hw : (fs.map Frame.warmStarts).sum = 0 :=
    List.sum_eq_zero (by simpa using fun g hg => (hfs g hg).1)
  have hr : (fs.map (Frame.rejects cfg)).sum = 0 :=
    List.sum_eq_zero (by simpa using fun g hg => (hfs g hg).2)
  obtain ⟨h1, h2⟩ := h
  simp only [List.map_cons, List.map_nil, List.sum_cons, List.sum_nil, hf] at h1 h2
  refine ⟨by omega, ?_⟩
  rw [hb, hr]
  omega

private theorem within_spawn (h : Within cfg T m [.spawn pc l] n b) :
    Within cfg T (spawnSection cfg ch m l pc).1 (spawnSection cfg ch m l pc).2.2 n b := by
  by_cases hpc : pc.looks = true
  · obtain ⟨h1, h2⟩ := h
    cases pc with
    | popWarm =>
      simp only [spawnSection, popWarmSection]
      have hm : (if l.warmClaimHeld then m.releaseWarmClaim else m).reserve = m.reserve := by
        split <;> rfl
      generalize (if l.warmClaimHeld then m.releaseWarmClaim else m) = m1 at hm ⊢
      obtain ⟨hs, hb⟩ := budget_eq hm
      simp only [List.map_cons, List.map_nil, List.sum_cons, List.sum_nil, Frame.warmStarts,
        Frame.rejects] at h1 h2
      split
      · simp only [Within, SpawnLocals.goto, List.map_cons, List.map_nil, List.sum_cons,
          List.sum_nil, Frame.warmStarts, Frame.rejects]
        omega
      case h_2 e rest hw =>
        have hlen : m1.warmBudget = rest.length + 1 + m1.warmWorkerStarts +
            m1.stoppingWarmWorkers.card := by
          simp [Manager.warmBudget, hw]
        simp only [Within, SpawnLocals.goto, List.map_cons, List.map_nil, List.sum_cons,
          List.sum_nil, Frame.warmStarts, Frame.rejects, Manager.warmBudget]
        split <;> omega
    | health e =>
      simp only [List.map_cons, List.map_nil, List.sum_cons, List.sum_nil, Frame.warmStarts,
        Frame.rejects] at h1 h2
      simp only [spawnSection]
      cases hh : cfg.checkHealth e <;>
        simp only [hh, Bool.false_eq_true, if_true, if_false, Within, SpawnLocals.goto,
          List.map_cons, List.map_nil, List.sum_cons, List.sum_nil, Frame.warmStarts,
          Frame.rejects] at h2 ⊢ <;>
        omega
    | reject e =>
      have hcard := Finset.card_insert_le e m.stoppingWarmWorkers
      simp only [List.map_cons, List.map_nil, List.sum_cons, List.sum_nil, Frame.warmStarts,
        Frame.rejects, Manager.warmBudget] at h1 h2
      simp only [spawnSection, rejectSection, Within, SpawnLocals.goto, List.map_cons,
        List.map_nil, List.sum_cons, List.sum_nil, Frame.warmStarts, Frame.rejects,
        Manager.warmBudget]
      omega
    | _ => cases hpc
  · rw [Bool.not_eq_true] at hpc
    exact h.calm rfl (calm_spawn hpc).1 (calm_spawn hpc).2

private theorem within_replenish {pc : ReplenishPc}
    (h : Within cfg (max cfg.warmWorkerTarget 0) m [.replenish pc] n b)
    (hq : pc = .decide → (m.warmBudget : ℤ) < max cfg.warmWorkerTarget 0 →
      ((m.warmBudget + b : ℕ) : ℤ) < max cfg.warmWorkerTarget 0) :
    Within cfg (max cfg.warmWorkerTarget 0) (replenishSection cfg ch m pc).1
      (replenishSection cfg ch m pc).2.2 n b := by
  have hsum : ∀ (m' : Manager) (pc' : ReplenishPc), m'.reserve = m.reserve →
      (Frame.replenish pc').warmStarts = (Frame.replenish pc).warmStarts →
      Within cfg (max cfg.warmWorkerTarget 0) m' [.replenish pc'] n b := by
    intro m' pc' hm hpc
    obtain ⟨hs, hb⟩ := budget_eq hm
    unfold Within at h ⊢
    simp only [List.map_cons, List.map_nil, List.sum_cons, List.sum_nil, hpc, hs, hb] at h ⊢
    exact h
  cases pc with
  | decide =>
    simp only [replenishSection, decideSection]
    split
    case isTrue hgo =>
      simp only [Bool.and_eq_true, decide_eq_true_eq] at hgo
      have hlt := hq rfl hgo.2
      obtain ⟨h1, h2⟩ := h
      simp only [List.map_cons, List.map_nil, List.sum_cons, List.sum_nil, Frame.warmStarts,
        Frame.rejects, Manager.warmBudget] at h1 h2 hlt
      simp only [Within, List.map_cons, List.map_nil, List.sum_cons, List.sum_nil,
        Frame.warmStarts, Frame.rejects, Manager.warmBudget]
      omega
    case isFalse =>
      split
      · exact hsum _ _ rfl rfl
      · split
        · exact h.calm rfl rfl (by simp)
        · exact h
  | create =>
    simp only [replenishSection]
    split
    · exact hsum _ _ rfl rfl
    · exact hsum _ _ rfl rfl
  | track e => exact hsum _ _ rfl rfl
  | start e =>
    simp only [replenishSection]
    split
    · exact hsum _ _ rfl rfl
    · exact hsum _ _ rfl rfl
  | failed e => exact hsum _ _ rfl rfl
  | discard e => exact hsum _ _ rfl rfl
  | settle o =>
    obtain ⟨h1, h2⟩ := h
    simp only [List.map_cons, List.map_nil, List.sum_cons, List.sum_nil, Frame.warmStarts,
      Frame.rejects, Manager.warmBudget] at h1 h2
    simp only [replenishSection, settleSection]
    repeat' split
    all_goals
      simp only [Within, List.map_cons, List.map_nil, List.sum_cons, List.sum_nil,
        Frame.warmStarts, Frame.rejects, Manager.warmBudget, Manager.releaseCold,
        List.length_append, List.length_cons, List.length_nil]
      omega
  | cleanup x =>
    simp only [replenishSection, cleanupSection]
    split
    · have hcard := Finset.card_erase_le (s := m.stoppingWarmWorkers) (a := x.engine)
      obtain ⟨h1, h2⟩ := h
      simp only [List.map_cons, List.map_nil, List.sum_cons, List.sum_nil, Frame.warmStarts,
        Frame.rejects, Manager.warmBudget] at h1 h2
      simp only [Within, List.map_cons, List.map_nil, List.sum_cons, List.sum_nil,
        Frame.warmStarts, Frame.rejects, Manager.warmBudget]
      omega
    · exact hsum _ _ rfl rfl

private theorem calm_gate {call : SpawnCall}
    (hg : Frame.spawn pc l ∈ (gateSection cfg ch m call).2.2) : (Frame.spawn pc l).Calm cfg := by
  have hopen : ∀ target, Frame.spawn pc l ∈ (openSpawn m call target).2.2 →
      (Frame.spawn pc l).Calm cfg := by
    intro target hm
    obtain ⟨pc', l', hl, hpc, -⟩ := openSpawn_frames m call target
    rw [hl, List.mem_singleton] at hm
    cases hm
    rcases hpc with rfl | rfl <;> exact ⟨rfl, rfl⟩
  revert hg
  unfold gateSection
  repeat' split
  all_goals first | exact hopen _ | (intro hg; simp [reuseEngine] at hg)

private theorem within_advance {r : Option Outcome} {f : Frame} {x : Next}
    (h : Within cfg (max cfg.warmWorkerTarget 0) m [f] n b)
    (hq : f = .replenish .decide → (m.warmBudget : ℤ) < max cfg.warmWorkerTarget 0 →
      ((m.warmBudget + b : ℕ) : ℤ) < max cfg.warmWorkerTarget 0)
    (hx : f.advance cfg ch m r = some x) :
    Within cfg (max cfg.warmWorkerTarget 0) x.1 x.2.2 n b := by
  by_cases hs : f.family = .spawn
  · cases f with
    | spawn pc l =>
      cases hx
      exact within_spawn h
    | _ => cases hs
  by_cases hr : f.family = .replenish
  · cases f with
    | replenish pc =>
      cases hx
      exact within_replenish h fun hpc => hq (by rw [hpc])
    | _ => cases hr
  have hcalm : f.Calm cfg := Frame.calm_of_family hs hr
  refine h.calm hcalm.1 (Manager.reserve_advance hs hr hx) fun g hg => ?_
  by_cases hgate : f.family = .gate
  · cases f with
    | spawnGate call =>
      have hlead := family_advance hx g hg
      cases hx
      cases g with
      | spawn pc l => exact calm_gate hg
      | replenish => simp [Frame.family, Family.leads] at hlead
      | _ => exact ⟨rfl, rfl⟩
    | _ => cases hgate
  · have hlead := family_advance hx g hg
    refine Frame.calm_of_family ?_ ?_
    all_goals
      intro hk
      rw [hk] at hlead
      revert hlead hs hr hgate
      cases f.family <;> simp [Family.leads]

/-! ## Runs -/

/-- Any operation may be called at any time; and when the replenisher reserves a start, the
warm workers, the starts, the workers being stopped and the candidates under a health check
that will reject them are together fewer than the target. -/
def KeepsReserve (cfg : Setup) (s : System) (a : Act) : Prop :=
  Called s a ∧ match a with
    | .run i _ => ∀ rest r, s.threads[i]? = some ⟨.replenish .decide :: rest, r⟩ →
        (s.shared.warmBudget : ℤ) < max cfg.warmWorkerTarget 0 →
        ((s.shared.warmBudget + total (Frame.rejects cfg) s.frames : ℕ) : ℤ) <
          max cfg.warmWorkerTarget 0
    | _ => True

/-- The budget next to all frames. -/
structure Stocked (cfg : Setup) (m : Manager) (F : Multiset Frame) : Prop where
  starts : m.warmWorkerStarts = total Frame.warmStarts F
  budget : ((m.warmBudget + total (Frame.rejects cfg) F : ℕ) : ℤ) ≤ max cfg.warmWorkerTarget 0

/-- The budget is kept along every run that keeps the reserve. -/
theorem steady_stocked (cfg : Setup) :
    Steady (code cfg) (KeepsReserve cfg) (Stocked cfg) where
  call s f hq h := by
    have hc : f.Calm cfg := by
      cases f with
      | spawn => cases hq.1
      | replenish pc =>
        have hpc : (Frame.replenish pc).opens = true := hq.1
        simp only [Frame.opens, decide_eq_true_eq] at hpc
        subst hpc
        exact ⟨rfl, rfl⟩
      | _ => exact ⟨rfl, rfl⟩
    constructor
    · rw [total_cons, hc.1, zero_add]
      exact h.starts
    · rw [total_cons, hc.2, zero_add]
      exact h.budget
  run s i ch f rest r F hi hq hF h m' r' fs hx := by
    have hw : Within cfg (max cfg.warmWorkerTarget 0) s.shared [f] (total Frame.warmStarts F)
        (total (Frame.rejects cfg) F) := by
      constructor
      · simpa using h.starts
      · simpa using h.budget
    have hcond : f = .replenish .decide →
        (s.shared.warmBudget : ℤ) < max cfg.warmWorkerTarget 0 →
        ((s.shared.warmBudget + total (Frame.rejects cfg) F : ℕ) : ℤ) <
          max cfg.warmWorkerTarget 0 := by
      intro hf hlt
      have hb := hq.2 rest r (hf ▸ hi) hlt
      rw [hF, hf, total_cons] at hb
      simpa [Frame.rejects] using hb
    have hw' := within_advance hw hcond hx
    constructor
    · simpa using hw'.1
    · simpa using hw'.2
  outside s o _ h := ⟨h.starts, h.budget⟩

theorem stocked_start (cfg : Setup) : Stocked cfg System.start.shared System.start.frames where
  starts := by simp [System.start, Config.frames, total, Manager.init]
  budget := by simp [System.start, Config.frames, total, Manager.init, Manager.warmBudget]

/-- Warm reserve bound. In every state of a run in which each warm start is reserved while the
reserve, the candidates that will be rejected included, is below the target, the warm workers,
the warm starts and the warm workers being stopped are together at most the target. -/
theorem warm_reserve_bound (cfg : Setup) {s : System}
    (hr : System.start.Reaches (code cfg) (KeepsReserve cfg) s) :
    ((s.shared.warmWorkers.length + s.shared.warmWorkerStarts +
      s.shared.stoppingWarmWorkers.card : ℕ) : ℤ) ≤ max cfg.warmWorkerTarget 0 := by
  have hb := ((steady_stocked cfg).reaches hr (stocked_start cfg)).budget
  unfold Manager.warmBudget at hb
  omega

private theorem next_iff (s : System) (i : ℕ) (f : Frame) (P : Prop) :
    (s.threads[i]?.bind (·.stack.head?) = some f → P) ↔
      ∀ rest r, s.threads[i]? = some ⟨f :: rest, r⟩ → P := by
  constructor
  · intro h rest r hi
    exact h (by simp [hi])
  · intro h hf
    obtain ⟨⟨stack, r⟩, hi, hhead⟩ := Option.bind_eq_some_iff.mp hf
    obtain ⟨rest, rfl⟩ := List.head?_eq_some_iff.mp hhead
    exact h rest r hi

instance (cfg : Setup) (s : System) (a : Act) : Decidable (KeepsReserve cfg s a) :=
  match a with
  | .call f => inferInstanceAs (Decidable (Called s (.call f) ∧ True))
  | .outside o => inferInstanceAs (Decidable (Called s (.outside o) ∧ True))
  | .run i c => @instDecidableAnd (Called s (.run i c)) _ _
    (decidable_of_iff _ (next_iff s i (.replenish .decide) _))

/-- One worker and a reserve of one, whose first worker is unhealthy. -/
def warmSetup : Setup := ⟨1, 1, true, 60, ⟨none, none, none⟩, fun e => e ≠ 0⟩

/-- The first warm worker is started and popped by a spawn. -/
def popWarmScript : List Act :=
  .call (.replenish .decide) :: sections 0 5 ++ callSpawn "a" :: sections 1 3

/-- The candidate is rejected before the replenisher looks again. -/
theorem warm_reserve_bound_of_rejection :
    ∃ s, System.start.Reaches (code warmSetup) (KeepsReserve warmSetup) s ∧
      s.shared.stoppingWarmWorkers.card = 1 ∧
      ((s.shared.warmWorkers.length + s.shared.warmWorkerStarts +
        s.shared.stoppingWarmWorkers.card : ℕ) : ℤ) ≤ max warmSetup.warmWorkerTarget 0 := by
  obtain ⟨s, hr, hs⟩ : ∃ s, System.start.Reaches (code warmSetup) (KeepsReserve warmSetup) s ∧
      s.shared.stoppingWarmWorkers.card = 1 :=
    exists_of_script (popWarmScript ++ sections 1 2 ++ sections 0 2) (by decide +kernel)
  exact ⟨s, hr, hs, warm_reserve_bound warmSetup hr⟩

/-- The replenisher starts a replacement while the candidate is under its health check, and the
rejected candidate comes on top. -/
theorem warm_reserve_overrun :
    ∃ s, System.start.Reaches (code warmSetup) Called s ∧
      ¬ ((s.shared.warmWorkers.length + s.shared.warmWorkerStarts +
        s.shared.stoppingWarmWorkers.card : ℕ) : ℤ) ≤ max warmSetup.warmWorkerTarget 0 :=
  exists_of_script (popWarmScript ++ sections 0 2 ++ sections 1 2) (by decide +kernel)

end DataForge.Engines
