import DataForge.Engines.Operations

/-!
# What a section can do to the manager

Every section is made of a few moves of the registered engines, the lifecycle events and the
request reservations. A property of the manager that each of these moves keeps is kept by
every section (`Kept.advance`).
-/

namespace DataForge.Engines

open ReadCommitted

/-- The fields that the moves change. -/
def Manager.core (m : Manager) : Table Key EngineId × Table Key EventId × Finset EventId ×
    EventId × (Key → ℕ) × List (Key × EventId) × List (Key × EventId) :=
  (m.engines, m.engineEvents, m.setEvents, m.nextEvent, m.requestReservations,
    m.history.installed, m.history.overwritten)

/-- What a section may do to the identities. -/
structure Scope where
  /-- Stop an engine although it is in use. -/
  stops : Key → Prop
  /-- Register an engine. -/
  registers : Key → Prop
  /-- Release a reservation. -/
  releases : Key → Prop

/-- A property of managers that every move in a scope keeps. Engines leave the registry because
they are idle, or because the scope allows it. -/
structure Kept (cfg : Setup) (sc : Scope) (P : Manager → Prop) : Prop where
  same : ∀ {m m' : Manager}, P m → m'.core = m.core → P m'
  install : ∀ {m : Manager} (k : Key), m.engineEvents.get k = none → P m → P (m.installEvent k)
  pop : ∀ {m : Manager} (k : Key), P m → P (m.popEvent k)
  reserve : ∀ {m m' : Manager} {a : CapacityAdmission},
    m.reserveCapacityLocked cfg = some (a, m') → P m → P m'
  take : ∀ {m : Manager} (k : Key), P m → P (m.takeReservation k)
  release : ∀ {m : Manager} (k : Key), sc.releases k → P m → P (m.releaseReservation k)
  stop : ∀ {m : Manager} {k : Key} {e : EngineId}, m.engines.get k = some e →
    m.idle k e = true ∨ sc.stops k → P m → P (m.beginStop k e)
  put : ∀ {m : Manager} (k : Key) (e : EngineId), sc.registers k → P m →
    P { m with engines := m.engines.put k (some e) }

/-- A spawn would restart the registered engine of its identity: its configuration has changed,
or it is no longer alive. -/
def Manager.restarts (cfg : Setup) (m : Manager) (call : SpawnCall) : Prop :=
  ∃ e ∈ m.engines.get call.key, normalizeConfig cfg (m.infos e).resourceConfig ≠ call.config ∨
    (m.infos e).lastKnownAlive = false

/-- What the next section of a frame may do. -/
def Frame.scope (cfg : Setup) (m : Manager) (f : Frame) : Scope where
  stops k := match f with
    | .shutdownGate k' => k = k'
    | .spawnGate call => k = call.key ∧ m.restarts cfg call
    | _ => False
  registers k := match f with
    | .releaseProbe x => k = x.key
    | .spawn .register l => k = l.call.key
    | _ => False
  releases k := match f with
    | .releaseEngineRequest k' => k = k'
    | _ => False

namespace Kept

variable {cfg : Setup} {sc : Scope} {P : Manager → Prop} {m m' : Manager} {now : ℕ}

theorem reserveEngineRequest (hP : Kept cfg sc P) (k : Key) (h : P m) :
    P (m.reserveEngineRequest now k) := by
  have ht := hP.take k h
  unfold Manager.reserveEngineRequest
  dsimp only
  split
  · exact hP.same ht rfl
  · exact ht

theorem admitRound (hP : Kept cfg sc P) (hr : m.admitRound cfg now = some m') (h : P m) :
    P m' := by
  simp only [Manager.admitRound] at hr
  split at hr
  case h_1 => cases hr
  case h_2 v _ =>
    split at hr
    case h_1 e he =>
      cases hr
      simp only [Manager.admitExisting]
      split
      · refine hP.same (hP.take v.key (m := m.resolveWaiter v _) (hP.same h rfl)) rfl
      · exact hP.same h rfl
    case h_2 =>
      obtain ⟨⟨a, m1⟩, hres, rfl⟩ := Option.map_eq_some_iff.mp hr
      have hr' := hP.reserve hres h
      exact hP.same hr' rfl

theorem admitRounds (hP : Kept cfg sc P) (rounds : ℕ) (h : P m) :
    P (m.admitRounds cfg now rounds) := by
  induction rounds generalizing m with
  | zero => exact h
  | succ rounds ih =>
    rw [Manager.admitRounds]
    cases hround : m.admitRound cfg now with
    | none => exact h
    | some m1 => exact ih (hP.admitRound hround h)

theorem admitAll (hP : Kept cfg sc P) (h : P m) : P (m.admitSpawnWaitersLocked cfg now) := by
  rw [Manager.admitSpawnWaitersLocked]
  split
  · exact hP.same h rfl
  · exact hP.admitRounds _ h

theorem giveBack (hP : Kept cfg sc P) (a : CapacityAdmission) (b : Option WaiterId)
    (h : P m) : P (m.giveBack a b) := by
  refine hP.same h ?_
  cases hw : a.warmClaim <;> cases hc : a.coldStart <;>
    simp [Manager.core, Manager.giveBack, hw, hc, Manager.releaseWarmClaim, Manager.releaseCold]

variable {ch : Choice} {r : Option Outcome}

theorem releaseSection (hP : Kept cfg sc P) {k : Key} {b : Option WaiterId} (h : P m) :
    P (releaseSection cfg ch m r k b).1 := by
  unfold Engines.releaseSection
  split
  · exact h
  case h_2 a _ =>
    split
    · exact h
    · have hg : P ((m.popAdmission k).giveBack a b) := hP.giveBack a b (hP.same h rfl)
      dsimp only
      split
      · exact hP.admitAll (hP.same hg rfl)
      · exact hg

theorem admissionSection (hP : Kept cfg sc P) {pc : AdmissionPc} {call : AdmissionCall} {x : Next}
    (h : P m) (hx : Engines.admissionSection cfg ch m r call pc = some x) : P x.1 := by
  cases pc with
  | enqueue =>
    cases hx
    unfold enqueueSection
    split
    · exact h
    · split
      · dsimp only
        split
        · exact hP.same (hP.take call.key h) rfl
        · exact h
      · split
        · exact h
        · exact hP.admitAll (hP.same h rfl)
  | cancelled v =>
    cases hx
    exact hP.admitAll (hP.same h rfl)
  | turn | parked v | releasing v | unreserving v | ended =>
    simp only [Engines.admissionSection] at hx
    repeat' split at hx
    all_goals
      cases hx
      try exact h

theorem openSpawn (hP : Kept cfg sc P) {call : SpawnCall} {target : Option EngineId}
    (hk : m.engineEvents.get call.key = none) (ht : m.engines.get call.key = target)
    (hx : target.isSome = true → sc.stops call.key) (h : P m) : P (openSpawn m call target).1 := by
  have hc : P (claimHead m call) := by
    unfold claimHead
    exact hP.install call.key hk (hP.same h rfl)
  unfold Engines.openSpawn
  cases target with
  | none => exact hc
  | some e =>
    have hs : P ((claimHead m call).beginStop call.key e) := hP.stop ht (Or.inr (hx rfl)) hc
    cases m.headAdmission call.key with
    | some a => exact hs
    | none => exact hP.same hs rfl

theorem gateSection (hP : Kept cfg sc P) {call : SpawnCall}
    (hx : m.restarts cfg call → sc.stops call.key) (h : P m) : P (gateSection cfg ch m call).1 := by
  unfold Engines.gateSection
  split
  · exact h
  · cases hk : m.engineEvents.get call.key with
    | some ev => exact h
    | none =>
      cases he : m.engines.get call.key with
      | none => exact hP.openSpawn hk he (fun hf => by cases hf) h
      | some e =>
        dsimp only
        split
        case isTrue hr => exact hP.openSpawn hk he (fun _ => hx ⟨e, he, hr⟩) h
        case isFalse =>
          refine hP.same h ?_
          unfold reuseEngine
          dsimp only
          split <;> rfl

theorem claimSection (hP : Kept cfg sc P) {l : SpawnLocals} (h : P m) :
    P (claimSection cfg m l).1 := by
  unfold Engines.claimSection
  repeat' split
  case h_2 hr => exact hP.reserve hr h
  all_goals first | exact h | exact hP.same h rfl

/-- `spawn_compute_worker` behind its gate. -/
theorem spawnSection (hP : Kept cfg sc P) {l : SpawnLocals} {pc : SpawnPc}
    (hreg : pc = .register → sc.registers l.call.key) (h : P m) :
    P (spawnSection cfg ch m l pc).1 := by
  cases pc with
  | claim => exact hP.claimSection h
  | leave =>
    simp only [Engines.spawnSection, leaveSection]
    apply hP.pop
    refine hP.same h ?_
    cases l.warmClaimHeld <;> cases l.capacityStartHeld <;> cases l.coldStartHeld <;> rfl
  | register =>
    simp only [Engines.spawnSection]
    split
    case h_1 e _ =>
      have hput := hP.put l.call.key e (hreg rfl) h
      refine hP.same hput ?_
      simp only [registerSection]
      split <;> rfl
    case h_2 => exact h
  | stopTarget | track | start | untrack =>
    refine hP.same h ?_
    simp only [Engines.spawnSection]
    cases l.shutdownTarget <;> cases l.engine <;> first | rfl | (split <;> rfl)
  | popWarm =>
    refine hP.same h ?_
    simp only [Engines.spawnSection, popWarmSection]
    cases l.warmClaimHeld <;> (split <;> rfl)
  | countCold =>
    refine hP.same h ?_
    simp only [Engines.spawnSection, countColdSection]
    split <;> rfl
  | create =>
    refine hP.same h ?_
    simp only [Engines.spawnSection]
    split <;> rfl
  | failed =>
    refine hP.same h ?_
    simp only [Engines.spawnSection, failedSection]
    split <;> rfl
  | stopEvicted x | reject e => exact hP.same h rfl
  | health e | bind | alive | stopDead | released | stopEngine => exact h

theorem reapEach (hP : Kept cfg sc P) (tracked : List (Key × EngineId)) (h : P m) :
    P (reapEach cfg ch tracked m).1 := by
  induction tracked generalizing m with
  | nil => exact h
  | cons p rest ih =>
    obtain ⟨k, e⟩ := p
    simp only [Engines.reapEach]
    split
    case isTrue hreap =>
      simp only [reapable, Bool.and_eq_true, decide_eq_true_eq, Option.isNone_iff_eq_none] at hreap
      refine ih (hP.stop (m := m.installEvent k) hreap.1.1.1 (Or.inl ?_)
        (hP.install k hreap.2 h))
      exact hreap.1.1.2
    case isFalse => exact ih h

/-- Every section. -/
theorem advance {f : Frame} (hP : Kept cfg (f.scope cfg m) P) {x : Next} (h : P m)
    (hx : f.advance cfg ch m r = some x) : P x.1 := by
  cases f with
  | notifyCapacityChanged =>
    cases hx
    exact hP.admitAll h
  | finishEngineEvent k ev =>
    cases hx
    simp only [Manager.finishEvent]
    split
    · exact hP.pop k h
    · exact h
  | releaseSpawnAdmission k b =>
    cases hx
    exact hP.releaseSection h
  | releaseProbe e =>
    cases hx
    unfold releaseProbeSection
    split
    · refine hP.admitAll ?_
      exact hP.put (m := (m.untrackStoppingEngine e.engine).releaseStart) e.key e.engine
        rfl (hP.same h rfl)
    · exact h
  | releaseStop e =>
    cases hx
    exact hP.admitAll (hP.same h rfl)
  | reserveEngineRequest k =>
    cases hx
    dsimp only
    split
    · exact h
    · exact hP.reserveEngineRequest k h
  | releaseEngineRequest k =>
    cases hx
    exact hP.release k rfl h
  | admission pc call => exact hP.admissionSection h hx
  | spawnGate call =>
    cases hx
    exact hP.gateSection (fun hr => ⟨rfl, hr⟩) h
  | spawn pc l =>
    cases hx
    refine hP.spawnSection (fun hpc => ?_) h
    subst hpc
    rfl
  | holding k e =>
    cases hx
    refine hP.same h ?_
    dsimp only
    split <;> rfl
  | shutdownGate k =>
    cases hx
    unfold shutdownSection
    dsimp only
    cases hk : m.engineEvents.get k with
    | some ev => exact h
    | none =>
      have hi := hP.install k hk h
      dsimp only
      split
      case h_1 e he => exact hP.stop he (Or.inr rfl) hi
      case h_2 => exact hi
  | idleGate k =>
    cases hx
    unfold idleSection
    dsimp only
    cases hk : m.engineEvents.get k with
    | some ev => exact h
    | none =>
      dsimp only
      split
      · exact h
      case h_2 e he =>
        split
        case isTrue hidle =>
          exact hP.stop (m := m.installEvent k) he (Or.inl hidle) (hP.install k hk h)
        case isFalse => exact h
  | reapMark tracked =>
    cases hx
    exact hP.reapEach tracked h
  | reapStop stale =>
    cases hx
    cases stale with
    | nil => exact h
    | cons y rest => exact hP.same h rfl
  | replenish pc =>
    cases hx
    refine hP.same h ?_
    cases pc <;> simp only [replenishSection, decideSection, settleSection, cleanupSection] <;>
      repeat' split
    all_goals rfl
  | request pc l =>
    cases hx
    cases pc <;> simp only [requestSection] <;> repeat' split
    all_goals first | exact h | exact hP.reserveEngineRequest _ h
  | stopEngine k ev e =>
    cases hx
    exact hP.same h rfl
  | spawnWait call ev | shutdownWait k ev | idleWait k ev | acquired k =>
    simp only [Frame.advance] at hx
    split at hx <;> cases hx
    all_goals exact h
  | acquire call | reapStart =>
    cases hx
    exact h

end Kept

/-! ## Which frames follow -/

/-- The kinds of frames. -/
inductive Family where
  | notify
  | finish
  | release
  | reserveRequest
  | releaseRequest
  | admission
  | acquire
  | gate
  | spawn
  | stop
  | replenish
  | request
deriving DecidableEq

/-- The kind of a frame. -/
def Frame.family : Frame → Family
  | .notifyCapacityChanged => .notify
  | .finishEngineEvent _ _ => .finish
  | .releaseSpawnAdmission _ _ | .releaseProbe _ | .releaseStop _ => .release
  | .reserveEngineRequest _ => .reserveRequest
  | .releaseEngineRequest _ => .releaseRequest
  | .admission _ _ => .admission
  | .spawnWait _ _ | .acquire _ | .acquired _ | .holding _ _ => .acquire
  | .spawnGate _ => .gate
  | .spawn _ _ => .spawn
  | .shutdownGate _ | .shutdownWait _ _ | .idleGate _ | .idleWait _ _ | .stopEngine _ _ _
  | .reapStart | .reapMark _ | .reapStop _ => .stop
  | .replenish _ => .replenish
  | .request _ _ => .request

/-- The kinds of frames that a section may leave. -/
def Family.leads : Family → List Family
  | .notify | .reserveRequest => []
  | .finish | .releaseRequest => [.notify]
  | .release => [.release, .finish, .notify]
  | .admission => [.admission, .request, .release, .releaseRequest, .notify]
  | .acquire => [.acquire, .gate, .notify]
  | .gate => [.acquire, .spawn]
  | .spawn => [.spawn, .release, .finish, .notify]
  | .stop => [.stop, .finish]
  | .replenish => [.replenish, .notify]
  | .request => [.request, .releaseRequest, .release, .acquire, .gate]

/-- What a spawn behind its gate leaves: the spawn itself, with the same arguments and the same
claimed admission, and calls on its behalf. Only a spawn that has claimed one hands it back. -/
def SpawnLocals.Follows (l : SpawnLocals) (pc : SpawnPc) : Frame → Prop
  | .spawn pc' l' => l'.call = l.call ∧ l'.admission = l.admission ∧
      (pc' = .failed → l.admission.isSome = true)
  | .releaseSpawnAdmission k b => pc = .failed ∧ k = l.call.key ∧ b = l.call.onBehalf
  | .notifyCapacityChanged | .finishEngineEvent _ _ => True
  | _ => False

/-- The frames behind the gate of a spawn. -/
theorem follows_spawn {cfg : Setup} {ch : Choice} {m : Manager} {l : SpawnLocals} {pc : SpawnPc} :
    ∀ g ∈ (spawnSection cfg ch m l pc).2.2, l.Follows pc g := by
  have hgoto : ∀ (l' : SpawnLocals) (pc' : SpawnPc), l'.call = l.call →
      l'.admission = l.admission → pc' ≠ .failed → ∀ g ∈ l'.goto pc', l.Follows pc g := by
    intro l' pc' hc ha hpc g hg
    rw [List.mem_singleton.mp hg]
    exact ⟨hc, ha, fun hf => absurd hf hpc⟩
  have hstop : ∀ l' : SpawnLocals, l'.call = l.call → l'.admission = l.admission →
      ∀ g ∈ l'.onStop, l.Follows pc g := by
    intro l' hc ha
    unfold SpawnLocals.onStop
    split <;> exact hgoto l' _ hc ha nofun
  have herror : ∀ l' : SpawnLocals, l'.call = l.call → l'.admission = l.admission →
      ∀ g ∈ l'.onError, l.Follows pc g := by
    intro l' hc ha
    unfold SpawnLocals.onError
    split
    case isTrue hadm =>
      intro g hg
      rw [List.mem_singleton.mp hg]
      exact ⟨hc, ha, fun _ => ha ▸ hadm.1⟩
    case isFalse => exact hstop l' hc ha
  have hproceed : ∀ (l' : SpawnLocals) (a : CapacityAdmission), l'.call = l.call →
      l'.admission = l.admission → ∀ g ∈ l'.proceed a, l.Follows pc g := by
    intro l' a hc ha
    unfold SpawnLocals.proceed
    split <;> exact hgoto _ _ hc ha nofun
  cases pc with
  | claim =>
    simp only [spawnSection, claimSection]
    repeat' split
    all_goals first | exact hproceed _ _ rfl rfl | exact herror _ rfl rfl |
      exact hgoto _ _ rfl rfl nofun
  | stopEvicted x =>
    intro g hg
    rcases List.mem_cons.mp hg with rfl | hg
    · trivial
    · split at hg
      · exact hgoto _ .popWarm rfl rfl nofun g hg
      · exact herror _ rfl rfl g hg
  | register =>
    simp only [spawnSection]
    split
    · simp [registerSection, SpawnLocals.Follows]
    · exact herror _ rfl rfl
  | failed =>
    simp only [spawnSection, failedSection]
    split
    · simp [SpawnLocals.goto, SpawnLocals.Follows]
    · exact hgoto _ _ rfl rfl nofun
  | popWarm =>
    simp only [spawnSection, popWarmSection]
    split <;> exact hgoto _ _ rfl rfl nofun
  | countCold =>
    simp only [spawnSection, countColdSection]
    split <;> exact hgoto _ _ rfl rfl nofun
  | leave => simp [spawnSection, leaveSection, SpawnLocals.Follows]
  | released =>
    simp only [spawnSection]
    split <;> exact hstop _ rfl rfl
  | stopDead => exact herror _ rfl rfl
  | _ =>
    simp only [spawnSection, rejectSection]
    repeat' split
    all_goals first | exact hgoto _ _ rfl rfl nofun | exact herror _ rfl rfl

theorem openSpawn_frames (m : Manager) (call : SpawnCall) (target : Option EngineId) :
    ∃ pc l, (openSpawn m call target).2.2 = [.spawn pc l] ∧ (pc = .claim ∨ pc = .stopTarget) ∧
      l.call = call ∧ l.admission = m.headAdmission call.key := by
  unfold openSpawn
  cases target with
  | none => exact ⟨_, _, rfl, Or.inl rfl, rfl, rfl⟩
  | some e =>
    cases m.headAdmission call.key with
    | none => exact ⟨_, _, rfl, Or.inr rfl, rfl, rfl⟩
    | some a => exact ⟨_, _, rfl, Or.inr rfl, rfl, rfl⟩

theorem leads_of_all {l : List Frame} {k : Family}
    (h : (l.all fun g => decide (g.family ∈ k.leads)) = true) : ∀ g ∈ l, g.family ∈ k.leads :=
  fun g hg => of_decide_eq_true (List.all_eq_true.mp h g hg)

/-- The kinds of frames that the section of a frame leaves. -/
theorem family_advance {cfg : Setup} {ch : Choice} {m : Manager} {r : Option Outcome}
    {f : Frame} {x : Next} (hx : f.advance cfg ch m r = some x) :
    ∀ g ∈ x.2.2, g.family ∈ f.family.leads := by
  cases f with
  | spawnGate call =>
    cases hx
    have hopen : ∀ target, ∀ g ∈ (openSpawn m call target).2.2,
        g.family ∈ (Frame.spawnGate call).family.leads := by
      intro target g hg
      obtain ⟨pc, l, hl, -⟩ := openSpawn_frames m call target
      rw [hl] at hg
      rw [List.mem_singleton.mp hg]
      exact of_decide_eq_true rfl
    unfold gateSection
    repeat' split
    all_goals first | exact hopen _ | exact leads_of_all rfl
  | shutdownGate k =>
    cases hx
    unfold shutdownSection
    dsimp only
    cases m.engineEvents.get k with
    | some ev => exact leads_of_all rfl
    | none =>
      dsimp only
      split <;> exact leads_of_all rfl
  | idleGate k =>
    cases hx
    unfold idleSection
    dsimp only
    cases m.engineEvents.get k with
    | some ev => exact leads_of_all rfl
    | none =>
      dsimp only
      repeat' split
      all_goals exact leads_of_all rfl
  | spawn pc l =>
    cases hx
    intro g hg
    have hf := follows_spawn g hg
    cases g with
    | spawn | releaseSpawnAdmission | notifyCapacityChanged | finishEngineEvent =>
      exact of_decide_eq_true rfl
    | _ => cases hf
  | admission pc call =>
    cases pc <;>
      simp only [Frame.advance, admissionSection, enqueueSection, AdmissionCall.resume] at hx
    all_goals
      repeat' split at hx
      all_goals
        cases hx
        try exact leads_of_all rfl
  | releaseSpawnAdmission k b =>
    cases hx
    simp only [releaseSection]
    repeat' split
    all_goals exact leads_of_all rfl
  | releaseProbe e =>
    cases hx
    simp only [releaseProbeSection]
    split <;> exact leads_of_all rfl
  | replenish pc =>
    cases hx
    cases pc <;> simp only [replenishSection, decideSection, settleSection, cleanupSection] <;>
      repeat' split
    all_goals exact leads_of_all rfl
  | request pc l =>
    cases hx
    cases pc <;> simp only [requestSection] <;> repeat' split
    all_goals exact leads_of_all rfl
  | reapStop stale =>
    cases hx
    cases stale <;> exact leads_of_all rfl
  | spawnWait call ev | shutdownWait k ev | idleWait k ev | acquired k =>
    simp only [Frame.advance] at hx
    split at hx <;> cases hx
    all_goals exact leads_of_all rfl
  | notifyCapacityChanged | finishEngineEvent k ev | releaseStop e | reserveEngineRequest k
  | releaseEngineRequest k | acquire call | holding k e | stopEngine k ev e | reapStart
  | reapMark tracked =>
    cases hx
    exact leads_of_all rfl

/-! ## What the sections leave alone -/

namespace Manager

/-- The fields that the holders of reservations speak about. -/
def waits (m : Manager) : (Key → ℕ) × List SpawnWaiter × (WaiterId → Option Resolution) ×
    WaiterId × List Key × List Key :=
  (m.requestReservations, m.spawnWaiters, m.resolutions, m.nextWaiter, m.history.taken,
    m.history.released)

/-- The fields that ownership speaks about. -/
def ledger (m : Manager) : List (Key × CapacityAdmission) × (WaiterId → Option Resolution) ×
    AdmissionId × List (AdmissionId × WaiterId) × List (AdmissionId × Option WaiterId) ×
    List (AdmissionId × Option WaiterId) :=
  (m.spawnAdmissions, m.resolutions, m.nextAdmission, m.history.granted, m.history.claims,
    m.history.returns)

/-- The fields that the reserve speaks about. -/
def reserve (m : Manager) : List EngineId × ℕ × Finset EngineId :=
  (m.warmWorkers, m.warmWorkerStarts, m.stoppingWarmWorkers)

/-- What only the admission loop changes: the class that is served next, the grants and the
answers to waiters. -/
def turn (m : Manager) : AdmissionPriority × List SpawnWaiter × List (AdmissionId × WaiterId) ×
    (WaiterId → Option Resolution) :=
  (m.nextSpawnPriority, m.history.served, m.history.granted, m.resolutions)

end Manager

/-- Frames of acquisitions, stops and lifecycle events. -/
def Frame.quiet (f : Frame) : Bool := f.family ∈ [.finish, .acquire, .stop]

variable {cfg : Setup} {ch : Choice} {m : Manager} {r : Option Outcome}

theorem spawnSection_frame {l : SpawnLocals} {pc : SpawnPc} (hpc : pc ≠ .claim) :
    ((spawnSection cfg ch m l pc).1.waits, (spawnSection cfg ch m l pc).1.ledger,
      (spawnSection cfg ch m l pc).1.turn) = (m.waits, m.ledger, m.turn) := by
  cases pc with
  | claim => exact absurd rfl hpc
  | leave =>
    simp only [spawnSection, leaveSection]
    cases l.warmClaimHeld <;> cases l.capacityStartHeld <;> cases l.coldStartHeld <;> rfl
  | register =>
    simp only [spawnSection, registerSection]
    repeat' split
    all_goals rfl
  | stopTarget | track | start | untrack =>
    simp only [spawnSection]
    cases l.shutdownTarget <;> cases l.engine <;> first | rfl | (split <;> rfl)
  | popWarm =>
    simp only [spawnSection, popWarmSection]
    cases l.warmClaimHeld <;> (split <;> rfl)
  | countCold | create | failed =>
    simp only [spawnSection, countColdSection, failedSection]
    split <;> rfl
  | _ => rfl

theorem replenishSection_frame (pc : ReplenishPc) :
    ((replenishSection cfg ch m pc).1.waits, (replenishSection cfg ch m pc).1.ledger,
      (replenishSection cfg ch m pc).1.turn) = (m.waits, m.ledger, m.turn) := by
  cases pc <;> simp only [replenishSection, decideSection, settleSection, cleanupSection] <;>
    repeat' split
  all_goals rfl

/-- The sections of a quiet frame leave the queue, the reservations and the reserve alone. -/
theorem quiet_advance {f : Frame} {x : Next} (hf : f.quiet = true)
    (hx : f.advance cfg ch m r = some x) :
    (x.1.waits, x.1.ledger, x.1.turn, x.1.reserve) = (m.waits, m.ledger, m.turn, m.reserve) := by
  cases f with
  | finishEngineEvent k ev =>
    cases hx
    simp only [Manager.finishEvent]
    split <;> rfl
  | holding k e =>
    cases hx
    dsimp only
    split <;> rfl
  | shutdownGate k =>
    cases hx
    unfold shutdownSection
    dsimp only
    cases m.engineEvents.get k with
    | some ev => rfl
    | none =>
      dsimp only
      split <;> rfl
  | idleGate k =>
    cases hx
    unfold idleSection
    dsimp only
    repeat' split
    all_goals rfl
  | reapMark tracked =>
    cases hx
    dsimp only
    induction tracked generalizing m with
    | nil => rfl
    | cons p rest ih =>
      simp only [reapEach]
      split
      · exact ih rfl
      · exact ih rfl
  | reapStop stale =>
    cases hx
    cases stale <;> rfl
  | spawnWait call ev | shutdownWait k ev | idleWait k ev | acquired k =>
    simp only [Frame.advance] at hx
    split at hx <;> cases hx
    all_goals rfl
  | stopEngine k ev e | acquire call | reapStart =>
    cases hx
    rfl
  | _ => cases hf

end DataForge.Engines
