import DataForge.Engines.Events
import Mathlib.Data.Multiset.Bind

/-!
# Capacity, lifecycle events and identities

Over every interleaving of the sections of all operations: the capacity accounts, the
lifecycle events and the exclusivity of engine identities. All three rest on the lifecycle
event of an identity being installed for as long as its holder needs it, and the one writer
that installs an event without looking is the eviction of `_reserve_capacity_locked`.
-/

namespace DataForge.Engines

open ReadCommitted Monitor

/-- The manager and the calls in progress. -/
abbrev System := Config Manager Frame Outcome

/-- One scheduling decision. -/
abbrev Act := Action Frame Choice EngineChange

/-- A new manager without calls. -/
def System.start : System := ⟨.init, []⟩

/-- The frames with which a call from outside begins. -/
def Frame.opens : Frame → Bool
  | .notifyCapacityChanged | .reserveEngineRequest _ | .releaseEngineRequest _ | .shutdownGate _
  | .idleGate _ | .reapStart => true
  | .releaseSpawnAdmission _ b => b.isNone
  | .spawnGate call | .acquire call => call.onBehalf.isNone
  | .admission pc call => pc = .turn && (call.reserveExistingRequest || !call.forRequest)
  | .replenish pc => pc = .decide
  | _ => false

/-- Any operation may be called at any time. -/
def Called (_ : System) : Act → Prop
  | .call f => f.opens = true
  | _ => True

instance (s : System) (a : Act) : Decidable (Called s a) := by
  unfold Called
  split <;> infer_instance

/-- Moreover, the step evicts no engine whose identity has a lifecycle event installed. -/
def KeepsEvents (cfg : Setup) (s : System) (a : Act) : Prop :=
  Called s a ∧ ∀ s' ∈ s.step (code cfg) a,
    s'.shared.history.overwritten = s.shared.history.overwritten

instance (cfg : Setup) (s : System) (a : Act) : Decidable (KeepsEvents cfg s a) := by
  unfold KeepsEvents
  infer_instance

variable {cfg : Setup} {s : System}

theorem step_run {i : ℕ} {ch : Choice} {f : Frame} {rest : List Frame} {r : Option Outcome}
    {x : Next} (hi : s.threads[i]? = some ⟨f :: rest, r⟩)
    (hx : (code cfg).run ch s.shared r f = some x) :
    s.step (code cfg) (.run i ch) = some ⟨x.1, s.threads.set i ⟨x.2.2 ++ rest, x.2.1⟩⟩ := by
  simp only [Config.step, hi, hx, Option.map_some]

/-! ## Scripts -/

/-- `n` workers, no warm reserve, and engines that are always healthy. -/
def plainSetup (n : ℕ) : Setup := ⟨n, 0, false, 60, ⟨none, none, none⟩, fun _ => true⟩

/-- An analysis engine of the default namespace. -/
def analysisKey (resourceId : String) : Key := ⟨"default", 1, 1, resourceId⟩

/-- A new thread calls `spawn_compute_worker`. -/
def callSpawn (resourceId : String) : Act :=
  .call (.spawnGate ⟨analysisKey resourceId, ⟨none, none, none⟩, false, none⟩)

/-- A new task calls `await_spawn_admission`. -/
def callAdmission (resourceId : String) : Act :=
  .call (.admission .turn ⟨analysisKey resourceId, .interactive, false, false⟩)

/-- Thread `i` runs its next `n` sections. -/
def sections (i n : ℕ) : List Act := List.replicate n (.run i {})

theorem exists_of_script {Q : System → Act → Prop} [∀ s a, Decidable (Q s a)] {P : System → Prop}
    [DecidablePred P] (acts : List Act)
    (h : ((System.start.replay (code cfg) (fun s a => decide (Q s a)) acts).any
      fun s => decide (P s)) = true) :
    ∃ s, System.start.Reaches (code cfg) Q s ∧ P s :=
  Config.exists_of_replay acts h

/-! ## Capacity -/

/-- The books next to all frames. -/
structure Accounted (cfg : Setup) (m : Manager) (F : Multiset Frame) : Prop where
  wf : ∀ f ∈ F, f.Wf
  books : Books cfg m (total Frame.tickets F) (total Frame.coldTickets F)
    (total Frame.warmTickets F) (total Frame.lifecycles F)

theorem idle_of_opens {f : Frame} (h : f.opens = true) : Posted.Idle f := by
  cases f with
  | replenish pc =>
    simp only [Frame.opens, decide_eq_true_eq] at h
    subst h
    exact ⟨rfl, rfl, rfl, rfl, trivial⟩
  | finishEngineEvent | releaseProbe | releaseStop | stopEngine | reapStop | spawn => cases h
  | _ => exact ⟨rfl, rfl, rfl, rfl, trivial⟩

theorem steady_accounted (cfg : Setup) :
    Steady (code cfg) (KeepsEvents cfg) (Accounted cfg) where
  call s f hq h := by
    obtain ⟨ht, hc, hw, hl, hwf⟩ := idle_of_opens hq.1
    constructor
    · intro g hg
      rcases Multiset.mem_cons.mp hg with rfl | hg
      · exact hwf
      · exact h.wf g hg
    · simpa [ht, hc, hw, hl] using h.books
  run s i ch f rest r F hi hq hF h m' r' fs hx := by
    have hp : Posted cfg s.shared [f] (total Frame.tickets F) (total Frame.coldTickets F)
        (total Frame.warmTickets F) (total Frame.lifecycles F) :=
      .of_one (h.wf f (Multiset.mem_cons_self _ _)) (by simpa using h.books)
    have ha := posted_advance hp hx (hq.2 _ (step_run hi hx))
    constructor
    · intro g hg
      rcases Multiset.mem_add.mp hg with hg | hg
      · exact ha.wf g hg
      · exact h.wf g (Multiset.mem_cons_of_mem hg)
    · simpa using ha.books
  outside s o _ h := ⟨h.wf, h.books.same rfl⟩

theorem accounted_start (cfg : Setup) :
    Accounted cfg System.start.shared System.start.frames where
  wf := by simp [System.start, Config.frames]
  books := by
    constructor
    all_goals simp [System.start, Config.frames, total, Manager.init, Manager.queued,
      Manager.capacityUsedLocked, Table.empty]

/-- Capacity accounting. In every state of a run in which no eviction takes an engine whose
lifecycle event is installed, the used capacity is within the budget, the reserved stops are
stops, each counter is the number of its outstanding tickets (those of the queued admissions
and those the calls in progress hold), and no clamp has ever taken effect. -/
theorem capacity_accounting (cfg : Setup) (hr : System.start.Reaches (code cfg) (KeepsEvents cfg) s)
    :
    s.shared.capacityUsedLocked ≤ cfg.computeWorkers ∧
    s.shared.capacityReservedStops ⊆ s.shared.stoppingEngines ∧
    s.shared.capacityStarts = total Frame.tickets s.frames + s.shared.spawnAdmissions.length ∧
    s.shared.coldStarts =
      total Frame.coldTickets s.frames + s.shared.queued (fun a => a.coldStart.toNat) ∧
    s.shared.warmWorkerClaims =
      total Frame.warmTickets s.frames + s.shared.queued (fun a => a.warmClaim.toNat) ∧
    s.shared.history.clamps = 0 := by
  have hb := ((steady_accounted cfg).reaches hr (accounted_start cfg)).books
  exact ⟨hb.used, hb.reserved, hb.starts, hb.cold, hb.warm, hb.clamps⟩

/-- Engine `a` is evicted for `b`, and `b` is starting in its place. -/
def evictScript : List Act :=
  callSpawn "a" :: sections 0 13 ++ callAdmission "b" :: sections 1 2 ++
    callSpawn "b" :: sections 2 3

/-- The evicted engine is stopped, its event is still installed, and the start ticket is with
the spawn. -/
theorem capacity_accounting_of_eviction :
    ∃ s, System.start.Reaches (code (plainSetup 1)) (KeepsEvents (plainSetup 1)) s ∧
      s.shared.capacityStarts = 1 ∧ s.shared.capacityUsedLocked ≤ 1 ∧
      s.shared.history.clamps = 0 := by
  obtain ⟨s, hr, hs⟩ : ∃ s, System.start.Reaches (code (plainSetup 1))
      (KeepsEvents (plainSetup 1)) s ∧ s.shared.capacityStarts = 1 :=
    exists_of_script evictScript (by decide +kernel)
  have hc := capacity_accounting (plainSetup 1) hr
  exact ⟨s, hr, hs, hc.1, hc.2.2.2.2.2⟩

/-- Engine `a` is evicted between its registration and the end of its spawn, which then pops
the event of the eviction. A second spawn of `a` claims the admission of the first one, both
go on with it, and the last `max(…, 0)` hides that its ticket is returned twice. -/
def doubleReleaseScript : List Act :=
  callSpawn "a" :: sections 0 9 ++ callAdmission "b" :: sections 1 2 ++
    callSpawn "b" :: sections 2 16 ++ callAdmission "a" :: sections 3 2 ++
    callSpawn "a" :: sections 4 1 ++ sections 0 3 ++ callSpawn "a" :: sections 5 1 ++
    sections 4 11 ++ sections 5 10 ++ callAdmission "c" :: sections 6 2 ++ sections 5 1 ++
    callSpawn "c" :: sections 7 12

/-- With one worker, a clamp takes effect and two engines are registered. -/
theorem capacity_exceeded :
    ∃ s, System.start.Reaches (code (plainSetup 1)) Called s ∧
      ¬ s.shared.capacityUsedLocked ≤ (plainSetup 1).computeWorkers ∧
      s.shared.history.clamps = 1 :=
  exists_of_script doubleReleaseScript (by decide +kernel)

/-! ## Identities -/

/-- The engine of its identity that a lifecycle starts or stops. -/
def Lifecycle.engines (l : Lifecycle) : Multiset (Key × EngineId) :=
  l.engine.toList.map fun e => (l.key, e)

/-- The engines of all identities: registered, or starting or being stopped by a call in
progress, or evicted by an admission that is still queued. -/
def System.engaged (s : System) : Multiset (Key × EngineId) :=
  s.shared.engines.rows + Multiset.bind
    (total Frame.lifecycles s.frames + s.shared.queued CapacityAdmission.lifecycles)
    Lifecycle.engines

variable {l : Lifecycle}

/-- An engine starts or stops only while its identity is not registered. -/
theorem absent_of_engine {f : Frame} {e : EngineId} (hwf : f.Wf) (hl : l ∈ f.lifecycles)
    (he : l.engine = some e) : l.absent = true := by
  have hspawn : ∀ (v : SpawnLocals) (pc : SpawnPc), v.Wf pc → l = v.lifecycle pc →
      l.absent = true := by
    rintro v pc hv rfl
    have hs : v.spawned = false := by
      apply hv.unspawned
      all_goals
        rintro rfl
        cases he
    simp [SpawnLocals.lifecycle, hs]
  cases f with
  | finishEngineEvent k ev =>
    cases Multiset.mem_singleton.mp hl
    cases he
  | releaseProbe x | releaseStop x =>
    cases Multiset.mem_singleton.mp hl
    rfl
  | stopEngine k ev x =>
    cases Multiset.mem_singleton.mp hl
    rfl
  | reapStop stale =>
    obtain ⟨x, -, rfl⟩ := List.mem_map.mp hl
    rfl
  | spawn pc v =>
    cases pc with
    | stopEvicted x =>
      simp only [Frame.lifecycles, Multiset.insert_eq_cons, Multiset.mem_cons,
        Multiset.mem_singleton] at hl
      rcases hl with hl | rfl
      · exact hspawn v _ hwf hl
      · rfl
    | _ => exact hspawn v _ hwf (Multiset.mem_singleton.mp hl)
  | _ => cases hl

theorem absent_of_queued {m : Manager} (hl : l ∈ m.queued CapacityAdmission.lifecycles) :
    l.absent = true := by
  rw [Manager.queued, ← Multiset.sum_coe, ← Multiset.map_coe] at hl
  change l ∈ Multiset.bind (m.spawnAdmissions : Multiset (Key × CapacityAdmission))
    fun p => p.2.lifecycles at hl
  obtain ⟨p, -, hp⟩ := Multiset.mem_bind.mp hl
  obtain ⟨x, -, rfl⟩ := List.mem_map.mp hp
  rfl

private theorem engines_keys_le (L : Multiset Lifecycle) :
    (Multiset.bind L Lifecycle.engines).map Prod.fst ≤ L.map Lifecycle.key := by
  induction L using Multiset.induction_on with
  | empty => simp
  | cons l L ih =>
    rw [Multiset.cons_bind, Multiset.map_add, Multiset.map_cons, ← Multiset.singleton_add]
    refine add_le_add ?_ ih
    cases he : l.engine <;> simp [Lifecycle.engines, he]

private theorem disjoint_engaged {m : Manager} {F : Multiset Frame} (h : Accounted cfg m F)
    {e : EngineId} (hl : l ∈ total Frame.lifecycles F + m.queued CapacityAdmission.lifecycles)
    (he : l.engine = some e) : m.engines.get l.key = none := by
  refine h.books.absent l hl ?_
  rcases Multiset.mem_add.mp hl with hl | hl
  · obtain ⟨f, hf, hl⟩ := Multiset.mem_bind.mp hl
    exact absent_of_engine (h.wf f hf) hl he
  · exact absent_of_queued hl

private theorem mem_engines {p : Key × EngineId} (h : p ∈ l.engines) :
    p.1 = l.key ∧ l.engine = some p.2 := by
  obtain ⟨e, he, rfl⟩ := List.mem_map.mp h
  exact ⟨rfl, by simpa using he⟩

/-- Identity exclusivity. In every state of a run in which no eviction takes an engine whose
lifecycle event is installed, each identity has at most one engine that is registered,
starting, or being stopped; and where a spawn is about to create an engine, the identity has
none. -/
theorem identity_exclusivity (cfg : Setup)
    (hr : System.start.Reaches (code cfg) (KeepsEvents cfg) s) :
    (s.engaged.map Prod.fst).Nodup ∧
    ∀ l, Frame.spawn .create l ∈ s.frames → ∀ e, (l.call.key, e) ∉ s.engaged := by
  have ha := (steady_accounted cfg).reaches hr (accounted_start cfg)
  constructor
  · rw [System.engaged, Multiset.map_add, Multiset.nodup_add]
    refine ⟨?_, Multiset.nodup_of_le (engines_keys_le _) ha.books.nodup, ?_⟩
    · rw [Multiset.map_coe, Multiset.coe_nodup]
      exact s.shared.engines.nodup
    · rw [Multiset.disjoint_left]
      intro k hk hl
      obtain ⟨p, hp, rfl⟩ := Multiset.mem_map.mp hk
      obtain ⟨q, hq, hpq⟩ := Multiset.mem_map.mp hl
      obtain ⟨l, hmem, hq⟩ := Multiset.mem_bind.mp hq
      have hnone := disjoint_engaged ha hmem (mem_engines hq).2
      rw [Multiset.mem_coe, ← Prod.mk.eta (p := p), Table.mem_rows_iff, ← hpq,
        (mem_engines hq).1, hnone] at hp
      cases hp
  · intro l hf e hmem
    obtain ⟨F, hF⟩ := Multiset.exists_cons_of_mem hf
    have hL : total Frame.lifecycles s.frames =
        l.lifecycle .create ::ₘ total Frame.lifecycles F := by
      rw [hF, total_cons, Frame.lifecycles_spawn (by simp), Multiset.singleton_add]
    have hb := ha.books
    rw [hL] at hb
    have hs : l.spawned = false := (ha.wf _ hf).unspawned (by simp) (by simp)
    rw [System.engaged, hL, Multiset.cons_add, Multiset.cons_bind] at hmem
    rcases Multiset.mem_add.mp hmem with hmem | hmem
    · have hnone := hb.absent (l.lifecycle .create) (by simp) (by simp [SpawnLocals.lifecycle, hs])
      rw [Multiset.mem_coe, Table.mem_rows_iff] at hmem
      cases hmem.symm.trans hnone
    · rcases Multiset.mem_add.mp hmem with hmem | hmem
      · cases (mem_engines hmem).2
      · obtain ⟨l', hl', hmem⟩ := Multiset.mem_bind.mp hmem
        exact hb.distinct hl' (mem_engines hmem).1.symm

/-- After the eviction of `a`, its replacement `b` is the only engine. -/
theorem identity_exclusivity_of_eviction :
    ∃ s : System, System.start.Reaches (code (plainSetup 1)) (KeepsEvents (plainSetup 1)) s ∧
      (analysisKey "b", 1) ∈ s.engaged ∧ (s.engaged.map Prod.fst).Nodup := by
  obtain ⟨s, hr, hs⟩ : ∃ s : System, System.start.Reaches (code (plainSetup 1))
      (KeepsEvents (plainSetup 1)) s ∧ (analysisKey "b", 1) ∈ s.engaged :=
    exists_of_script (evictScript ++ sections 2 5) (by decide +kernel)
  exact ⟨s, hr, hs, (identity_exclusivity (plainSetup 1) hr).1⟩

/-- Engine `a` is evicted between its registration and the end of its spawn, which then pops
the event of the eviction. The next spawn of `a` finds no event and does not wait for the
stop. -/
def doubleEngineScript : List Act :=
  callSpawn "a" :: sections 0 9 ++ callSpawn "z" :: sections 1 13 ++
    callAdmission "b" :: sections 2 2 ++ sections 0 3 ++ callSpawn "a" :: sections 3 8

/-- With two workers, an engine starts while the previous engine of its identity is still to be
stopped. -/
theorem identity_shared :
    ∃ s : System, System.start.Reaches (code (plainSetup 2)) Called s ∧
      ¬ (s.engaged.map Prod.fst).Nodup :=
  exists_of_script doubleEngineScript (by decide +kernel)

/-! ## Lifecycle events -/

theorem Kept.step {P : Manager → Prop} (hP : ∀ sc, Kept cfg sc P) {s s' : System} {a : Act}
    (hs : s.step (code cfg) a = some s') (h : P s.shared) :
    P s'.shared := by
  have hsteady : Steady (code cfg) (fun _ _ => True) fun m (_ : Multiset Frame) => P m :=
    { call := fun _ _ _ h => h
      run := fun _ _ _ _ _ _ _ _ _ _ h _ _ _ hx => (hP _).advance h hx
      outside := fun _ _ _ h => (hP ⟨⊥, ⊥, ⊥⟩).same h rfl }
  exact hsteady.step trivial hs h

/-- The record of events next to all frames: what a frame waits for was installed. -/
structure Awaited (m : Manager) (F : Multiset Frame) : Prop where
  recorded : m.Recorded
  captured : ∀ f ∈ F, ∀ p ∈ f.captured, p ∈ m.history.installed

theorem steady_awaited (cfg : Setup) : Steady (code cfg) Called Awaited where
  call s f hq h := by
    refine ⟨h.recorded, fun g hg p hp => ?_⟩
    rcases Multiset.mem_cons.mp hg with rfl | hg
    · cases g with
      | spawnWait | shutdownWait | idleWait => cases hq
      | _ => cases hp
    · exact h.captured g hg p hp
  run s i ch f rest r F _ _ _ h m' r' fs hx := by
    have hrec := (Manager.kept_recorded cfg _).advance h.recorded hx
    have hsub : s.shared.history.installed <+: m'.history.installed :=
      ((Manager.kept_logs cfg _ s.shared).advance ⟨List.prefix_rfl, List.prefix_rfl⟩ hx).1
    refine ⟨hrec, fun g hg p hp => hsub.subset ?_⟩
    rcases Multiset.mem_add.mp hg with hg | hg
    · exact (h.recorded.current _ _ (captured_advance hx g hg p hp)).1
    · exact h.captured g (Multiset.mem_cons_of_mem hg) p hp
  outside s o _ h := ⟨h.recorded.same rfl, h.captured⟩

theorem awaited_start : Awaited System.start.shared System.start.frames where
  recorded := by constructor <;> simp [System.start, Manager.init]
  captured := by simp [System.start, Config.frames]

theorem overwritten_step {s s' : System} {a : Act} (hs : s.step (code cfg) a = some s') :
    s.shared.history.overwritten <+: s'.shared.history.overwritten :=
  (Kept.step (fun sc => Manager.kept_logs cfg sc s.shared) hs
    ⟨List.prefix_rfl, List.prefix_rfl⟩).2

theorem reaches_keepsEvents_iff (hr : System.start.Reaches (code cfg) Called s) :
    System.start.Reaches (code cfg) (KeepsEvents cfg) s ↔ s.shared.history.overwritten = [] := by
  constructor
  · intro h
    induction h with
    | refl => rfl
    | tail hpre hstep ih =>
      obtain ⟨a, hq, hs⟩ := hstep
      rw [hq.2 _ hs]
      exact ih (Config.Reaches.mono (fun _ _ hk => hk.1) hpre)
  · intro h
    induction hr with
    | refl => exact .refl
    | tail hpre hstep ih =>
      obtain ⟨a, hq, hs⟩ := hstep
      have hnil := List.prefix_nil.mp (h ▸ overwritten_step hs)
      refine (ih hnil).tail ⟨a, ⟨hq, fun u hu => ?_⟩, hs⟩
      rw [Option.mem_def, hs] at hu
      cases hu
      rw [h, hnil]

/-- Every event ever installed is still installed or has been set; and whoever waits for an
event waits for one that has been set or that a call in progress, or a queued admission, still
has to finish. -/
structure EventsKept (s : System) : Prop where
  kept : ∀ p ∈ s.shared.history.installed,
    s.shared.engineEvents.get p.1 = some p.2 ∨ p.2 ∈ s.shared.setEvents
  awaited : ∀ f ∈ s.frames, ∀ p ∈ f.captured, p.2 ∈ s.shared.setEvents ∨
    ∃ l ∈ total Frame.lifecycles s.frames + s.shared.queued CapacityAdmission.lifecycles,
      l.mark = p

/-- Lifecycle events are never orphaned in the runs in which no eviction takes an engine whose
lifecycle event is installed, and in no others. -/
theorem lifecycle_events_kept (cfg : Setup) (hr : System.start.Reaches (code cfg) Called s) :
    EventsKept s ↔ System.start.Reaches (code cfg) (KeepsEvents cfg) s := by
  have hw := (steady_awaited cfg).reaches hr awaited_start
  constructor
  · intro h
    rw [reaches_keepsEvents_iff hr, List.eq_nil_iff_forall_not_mem]
    intro p hp
    obtain ⟨hin, hset⟩ := hw.recorded.lost p hp
    rcases h.kept p hin with hk | hk
    · exact (hw.recorded.current _ _ hk).2.2 hp
    · exact hset hk
  · intro h
    have hnil := (reaches_keepsEvents_iff hr).mp h
    have hb := ((steady_accounted cfg).reaches h (accounted_start cfg)).books
    have hkept : ∀ p ∈ s.shared.history.installed,
        s.shared.engineEvents.get p.1 = some p.2 ∨ p.2 ∈ s.shared.setEvents := by
      intro p hp
      simpa [hnil] using hw.recorded.kept p hp
    refine ⟨hkept, fun f hf p hp => ?_⟩
    rcases hkept p (hw.captured f hf p hp) with hk | hk
    · rw [← Table.mem_rows_iff, ← Multiset.mem_coe, hb.events] at hk
      exact Or.inr (Multiset.mem_map.mp hk)
    · exact Or.inl hk

/-- The event that an eviction installs is kept. -/
theorem lifecycle_events_kept_of_eviction :
    ∃ s, System.start.Reaches (code (plainSetup 1)) Called s ∧
      s.shared.history.installed ≠ [] ∧ EventsKept s := by
  obtain ⟨s, hr, hs⟩ : ∃ s, System.start.Reaches (code (plainSetup 1))
      (KeepsEvents (plainSetup 1)) s ∧ s.shared.history.installed ≠ [] :=
    exists_of_script evictScript (by decide +kernel)
  have hc := Config.Reaches.mono (fun _ _ hk => hk.1) hr
  exact ⟨s, hc, hs, (lifecycle_events_kept (plainSetup 1) hc).mpr hr⟩

/-- The admission that evicted `a` is cancelled while a spawn waits for the event of the
eviction and another admission is queued: `a` is registered again and evicted again before the
event is finished. -/
def orphanScript : List Act :=
  callSpawn "a" :: sections 0 13 ++ callAdmission "b" :: sections 1 2 ++
    callAdmission "c" :: sections 2 2 ++ callSpawn "a" :: sections 3 1 ++
    .run 1 { cancel := true } :: sections 1 6

/-- The event is neither installed nor set, and nobody will set it. -/
theorem lifecycle_event_orphaned :
    ¬ ∀ s, System.start.Reaches (code (plainSetup 1)) Called s → EventsKept s := by
  intro h
  obtain ⟨s, hr, hs⟩ : ∃ s, System.start.Reaches (code (plainSetup 1)) Called s ∧
      (analysisKey "a", 1) ∈ s.shared.history.installed ∧
      s.shared.engineEvents.get (analysisKey "a") ≠ some 1 ∧ 1 ∉ s.shared.setEvents :=
    exists_of_script orphanScript (by decide +kernel)
  rcases (h s hr).kept _ hs.1 with hk | hk
  · exact hs.2.1 hk
  · exact hs.2.2 hk

end DataForge.Engines
