import DataForge.Engines.Accounts

/-!
# Every section keeps the books

What each frame holds, and that every section moves holdings between its frame, the queued
admissions and the counters without losing or inventing one, as long as it does not overwrite
an installed lifecycle event.
-/

namespace DataForge.Engines

open ReadCommitted Monitor

/-! ## What a frame holds -/

/-- The queued admission that a spawn has claimed and not yet consumed or given up. -/
def SpawnLocals.claim (l : SpawnLocals) : SpawnPc → Option CapacityAdmission
  | .released | .stopEngine | .untrack | .leave => none
  | _ => if l.admissionConsumed then none else l.admission

/-- The engine of its identity that a spawn is stopping or starting. -/
def SpawnLocals.engaged (l : SpawnLocals) : SpawnPc → Option EngineId
  | .stopTarget => l.shutdownTarget
  | .bind | .track | .start | .alive | .stopDead | .register | .failed | .released
  | .stopEngine => l.engine
  | _ => none

/-- The lifecycle that a spawn opened at its gate. No engine of the identity is registered
from there until the spawn registers its own. -/
def SpawnLocals.lifecycle (l : SpawnLocals) (pc : SpawnPc) : Lifecycle :=
  ⟨l.call.key, l.own, l.engaged pc, !l.spawned, l.claim pc⟩

/-- A spawn without tickets. -/
def SpawnLocals.Bare (l : SpawnLocals) : Prop :=
  l.capacityStartHeld = false ∧ l.coldStartHeld = false ∧ l.warmClaimHeld = false

theorem SpawnLocals.Bare.drop_eq {l : SpawnLocals} (h : l.Bare) : l.drop = l := by
  obtain ⟨call, own, a, t, b, s, w, c, e, sp⟩ := l
  obtain ⟨hs, hc, hw⟩ := h
  simp only [SpawnLocals.drop] at *
  rw [hs, hc, hw]

/-- A spawn with a start ticket that has not registered its engine. -/
def SpawnPc.ticketed : SpawnPc → Bool
  | .stopEvicted _ | .popWarm | .health _ | .reject _ | .bind | .countCold | .create | .track
  | .start | .alive | .stopDead | .register => true
  | _ => false

/-- A spawn whose claimed admission is, or may be, still in its queue. -/
def SpawnPc.early : SpawnPc → Bool
  | .stopTarget | .claim | .failed | .released => true
  | _ => false

/-- How the local variables of a spawn fit together: the tickets of a claimed admission are in
the queue until it is consumed, behind the claim there is a start ticket, and a spawn that
has registered its engine is about to leave. -/
structure SpawnLocals.Wf (l : SpawnLocals) (pc : SpawnPc) : Prop where
  bare : l.admission.isSome = true → l.admissionConsumed = false → l.Bare
  early : pc.early = true → l.admissionConsumed = false
  direct : pc = .stopTarget ∨ pc = .claim → l.shutdownTarget = none → l.Bare
  ticket : pc.ticketed = true → l.capacityStartHeld = true
  unspawned : pc ≠ .untrack → pc ≠ .leave → l.spawned = false

/-- The lifecycle of an engine that the reaper stops. -/
def staleLifecycle (x : Key × EngineId × EventId) : Lifecycle :=
  ⟨x.1, x.2.2, some x.2.1, true, none⟩

namespace Frame

/-- Start tickets. -/
def tickets : Frame → ℕ
  | .releaseProbe _ | .releaseStop _ => 1
  | .spawn _ l => l.capacityStartHeld.toNat
  | _ => 0

/-- Counted cold starts. -/
def coldTickets : Frame → ℕ
  | .spawn _ l => l.coldStartHeld.toNat
  | .replenish pc => match pc with
    | .decide | .discard _ | .cleanup _ => 0
    | _ => 1
  | _ => 0

/-- Warm claims. -/
def warmTickets : Frame → ℕ
  | .spawn _ l => l.warmClaimHeld.toNat
  | _ => 0

/-- The lifecycles that a frame has to finish. -/
def lifecycles : Frame → Multiset Lifecycle
  | .finishEngineEvent k ev => {⟨k, ev, none, false, none⟩}
  | .releaseProbe x | .releaseStop x => {x.lifecycle}
  | .stopEngine k ev e => {⟨k, ev, some e, true, none⟩}
  | .reapStop stale => stale.map staleLifecycle
  | .spawn pc l => match pc with
    | .stopEvicted x => {l.lifecycle (.stopEvicted x), x.lifecycle}
    | pc => {l.lifecycle pc}
  | _ => 0

/-- The local variables of every frame fit together. -/
def Wf : Frame → Prop
  | .spawn pc l => l.Wf pc
  | _ => True

end Frame

/-- The frames `fs` are next to frames that hold `n`, `c`, `w` and `L`. -/
structure Posted (cfg : Setup) (m : Manager) (fs : List Frame) (n c w : ℕ)
    (L : Multiset Lifecycle) : Prop where
  wf : ∀ f ∈ fs, f.Wf
  books : Books cfg m ((fs.map Frame.tickets).sum + n) ((fs.map Frame.coldTickets).sum + c)
    ((fs.map Frame.warmTickets).sum + w) ((fs.map Frame.lifecycles).sum + L)

variable {cfg : Setup} {m m' : Manager} {n c w : ℕ} {L : Multiset Lifecycle}

namespace Posted

/-- A frame without holdings. -/
def Idle (f : Frame) : Prop :=
  f.tickets = 0 ∧ f.coldTickets = 0 ∧ f.warmTickets = 0 ∧ f.lifecycles = 0 ∧ f.Wf

variable {fs : List Frame}

theorem of_idle (hf : ∀ f ∈ fs, Idle f) (h : Books cfg m n c w L) :
    Posted cfg m fs n c w L := by
  constructor
  · exact fun f hm => (hf f hm).2.2.2.2
  · have hz : ∀ {M : Type} [AddCommMonoid M] (g : Frame → M), (∀ f ∈ fs, g f = 0) →
        (fs.map g).sum = 0 := by
      intro M _ g hg
      apply List.sum_eq_zero
      simpa using hg
    refine h.cast ?_ ?_ ?_ ?_
    · rw [hz _ fun f hm => (hf f hm).1, zero_add]
    · rw [hz _ fun f hm => (hf f hm).2.1, zero_add]
    · rw [hz _ fun f hm => (hf f hm).2.2.1, zero_add]
    · rw [hz _ fun f hm => (hf f hm).2.2.2.1, zero_add]

variable {f : Frame}

theorem idle (h : Posted cfg m [f] n c w L) (hf : Idle f) : Books cfg m n c w L := by
  have hb := h.books
  simpa [hf.1, hf.2.1, hf.2.2.1, hf.2.2.2.1] using hb

theorem push (h : Posted cfg m fs n c w L) (hf : Idle f) :
    Posted cfg m (f :: fs) n c w L := by
  constructor
  · intro g hg
    rcases List.mem_cons.mp hg with rfl | hg
    · exact hf.2.2.2.2
    · exact h.wf g hg
  · simpa [hf.1, hf.2.1, hf.2.2.1, hf.2.2.2.1] using h.books

theorem same (h : Posted cfg m fs n c w L) (he : m'.account = m.account) :
    Posted cfg m' fs n c w L :=
  ⟨h.wf, h.books.same he⟩

theorem one (h : Posted cfg m [f] n c w L) :
    Books cfg m (f.tickets + n) (f.coldTickets + c) (f.warmTickets + w) (f.lifecycles + L) := by
  simpa using h.books

theorem of_one (hw : f.Wf)
    (h : Books cfg m (f.tickets + n) (f.coldTickets + c) (f.warmTickets + w) (f.lifecycles + L)) :
    Posted cfg m [f] n c w L :=
  ⟨by simpa using hw, by simpa using h⟩

end Posted

/-! ## Notifications and releases -/

theorem idle_notify : Posted.Idle .notifyCapacityChanged := ⟨rfl, rfl, rfl, rfl, trivial⟩

variable {k : Key} {ev : EventId}

theorem Posted.of_finish {e : Option EngineId} {b : Bool}
    (h : Books cfg m n c w (⟨k, ev, e, b, none⟩ ::ₘ L)) :
    Posted cfg m [.finishEngineEvent k ev] n c w L := by
  refine .of_one trivial ((h.relabel none (b := false) fun hf => ?_).cast ?_ ?_ ?_ ?_)
  · cases hf
  all_goals simp [Frame.tickets, Frame.coldTickets, Frame.warmTickets, Frame.lifecycles]

theorem Posted.of_finish_notify {e : Option EngineId} {b : Bool}
    (h : Books cfg m n c w (⟨k, ev, e, b, none⟩ ::ₘ L)) :
    Posted cfg m [.finishEngineEvent k ev, .notifyCapacityChanged] n c w L := by
  have hp := (Posted.of_finish h)
  constructor
  · intro f hf
    rcases List.mem_cons.mp hf with rfl | hf
    · trivial
    · rw [List.mem_singleton.mp hf]
      trivial
  · simpa [idle_notify.1, idle_notify.2.1, idle_notify.2.2.1, idle_notify.2.2.2.1] using hp.books

theorem posted_notify {now : ℕ} (h : Posted cfg m [.notifyCapacityChanged] n c w L)
    (ho : (m.admitSpawnWaitersLocked cfg now).history.overwritten = m.history.overwritten) :
    Posted cfg (m.admitSpawnWaitersLocked cfg now) [] n c w L :=
  .of_idle (by simp) ((h.idle idle_notify).admitSpawnWaiters ho)

theorem posted_finish (h : Posted cfg m [.finishEngineEvent k ev] n c w L) :
    Posted cfg (m.finishEvent k ev) [.notifyCapacityChanged] n c w L := by
  refine .of_idle (by simpa using idle_notify) ?_
  have hb : Books cfg m n c w (⟨k, ev, none, false, none⟩ ::ₘ L) := h.one.cast
    (zero_add n) (zero_add c) (zero_add w) (Multiset.singleton_add _ _)
  exact hb.finishEvent rfl

theorem Books.giveBack {a : CapacityAdmission} {b : Option WaiterId}
    (h : Books cfg m n (c + a.coldStart.toNat) (w + a.warmClaim.toNat) L) :
    Books cfg (m.giveBack a b) n c w L := by
  have hw : Books cfg (if a.warmClaim then m.releaseWarmClaim else m) n
      (c + a.coldStart.toNat) w L := by
    cases hwarm : a.warmClaim with
    | false => simpa [hwarm] using h
    | true =>
      rw [hwarm] at h
      exact h.releaseWarmClaim
  have hc : Books cfg (if a.coldStart then
      (if a.warmClaim then m.releaseWarmClaim else m).releaseCold
      else if a.warmClaim then m.releaseWarmClaim else m) n c w L := by
    cases hcold : a.coldStart with
    | false => simpa [hcold] using hw
    | true =>
      rw [hcold] at hw
      exact hw.releaseCold
  exact hc.same rfl

theorem Manager.giveBack_overwritten (m : Manager) (a : CapacityAdmission)
    (b : Option WaiterId) : (m.giveBack a b).history.overwritten = m.history.overwritten := by
  cases hw : a.warmClaim <;> cases hc : a.coldStart <;>
    simp [Manager.giveBack, hw, hc, Manager.releaseWarmClaim, Manager.releaseCold]

variable {ch : Choice} {r : Option Outcome}

/-- `release_spawn_admission` up to the probe. -/
theorem posted_release {b : Option WaiterId} (h : Posted cfg m [.releaseSpawnAdmission k b] n c w L)
    (ho : (releaseSection cfg ch m r k b).1.history.overwritten = m.history.overwritten) :
    Posted cfg (releaseSection cfg ch m r k b).1 (releaseSection cfg ch m r k b).2.2 n c w L := by
  have hb : Books cfg m n c w L := h.idle ⟨rfl, rfl, rfl, rfl, trivial⟩
  unfold releaseSection at ho ⊢
  cases hd : m.headAdmission k with
  | none => exact .of_idle (by simp) hb
  | some a =>
    simp only [hd] at ho ⊢
    by_cases hcl : a.id ∈ m.claimed
    · simp only [hcl, if_true]
      exact .of_idle (by simp) hb
    · simp only [hcl, if_false] at ho ⊢
      have hg := (hb.popUnclaimed hd hcl).giveBack (b := b)
      cases hev : a.evicted with
      | none =>
        simp only [hev] at ho ⊢
        refine .of_idle (by simpa using idle_notify) (Books.admitSpawnWaiters ?_ ?_)
        · refine (hg.cast rfl rfl rfl ?_).releaseStart
          simp [CapacityAdmission.lifecycles, hev]
        · rw [ho]
          exact ((m.popAdmission k).giveBack_overwritten a b).symm
      | some x =>
        refine .of_one trivial (hg.cast (Nat.add_comm _ _) (zero_add c).symm (zero_add w).symm ?_)
        simp [CapacityAdmission.lifecycles, hev, Frame.lifecycles]

variable {x : Eviction}

theorem posted_releaseProbe (h : Posted cfg m [.releaseProbe x] n c w L)
    (ho : (releaseProbeSection cfg ch m r x).1.history.overwritten = m.history.overwritten) :
    Posted cfg (releaseProbeSection cfg ch m r x).1 (releaseProbeSection cfg ch m r x).2.2
      n c w L := by
  have hb : Books cfg m (n + 1) c w (x.lifecycle ::ₘ L) := h.one.cast
    (Nat.add_comm _ _) (zero_add c) (zero_add w) (Multiset.singleton_add _ _)
  unfold releaseProbeSection at ho ⊢
  split at ho
  case isTrue hcond =>
    simp only [hcond, if_true]
    exact .of_finish_notify (hb.restore.admitSpawnWaiters ho)
  case isFalse hcond =>
    simp only [hcond]
    exact ⟨by simp [Frame.Wf], h.books⟩

theorem posted_releaseStop (h : Posted cfg m [.releaseStop x] n c w L)
    (ho : (releaseStopSection cfg ch m r x).1.history.overwritten = m.history.overwritten) :
    Posted cfg (releaseStopSection cfg ch m r x).1 (releaseStopSection cfg ch m r x).2.2
      n c w L := by
  have hb : Books cfg m (n + 1) c w (x.lifecycle ::ₘ L) := h.one.cast
    (Nat.add_comm _ _) (zero_add c) (zero_add w) (Multiset.singleton_add _ _)
  exact .of_finish_notify ((hb.untrackStoppingEngine x.engine).releaseStart.admitSpawnWaiters ho)

/-! ## Admissions and requests -/

/-- Frames that never hold anything. -/
def Frame.light : Frame → Bool
  | .finishEngineEvent _ _ | .releaseProbe _ | .releaseStop _ | .stopEngine _ _ _ | .reapStop _
  | .spawn _ _ | .replenish _ => false
  | _ => true

theorem Posted.idle_of_light {f : Frame} (h : f.light = true) : Posted.Idle f := by
  cases f <;> first | exact ⟨rfl, rfl, rfl, rfl, trivial⟩ | cases h

variable {fs : List Frame}

theorem Posted.of_light (hfs : ∀ g ∈ fs, g.light = true) (h : Books cfg m n c w L) :
    Posted cfg m fs n c w L :=
  .of_idle (fun g hg => idle_of_light (hfs g hg)) h

theorem Posted.light {f : Frame} (h : Posted cfg m [f] n c w L) (hf : f.light = true)
    (hfs : ∀ g ∈ fs, g.light = true) (he : m'.account = m.account) :
    Posted cfg m' fs n c w L :=
  .of_light hfs ((h.idle (idle_of_light hf)).same he)

theorem AdmissionCall.light_resume {owner : Option WaiterId} (call : AdmissionCall) :
    ∀ g ∈ call.resume owner, g.light = true := by
  unfold AdmissionCall.resume
  split <;> simp [Frame.light]

/-- `await_spawn_admission` behind the turn wait. -/
theorem posted_enqueue {call : AdmissionCall} (h : Posted cfg m [.admission .enqueue call] n c w L)
    (ho : (enqueueSection cfg ch m call).1.history.overwritten = m.history.overwritten) :
    Posted cfg (enqueueSection cfg ch m call).1 (enqueueSection cfg ch m call).2.2 n c w L := by
  unfold enqueueSection at ho ⊢
  by_cases hclosed : m.closed = true
  · simp only [hclosed, if_true]
    exact h.light rfl (by simp) rfl
  · simp only [hclosed, Bool.false_eq_true, if_false] at ho ⊢
    cases he : m.engines.get call.key with
    | some e =>
      refine h.light rfl call.light_resume ?_
      cases hres : call.reserveExistingRequest <;>
        simp [Manager.account, Manager.takeReservation, Manager.touch, Manager.setInfo]
    | none =>
      simp only [he] at ho ⊢
      by_cases hbusy : m.identityBusyLocked call.key = true
      · simp only [hbusy, if_true]
        exact h.light rfl (by simp [Frame.light]) rfl
      · simp only [hbusy, Bool.false_eq_true, if_false] at ho ⊢
        refine .of_light (by simp [Frame.light]) (Books.admitSpawnWaiters ?_ ho)
        exact (h.idle (Posted.idle_of_light rfl)).same rfl

/-- `await_spawn_admission`. -/
theorem posted_admission {pc : AdmissionPc} {call : AdmissionCall} {x : Next}
    (h : Posted cfg m [.admission pc call] n c w L)
    (hx : admissionSection cfg ch m r call pc = some x)
    (ho : x.1.history.overwritten = m.history.overwritten) :
    Posted cfg x.1 x.2.2 n c w L := by
  cases pc with
  | turn =>
    simp only [admissionSection] at hx
    repeat' split at hx
    all_goals
      cases hx
      exact h.light rfl (by simp [Frame.light]) rfl
  | enqueue =>
    cases hx
    exact posted_enqueue h ho
  | parked v =>
    simp only [admissionSection] at hx
    split at hx
    · cases hx
      exact h.light rfl (by simp [Frame.light]) rfl
    · split at hx
      · cases hx
      · cases hx
        exact h.light rfl call.light_resume rfl
      · cases hx
        exact h.light rfl call.light_resume rfl
      · cases hx
        exact h.light rfl (by simp [Frame.light]) rfl
  | cancelled v =>
    cases hx
    refine .of_light (by simp [Frame.light]) (Books.admitSpawnWaiters ?_ ho)
    exact (h.idle (Posted.idle_of_light rfl)).same rfl
  | releasing v =>
    simp only [admissionSection] at hx
    repeat' split at hx
    all_goals
      cases hx
      exact h.light rfl (by simp [Frame.light]) rfl
  | unreserving v =>
    simp only [admissionSection] at hx
    repeat' split at hx
    all_goals
      cases hx
      exact h.light rfl (by simp [Frame.light]) rfl
  | ended =>
    cases hx
    exact h.light rfl (by simp [Frame.light]) rfl

theorem Manager.account_reserveEngineRequest (m : Manager) (now : ℕ) (k : Key) :
    (m.reserveEngineRequest now k).account = m.account := by
  unfold Manager.reserveEngineRequest
  dsimp only
  split <;> rfl

theorem posted_request {pc : RequestPc} {l : RequestLocals}
    (h : Posted cfg m [.request pc l] n c w L) :
    Posted cfg (requestSection cfg ch m l pc).1 (requestSection cfg ch m l pc).2.2 n c w L := by
  cases pc with
  | admitted =>
    simp only [requestSection]
    repeat' split
    · exact h.light rfl (by simp [Frame.light]) rfl
    · exact h.light rfl (by simp [Frame.light]) (m.account_reserveEngineRequest _ _)
    · exact h.light rfl (by simp [Frame.light]) rfl
  | executing =>
    simp only [requestSection]
    repeat' split
    all_goals exact h.light rfl (by simp [Frame.light]) rfl
  | releaseRequest =>
    refine h.light rfl ?_ rfl
    simp only [requestSection]
    split <;> simp [Frame.light]
  | releaseAdmission =>
    simp only [requestSection]
    split
    · refine h.light rfl ?_ rfl
      split <;> simp [Frame.light]
    · exact h.light rfl (by simp) rfl

/-! ## Stopping and reaping -/

variable {e : EngineId}

theorem Books.fence (h : Books cfg m n c w L) (hk : m.engineEvents.get k = none)
    (he : m.engines.get k = some e) :
    Books cfg ((m.installEvent k).beginStop k e) n c w
      (⟨k, m.nextEvent, some e, true, none⟩ ::ₘ L) := by
  have hi := h.installEvent hk none (b := false) (fun hf => by cases hf)
  exact (hi.beginStop (k := k) he).relabel (some e) fun _ => by simp [Manager.beginStop]

theorem posted_shutdown (h : Posted cfg m [.shutdownGate k] n c w L) :
    Posted cfg (shutdownSection m k).1 (shutdownSection m k).2 n c w L := by
  have hb : Books cfg m n c w L := h.idle (Posted.idle_of_light rfl)
  unfold shutdownSection
  cases hk : m.engineEvents.get k with
  | some ev => exact h.light rfl (by simp [Frame.light]) rfl
  | none =>
    simp only
    cases he : m.engines.get k with
    | none =>
      rw [show (m.installEvent k).engines.get k = none from he]
      exact .of_finish (hb.installEvent hk none (b := false) (fun hf => by cases hf))
    | some e =>
      rw [show (m.installEvent k).engines.get k = some e from he]
      refine .of_one trivial ((hb.fence hk he).cast ?_ ?_ ?_ ?_)
      all_goals simp [Frame.tickets, Frame.coldTickets, Frame.warmTickets, Frame.lifecycles]

theorem posted_idle (h : Posted cfg m [.idleGate k] n c w L) :
    Posted cfg (idleSection m k).1 (idleSection m k).2 n c w L := by
  have hb : Books cfg m n c w L := h.idle (Posted.idle_of_light rfl)
  unfold idleSection
  cases hk : m.engineEvents.get k with
  | some ev => exact h.light rfl (by simp [Frame.light]) rfl
  | none =>
    simp only
    cases he : m.engines.get k with
    | none => exact h.light rfl (by simp) rfl
    | some e =>
      simp only
      by_cases hidle : m.idle k e = true
      · simp only [hidle, if_true]
        refine .of_one trivial ((hb.fence hk he).cast ?_ ?_ ?_ ?_)
        all_goals simp [Frame.tickets, Frame.coldTickets, Frame.warmTickets, Frame.lifecycles]
      · simp only [hidle, Bool.false_eq_true, if_false]
        exact h.light rfl (by simp) rfl

theorem Books.reapEach (tracked : List (Key × EngineId)) (h : Books cfg m n c w L) :
    Books cfg (Engines.reapEach cfg ch tracked m).1 n c w
      (((Engines.reapEach cfg ch tracked m).2.map staleLifecycle : List Lifecycle) + L) := by
  induction tracked generalizing m L with
  | nil => simpa [Engines.reapEach] using h
  | cons p rest ih =>
    obtain ⟨k, e⟩ := p
    simp only [Engines.reapEach]
    split
    case isTrue hreap =>
      simp only [reapable, Bool.and_eq_true, decide_eq_true_eq, Option.isNone_iff_eq_none] at hreap
      have hf := ih (h.fence hreap.2 hreap.1.1.1)
      refine hf.cast rfl rfl rfl ?_
      rw [List.map_cons, ← Multiset.cons_coe, Multiset.cons_add, Multiset.add_cons]
      rfl
    case isFalse => exact ih h

theorem posted_reapMark {tracked : List (Key × EngineId)}
    (h : Posted cfg m [.reapMark tracked] n c w L) :
    Posted cfg (reapEach cfg ch tracked m).1 [.reapStop (reapEach cfg ch tracked m).2] n c w L := by
  have hb : Books cfg m n c w L := h.idle (Posted.idle_of_light rfl)
  refine .of_one trivial ((hb.reapEach tracked).cast ?_ ?_ ?_ ?_)
  all_goals simp [Frame.tickets, Frame.coldTickets, Frame.warmTickets, Frame.lifecycles]

/-- The stops of `_reap_idle_engines_once`. -/
theorem posted_reapStop {stale : List (Key × EngineId × EventId)}
    (h : Posted cfg m [.reapStop stale] n c w L) :
    Posted cfg (reapStopSection m stale).1 (reapStopSection m stale).2 n c w L := by
  cases stale with
  | nil =>
    refine ⟨by simp [reapStopSection], h.books.cast ?_ ?_ ?_ ?_⟩
    all_goals simp [reapStopSection, Frame.tickets, Frame.coldTickets, Frame.warmTickets,
      Frame.lifecycles]
  | cons x rest =>
    obtain ⟨k, e, ev⟩ := x
    have hb : Books cfg m n c w (⟨k, ev, some e, true, none⟩ ::ₘ
        ((rest.map staleLifecycle : List Lifecycle) + L)) := by
      refine h.one.cast ?_ ?_ ?_ ?_
      all_goals simp [Frame.tickets, Frame.coldTickets, Frame.warmTickets, Frame.lifecycles,
        staleLifecycle, ← Multiset.cons_coe]
    have hf := (Posted.of_finish (hb.untrackStoppingEngine e)).books
    refine ⟨by simp [reapStopSection, Frame.Wf], hf.cast ?_ ?_ ?_ ?_⟩
    all_goals simp [reapStopSection, Frame.tickets, Frame.coldTickets, Frame.warmTickets,
      Frame.lifecycles, -Multiset.cons_coe]

theorem posted_stopEngine (h : Posted cfg m [.stopEngine k ev e] n c w L) :
    Posted cfg (m.untrackStoppingEngine e) [.finishEngineEvent k ev] n c w L := by
  have hb : Books cfg m n c w (⟨k, ev, some e, true, none⟩ ::ₘ L) := h.one.cast
    (zero_add n) (zero_add c) (zero_add w) (Multiset.singleton_add _ _)
  exact .of_finish (hb.untrackStoppingEngine e)

/-! ## The warm reserve -/

theorem Posted.of_replenish {pc : ReplenishPc} (hpc : (Frame.replenish pc).coldTickets = 0)
    (h : Books cfg m n c w L) : Posted cfg m [.replenish pc] n c w L :=
  .of_idle (by simpa [Idle, Frame.tickets, Frame.warmTickets, Frame.lifecycles, Frame.Wf] using hpc)
    h

theorem Posted.of_replenish_cold {pc : ReplenishPc} (hpc : (Frame.replenish pc).coldTickets = 1)
    (h : Books cfg m n (c + 1) w L) : Posted cfg m [.replenish pc] n c w L := by
  refine .of_one trivial (h.cast (zero_add n).symm ?_ (zero_add w).symm (zero_add L).symm)
  rw [hpc, Nat.add_comm]

theorem Posted.replenish {pc : ReplenishPc} (h : Posted cfg m [.replenish pc] n c w L) :
    Books cfg m n (c + (Frame.replenish pc).coldTickets) w L :=
  h.one.cast (zero_add n) (Nat.add_comm _ _) (zero_add w) (zero_add L)

theorem posted_decide (h : Posted cfg m [.replenish .decide] n c w L) :
    Posted cfg (decideSection cfg m).1 (decideSection cfg m).2.2 n c w L := by
  have hb := h.replenish
  unfold decideSection
  split
  · exact .of_replenish_cold rfl (hb.countCold.same rfl)
  · split
    · exact .of_replenish rfl (hb.same rfl)
    · dsimp only
      split
      · exact .of_idle (by simp) hb
      · exact .of_replenish rfl hb

theorem posted_settle {o : Option EngineId} (h : Posted cfg m [.replenish (.settle o)] n c w L) :
    Posted cfg (settleSection cfg m o).1 (settleSection cfg m o).2.2 n c w L := by
  have hb : Books cfg m.releaseCold n c w L := h.replenish.releaseCold
  unfold settleSection
  cases o with
  | none =>
    refine Posted.push ?_ idle_notify
    exact .of_replenish rfl (hb.same rfl)
  | some e =>
    dsimp only
    split
    · refine Posted.push ?_ idle_notify
      exact .of_replenish rfl (hb.same rfl)
    · refine Posted.push ?_ idle_notify
      exact .of_replenish rfl (hb.same rfl)

theorem posted_replenish {pc : ReplenishPc} (h : Posted cfg m [.replenish pc] n c w L) :
    Posted cfg (replenishSection cfg ch m pc).1 (replenishSection cfg ch m pc).2.2 n c w L := by
  have hb := h.replenish
  cases pc with
  | decide => exact posted_decide h
  | create =>
    simp only [replenishSection]
    split
    · exact .of_replenish_cold rfl (hb.same rfl)
    · exact .of_replenish_cold rfl hb
  | track e => exact .of_replenish_cold rfl (hb.same rfl)
  | start e =>
    simp only [replenishSection]
    split
    · exact .of_replenish_cold rfl (hb.same rfl)
    · exact .of_replenish_cold rfl hb
  | failed e => exact .of_replenish_cold rfl (hb.same rfl)
  | settle o => exact posted_settle h
  | discard e => exact .of_replenish rfl (hb.same rfl)
  | cleanup x =>
    simp only [replenishSection, cleanupSection]
    split
    · exact .of_replenish rfl (hb.same rfl)
    · exact .of_replenish rfl (hb.same rfl)

/-! ## Spawning -/

variable {l l' : SpawnLocals} {pc pc' : SpawnPc}

/-- The books next to a spawn, wherever it stands. -/
def SpawnLocals.Held (cfg : Setup) (m : Manager) (l : SpawnLocals) (n c w : ℕ)
    (L : Multiset Lifecycle) : Prop :=
  Books cfg m (n + l.capacityStartHeld.toNat) (c + l.coldStartHeld.toNat)
    (w + l.warmClaimHeld.toNat) L

theorem Frame.lifecycles_spawn (hpc : ∀ x, pc ≠ .stopEvicted x) :
    (Frame.spawn pc l).lifecycles = {l.lifecycle pc} := by
  cases pc <;> first | rfl | exact absurd rfl (hpc _)

theorem Posted.spawn (h : Posted cfg m [.spawn pc l] n c w L) (hpc : ∀ x, pc ≠ .stopEvicted x) :
    l.Held cfg m n c w (l.lifecycle pc ::ₘ L) := by
  refine h.one.cast (Nat.add_comm _ _) (Nat.add_comm _ _) (Nat.add_comm _ _) ?_
  rw [Frame.lifecycles_spawn hpc, Multiset.singleton_add]

theorem Posted.of_spawn (hw : (Frame.spawn pc l).Wf) (hpc : ∀ x, pc ≠ .stopEvicted x)
    (h : l.Held cfg m n c w (l.lifecycle pc ::ₘ L)) : Posted cfg m (l.goto pc) n c w L := by
  refine .of_one hw (Books.cast h (Nat.add_comm _ _) (Nat.add_comm _ _) (Nat.add_comm _ _) ?_)
  rw [Frame.lifecycles_spawn hpc, Multiset.singleton_add]

theorem SpawnLocals.Held.goto (h : l.Held cfg m n c w (l.lifecycle pc ::ₘ L))
    (hclaim : l'.claim pc' = l.claim pc) (hcall : l'.call = l.call) (hown : l'.own = l.own)
    (hspawned : l'.spawned = l.spawned) (hs : l'.capacityStartHeld = l.capacityStartHeld)
    (hc : l'.coldStartHeld = l.coldStartHeld) (hwarm : l'.warmClaimHeld = l.warmClaimHeld) :
    l'.Held cfg m n c w (l'.lifecycle pc' ::ₘ L) := by
  have hr := Books.relabel h (l'.engaged pc') (b := !l.spawned)
    fun hb => Books.absent h (l.lifecycle pc) (by simp) hb
  unfold SpawnLocals.Held
  rw [hs, hc, hwarm]
  refine Books.cast hr rfl rfl rfl ?_
  rw [SpawnLocals.lifecycle, SpawnLocals.lifecycle, hclaim, hcall, hown, hspawned]

theorem posted_onStop (h : l.Held cfg m n c w (l.lifecycle pc ::ₘ L)) (hw : l.Wf pc)
    (hclaim : l.claim pc = none) : Posted cfg m l.onStop n c w L := by
  unfold SpawnLocals.onStop
  split
  case isTrue hs =>
    refine .of_spawn ⟨hw.bare, ?_, ?_, ?_, fun _ _ => hs.2⟩ (by simp)
      (h.goto hclaim.symm rfl rfl rfl rfl rfl rfl)
    all_goals simp [SpawnPc.early, SpawnPc.ticketed]
  case isFalse =>
    refine .of_spawn ⟨hw.bare, ?_, ?_, ?_, ?_⟩ (by simp)
      (h.goto hclaim.symm rfl rfl rfl rfl rfl rfl)
    all_goals simp [SpawnPc.early, SpawnPc.ticketed]

theorem posted_onError (h : l.Held cfg m n c w (l.lifecycle pc ::ₘ L)) (hw : l.Wf pc)
    (hclaim : l.claim pc = if l.admissionConsumed then none else l.admission) :
    Posted cfg m l.onError n c w L := by
  unfold SpawnLocals.onError
  split
  case isTrue hq =>
    have hsome : (l.claim pc).isSome = true := by simpa [hclaim, hq.2] using hq.1
    have hspawned : l.spawned = false := by
      apply hw.unspawned
      all_goals
        rintro rfl
        cases hsome
    refine .of_spawn ⟨hw.bare, fun _ => hq.2, ?_, ?_, fun _ _ => hspawned⟩ (by simp)
      (h.goto hclaim.symm rfl rfl rfl rfl rfl rfl)
    all_goals simp [SpawnPc.ticketed]
  case isFalse hq =>
    refine posted_onStop h hw ?_
    rw [hclaim]
    cases hc : l.admissionConsumed with
    | true => rfl
    | false => simpa [hc] using hq

theorem SpawnLocals.Wf.claim_eq_none (hw : l.Wf pc) (ht : pc.ticketed = true) :
    (if l.admissionConsumed then none else l.admission) = none := by
  cases hc : l.admissionConsumed with
  | true => rfl
  | false =>
    cases ha : l.admission with
    | none => rfl
    | some a =>
      have hb := (hw.bare (by simp [ha]) hc).1
      rw [hw.ticket ht] at hb
      cases hb

theorem SpawnLocals.Wf.unspawned_of_ticketed (hw : l.Wf pc) (ht : pc.ticketed = true) :
    l.spawned = false := by
  apply hw.unspawned
  all_goals
    rintro rfl
    cases ht

theorem posted_forward (h : l.Held cfg m n c w (l.lifecycle pc ::ₘ L)) (hw : l.Wf pc)
    (ht : pc.ticketed = true) (ht' : pc'.ticketed = true) (hx : ∀ x, pc' ≠ .stopEvicted x)
    (hearly : pc'.early = false)
    (hclaim : l.claim pc = if l.admissionConsumed then none else l.admission)
    (hclaim' : l'.claim pc' = if l'.admissionConsumed then none else l'.admission)
    (hl : l' = { l with engine := l'.engine }) : Posted cfg m (l'.goto pc') n c w L := by
  obtain ⟨e, rfl⟩ : ∃ e, l' = { l with engine := e } := ⟨_, hl⟩
  refine .of_spawn ⟨hw.bare, ?_, ?_, fun _ => hw.ticket ht,
    fun _ _ => hw.unspawned_of_ticketed ht⟩ hx
    (h.goto (hclaim'.trans hclaim.symm) rfl rfl rfl rfl rfl rfl)
  · rw [hearly]
    exact fun hf => by cases hf
  · rintro (rfl | rfl) <;> cases ht'

theorem Posted.cons_finish (h : Posted cfg m fs n c w (⟨k, ev, none, false, none⟩ ::ₘ L)) :
    Posted cfg m (.finishEngineEvent k ev :: fs) n c w L := by
  constructor
  · intro f hf
    rcases List.mem_cons.mp hf with rfl | hf
    · trivial
    · exact h.wf f hf
  · refine h.books.cast ?_ ?_ ?_ ?_
    · simp [Frame.tickets]
    · simp [Frame.coldTickets]
    · simp [Frame.warmTickets]
    · rw [List.map_cons, List.sum_cons, Multiset.add_cons, ← Multiset.singleton_add, add_assoc]
      rfl

/-- The identity gate opens a spawn. -/
theorem posted_openSpawn {call : SpawnCall} {target : Option EngineId}
    (h : Books cfg m n c w L) (hk : m.engineEvents.get call.key = none)
    (ht : m.engines.get call.key = target) :
    Posted cfg (openSpawn m call target).1 (openSpawn m call target).2.2 n c w L := by
  have hc := h.claimHead hk
  unfold openSpawn
  cases target with
  | none =>
    refine .of_spawn ⟨fun _ _ => ⟨rfl, rfl, rfl⟩, fun _ => rfl, fun _ _ => ⟨rfl, rfl, rfl⟩, ?_,
      fun _ _ => rfl⟩ (by simp) ?_
    · simp [SpawnPc.ticketed]
    · exact hc.relabel none fun _ => ht
  | some e =>
    have hstop : ∀ b : Bool, b = true → (m.engines.put call.key none).get call.key = none := by
      simp
    cases ha : m.headAdmission call.key with
    | some a =>
      rw [ha] at hc
      refine .of_spawn ⟨fun _ _ => ⟨rfl, rfl, rfl⟩, fun _ => rfl, ?_, ?_, fun _ _ => rfl⟩
        (by simp) ?_
      · simp
      · simp [SpawnPc.ticketed]
      · exact (hc.beginStop (k := call.key) ht).relabel (some e) (hstop true)
    | none =>
      rw [ha] at hc
      refine .of_spawn ⟨?_, fun _ => rfl, ?_, ?_, fun _ _ => rfl⟩ (by simp) ?_
      · simp
      · simp
      · simp [SpawnPc.ticketed]
      · exact (hc.takeReplacement (k := call.key) ht _).relabel (some e) (hstop true)

theorem posted_gate {call : SpawnCall} (h : Posted cfg m [.spawnGate call] n c w L) :
    Posted cfg (gateSection cfg ch m call).1 (gateSection cfg ch m call).2.2 n c w L := by
  have hb : Books cfg m n c w L := h.idle (Posted.idle_of_light rfl)
  unfold gateSection
  split
  · exact h.light rfl (by simp) rfl
  · cases hk : m.engineEvents.get call.key with
    | some ev => exact h.light rfl (by simp [Frame.light]) rfl
    | none =>
      cases he : m.engines.get call.key with
      | none => exact posted_openSpawn hb hk he
      | some e =>
        simp only
        split
        · exact posted_openSpawn hb hk he
        · refine h.light rfl (by simp [reuseEngine]) ?_
          simp only [reuseEngine]
          split <;> rfl

/-- The tickets of a claimed admission go to the spawn that goes on with them. -/
theorem posted_proceed {a : CapacityAdmission}
    (hcons : l.admission = none ∨ l.admissionConsumed = true) (hspawned : l.spawned = false)
    (h : Books cfg m (n + 1) (c + a.coldStart.toNat) (w + a.warmClaim.toNat)
      (⟨l.call.key, l.own, none, !l.spawned, none⟩ ::ₘ (a.lifecycles + L))) :
    Posted cfg m (l.proceed a) n c w L := by
  have hclaim : (if l.admissionConsumed then none else l.admission) = none := by
    rcases hcons with hc | hc
    · rw [hc, ite_self]
    · rw [hc, if_pos rfl]
  have hwf : ∀ pc : SpawnPc, pc.early = false → (l.hold a).Wf pc := by
    intro pc he
    refine ⟨fun hs hu => ?_, ?_, ?_, fun _ => rfl, fun _ _ => hspawned⟩
    · rcases hcons with hc | hc
      · rw [SpawnLocals.hold, hc] at hs
        cases hs
      · rw [SpawnLocals.hold, hc] at hu
        cases hu
    · rw [he]
      exact fun hf => by cases hf
    · rintro (rfl | rfl) <;> cases he
  unfold SpawnLocals.proceed
  cases hev : a.evicted with
  | none =>
    refine .of_spawn (hwf .popWarm rfl) (by simp) (h.cast rfl rfl rfl ?_)
    rw [CapacityAdmission.lifecycles, hev]
    simp [SpawnLocals.lifecycle, SpawnLocals.hold, SpawnLocals.engaged, SpawnLocals.claim]
    exact hclaim.symm
  | some x =>
    refine .of_one (hwf (.stopEvicted x) rfl) (h.cast ?_ ?_ ?_ ?_)
    · exact Nat.add_comm _ _
    · exact Nat.add_comm _ _
    · exact Nat.add_comm _ _
    · rw [CapacityAdmission.lifecycles, hev]
      simp [Frame.lifecycles, SpawnLocals.lifecycle, SpawnLocals.hold, SpawnLocals.engaged,
        SpawnLocals.claim]
      exact hclaim.symm

theorem SpawnLocals.Held.bare (h : l.Held cfg m n c w L) (hb : l.Bare) :
    Books cfg m n c w L := by
  unfold SpawnLocals.Held at h
  rw [hb.1, hb.2.1, hb.2.2] at h
  exact h

/-- The claim of a spawn. -/
theorem posted_claim (h : Posted cfg m [.spawn .claim l] n c w L)
    (ho : (claimSection cfg m l).1.history.overwritten = m.history.overwritten) :
    Posted cfg (claimSection cfg m l).1 (claimSection cfg m l).2.2 n c w L := by
  have hw : l.Wf .claim := h.wf _ (List.mem_singleton_self _)
  have hb := h.spawn (by simp)
  have hu := hw.early rfl
  have hspawned := hw.unspawned (by simp) (by simp)
  unfold claimSection at ho ⊢
  cases ha : l.admission with
  | some a =>
    have hclaim : (l.lifecycle .claim).claim = some a := by
      simp [SpawnLocals.lifecycle, SpawnLocals.claim, hu, ha]
    have hbare := hb.bare (hw.bare (by simp [ha]) hu)
    have hd : m.headAdmission l.call.key = some a := hbare.head_of_claim hclaim
    simp only [hd, if_true]
    exact posted_proceed (Or.inr rfl) hspawned (hbare.consume hclaim)
  | none =>
    have hclaim : l.claim .claim = none := by simp [SpawnLocals.claim, ha]
    have herror : Posted cfg m l.onError n c w L := posted_onError hb hw rfl
    simp only [ha] at ho ⊢
    by_cases ht : l.shutdownTarget.isSome = true
    · simp only [ht, if_true]
      by_cases hs : l.capacityStartHeld = true
      · simp only [hs, if_true]
        refine .of_spawn ⟨hw.bare, ?_, ?_, fun _ => hs, fun _ _ => hspawned⟩ (by simp)
          (hb.goto rfl rfl rfl rfl rfl rfl rfl)
        all_goals simp [SpawnPc.early]
      · simp only [hs, Bool.false_eq_true, if_false]
        exact herror
    · simp only [ht, Bool.false_eq_true, if_false] at ho ⊢
      by_cases hfull : (m.closed || !m.spawnWaiters.isEmpty) = true
      · simp only [hfull, if_true]
        exact herror
      · simp only [hfull, Bool.false_eq_true, if_false] at ho ⊢
        cases hr : m.reserveCapacityLocked cfg with
        | none => exact herror
        | some x =>
          obtain ⟨a, m1⟩ := x
          simp only [hr] at ho ⊢
          have hbare := hb.bare (hw.direct (Or.inr rfl) (by simpa using ht))
          refine posted_proceed (Or.inl ha) hspawned ((hbare.reserve hr ho).cast rfl rfl rfl ?_)
          rw [Multiset.add_cons, SpawnLocals.lifecycle, hclaim]
          rfl

/-- Stopping the engine that an admission evicted. -/
theorem posted_stopEvicted {ok : Bool} (h : Posted cfg m [.spawn (.stopEvicted x) l] n c w L) :
    Posted cfg (m.untrackStoppingEngine x.engine)
      (.finishEngineEvent x.key x.event :: if ok then l.goto .popWarm else l.onError) n c w L := by
  have hw : l.Wf (.stopEvicted x) := h.wf _ (List.mem_singleton_self _)
  have hb : l.Held cfg m n c w
      (l.lifecycle (.stopEvicted x) ::ₘ ⟨x.key, x.event, none, false, none⟩ ::ₘ L) := by
    have hc : Books cfg m (n + l.capacityStartHeld.toNat) (c + l.coldStartHeld.toNat)
        (w + l.warmClaimHeld.toNat) (x.lifecycle ::ₘ l.lifecycle (.stopEvicted x) ::ₘ L) := by
      refine h.one.cast (Nat.add_comm _ _) (Nat.add_comm _ _) (Nat.add_comm _ _) ?_
      rw [Multiset.cons_swap]
      simp [Frame.lifecycles]
    have hr := hc.relabel none (b := false) fun hf => by cases hf
    rw [Multiset.cons_swap] at hr
    exact hr
  have hu : l.Held cfg (m.untrackStoppingEngine x.engine) n c w
      (l.lifecycle (.stopEvicted x) ::ₘ ⟨x.key, x.event, none, false, none⟩ ::ₘ L) :=
    Books.untrackStoppingEngine hb x.engine
  apply Posted.cons_finish
  cases ok with
  | true => exact posted_forward hu hw rfl rfl (by simp) rfl rfl rfl rfl
  | false => exact posted_onError hu hw rfl

/-- Looking for a warm candidate. -/
theorem posted_popWarm (h : Posted cfg m [.spawn .popWarm l] n c w L) :
    Posted cfg (popWarmSection m l).1 (popWarmSection m l).2.2 n c w L := by
  have hw : l.Wf .popWarm := h.wf _ (List.mem_singleton_self _)
  have hb := h.spawn (by simp)
  have hr : { l with warmClaimHeld := false }.Held cfg
      (if l.warmClaimHeld then m.releaseWarmClaim else m) n c w
      ({ l with warmClaimHeld := false }.lifecycle .popWarm ::ₘ L) := by
    unfold SpawnLocals.Held at hb ⊢
    cases hwarm : l.warmClaimHeld with
    | false =>
      rw [hwarm] at hb
      exact hb
    | true =>
      rw [hwarm] at hb
      exact hb.releaseWarmClaim
  have hw' : { l with warmClaimHeld := false }.Wf .popWarm :=
    ⟨fun ha hu => ⟨(hw.bare ha hu).1, (hw.bare ha hu).2.1, rfl⟩, hw.early, (by simp),
      hw.ticket, hw.unspawned⟩
  unfold popWarmSection
  dsimp only
  split
  · exact posted_forward hr hw' rfl rfl (by simp) rfl rfl rfl rfl
  · exact (posted_forward hr hw' rfl rfl (by simp) rfl rfl rfl rfl).same rfl

/-- Counting a cold start. -/
theorem posted_countCold (h : Posted cfg m [.spawn .countCold l] n c w L) :
    Posted cfg (countColdSection m l).1 (countColdSection m l).2.2 n c w L := by
  have hw : l.Wf .countCold := h.wf _ (List.mem_singleton_self _)
  have hb := h.spawn (by simp)
  unfold countColdSection
  cases hcold : l.coldStartHeld with
  | true =>
    simp only [if_true]
    exact posted_forward hb hw rfl rfl (by simp) rfl rfl rfl rfl
  | false =>
    simp only [Bool.false_eq_true, if_false]
    have hb' : { l with coldStartHeld := true }.Held cfg { m with coldStarts := m.coldStarts + 1 }
        n c w ({ l with coldStartHeld := true }.lifecycle .countCold ::ₘ L) := by
      unfold SpawnLocals.Held at hb ⊢
      rw [hcold] at hb
      exact hb.countCold
    have hw' : { l with coldStartHeld := true }.Wf .countCold := by
      refine ⟨fun ha hu => ?_, hw.early, (by simp), hw.ticket, hw.unspawned⟩
      have hs := (hw.bare ha hu).1
      rw [hw.ticket rfl] at hs
      cases hs
    exact posted_forward hb' hw' rfl rfl (by simp) rfl rfl rfl rfl

theorem posted_register (h : Posted cfg m [.spawn .register l] n c w L) :
    Posted cfg (registerSection ch m l e).1 (registerSection ch m l e).2.2 n c w L := by
  have hw : l.Wf .register := h.wf _ (List.mem_singleton_self _)
  have hb := h.spawn (by simp)
  have hs := hw.ticket rfl
  unfold SpawnLocals.Held at hb
  rw [hs] at hb
  have hr := Books.register (n := n) hb e
  have hm : (registerSection ch m l e).1.account =
      { m.releaseStart with engines := m.engines.put l.call.key (some e) }.account := by
    simp only [registerSection, hs, if_true]
    rfl
  refine Posted.push (.of_spawn ⟨fun ha hu => ?_, ?_, ?_, ?_, ?_⟩ (by simp)
    ((hr.same hm).cast rfl rfl rfl ?_)) idle_notify
  · have hf := (hw.bare ha hu).1
    rw [hs] at hf
    cases hf
  · simp [SpawnPc.early]
  · simp
  · simp [SpawnPc.ticketed]
  · simp
  · have hn := hw.claim_eq_none rfl
    simp only [SpawnLocals.lifecycle, SpawnLocals.claim, SpawnLocals.engaged, Bool.not_true, hn]

/-- The first half of the `except` block. -/
theorem posted_failed (h : Posted cfg m [.spawn .failed l] n c w L) :
    Posted cfg (failedSection m l).1 (failedSection m l).2.2 n c w L := by
  have hw : l.Wf .failed := h.wf _ (List.mem_singleton_self _)
  have hb := h.spawn (by simp)
  have hu := hw.early rfl
  have hwf : l.Wf .released := ⟨hw.bare, fun _ => hu, by simp, by simp [SpawnPc.ticketed],
    fun _ _ => hw.unspawned (by simp) (by simp)⟩
  have hclaim : l.claim .failed = l.admission := by simp [SpawnLocals.claim, hu]
  unfold failedSection
  cases ha : l.admission with
  | some a =>
    have hc : (l.lifecycle .failed).claim = some a := by
      rw [SpawnLocals.lifecycle, hclaim, ha]
    have hd : m.headAdmission l.call.key = some a := Books.head_of_claim hb hc
    simp only [hd, if_true]
    refine Posted.push (.of_spawn hwf (by simp) ?_) (Posted.idle_of_light rfl)
    refine Books.cast (Books.same (Books.unclaim hb hc) ?_) rfl rfl rfl ?_
    · simp [Manager.account, Finset.sdiff_singleton_eq_erase]
    · simp [SpawnLocals.lifecycle, SpawnLocals.claim, SpawnLocals.engaged]
  | none =>
    have hgo : Posted cfg m (l.goto .released) n c w L :=
      .of_spawn hwf (by simp) (hb.goto (hclaim.trans ha).symm rfl rfl rfl rfl rfl rfl)
    split
    · exact (hgo.same (by simp [Manager.account])).push (Posted.idle_of_light rfl)
    · exact hgo

/-- The `finally` block. -/
theorem posted_leave (h : Posted cfg m [.spawn .leave l] n c w L) :
    Posted cfg (leaveSection m l).1 (leaveSection m l).2.2 n c w L := by
  have hb := h.spawn (by simp)
  unfold SpawnLocals.Held at hb
  refine .of_light (by simp [leaveSection, Frame.light]) ?_
  unfold leaveSection
  have hw : Books cfg (if l.warmClaimHeld then m.releaseWarmClaim else m)
      (n + l.capacityStartHeld.toNat) (c + l.coldStartHeld.toNat) w
      (l.lifecycle .leave ::ₘ L) := by
    cases hf : l.warmClaimHeld <;> rw [hf] at hb
    · exact hb
    · exact hb.releaseWarmClaim
  generalize (if l.warmClaimHeld then m.releaseWarmClaim else m) = m1 at hw ⊢
  have hs : Books cfg (if l.capacityStartHeld then m1.releaseStart else m1) n
      (c + l.coldStartHeld.toNat) w (l.lifecycle .leave ::ₘ L) := by
    cases hf : l.capacityStartHeld <;> rw [hf] at hw
    · exact hw
    · exact hw.releaseStart
  dsimp only
  generalize (if l.capacityStartHeld then m1.releaseStart else m1) = m2 at hs ⊢
  have hc : Books cfg (if l.coldStartHeld then m2.releaseCold else m2) n c w
      (l.lifecycle .leave ::ₘ L) := by
    cases hf : l.coldStartHeld <;> rw [hf] at hs
    · exact hs
    · exact hs.releaseCold
  exact hc.popEvent rfl

/-- `spawn_compute_worker` behind its gate. -/
theorem posted_spawn (h : Posted cfg m [.spawn pc l] n c w L)
    (ho : (spawnSection cfg ch m l pc).1.history.overwritten = m.history.overwritten) :
    Posted cfg (spawnSection cfg ch m l pc).1 (spawnSection cfg ch m l pc).2.2 n c w L := by
  have hw : l.Wf pc := h.wf _ (List.mem_singleton_self _)
  cases pc with
  | stopTarget =>
    have hb := h.spawn (by simp)
    have hu : l.Held cfg (l.shutdownTarget.elim m m.untrackStoppingEngine) n c w
        (l.lifecycle .stopTarget ::ₘ L) := by
      cases l.shutdownTarget with
      | none => exact hb
      | some e => exact Books.untrackStoppingEngine hb e
    simp only [spawnSection]
    split
    · exact .of_spawn ⟨hw.bare, fun _ => hw.early rfl, fun _ => hw.direct (Or.inl rfl),
        by simp [SpawnPc.ticketed], fun _ _ => hw.unspawned (by simp) (by simp)⟩ (by simp)
        (hu.goto rfl rfl rfl rfl rfl rfl rfl)
    · exact posted_onError hu hw rfl
  | claim => exact posted_claim h ho
  | stopEvicted x => exact posted_stopEvicted h
  | popWarm => exact posted_popWarm h
  | health e =>
    have hb := h.spawn (by simp)
    simp only [spawnSection]
    split
    · exact posted_forward hb hw rfl rfl (by simp) rfl rfl rfl rfl
    · exact posted_forward hb hw rfl rfl (by simp) rfl rfl rfl rfl
  | reject e =>
    have hb := h.spawn (by simp)
    exact (posted_forward hb hw rfl rfl (by simp) rfl rfl rfl rfl).same rfl
  | bind =>
    have hb := h.spawn (by simp)
    simp only [spawnSection]
    split
    · exact posted_forward hb hw rfl rfl (by simp) rfl rfl rfl rfl
    · exact posted_onError hb hw rfl
  | countCold => exact posted_countCold h
  | create =>
    have hb := h.spawn (by simp)
    simp only [spawnSection]
    split
    · exact (posted_forward hb hw rfl rfl (by simp) rfl rfl rfl rfl).same rfl
    · exact posted_onError hb hw rfl
  | track =>
    have hb := h.spawn (by simp)
    refine (posted_forward hb hw rfl rfl (by simp) rfl rfl rfl rfl).same ?_
    simp only [spawnSection]
    cases l.engine <;> rfl
  | start =>
    have hb := h.spawn (by simp)
    simp only [spawnSection]
    split
    · refine (posted_forward hb hw rfl rfl (by simp) rfl rfl rfl rfl).same ?_
      cases l.engine <;> rfl
    · exact posted_onError hb hw rfl
  | alive =>
    have hb := h.spawn (by simp)
    simp only [spawnSection]
    split
    · exact posted_forward hb hw rfl rfl (by simp) rfl rfl rfl rfl
    · exact posted_forward hb hw rfl rfl (by simp) rfl rfl rfl rfl
  | stopDead => exact posted_onError (h.spawn (by simp)) hw rfl
  | register =>
    simp only [spawnSection]
    split
    · exact posted_register h
    · exact posted_onError (h.spawn (by simp)) hw rfl
  | failed => exact posted_failed h
  | released =>
    have hdrop : (if l.admission.any fun a => a.id ∈ m.released then l.drop else l) = l := by
      split
      case isTrue hany =>
        cases ha : l.admission with
        | none => simp [ha] at hany
        | some a => exact (hw.bare (by simp [ha]) (hw.early rfl)).drop_eq
      case isFalse => rfl
    simp only [spawnSection, hdrop]
    exact posted_onStop (h.spawn (by simp)) hw rfl
  | stopEngine =>
    have hb := h.spawn (by simp)
    exact .of_spawn ⟨hw.bare, by simp [SpawnPc.early], by simp, by simp [SpawnPc.ticketed],
      by simp⟩ (by simp) (hb.goto rfl rfl rfl rfl rfl rfl rfl)
  | untrack =>
    have hb := h.spawn (by simp)
    refine Posted.same (.of_spawn ⟨hw.bare, by simp [SpawnPc.early], by simp,
      by simp [SpawnPc.ticketed], by simp⟩ (by simp) (hb.goto rfl rfl rfl rfl rfl rfl rfl)) ?_
    simp only [spawnSection]
    cases l.engine <;> rfl
  | leave => exact posted_leave h

/-! ## All sections -/

/-- Every section keeps the books, unless it overwrites an installed event. -/
theorem posted_advance {f : Frame} {x : Next} (h : Posted cfg m [f] n c w L)
    (hx : f.advance cfg ch m r = some x) (ho : x.1.history.overwritten = m.history.overwritten) :
    Posted cfg x.1 x.2.2 n c w L := by
  cases f with
  | notifyCapacityChanged =>
    cases hx
    exact posted_notify h ho
  | finishEngineEvent k ev =>
    cases hx
    exact posted_finish h
  | releaseSpawnAdmission k b =>
    cases hx
    exact posted_release h ho
  | releaseProbe e =>
    cases hx
    exact posted_releaseProbe h ho
  | releaseStop e =>
    cases hx
    exact posted_releaseStop h ho
  | reserveEngineRequest k =>
    cases hx
    refine h.light rfl (by simp) ?_
    dsimp only
    split
    · rfl
    · exact m.account_reserveEngineRequest _ _
  | releaseEngineRequest k =>
    cases hx
    exact h.light rfl (by simp [Frame.light]) rfl
  | admission pc call => exact posted_admission h hx ho
  | spawnGate call =>
    cases hx
    exact posted_gate h
  | spawnWait call ev =>
    simp only [Frame.advance] at hx
    split at hx <;> cases hx
    exact h.light rfl (by simp [Frame.light]) rfl
  | spawn pc l =>
    cases hx
    exact posted_spawn h ho
  | acquire call =>
    cases hx
    exact h.light rfl (by simp [Frame.light]) rfl
  | acquired k =>
    simp only [Frame.advance] at hx
    split at hx <;> cases hx <;> exact h.light rfl (by simp [Frame.light]) rfl
  | holding k e =>
    cases hx
    refine h.light rfl (by simp [Frame.light]) ?_
    dsimp only
    split <;> rfl
  | shutdownGate k =>
    cases hx
    exact posted_shutdown h
  | shutdownWait k ev =>
    simp only [Frame.advance] at hx
    split at hx <;> cases hx
    exact h.light rfl (by simp [Frame.light]) rfl
  | idleGate k =>
    cases hx
    exact posted_idle h
  | idleWait k ev =>
    simp only [Frame.advance] at hx
    split at hx <;> cases hx
    exact h.light rfl (by simp [Frame.light]) rfl
  | stopEngine k ev e =>
    cases hx
    exact posted_stopEngine h
  | reapStart =>
    cases hx
    exact h.light rfl (by simp [Frame.light]) rfl
  | reapMark tracked =>
    cases hx
    exact posted_reapMark h
  | reapStop stale =>
    cases hx
    exact posted_reapStop h
  | replenish pc =>
    cases hx
    exact posted_replenish h
  | request pc l =>
    cases hx
    exact posted_request h

end DataForge.Engines
