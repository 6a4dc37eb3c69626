import DataForge.Engines.Moves

/-!
# The books of the process manager

Which tickets are outstanding, and who has to finish which lifecycle event. A start ticket,
a cold start and a warm claim are held by a queued admission or by a frame; an installed
lifecycle event is held by the frame that will finish it or, for an eviction, by the
admission that evicted. `Books` relates these holdings to the fields of the manager. Each
primitive of the model moves entries of the books, and has one lemma here that says which.
-/

namespace DataForge.Engines

open ReadCommitted

/-- An installed lifecycle event, seen from the side that will finish it. -/
structure Lifecycle where
  key : Key
  event : EventId
  /-- The engine of the identity that is starting or being stopped under the event. -/
  engine : Option EngineId
  /-- No engine of the identity is registered. -/
  absent : Bool
  /-- The queued admission that the spawn behind the event has claimed. -/
  claim : Option CapacityAdmission

/-- The entry of `_engine_events` that belongs to it. -/
def Lifecycle.mark (l : Lifecycle) : Key × EventId := (l.key, l.event)

/-- An eviction keeps its event until the engine is stopped or restored. -/
def Eviction.lifecycle (x : Eviction) : Lifecycle := ⟨x.key, x.event, some x.engine, true, none⟩

/-- The lifecycle that an admission has to finish. -/
def CapacityAdmission.lifecycles (a : CapacityAdmission) : Multiset Lifecycle :=
  a.evicted.toList.map Eviction.lifecycle

namespace Manager

/-- What the queued admissions add up to. -/
def queued {M : Type} [AddCommMonoid M] (m : Manager) (g : CapacityAdmission → M) : M :=
  (m.spawnAdmissions.map fun p => g p.2).sum

/-- The fields that the books speak about. -/
def account (m : Manager) : Table Key EngineId × ℕ × Finset EngineId × ℕ ×
    List (Key × CapacityAdmission) × Finset AdmissionId × Table Key EventId × Finset EngineId ×
    ℕ × AdmissionId × ℕ :=
  (m.engines, m.capacityStarts, m.capacityReservedStops, m.coldStarts, m.spawnAdmissions,
    m.claimed, m.engineEvents, m.stoppingEngines, m.warmWorkerClaims, m.nextAdmission,
    m.history.clamps)

end Manager

theorem CapacityAdmission.claim_of_mem {a : CapacityAdmission} {l : Lifecycle}
    (h : l ∈ a.lifecycles) : l.claim = none := by
  obtain ⟨x, -, rfl⟩ := List.mem_map.mp h
  rfl

namespace Manager

variable {m : Manager} {k : Key} {a : CapacityAdmission}

theorem perm_popAdmission (m : Manager) (h : m.headAdmission k = some a) :
    m.spawnAdmissions.Perm ((k, a) :: (m.popAdmission k).spawnAdmissions) := by
  obtain ⟨p, hp, rfl⟩ := Option.map_eq_some_iff.mp h
  have hk : p.1 = k := by simpa using List.find?_some hp
  have hq : ∃ q ∈ m.spawnAdmissions, decide (q.1 = k) = true :=
    ⟨p, List.mem_of_find?_eq_some hp, by simpa using hk⟩
  obtain ⟨q, hmem, hqk⟩ := hq
  obtain ⟨x, l1, l2, hne, hx, heq, herase⟩ :=
    List.exists_of_eraseP (p := fun p : Key × CapacityAdmission => decide (p.1 = k)) hmem hqk
  have hxp : x = p := by
    rw [heq, List.find?_append, List.find?_eq_none.mpr (by simpa using hne), Option.none_or] at hp
    simpa [List.find?_cons, hx] using hp
  rw [Manager.popAdmission, herase, heq, hxp, ← hk]
  exact List.perm_middle

theorem mem_of_mem_pop (m : Manager) {p : Key × CapacityAdmission}
    (h : p ∈ (m.popAdmission k).spawnAdmissions) : p ∈ m.spawnAdmissions :=
  List.mem_of_mem_eraseP h

theorem headAdmission_of_mem (m : Manager) (hn : (m.spawnAdmissions.map Prod.fst).Nodup)
    (h : (k, a) ∈ m.spawnAdmissions) : m.headAdmission k = some a := by
  have hg := (Table.mem_rows_iff ⟨m.spawnAdmissions, hn⟩ k a).mp h
  exact hg

theorem queued_pop {M : Type} [AddCommMonoid M] (m : Manager) {g : CapacityAdmission → M}
    (h : m.headAdmission k = some a) : m.queued g = g a + (m.popAdmission k).queued g := by
  rw [Manager.queued, ((m.perm_popAdmission h).map fun p => g p.2).sum_eq]
  rfl

theorem hasAdmission_eq_false (m : Manager) (k : Key) :
    m.hasAdmission k = false ↔ ∀ p ∈ m.spawnAdmissions, p.1 ≠ k := by
  simp [Manager.hasAdmission]

theorem registered_of_findIdle {e : EngineId} (h : m.findIdleEngineLocked = some (k, e)) :
    m.engines.get k = some e := by
  have hm := List.mem_filter.mp (List.argmin_mem h)
  exact (m.engines.mem_rows_iff k e).mp hm.1

theorem reserve_spec {cfg : Setup} {m' : Manager}
    (h : m.reserveCapacityLocked cfg = some (a, m')) :
    m'.spawnAdmissions = m.spawnAdmissions ∧ a.id = m.nextAdmission ∧ m'.claimed = m.claimed ∧
      m'.nextAdmission = m.nextAdmission + 1 := by
  simp only [Manager.reserveCapacityLocked] at h
  split at h
  · cases h
    exact ⟨rfl, rfl, rfl, rfl⟩
  · split at h
    · cases h
    · cases h
      exact ⟨rfl, rfl, rfl, rfl⟩

theorem pickWaiter_spec {v : SpawnWaiter} (h : m.pickWaiter = some v) :
    v ∈ m.spawnWaiters ∧ m.engineEvents.get v.key = none ∧ m.hasAdmission v.key = false := by
  obtain ⟨q, -, hq⟩ := List.exists_of_findSome?_eq_some h
  have hm := List.mem_filter.mp (List.mem_of_find?_eq_some hq)
  simpa using hm

theorem head_mem (m : Manager) (h : m.headAdmission k = some a) : (k, a) ∈ m.spawnAdmissions :=
  (m.perm_popAdmission h).symm.subset List.mem_cons_self

/-- The logs of installed and of overwritten events only grow. -/
theorem kept_logs (cfg : Setup) (sc : Scope) (m0 : Manager) :
    Kept cfg sc fun m => m0.history.installed <+: m.history.installed ∧
      m0.history.overwritten <+: m.history.overwritten where
  same := by
    intro m m' h he
    simp only [Manager.core, Prod.mk.injEq] at he
    rw [he.2.2.2.2.2.1, he.2.2.2.2.2.2]
    exact h
  install k _ h := ⟨h.1.trans (List.prefix_append _ _), h.2.trans (List.prefix_append _ _)⟩
  pop _ h := h
  reserve := by
    intro m m' a hr h
    simp only [Manager.reserveCapacityLocked] at hr
    split at hr
    · cases hr
      exact h
    · split at hr
      · cases hr
      · cases hr
        exact ⟨h.1.trans (List.prefix_append _ _), h.2.trans (List.prefix_append _ _)⟩
  take _ h := h
  release _ _ h := h
  stop _ _ h := h
  put _ _ _ h := h

end Manager

/-- The manager agrees with `n` start tickets, `c` cold starts and `w` warm claims held by
frames, and with the lifecycles `L` that frames have to finish. -/
structure Books (cfg : Setup) (m : Manager) (n c w : ℕ) (L : Multiset Lifecycle) : Prop where
  starts : m.capacityStarts = n + m.spawnAdmissions.length
  cold : m.coldStarts = c + m.queued fun a => a.coldStart.toNat
  warm : m.warmWorkerClaims = w + m.queued fun a => a.warmClaim.toNat
  clamps : m.history.clamps = 0
  used : m.capacityUsedLocked ≤ cfg.computeWorkers
  reserved : m.capacityReservedStops ⊆ m.stoppingEngines
  keys : (m.spawnAdmissions.map Prod.fst).Nodup
  ids : (m.spawnAdmissions.map fun p => p.2.id).Nodup
  fresh : ∀ p ∈ m.spawnAdmissions, p.2.id < m.nextAdmission
  claimedFresh : ∀ a ∈ m.claimed, a < m.nextAdmission
  events : (m.engineEvents.rows : Multiset (Key × EventId)) =
    (L + m.queued CapacityAdmission.lifecycles).map Lifecycle.mark
  absent : ∀ l ∈ L + m.queued CapacityAdmission.lifecycles, l.absent = true →
    m.engines.get l.key = none
  claimed : ∀ l ∈ L, ∀ a ∈ l.claim, (l.key, a) ∈ m.spawnAdmissions ∧ a.id ∈ m.claimed
  claimant : ∀ p ∈ m.spawnAdmissions, p.2.id ∈ m.claimed →
    ∃ l ∈ L, l.key = p.1 ∧ l.claim = some p.2

variable {cfg : Setup} {m m' : Manager} {n c w : ℕ} {L : Multiset Lifecycle} {l : Lifecycle}
  {k : Key} {a : CapacityAdmission}

namespace Books

theorem same (h : Books cfg m n c w L) (he : m'.account = m.account) :
    Books cfg m' n c w L := by
  simp only [Manager.account, Prod.mk.injEq] at he
  obtain ⟨heng, hst, hres, hcold, hq, hcl, hev, hstop, hw, hnext, hclamp⟩ := he
  have hqueued : ∀ {M : Type} [AddCommMonoid M] (g : CapacityAdmission → M),
      m'.queued g = m.queued g := fun g => by rw [Manager.queued, hq, Manager.queued]
  constructor
  · rw [hst, hq, h.starts]
  · rw [hcold, hqueued, h.cold]
  · rw [hw, hqueued, h.warm]
  · rw [hclamp, h.clamps]
  · simpa only [Manager.capacityUsedLocked, heng, hstop, hres, hst] using h.used
  · rw [hres, hstop]
    exact h.reserved
  · rw [hq]
    exact h.keys
  · rw [hq]
    exact h.ids
  · rw [hq, hnext]
    exact h.fresh
  · rw [hcl, hnext]
    exact h.claimedFresh
  · rw [hev, hqueued, h.events]
  · rw [hqueued, heng]
    exact h.absent
  · rw [hq, hcl]
    exact h.claimed
  · rw [hq, hcl]
    exact h.claimant

theorem cast (h : Books cfg m n c w L) {n' c' w' : ℕ} {L' : Multiset Lifecycle} (hn : n = n')
    (hc : c = c') (hw : w = w') (hL : L = L') : Books cfg m n' c' w' L' := by
  subst hn hc hw hL
  exact h

theorem nodup (h : Books cfg m n c w L) :
    ((L + m.queued CapacityAdmission.lifecycles).map Lifecycle.key).Nodup := by
  have hn : (((m.engineEvents.rows : Multiset (Key × EventId))).map Prod.fst).Nodup := by
    rw [Multiset.map_coe, Multiset.coe_nodup]
    exact m.engineEvents.nodup
  rw [h.events, Multiset.map_map] at hn
  exact hn

theorem distinct (h : Books cfg m n c w (l ::ₘ L)) {l' : Lifecycle}
    (hl : l' ∈ L + m.queued CapacityAdmission.lifecycles) : l'.key ≠ l.key := by
  have hn := h.nodup
  rw [Multiset.cons_add, Multiset.map_cons, Multiset.nodup_cons] at hn
  exact fun he => hn.1 (Multiset.mem_map.mpr ⟨l', hl, he⟩)

theorem installed (h : Books cfg m n c w L) (hl : l ∈ L + m.queued CapacityAdmission.lifecycles) :
    m.engineEvents.get l.key = some l.event := by
  rw [← Table.mem_rows_iff, ← Multiset.mem_coe, h.events]
  exact Multiset.mem_map_of_mem Lifecycle.mark hl

theorem installed_cons (h : Books cfg m n c w (l ::ₘ L)) :
    m.engineEvents.get l.key = some l.event :=
  h.installed (by simp)

/-! ## Counters -/

theorem releaseStart (h : Books cfg m (n + 1) c w L) : Books cfg m.releaseStart n c w L := by
  have hs := h.starts
  have hu := h.used
  exact
    { h with
      starts := by
        simp only [Manager.releaseStart]
        omega
      clamps := by
        simp only [Manager.releaseStart, h.clamps]
        rw [if_neg (by omega)]
      used := by
        simp only [Manager.capacityUsedLocked, Manager.releaseStart] at hu ⊢
        omega }

theorem releaseCold (h : Books cfg m n (c + 1) w L) : Books cfg m.releaseCold n c w L := by
  have hc := h.cold
  exact
    { h with
      cold := by
        simp only [Manager.releaseCold, Manager.queued] at hc ⊢
        omega
      clamps := by
        simp only [Manager.releaseCold, h.clamps]
        rw [if_neg (by omega)] }

theorem releaseWarmClaim (h : Books cfg m n c (w + 1) L) :
    Books cfg m.releaseWarmClaim n c w L := by
  have hw := h.warm
  exact
    { h with
      warm := by
        simp only [Manager.releaseWarmClaim, Manager.queued] at hw ⊢
        omega
      clamps := by
        simp only [Manager.releaseWarmClaim, h.clamps]
        rw [if_neg (by omega)] }

theorem countCold (h : Books cfg m n c w L) :
    Books cfg { m with coldStarts := m.coldStarts + 1 } n (c + 1) w L :=
  { h with
    cold := by
      have hc := h.cold
      simp only [Manager.queued] at hc ⊢
      omega }

theorem takeStart (h : Books cfg m n c w L) (hu : m.capacityUsedLocked < cfg.computeWorkers)
    (warm : Bool) :
    Books cfg (m.takeStart warm) (n + 1) (c + (!warm).toNat) (w + warm.toNat) L := by
  have hs := h.starts
  have hc := h.cold
  have hw := h.warm
  exact
    { h with
      starts := by
        simp only [Manager.takeStart]
        omega
      cold := by
        simp only [Manager.takeStart, Manager.queued] at hc ⊢
        omega
      warm := by
        simp only [Manager.takeStart, Manager.queued] at hw ⊢
        omega
      used := by
        simp only [Manager.capacityUsedLocked, Manager.takeStart] at hu ⊢
        omega }

/-! ## Engines -/

private theorem card_erase_le {R S : Finset EngineId} (hR : R ⊆ S) (e : EngineId) :
    (S.erase e).card + R.card ≤ S.card + (R.erase e).card := by
  by_cases hs : e ∈ S
  · have hcs := Finset.card_erase_add_one hs
    by_cases hr : e ∈ R
    · have hcr := Finset.card_erase_add_one hr
      omega
    · rw [Finset.erase_eq_of_notMem hr]
      omega
  · rw [Finset.erase_eq_of_notMem hs, Finset.erase_eq_of_notMem (fun hr => hs (hR hr))]

private theorem card_insert_le {R S : Finset EngineId} (hR : R ⊆ S) (e : EngineId) :
    (insert e S).card + R.card ≤ S.card + (insert e R).card := by
  by_cases hr : e ∈ R
  · rw [Finset.insert_eq_of_mem hr, Finset.insert_eq_of_mem (hR hr)]
  · have hcr := Finset.card_insert_of_notMem hr
    have hcs := Finset.card_insert_le e S
    omega

private theorem length_delete {t : Table Key EngineId} {k : Key} {e : EngineId}
    (h : t.get k = some e) : (t.put k none).rows.length + 1 = t.rows.length :=
  (t.perm_delete h).length_eq.symm

private theorem length_put_le (t : Table Key EngineId) (k : Key) (e : EngineId) :
    (t.put k (some e)).rows.length ≤ t.rows.length + 1 := by
  have hp := (t.perm_put_some k e).length_eq
  rw [List.length_cons] at hp
  cases hg : t.get k with
  | none =>
    rw [t.rows_put_none hg] at hp
    omega
  | some e' =>
    have hd := length_delete hg
    omega

private theorem absent_delete (h : Books cfg m n c w L) (k : Key) :
    ∀ l ∈ L + m.queued CapacityAdmission.lifecycles, l.absent = true →
      (m.engines.put k none).get l.key = none := by
  intro l hl ha
  rw [Table.get_put]
  split
  · rfl
  · exact h.absent l hl ha

theorem untrackStoppingEngine (h : Books cfg m n c w L) (e : EngineId) :
    Books cfg (m.untrackStoppingEngine e) n c w L := by
  have hu := h.used
  have hcard := card_erase_le h.reserved e
  exact
    { h with
      used := by
        simp only [Manager.capacityUsedLocked, Manager.untrackStoppingEngine] at hu ⊢
        omega
      reserved := Finset.erase_subset_erase e h.reserved }

theorem beginStop (h : Books cfg m n c w L) {e : EngineId} (he : m.engines.get k = some e) :
    Books cfg (m.beginStop k e) n c w L := by
  have hu := h.used
  have hlen := length_delete he
  have hcard := Finset.card_insert_le e m.stoppingEngines
  exact
    { h with
      used := by
        simp only [Manager.capacityUsedLocked, Manager.beginStop] at hu ⊢
        omega
      reserved := h.reserved.trans (Finset.subset_insert _ _)
      absent := absent_delete h k }

/-- A registered engine is moved to the stopping ones and its capacity to a start ticket. -/
theorem takeReplacement (h : Books cfg m n c w L) {e : EngineId} (he : m.engines.get k = some e)
    (warm : Bool) :
    Books cfg (m.takeReplacement k e warm) (n + 1) (c + (!warm).toNat) (w + warm.toNat) L := by
  have hs := h.starts
  have hc := h.cold
  have hw := h.warm
  have hu := h.used
  have hlen := length_delete he
  have hcard := card_insert_le h.reserved e
  exact
    { h with
      starts := by
        simp only [Manager.takeReplacement, Manager.takeStart, Manager.beginStop]
        omega
      cold := by
        simp only [Manager.takeReplacement, Manager.takeStart, Manager.beginStop,
          Manager.queued] at hc ⊢
        omega
      warm := by
        simp only [Manager.takeReplacement, Manager.takeStart, Manager.beginStop,
          Manager.queued] at hw ⊢
        omega
      used := by
        simp only [Manager.capacityUsedLocked, Manager.takeReplacement, Manager.takeStart,
          Manager.beginStop] at hu ⊢
        omega
      reserved := Finset.insert_subset_insert e h.reserved
      absent := absent_delete h k }

/-! ## Lifecycle events -/

/-- What is known about the engine of an open lifecycle changes. -/
theorem relabel (h : Books cfg m n c w (l ::ₘ L)) (e : Option EngineId) {b : Bool}
    (hb : b = true → m.engines.get l.key = none) :
    Books cfg m n c w ({ l with engine := e, absent := b } ::ₘ L) := by
  refine
    { h with
      events := ?_
      absent := ?_
      claimed := ?_
      claimant := ?_ }
  · have he := h.events
    rw [Multiset.cons_add, Multiset.map_cons] at he ⊢
    exact he
  · intro l' hl ha
    rcases Multiset.mem_cons.mp (Multiset.cons_add _ _ _ ▸ hl) with rfl | hl'
    · exact hb ha
    · exact h.absent l' (Multiset.cons_add _ _ _ ▸ Multiset.mem_cons_of_mem hl') ha
  · intro l' hl
    rcases Multiset.mem_cons.mp hl with rfl | hl'
    · exact h.claimed l (Multiset.mem_cons_self _ _)
    · exact h.claimed l' (Multiset.mem_cons_of_mem hl')
  · intro p hp hc
    obtain ⟨l', hl, hk⟩ := h.claimant p hp hc
    rcases Multiset.mem_cons.mp hl with rfl | hl'
    · exact ⟨_, Multiset.mem_cons_self _ _, hk⟩
    · exact ⟨l', Multiset.mem_cons_of_mem hl', hk⟩

theorem register (h : Books cfg m (n + 1) c w (l ::ₘ L)) (e : EngineId) :
    Books cfg { m.releaseStart with engines := m.engines.put l.key (some e) } n c w
      ({ l with engine := none, absent := false } ::ₘ L) := by
  have hb := (h.relabel none (b := false) (fun hf => by cases hf)).releaseStart
  have hs := h.starts
  have hu := h.used
  have hlen := length_put_le m.engines l.key e
  refine
    { hb with
      used := ?_
      absent := ?_ }
  · simp only [Manager.capacityUsedLocked, Manager.releaseStart] at hu ⊢
    omega
  · intro l' hl ha
    rcases Multiset.mem_cons.mp (Multiset.cons_add _ _ _ ▸ hl) with rfl | hl'
    · cases ha
    · change (m.engines.put l.key (some e)).get l'.key = none
      rw [Table.get_put, if_neg (h.distinct hl')]
      exact h.absent l' (Multiset.cons_add _ _ _ ▸ Multiset.mem_cons_of_mem hl') ha

theorem restore {x : Eviction} (h : Books cfg m (n + 1) c w (x.lifecycle ::ₘ L)) :
    Books cfg (m.restore x) n c w (⟨x.key, x.event, none, false, none⟩ ::ₘ L) :=
  (h.untrackStoppingEngine x.engine).register x.engine

theorem popEvent (h : Books cfg m n c w (l ::ₘ L)) (hc : l.claim = none) :
    Books cfg (m.popEvent l.key) n c w L := by
  refine
    { h with
      events := ?_
      absent := fun l' hl => h.absent l' (Multiset.cons_add _ _ _ ▸ Multiset.mem_cons_of_mem hl)
      claimed := fun l' hl => h.claimed l' (Multiset.mem_cons_of_mem hl)
      claimant := ?_ }
  · have he := h.events
    rw [Multiset.coe_eq_coe.mpr (m.engineEvents.perm_delete h.installed_cons),
      ← Multiset.cons_coe, Multiset.cons_add, Multiset.map_cons] at he
    exact (Multiset.cons_inj_right _).mp he
  · intro p hp hcl
    obtain ⟨l', hl, hk, hclaim⟩ := h.claimant p hp hcl
    rcases Multiset.mem_cons.mp hl with rfl | hl'
    · rw [hc] at hclaim
      cases hclaim
    · exact ⟨l', hl', hk, hclaim⟩

theorem finishEvent (h : Books cfg m n c w (l ::ₘ L)) (hc : l.claim = none) :
    Books cfg (m.finishEvent l.key l.event) n c w L := by
  rw [Manager.finishEvent, if_pos h.installed_cons]
  exact h.popEvent hc

/-- An event is installed where none was. -/
theorem installEvent (h : Books cfg m n c w L) (hk : m.engineEvents.get k = none)
    (e : Option EngineId) {b : Bool} (hb : b = true → m.engines.get k = none) :
    Books cfg (m.installEvent k) n c w (⟨k, m.nextEvent, e, b, none⟩ ::ₘ L) := by
  refine
    { h with
      events := ?_
      absent := ?_
      claimed := ?_
      claimant := ?_ }
  · have hp := m.engineEvents.perm_put_some k m.nextEvent
    rw [m.engineEvents.rows_put_none hk] at hp
    rw [Multiset.cons_add, Multiset.map_cons]
    calc ((m.installEvent k).engineEvents.rows : Multiset (Key × EventId))
        = (k, m.nextEvent) ::ₘ (m.engineEvents.rows : Multiset (Key × EventId)) := by
          rw [Multiset.cons_coe, Multiset.coe_eq_coe]
          exact hp
      _ = _ := congrArg _ h.events
  · intro l' hl ha
    rcases Multiset.mem_cons.mp (Multiset.cons_add _ _ _ ▸ hl) with rfl | hl'
    · exact hb ha
    · exact h.absent l' hl' ha
  · intro l' hl a' ha
    rcases Multiset.mem_cons.mp hl with rfl | hl'
    · cases ha
    · exact h.claimed l' hl' a' ha
  · intro p hp hcl
    obtain ⟨l', hl, hx⟩ := h.claimant p hp hcl
    exact ⟨l', Multiset.mem_cons_of_mem hl, hx⟩

/-! ## Admissions -/

private theorem pop (h : Books cfg m n c w L) (hd : m.headAdmission k = some a)
    {L' : Multiset Lifecycle}
    (hL : L'.map Lifecycle.mark = (a.lifecycles + L).map Lifecycle.mark)
    (habsent : ∀ l ∈ L', l.absent = true → m.engines.get l.key = none)
    (hclaimed : ∀ l ∈ L', ∀ a' ∈ l.claim,
      (l.key, a') ∈ (m.popAdmission k).spawnAdmissions ∧ a'.id ∈ m.claimed)
    (hclaimant : ∀ p ∈ (m.popAdmission k).spawnAdmissions, p.2.id ∈ m.claimed →
      ∃ l ∈ L', l.key = p.1 ∧ l.claim = some p.2) :
    Books cfg (m.popAdmission k) (n + 1) (c + a.coldStart.toNat) (w + a.warmClaim.toNat) L' := by
  have hp := m.perm_popAdmission hd
  have hsub : (m.popAdmission k).spawnAdmissions.Sublist m.spawnAdmissions :=
    List.eraseP_sublist
  refine
    { h with
      starts := ?_
      cold := ?_
      warm := ?_
      keys := h.keys.sublist (hsub.map _)
      ids := h.ids.sublist (hsub.map _)
      fresh := fun p hm => h.fresh p (hsub.subset hm)
      events := ?_
      absent := ?_
      claimed := hclaimed
      claimant := hclaimant }
  · rw [show (m.popAdmission k).capacityStarts = m.capacityStarts from rfl, h.starts,
      hp.length_eq, List.length_cons]
    omega
  · rw [show (m.popAdmission k).coldStarts = m.coldStarts from rfl, h.cold, m.queued_pop hd]
    omega
  · rw [show (m.popAdmission k).warmWorkerClaims = m.warmWorkerClaims from rfl, h.warm,
      m.queued_pop hd]
    omega
  · rw [show (m.popAdmission k).engineEvents = m.engineEvents from rfl, h.events, m.queued_pop hd,
      Multiset.map_add _ L', hL, ← Multiset.map_add, add_left_comm, add_assoc]
  · intro l hl
    rcases Multiset.mem_add.mp hl with hl | hl
    · exact habsent l hl
    · apply h.absent l
      rw [m.queued_pop hd]
      exact Multiset.mem_add.mpr (Or.inr (Multiset.mem_add.mpr (Or.inr hl)))

private theorem mem_pop (hd : m.headAdmission k = some a)
    {p : Key × CapacityAdmission} (hp : p ∈ m.spawnAdmissions) (hne : p ≠ (k, a)) :
    p ∈ (m.popAdmission k).spawnAdmissions :=
  (List.mem_cons.mp ((m.perm_popAdmission hd).subset hp)).resolve_left hne

private theorem ne_of_mem_pop (h : Books cfg m n c w L) (hd : m.headAdmission k = some a)
    {p : Key × CapacityAdmission} (hp : p ∈ (m.popAdmission k).spawnAdmissions) : p.1 ≠ k := by
  have hn := (List.Perm.nodup_iff ((m.perm_popAdmission hd).map Prod.fst)).mp h.keys
  rw [List.map_cons, List.nodup_cons] at hn
  exact fun he => hn.1 (List.mem_map.mpr ⟨p, hp, he⟩)

private theorem mem_lifecycles (hd : m.headAdmission k = some a) {l : Lifecycle}
    (hl : l ∈ a.lifecycles) : l ∈ m.queued CapacityAdmission.lifecycles := by
  rw [m.queued_pop hd]
  exact Multiset.mem_add.mpr (Or.inl hl)

theorem popUnclaimed (h : Books cfg m n c w L) (hd : m.headAdmission k = some a)
    (hu : a.id ∉ m.claimed) :
    Books cfg (m.popAdmission k) (n + 1) (c + a.coldStart.toNat) (w + a.warmClaim.toNat)
      (a.lifecycles + L) := by
  refine h.pop hd rfl ?_ ?_ ?_
  · intro l hl
    rcases Multiset.mem_add.mp hl with hl | hl
    · exact h.absent l (Multiset.mem_add.mpr (Or.inr (mem_lifecycles hd hl)))
    · exact h.absent l (Multiset.mem_add.mpr (Or.inl hl))
  · intro l hl a' ha
    rcases Multiset.mem_add.mp hl with hl | hl
    · rw [CapacityAdmission.claim_of_mem hl] at ha
      cases ha
    · obtain ⟨hq, hc⟩ := h.claimed l hl a' ha
      refine ⟨mem_pop hd hq fun he => ?_, hc⟩
      cases he
      exact hu hc
  · intro p hp hc
    obtain ⟨l, hl, hx⟩ := h.claimant p (m.mem_of_mem_pop hp) hc
    exact ⟨l, Multiset.mem_add.mpr (Or.inr hl), hx⟩

theorem head_of_claim (h : Books cfg m n c w (l ::ₘ L)) (hc : l.claim = some a) :
    m.headAdmission l.key = some a :=
  m.headAdmission_of_mem h.keys (h.claimed l (Multiset.mem_cons_self _ _) a hc).1

/-- A claimed admission is consumed by the spawn that claimed it. -/
theorem consume (h : Books cfg m n c w (l ::ₘ L)) (hc : l.claim = some a) :
    Books cfg (m.popAdmission l.key) (n + 1) (c + a.coldStart.toNat) (w + a.warmClaim.toNat)
      ({ l with claim := none } ::ₘ (a.lifecycles + L)) := by
  have hd := h.head_of_claim hc
  refine h.pop hd ?_ ?_ ?_ ?_
  · rw [Multiset.add_cons, Multiset.map_cons, Multiset.map_cons]
    rfl
  · intro l' hl ha
    rcases Multiset.mem_cons.mp hl with rfl | hl
    · exact h.absent l (by simp) ha
    · rcases Multiset.mem_add.mp hl with hl | hl
      · exact h.absent l' (Multiset.mem_add.mpr (Or.inr (mem_lifecycles hd hl))) ha
      · exact h.absent l' (by simp [hl]) ha
  · intro l' hl a' ha
    rcases Multiset.mem_cons.mp hl with rfl | hl
    · cases ha
    · rcases Multiset.mem_add.mp hl with hl | hl
      · rw [CapacityAdmission.claim_of_mem hl] at ha
        cases ha
      · obtain ⟨hq, hcl⟩ := h.claimed l' (Multiset.mem_cons_of_mem hl) a' ha
        refine ⟨mem_pop hd hq fun he => ?_, hcl⟩
        exact h.distinct (Multiset.mem_add.mpr (Or.inl hl)) (congrArg Prod.fst he)
  · intro p hp hcl
    obtain ⟨l', hl, hk, hx⟩ := h.claimant p (m.mem_of_mem_pop hp) hcl
    rcases Multiset.mem_cons.mp hl with rfl | hl
    · exact absurd hk.symm (h.ne_of_mem_pop hd hp)
    · exact ⟨l', Multiset.mem_cons_of_mem (Multiset.mem_add.mpr (Or.inr hl)), hk, hx⟩

/-- A fresh admission and its tickets go to the queue of a waiter. -/
theorem grant {v : SpawnWaiter}
    (h : Books cfg m (n + 1) (c + a.coldStart.toNat) (w + a.warmClaim.toNat) (a.lifecycles + L))
    (hk : m.hasAdmission v.key = false) (hnew : ∀ p ∈ m.spawnAdmissions, p.2.id < a.id)
    (hc : a.id ∉ m.claimed) (hlt : a.id < m.nextAdmission) :
    Books cfg (m.grant v a) n c w L := by
  have hq : ∀ {M : Type} [AddCommMonoid M] (g : CapacityAdmission → M),
      (m.grant v a).queued g = m.queued g + g a := by
    intro M _ g
    simp [Manager.queued, Manager.grant, Manager.resolveWaiter]
  have hL : L + (m.grant v a).queued CapacityAdmission.lifecycles =
      a.lifecycles + L + m.queued CapacityAdmission.lifecycles := by
    rw [hq, ← add_assoc, add_comm (L + _), add_assoc]
  have hmem : ∀ p, p ∈ (m.grant v a).spawnAdmissions ↔ p ∈ m.spawnAdmissions ∨ p = (v.key, a) := by
    simp [Manager.grant, Manager.resolveWaiter]
  constructor
  · have hs := h.starts
    simp only [Manager.grant, Manager.resolveWaiter, List.length_append, List.length_singleton]
    omega
  · rw [hq, show (m.grant v a).coldStarts = m.coldStarts from rfl, h.cold]
    omega
  · rw [hq, show (m.grant v a).warmWorkerClaims = m.warmWorkerClaims from rfl, h.warm]
    omega
  · exact h.clamps
  · exact h.used
  · exact h.reserved
  · have hne := (m.hasAdmission_eq_false v.key).mp hk
    simp only [Manager.grant, Manager.resolveWaiter, List.map_append, List.map_cons, List.map_nil]
    refine h.keys.append (List.nodup_singleton _) (List.disjoint_singleton.mpr fun hm => ?_)
    obtain ⟨p, hp, he⟩ := List.mem_map.mp hm
    exact hne p hp he
  · simp only [Manager.grant, Manager.resolveWaiter, List.map_append, List.map_cons, List.map_nil]
    refine h.ids.append (List.nodup_singleton _) (List.disjoint_singleton.mpr fun hm => ?_)
    obtain ⟨p, hp, he⟩ := List.mem_map.mp hm
    exact (hnew p hp).ne he
  · intro p hp
    rcases (hmem p).mp hp with hp | rfl
    · exact h.fresh p hp
    · exact hlt
  · exact h.claimedFresh
  · rw [hL]
    exact h.events
  · rw [hL]
    exact h.absent
  · intro l hl a' ha
    obtain ⟨hp, hcl⟩ := h.claimed l (Multiset.mem_add.mpr (Or.inr hl)) a' ha
    exact ⟨(hmem _).mpr (Or.inl hp), hcl⟩
  · intro p hp hcl
    rcases (hmem p).mp hp with hp | rfl
    · obtain ⟨l, hl, hx⟩ := h.claimant p hp hcl
      rcases Multiset.mem_add.mp hl with hl | hl
      · rw [CapacityAdmission.claim_of_mem hl] at hx
        cases hx.2
      · exact ⟨l, hl, hx⟩
    · exact absurd hcl hc

theorem nextAdmission (h : Books cfg m n c w L) :
    Books cfg { m with nextAdmission := m.nextAdmission + 1 } n c w L :=
  { h with
    fresh := fun p hp => Nat.lt_succ_of_lt (h.fresh p hp)
    claimedFresh := fun i hi => Nat.lt_succ_of_lt (h.claimedFresh i hi) }

/-- `_reserve_capacity_locked` takes the tickets of its admission, and the event of an
eviction if none was installed. -/
theorem reserve (h : Books cfg m n c w L) (hr : m.reserveCapacityLocked cfg = some (a, m'))
    (ho : m'.history.overwritten = m.history.overwritten) :
    Books cfg m' (n + 1) (c + a.coldStart.toNat) (w + a.warmClaim.toNat) (a.lifecycles + L) := by
  simp only [Manager.reserveCapacityLocked] at hr
  split at hr
  case isTrue hu =>
    cases hr
    exact ((h.takeStart hu _).nextAdmission).cast rfl rfl rfl (zero_add L).symm
  case isFalse =>
    split at hr
    case h_1 => cases hr
    case h_2 k e hidle =>
      cases hr
      have he : m.engines.get k = some e := Manager.registered_of_findIdle hidle
      have hk : m.engineEvents.get k = none := by
        cases hg : m.engineEvents.get k with
        | none => rfl
        | some ev => simp [Manager.installEvent, Manager.takeReplacement, Manager.takeStart,
            Manager.beginStop, hg] at ho
      have hb := ((h.takeReplacement he m.warmWorkerAvailableLocked).installEvent hk (some e)
        (b := true) fun _ => by simp [Manager.takeReplacement, Manager.takeStart,
          Manager.beginStop]).nextAdmission
      exact hb.cast rfl rfl rfl (Multiset.singleton_add _ _).symm

/-- One round of the admission loop keeps the books. -/
theorem admitRound {now : ℕ} (h : Books cfg m n c w L) (hr : m.admitRound cfg now = some m')
    (ho : m'.history.overwritten = m.history.overwritten) : Books cfg m' n c w L := by
  simp only [Manager.admitRound] at hr
  split at hr
  case h_1 => cases hr
  case h_2 v hv =>
    split at hr
    case h_1 e he =>
      cases hr
      refine h.same ?_
      cases hres : v.reserveExistingRequest <;>
        simp [Manager.account, Manager.admitExisting, hres, Manager.resolveWaiter,
          Manager.takeReservation, Manager.touch, Manager.setInfo]
    case h_2 =>
      obtain ⟨⟨a, m1⟩, hres, rfl⟩ := Option.map_eq_some_iff.mp hr
      obtain ⟨hq, hid, hcl, hnext⟩ := Manager.reserve_spec hres
      refine (h.reserve hres ho).grant ?_ ?_ ?_ ?_
      · rw [Manager.hasAdmission, hq]
        exact (Manager.pickWaiter_spec hv).2.2
      · rw [hq, hid]
        exact h.fresh
      · rw [hcl, hid]
        exact fun hm => (h.claimedFresh _ hm).false
      · rw [hnext, hid]
        exact Nat.lt_succ_self _

theorem admitRounds {now : ℕ} (rounds : ℕ) (h : Books cfg m n c w L)
    (ho : (m.admitRounds cfg now rounds).history.overwritten = m.history.overwritten) :
    Books cfg (m.admitRounds cfg now rounds) n c w L := by
  induction rounds generalizing m with
  | zero => exact h
  | succ rounds ih =>
    rw [Manager.admitRounds] at ho ⊢
    cases hround : m.admitRound cfg now with
    | none => exact h
    | some m1 =>
      simp only [hround] at ho ⊢
      have h1 := ((Manager.kept_logs cfg ⟨⊥, ⊥, ⊥⟩ m).admitRound hround
        ⟨List.prefix_rfl, List.prefix_rfl⟩).2
      have h2 : m1.history.overwritten <+: (m1.admitRounds cfg now rounds).history.overwritten :=
        ((Manager.kept_logs cfg ⟨⊥, ⊥, ⊥⟩ m1).admitRounds rounds
          ⟨List.prefix_rfl, List.prefix_rfl⟩).2
      rw [ho] at h2
      have he : m1.history.overwritten = m.history.overwritten :=
        (List.IsPrefix.eq_of_length h1 (le_antisymm h1.length_le h2.length_le)).symm
      exact ih (h.admitRound hround he) (ho.trans he.symm)

theorem admitSpawnWaiters {now : ℕ} (h : Books cfg m n c w L)
    (ho : (m.admitSpawnWaitersLocked cfg now).history.overwritten = m.history.overwritten) :
    Books cfg (m.admitSpawnWaitersLocked cfg now) n c w L := by
  rw [Manager.admitSpawnWaitersLocked] at ho ⊢
  split at ho
  case isTrue hclosed =>
    rw [if_pos hclosed]
    exact h.same rfl
  case isFalse hclosed =>
    rw [if_neg hclosed]
    exact h.admitRounds _ ho

/-- A spawn claims the head of its queue and installs its event. -/
theorem claimHead {call : SpawnCall} (h : Books cfg m n c w L)
    (hk : m.engineEvents.get call.key = none) :
    Books cfg (Engines.claimHead m call) n c w
      (⟨call.key, m.nextEvent, none, false, m.headAdmission call.key⟩ ::ₘ L) := by
  have hi := h.installEvent hk none (b := false) (fun hf => by cases hf)
  have hnone : ∀ l ∈ L, l.key ≠ call.key := by
    intro l hl he
    have hev := h.installed (Multiset.mem_add.mpr (Or.inl hl))
    rw [he, hk] at hev
    cases hev
  refine
    { hi with
      claimedFresh := ?_
      events := ?_
      absent := ?_
      claimed := ?_
      claimant := ?_ }
  · intro i hm
    rcases Finset.mem_union.mp hm with hm | hm
    · exact h.claimedFresh i hm
    · rw [List.mem_toFinset] at hm
      obtain ⟨a, ha, rfl⟩ := List.mem_map.mp hm
      exact h.fresh _ (m.head_mem (Option.mem_toList.mp ha))
  · have he := hi.events
    rw [Multiset.cons_add, Multiset.map_cons] at he ⊢
    exact he
  · intro l hl ha
    rcases Multiset.mem_cons.mp (Multiset.cons_add _ _ _ ▸ hl) with rfl | hl'
    · cases ha
    · exact h.absent l hl' ha
  · intro l hl a ha
    rcases Multiset.mem_cons.mp hl with rfl | hl'
    · refine ⟨m.head_mem ha, Finset.mem_union.mpr (Or.inr ?_)⟩
      rw [List.mem_toFinset]
      exact List.mem_map_of_mem (Option.mem_toList.mpr ha)
    · obtain ⟨hq, hc⟩ := h.claimed l hl' a ha
      exact ⟨hq, Finset.mem_union.mpr (Or.inl hc)⟩
  · intro p hp hc
    rcases Finset.mem_union.mp hc with hc | hc
    · obtain ⟨l, hl, hx⟩ := h.claimant p hp hc
      exact ⟨l, Multiset.mem_cons_of_mem hl, hx⟩
    · rw [List.mem_toFinset] at hc
      obtain ⟨a, ha, hid⟩ := List.mem_map.mp hc
      have hq := m.head_mem (Option.mem_toList.mp ha)
      have he : (call.key, a) = p := List.inj_on_of_nodup_map h.ids hq hp hid
      subst he
      exact ⟨_, Multiset.mem_cons_self _ _, rfl, Option.mem_toList.mp ha⟩

/-- A failed spawn gives its claim up; the admission is queued as before. -/
theorem unclaim (h : Books cfg m n c w (l ::ₘ L)) (hc : l.claim = some a) :
    Books cfg { m with claimed := m.claimed.erase a.id } n c w
      ({ l with claim := none } ::ₘ L) := by
  have hq := (h.claimed l (Multiset.mem_cons_self _ _) a hc).1
  refine
    { h with
      claimedFresh := fun i hi => h.claimedFresh i (Finset.mem_of_mem_erase hi)
      events := ?_
      absent := ?_
      claimed := ?_
      claimant := ?_ }
  · have he := h.events
    rw [Multiset.cons_add, Multiset.map_cons] at he ⊢
    exact he
  · intro l' hl ha
    rcases Multiset.mem_cons.mp (Multiset.cons_add _ _ _ ▸ hl) with rfl | hl'
    · exact h.absent l (by simp) ha
    · exact h.absent l' (Multiset.cons_add _ _ _ ▸ Multiset.mem_cons_of_mem hl') ha
  · intro l' hl a' ha
    rcases Multiset.mem_cons.mp hl with rfl | hl'
    · cases ha
    · obtain ⟨hq', hcl⟩ := h.claimed l' (Multiset.mem_cons_of_mem hl') a' ha
      refine ⟨hq', Finset.mem_erase.mpr ⟨fun hid => ?_, hcl⟩⟩
      have he : (l'.key, a') = (l.key, a) := List.inj_on_of_nodup_map h.ids hq' hq hid
      exact h.distinct (Multiset.mem_add.mpr (Or.inl hl')) (congrArg Prod.fst he)
  · intro p hp hcl
    obtain ⟨hne, hcl⟩ := Finset.mem_erase.mp hcl
    obtain ⟨l', hl, hk, hx⟩ := h.claimant p hp hcl
    rcases Multiset.mem_cons.mp hl with rfl | hl'
    · rw [hc] at hx
      cases hx
      exact absurd rfl hne
    · exact ⟨l', Multiset.mem_cons_of_mem hl', hk, hx⟩

end Books
end DataForge.Engines
