import DataForge.Engines.Safety

/-!
# Request reservations

A reservation of an engine is taken by the request itself or, for a parked waiter, by the
admission loop; the waiter may be cancelled before it learns of it. Every reservation has one
holder, a frame of the request or of the admission, and only its holder releases it.
-/

namespace DataForge.Engines

open ReadCommitted Monitor

/-! ## Holders -/

namespace Frame

/-- The waiter of an admission in progress. -/
def waiters : Frame → Multiset SpawnWaiter
  | .admission pc _ => match pc with
    | .parked w | .cancelled w | .releasing w | .unreserving w => {w}
    | _ => 0
  | _ => 0

/-- The reservations that a frame has to release, that of its waiter apart. -/
def reservations : Frame → Multiset Key
  | .releaseEngineRequest k => {k}
  | .request _ l => if l.reserved then {l.key} else 0
  | _ => 0

/-- A request asks for a reservation, and a waiter has the arguments of its admission. -/
def Fair : Frame → Prop
  | .admission pc call => (call.forRequest = true → call.reserveExistingRequest = true) ∧
      ∀ w ∈ (Frame.admission pc call).waiters,
        w.key = call.key ∧ w.reserveExistingRequest = call.reserveExistingRequest
  | _ => True

/-- Frames without waiter and reservation. -/
def Free (f : Frame) : Prop := f.waiters = 0 ∧ f.reservations = 0 ∧ f.Fair

theorem free_of_family {f : Frame} (ha : f.family ≠ .admission) (hr : f.family ≠ .request)
    (hl : f.family ≠ .releaseRequest) : f.Free := by
  cases f with
  | admission => exact absurd rfl ha
  | request => exact absurd rfl hr
  | releaseEngineRequest => exact absurd rfl hl
  | _ => exact ⟨rfl, rfl, trivial⟩

end Frame

namespace Manager

/-- The reservations that the admission loop took for these waiters. -/
def reserved (m : Manager) (W : Multiset SpawnWaiter) : Multiset Key :=
  (W.filter fun w => m.resolutions w.id = some (.existing true)).map SpawnWaiter.key

theorem reserved_cons (m : Manager) (w : SpawnWaiter) (W : Multiset SpawnWaiter) :
    m.reserved (w ::ₘ W) =
      (if m.resolutions w.id = some (.existing true) then {w.key} else 0) + m.reserved W := by
  unfold reserved
  rw [Multiset.filter_cons, Multiset.map_add]
  split <;> simp

end Manager

/-- The manager agrees with the waiters `W` of the frames and with the reservations `R` that
frames hold. -/
structure Reservations (m : Manager) (W : Multiset SpawnWaiter) (R : Multiset Key) : Prop where
  balance : ∀ k, m.requestReservations k + m.history.released.count k = m.history.taken.count k
  held : ∀ k, (R + m.reserved W).count k ≤ m.requestReservations k
  ids : (W.map SpawnWaiter.id).Nodup
  fresh : ∀ w ∈ W, w.id < m.nextWaiter
  queue : (m.spawnWaiters.map SpawnWaiter.id).Nodup
  pending : ∀ w ∈ m.spawnWaiters, m.resolutions w.id = none ∧ w.id < m.nextWaiter
  own : ∀ w ∈ m.spawnWaiters, ∀ w' ∈ W, w'.id = w.id → w' = w
  answer : ∀ w ∈ W, ∀ b, m.resolutions w.id = some (.existing b) → b = w.reserveExistingRequest
  unresolved : ∀ i, m.nextWaiter ≤ i → m.resolutions i = none

namespace Reservations

variable {cfg : Setup} {m m' : Manager} {W : Multiset SpawnWaiter} {R : Multiset Key}
  {w : SpawnWaiter}

theorem same (h : Reservations m W R) (he : m'.waits = m.waits) : Reservations m' W R := by
  simp only [Manager.waits, Prod.mk.injEq] at he
  obtain ⟨hres, hq, hans, hnext, htaken, hrel⟩ := he
  have hr : m'.reserved W = m.reserved W := by rw [Manager.reserved, hans, Manager.reserved]
  constructor
  · rw [hres, htaken, hrel]
    exact h.balance
  · rw [hr, hres]
    exact h.held
  · exact h.ids
  · rw [hnext]
    exact h.fresh
  · rw [hq]
    exact h.queue
  · rw [hq, hans, hnext]
    exact h.pending
  · rw [hq]
    exact h.own
  · rw [hans]
    exact h.answer
  · rw [hnext, hans]
    exact h.unresolved

theorem take (h : Reservations m W R) (k : Key) : Reservations (m.takeReservation k) W (k ::ₘ R) :=
  { h with
    balance := by
      intro k'
      have hb := h.balance k'
      by_cases hk : k' = k
      · subst hk
        simp only [Manager.takeReservation, Function.update_self, List.count_append,
          List.count_singleton_self]
        omega
      · simpa [Manager.takeReservation, hk, List.count_singleton, Ne.symm hk] using hb
    held := by
      intro k'
      have hh := h.held k'
      have hr : (m.takeReservation k).reserved W = m.reserved W := rfl
      rw [hr, Multiset.cons_add, Multiset.count_cons]
      by_cases hk : k' = k
      · subst hk
        simp only [Manager.takeReservation, Function.update_self, if_true]
        omega
      · simpa [Manager.takeReservation, hk] using hh }

theorem release {k : Key} (h : Reservations m W (k ::ₘ R)) :
    Reservations (m.releaseReservation k) W R :=
  { h with
    balance := by
      intro k'
      have hb := h.balance k'
      by_cases hk : k' = k
      · subst hk
        have hh := h.held k'
        rw [Multiset.cons_add, Multiset.count_cons_self] at hh
        simp only [Manager.releaseReservation, Function.update_self, List.count_append,
          List.count_singleton_self]
        omega
      · simpa [Manager.releaseReservation, hk, List.count_singleton, Ne.symm hk] using hb
    held := by
      intro k'
      have hh := h.held k'
      have hr : (m.releaseReservation k).reserved W = m.reserved W := rfl
      rw [Multiset.cons_add, Multiset.count_cons] at hh
      rw [hr]
      by_cases hk : k' = k
      · subst hk
        simp only [Manager.releaseReservation, Function.update_self, if_true] at hh ⊢
        omega
      · simpa [Manager.releaseReservation, hk] using hh }

theorem drop {R' : Multiset Key} (h : Reservations m W R) (hR : R' ≤ R) : Reservations m W R' :=
  { h with
    held := fun k => (Multiset.count_le_of_le k (add_le_add_left hR _)).trans (h.held k) }

theorem forget (h : Reservations m (w ::ₘ W) R) : Reservations m W R where
  balance := h.balance
  held k := by
    refine le_trans (Multiset.count_le_of_le k (add_le_add_right ?_ R)) (h.held k)
    exact Multiset.map_le_map (Multiset.filter_le_filter _ (Multiset.le_cons_self W w))
  ids := by
    have hn := h.ids
    rw [Multiset.map_cons, Multiset.nodup_cons] at hn
    exact hn.2
  fresh w' hw' := h.fresh w' (Multiset.mem_cons_of_mem hw')
  queue := h.queue
  pending := h.pending
  own v hv w' hw' := h.own v hv w' (Multiset.mem_cons_of_mem hw')
  answer w' hw' := h.answer w' (Multiset.mem_cons_of_mem hw')
  unresolved := h.unresolved

theorem passOn (h : Reservations m (w ::ₘ W) R)
    (hr : m.resolutions w.id = some (.existing true)) : Reservations m W (w.key ::ₘ R) :=
  { h.forget with
    held := by
      intro k
      have hh := h.held k
      rw [m.reserved_cons, if_pos hr, Multiset.singleton_add, Multiset.add_cons,
        ← Multiset.cons_add] at hh
      exact hh }

theorem reserved_resolve (h : Reservations m W R) (hw : w ∈ m.spawnWaiters) (r : Resolution) :
    (m.resolveWaiter w r).reserved W ≤
      m.reserved W + if r = .existing true then {w.key} else 0 := by
  have hother : ∀ W' : Multiset SpawnWaiter, (∀ v ∈ W', v.id ≠ w.id) →
      (m.resolveWaiter w r).reserved W' = m.reserved W' := by
    intro W' hne
    refine congrArg (Multiset.map SpawnWaiter.key) (Multiset.filter_congr fun v hv => ?_)
    simp [Manager.resolveWaiter, hne v hv]
  by_cases hmem : w ∈ W
  · obtain ⟨W', rfl⟩ := Multiset.exists_cons_of_mem hmem
    have hn := h.ids
    rw [Multiset.map_cons, Multiset.nodup_cons] at hn
    have ho := hother W' fun v hv he => hn.1 (Multiset.mem_map.mpr ⟨v, hv, he⟩)
    rw [Manager.reserved_cons, Manager.reserved_cons, (h.pending w hw).1, ho]
    simp [Manager.resolveWaiter, add_comm]
  · rw [hother W fun v hv he => hmem (h.own w hw v hv he ▸ hv)]
    exact Multiset.le_add_right _ _

private theorem resolve (h : Reservations m W R) (hw : w ∈ m.spawnWaiters) {r : Resolution}
    (hr : ∀ b, r = .existing b → b = w.reserveExistingRequest)
    (hheld : ∀ k, (R + (m.resolveWaiter w r).reserved W).count k ≤ m.requestReservations k) :
    Reservations (m.resolveWaiter w r) W R := by
  have hne : ∀ v ∈ m.spawnWaiters.erase w, v.id ≠ w.id := by
    intro v hv he
    have hd := h.queue.of_map
    have hmem := (List.Nodup.mem_erase_iff hd).mp hv
    exact hmem.1 (List.inj_on_of_nodup_map h.queue hmem.2 hw he)
  constructor
  · exact h.balance
  · exact hheld
  · exact h.ids
  · exact h.fresh
  · exact h.queue.sublist (List.Sublist.map _ List.erase_sublist)
  · intro v hv
    simp only [Manager.resolveWaiter, Function.update_of_ne (hne v hv)]
    exact h.pending v (List.mem_of_mem_erase hv)
  · exact fun v hv => h.own v (List.mem_of_mem_erase hv)
  · intro v hv b hb
    by_cases he : v.id = w.id
    · rw [h.own w hw v hv he] at hb ⊢
      simp only [Manager.resolveWaiter, Function.update_self, Option.some.injEq] at hb
      exact hr b hb
    · simp only [Manager.resolveWaiter, Function.update_of_ne he] at hb
      exact h.answer v hv b hb
  · intro i hi
    have hlt := (h.pending w hw).2
    have hne : i ≠ w.id := by
      rintro rfl
      exact absurd hlt (not_lt.mpr hi)
    simp only [Manager.resolveWaiter, Function.update_of_ne hne]
    exact h.unresolved i hi

theorem resolveFree (h : Reservations m W R) (hw : w ∈ m.spawnWaiters) {r : Resolution}
    (hr : ∀ b, r = .existing b → b = w.reserveExistingRequest) (hn : r ≠ .existing true) :
    Reservations (m.resolveWaiter w r) W R := by
  refine h.resolve hw hr fun k => le_trans ?_ (h.held k)
  have hle := h.reserved_resolve hw r
  rw [if_neg hn, add_zero] at hle
  exact Multiset.count_le_of_le k (add_le_add_right hle R)

theorem resolveReserved (h : Reservations m W (w.key ::ₘ R)) (hw : w ∈ m.spawnWaiters)
    (hres : w.reserveExistingRequest = true) :
    Reservations (m.resolveWaiter w (.existing true)) W R := by
  refine (h.drop (Multiset.le_cons_self R w.key)).resolve hw ?_ fun k => le_trans ?_ (h.held k)
  · rintro b hb
    cases hb
    exact hres.symm
  · have hle := h.reserved_resolve hw (.existing true)
    rw [if_pos rfl] at hle
    refine Multiset.count_le_of_le k (le_trans (add_le_add_right hle R) (le_of_eq ?_))
    rw [← Multiset.singleton_add, add_comm (m.reserved W), ← add_assoc, add_comm R]

theorem admitExisting (h : Reservations m W R) (hw : w ∈ m.spawnWaiters) (now : ℕ) (e : EngineId) :
    Reservations (m.admitExisting now w e) W R := by
  unfold Manager.admitExisting
  cases hres : w.reserveExistingRequest with
  | false =>
    exact h.resolveFree hw (fun b hb => by cases hb; exact hres.symm) (by simp)
  | true =>
    exact ((h.take w.key).resolveReserved hw hres).same rfl

theorem reject (h : Reservations m W R) : Reservations m.rejectWaiters W R where
  balance := h.balance
  held := by
    have hr : m.rejectWaiters.reserved W ≤ m.reserved W := by
      refine Multiset.map_le_map (Multiset.monotone_filter_right W fun v hv => ?_)
      simp only [Manager.rejectWaiters] at hv
      split at hv
      · cases hv
      · exact hv
    exact fun k => (Multiset.count_le_of_le k (add_le_add_right hr R)).trans (h.held k)
  ids := h.ids
  fresh := h.fresh
  queue := List.nodup_nil
  pending w hw := by cases hw
  own w hw := by cases hw
  answer w hw b hb := by
    simp only [Manager.rejectWaiters] at hb
    split at hb
    · cases hb
    · exact h.answer w hw b hb
  unresolved i hi := by
    have hne : ¬ ∃ v ∈ m.spawnWaiters, v.id = i := by
      rintro ⟨v, hv, rfl⟩
      exact absurd (h.pending v hv).2 (not_lt.mpr hi)
    simp only [Manager.rejectWaiters, List.any_eq_true, decide_eq_true_eq, if_neg hne]
    exact h.unresolved i hi

theorem admitRound {now : ℕ} (h : Reservations m W R) (hr : m.admitRound cfg now = some m') :
    Reservations m' W R := by
  simp only [Manager.admitRound] at hr
  split at hr
  · cases hr
  case h_2 w hp =>
    have hw := (Manager.pickWaiter_spec hp).1
    split at hr
    · cases hr
      exact h.admitExisting hw _ _
    · obtain ⟨⟨a, m1⟩, hres, rfl⟩ := Option.map_eq_some_iff.mp hr
      have hsame : m1.waits = m.waits := by
        simp only [Manager.reserveCapacityLocked] at hres
        split at hres
        · cases hres
          rfl
        · split at hres <;> cases hres
          rfl
      have hw1 : w ∈ m1.spawnWaiters := by
        have hq : m1.spawnWaiters = m.spawnWaiters := congrArg (fun x => x.2.1) hsame
        rw [hq]
        exact hw
      have hown := (h.same hsame).resolveFree (r := .owns a.id) hw1 (by simp) (by simp)
      exact hown.same rfl

theorem admitAll {now : ℕ} (h : Reservations m W R) :
    Reservations (m.admitSpawnWaitersLocked cfg now) W R := by
  have hrounds : ∀ (rounds : ℕ) (m : Manager), Reservations m W R →
      Reservations (Manager.admitRounds cfg now rounds m) W R := by
    intro rounds
    induction rounds with
    | zero => exact fun _ h => h
    | succ rounds ih =>
      intro m h
      simp only [Manager.admitRounds]
      split
      · exact h
      case h_2 m' hm' => exact ih m' (h.admitRound hm')
  unfold Manager.admitSpawnWaitersLocked
  split
  · exact h.reject
  · exact hrounds _ m h

/-- A new waiter joins the queue. -/
theorem enqueue (h : Reservations m W R) (hw : w.id = m.nextWaiter) :
    Reservations { m with
      spawnWaiters := m.spawnWaiters ++ [w], nextWaiter := m.nextWaiter + 1 } (w ::ₘ W) R := by
  have hnone := h.unresolved m.nextWaiter le_rfl
  have hne : ∀ v ∈ m.spawnWaiters, v.id ≠ w.id :=
    fun v hv he => ((h.pending v hv).2.trans_eq hw.symm).ne he
  have hne' : ∀ v ∈ W, v.id ≠ w.id := fun v hv he => ((h.fresh v hv).trans_eq hw.symm).ne he
  constructor
  · exact h.balance
  · intro k
    rw [Manager.reserved_cons, hw, hnone, if_neg (by simp), zero_add]
    exact h.held k
  · rw [Multiset.map_cons, Multiset.nodup_cons]
    refine ⟨fun hm => ?_, h.ids⟩
    obtain ⟨v, hv, he⟩ := Multiset.mem_map.mp hm
    exact hne' v hv he
  · intro v hv
    rcases Multiset.mem_cons.mp hv with rfl | hv
    · exact hw ▸ Nat.lt_succ_self _
    · exact Nat.lt_succ_of_lt (h.fresh v hv)
  · simp only [List.map_append, List.map_cons, List.map_nil]
    refine h.queue.append (List.nodup_singleton _) (List.disjoint_singleton.mpr fun hm => ?_)
    obtain ⟨v, hv, he⟩ := List.mem_map.mp hm
    exact hne v hv he
  · intro v hv
    rcases List.mem_append.mp hv with hv | hv
    · exact ⟨(h.pending v hv).1, Nat.lt_succ_of_lt (h.pending v hv).2⟩
    · rw [List.mem_singleton.mp hv, hw]
      exact ⟨hnone, Nat.lt_succ_self _⟩
  · intro v hv v' hv' he
    rcases List.mem_append.mp hv with hq | hv
    · rcases Multiset.mem_cons.mp hv' with rfl | hv'
      · exact absurd he.symm (hne v hq)
      · exact h.own v hq v' hv' he
    · rw [List.mem_singleton.mp hv] at he ⊢
      rcases Multiset.mem_cons.mp hv' with rfl | hv'
      · rfl
      · exact absurd he (hne' v' hv')
  · intro v hv b hb
    rcases Multiset.mem_cons.mp hv with rfl | hv
    · rw [hw, hnone] at hb
      cases hb
    · exact h.answer v hv b hb
  · exact fun i hi => h.unresolved i (Nat.le_of_succ_le hi)

theorem dequeue (h : Reservations m W R) (w : SpawnWaiter) :
    Reservations { m with spawnWaiters := m.spawnWaiters.erase w } W R :=
  { h with
    queue := h.queue.sublist (List.Sublist.map _ List.erase_sublist)
    pending := fun v hv => h.pending v (List.mem_of_mem_erase hv)
    own := fun v hv => h.own v (List.mem_of_mem_erase hv) }

end Reservations

/-! ## Sections -/

/-- The frames `fs` are next to frames with the waiters `W` and the reservations `R`. -/
structure Fits (m : Manager) (fs : List Frame) (W : Multiset SpawnWaiter) (R : Multiset Key) :
    Prop where
  fair : ∀ f ∈ fs, f.Fair
  holders : Reservations m ((fs.map Frame.waiters).sum + W) ((fs.map Frame.reservations).sum + R)

variable {cfg : Setup} {m m' : Manager} {W : Multiset SpawnWaiter} {R : Multiset Key}

namespace Fits

theorem of_free {fs : List Frame} (hf : ∀ f ∈ fs, f.Free) (h : Reservations m W R) :
    Fits m fs W R where
  fair f hm := (hf f hm).2.2
  holders := by
    have hw : (fs.map Frame.waiters).sum = 0 :=
      List.sum_eq_zero (by simpa using fun f hm => (hf f hm).1)
    have hr : (fs.map Frame.reservations).sum = 0 :=
      List.sum_eq_zero (by simpa using fun f hm => (hf f hm).2.1)
    rw [hw, hr, zero_add, zero_add]
    exact h

variable {f : Frame}

theorem one (h : Fits m [f] W R) :
    f.Fair ∧ Reservations m (f.waiters + W) (f.reservations + R) :=
  ⟨h.fair f (List.mem_singleton_self f), by simpa using h.holders⟩

theorem free (h : Fits m [f] W R) (hf : f.Free) : Reservations m W R := by
  have hh := h.one.2
  rw [hf.1, hf.2.1, zero_add, zero_add] at hh
  exact hh

theorem of_one (hf : f.Fair) (h : Reservations m (f.waiters + W) (f.reservations + R)) :
    Fits m [f] W R :=
  ⟨by simpa using hf, by simpa using h⟩

theorem push {fs : List Frame} (h : Fits m fs W R) (hf : f.Free) :
    Fits m (f :: fs) W R := by
  constructor
  · intro g hg
    rcases List.mem_cons.mp hg with rfl | hg
    · exact hf.2.2
    · exact h.fair g hg
  · simpa [hf.1, hf.2.1] using h.holders

end Fits

variable {ch : Choice}

private theorem waits_spawn {l : SpawnLocals} {pc : SpawnPc} :
    (spawnSection cfg ch m l pc).1.waits = m.waits := by
  by_cases hpc : pc = .claim
  · subst hpc
    simp only [spawnSection, claimSection]
    repeat' split
    case h_2 hr =>
      simp only [Manager.reserveCapacityLocked] at hr
      split at hr
      · cases hr
        rfl
      · split at hr <;> cases hr
        rfl
    all_goals rfl
  · exact congrArg Prod.fst (spawnSection_frame hpc)

variable {r : Option Outcome}

/-- Sections of frames that hold nothing. -/
theorem Reservations.advance {f : Frame} {x : Next} (h : Reservations m W R)
    (ha : f.family ≠ .admission) (hq : f.family ≠ .request) (hl : f.family ≠ .releaseRequest)
    (hx : f.advance cfg ch m r = some x) :
    Reservations x.1 W R := by
  cases f with
  | admission => exact absurd rfl ha
  | request => exact absurd rfl hq
  | releaseEngineRequest => exact absurd rfl hl
  | notifyCapacityChanged =>
    cases hx
    exact h.admitAll
  | releaseSpawnAdmission k b =>
    cases hx
    simp only [releaseSection]
    have hback : ∀ a, ((m.popAdmission k).giveBack a b).waits = m.waits := by
      intro a
      simp only [Manager.giveBack]
      cases a.warmClaim <;> cases a.coldStart <;> rfl
    repeat' split
    · exact h
    · exact h
    · exact Reservations.admitAll ((h.same (hback _)).same rfl)
    · exact h.same (hback _)
  | releaseProbe e =>
    cases hx
    simp only [releaseProbeSection]
    split
    · exact Reservations.admitAll (h.same rfl)
    · exact h
  | releaseStop e =>
    cases hx
    exact Reservations.admitAll (h.same rfl)
  | reserveEngineRequest k =>
    cases hx
    dsimp only
    split
    · exact h
    · have ht := (h.take k).drop (Multiset.le_cons_self R k)
      unfold Manager.reserveEngineRequest
      dsimp only
      split
      · exact ht.same rfl
      · exact ht
  | spawnGate call =>
    cases hx
    refine h.same ?_
    have hopen : ∀ target, (openSpawn m call target).1.waits = m.waits := by
      intro target
      unfold openSpawn
      cases target with
      | none => rfl
      | some e => cases m.headAdmission call.key <;> rfl
    unfold gateSection
    repeat' split
    all_goals first | exact hopen _ | rfl | skip
    unfold reuseEngine
    dsimp only
    split <;> rfl
  | spawn pc l =>
    cases hx
    exact h.same waits_spawn
  | replenish pc =>
    cases hx
    exact h.same (congrArg Prod.fst (replenishSection_frame pc))
  | _ => exact h.same (congrArg Prod.fst (quiet_advance rfl hx))

variable {call : AdmissionCall}

private theorem fits_resume (h : Reservations m W R)
    (hk : call.forRequest = true → Reservations m W (call.key ::ₘ R)) :
    Fits m (call.resume none) W R := by
  unfold AdmissionCall.resume
  split
  case isTrue hc => exact .of_one trivial (by simpa [Frame.waiters, Frame.reservations] using hk hc)
  case isFalse => exact .of_free (by simp) h

private theorem fits_resume_owner {i : WaiterId} (h : Reservations m W R) :
    Fits m (call.resume (some i)) W R := by
  unfold AdmissionCall.resume
  split
  · exact .of_one trivial (by simpa [Frame.waiters, Frame.reservations] using h)
  · exact .of_free (by simp) h

private theorem fits_enqueue (hf : call.forRequest = true → call.reserveExistingRequest = true)
    (h : Reservations m W R) :
    Fits (enqueueSection cfg ch m call).1 (enqueueSection cfg ch m call).2.2 W R := by
  have hfair : (Frame.admission .turn call).Free := ⟨rfl, rfl, hf, by simp [Frame.waiters]⟩
  unfold enqueueSection
  split
  · exact .of_free (by simp) h
  · split
    case h_1 e he =>
      cases hres : call.reserveExistingRequest with
      | true =>
        have ht : Reservations ((m.takeReservation call.key).touch ch.now e) W (call.key ::ₘ R) :=
          (h.take call.key).same rfl
        exact fits_resume (ht.drop (Multiset.le_cons_self R _)) fun _ => ht
      | false =>
        refine fits_resume h fun hc => ?_
        rw [hf hc] at hres
        cases hres
    case h_2 =>
      split
      · exact .of_free (by simpa using hfair) h
      · have hw := h.enqueue
          (w := ⟨m.nextWaiter, call.key, call.priority, call.reserveExistingRequest⟩) rfl
        refine .of_one ⟨hf, by simp [Frame.waiters]⟩ (Reservations.admitAll ?_)
        simpa [Frame.waiters, Frame.reservations, Multiset.singleton_add] using hw

private theorem fits_admission {pc : AdmissionPc} {x : Next} (h : Fits m [.admission pc call] W R)
    (hx : admissionSection cfg ch m r call pc = some x) : Fits x.1 x.2.2 W R := by
  obtain ⟨⟨hf, hw⟩, hh⟩ := h.one
  have hfree : ∀ pc', (Frame.admission pc' call).waiters = 0 → (Frame.admission pc' call).Free :=
    fun pc' h0 => ⟨h0, rfl, hf, by simp [h0]⟩
  have hnotify : Frame.notifyCapacityChanged.Free := ⟨rfl, rfl, trivial⟩
  cases pc with
  | turn =>
    have hr : Reservations m W R := h.free (hfree _ rfl)
    simp only [admissionSection] at hx
    repeat' split at hx
    all_goals cases hx
    · exact .of_free (by simp) hr
    · exact .of_free (by simpa using hfree .turn rfl) hr
    · exact .of_free (by simpa using hfree .enqueue rfl) hr
  | enqueue =>
    cases hx
    exact fits_enqueue hf (h.free (hfree _ rfl))
  | ended =>
    cases hx
    exact .of_free (by simpa using hnotify) (h.free (hfree _ rfl))
  | parked w =>
    have hr : Reservations m (w ::ₘ W) R := by
      simpa [Frame.waiters, Frame.reservations, Multiset.singleton_add] using hh
    obtain ⟨hkey, hres⟩ := hw w (by simp [Frame.waiters])
    have hgo : ∀ pc', (Frame.admission pc' call).waiters = {w} →
        Fits m [.admission pc' call] W R := by
      intro pc' hpc
      refine .of_one ⟨hf, ?_⟩ ?_
      · rw [hpc]
        simpa using ⟨hkey, hres⟩
      · rw [hpc]
        simpa [Frame.reservations, Multiset.singleton_add] using hr
    simp only [admissionSection] at hx
    split at hx
    · cases hx
      exact hgo (.cancelled w) rfl
    · split at hx
      · cases hx
      · cases hx
        exact fits_resume_owner hr.forget
      case h_3 b hb =>
        cases hx
        refine fits_resume hr.forget fun hc => ?_
        have hbt : b = true := by
          rw [hr.answer w (Multiset.mem_cons_self w W) b hb, hres, hf hc]
        subst hbt
        rw [← hkey]
        exact hr.passOn hb
      · cases hx
        exact hgo (.cancelled w) rfl
  | cancelled w =>
    cases hx
    refine .of_one ⟨hf, hw⟩ (Reservations.admitAll ?_)
    exact hh.dequeue w
  | releasing w =>
    have hr : Reservations m (w ::ₘ W) R := by
      simpa [Frame.waiters, Frame.reservations, Multiset.singleton_add] using hh
    have hgo : Fits m [.admission (.unreserving w) call] W R := .of_one ⟨hf, hw⟩ hh
    simp only [admissionSection] at hx
    repeat' split at hx
    all_goals cases hx
    · exact .of_free (by simp) hr.forget
    · exact hgo.push ⟨rfl, rfl, trivial⟩
    · exact hgo
  | unreserving w =>
    have hr : Reservations m (w ::ₘ W) R := by
      simpa [Frame.waiters, Frame.reservations, Multiset.singleton_add] using hh
    obtain ⟨hkey, -⟩ := hw w (by simp [Frame.waiters])
    simp only [admissionSection] at hx
    repeat' split at hx
    all_goals cases hx
    · exact .of_free (by simp) hr.forget
    case h_1 hb =>
      have hp := hr.passOn hb
      rw [hkey] at hp
      refine ⟨?_, ?_⟩
      · simpa [Frame.Fair, Frame.waiters] using hf
      · simpa [Frame.waiters, Frame.reservations, Multiset.singleton_add] using hp
    · exact .of_free (by simpa using hfree .ended rfl) hr.forget

private theorem fits_request {pc : RequestPc} {l : RequestLocals} (h : Fits m [.request pc l] W R) :
    Fits (requestSection cfg ch m l pc).1 (requestSection cfg ch m l pc).2.2 W R := by
  obtain ⟨-, hh⟩ := h.one
  have hgo : ∀ pc', Fits m [.request pc' l] W R := fun pc' => .of_one trivial hh
  have hnone : Reservations m W R := by
    refine Reservations.drop (by simpa [Frame.waiters] using hh) ?_
    exact Multiset.le_add_left R _
  cases pc with
  | admitted =>
    simp only [requestSection]
    repeat' split
    · exact hgo _
    · have ht := hnone.take l.key
      refine .of_one trivial ?_
      have hm : (m.reserveEngineRequest ch.now l.key).waits = (m.takeReservation l.key).waits := by
        unfold Manager.reserveEngineRequest
        dsimp only
        split <;> rfl
      simpa [Frame.waiters, Frame.reservations, Multiset.singleton_add] using ht.same hm
    · exact hgo _
  | executing =>
    simp only [requestSection]
    repeat' split
    · exact (hgo _).push ⟨rfl, rfl, trivial⟩
    · exact (hgo _).push ⟨rfl, rfl, trivial⟩
    · exact hgo _
  | releaseRequest =>
    simp only [requestSection]
    cases hres : l.reserved with
    | true =>
      refine ⟨by simp [Frame.Fair], ?_⟩
      simpa [Frame.waiters, Frame.reservations, hres] using hh
    | false => exact hgo _
  | releaseAdmission =>
    simp only [requestSection]
    have hfree : ∀ w, (Frame.releaseSpawnAdmission l.key w).Free := fun w => ⟨rfl, rfl, trivial⟩
    repeat' split
    · exact .of_free (by simp) hnone
    · exact .of_free (by simpa using hfree _) hnone
    · exact .of_free (by simp) hnone

/-- Every section keeps the holders. -/
theorem fits_advance {f : Frame} {x : Next} (h : Fits m [f] W R)
    (hx : f.advance cfg ch m r = some x) : Fits x.1 x.2.2 W R := by
  by_cases ha : f.family = .admission
  · cases f with
    | admission pc call => exact fits_admission h hx
    | _ => cases ha
  by_cases hq : f.family = .request
  · cases f with
    | request pc l =>
      cases hx
      exact fits_request h
    | _ => cases hq
  by_cases hl : f.family = .releaseRequest
  · cases f with
    | releaseEngineRequest k =>
      cases hx
      refine Fits.of_free ?_ (Reservations.release ?_)
      · simp [Frame.Free, Frame.waiters, Frame.reservations, Frame.Fair]
      · simpa [Frame.waiters, Frame.reservations, Multiset.singleton_add] using h.one.2
    | _ => cases hl
  · refine .of_free (fun g hg => ?_)
      ((h.free (Frame.free_of_family ha hq hl)).advance ha hq hl hx)
    have hlead := family_advance hx g hg
    refine Frame.free_of_family ?_ ?_ ?_
    all_goals
      intro hk
      rw [hk] at hlead
      revert hlead ha hq hl
      cases f.family <;> simp [Family.leads]

/-! ## Runs -/

/-- Any operation may be called at any time, except that `release_engine_request` is left to
the holders of reservations: the requests and the cancelled admissions. -/
def Matched (_ : System) : Act → Prop
  | .call f => f.opens = true ∧ f.family ≠ .releaseRequest
  | _ => True

instance (s : System) (a : Act) : Decidable (Matched s a) :=
  match a with
  | .call f => inferInstanceAs (Decidable (f.opens = true ∧ f.family ≠ .releaseRequest))
  | .run .. | .outside _ => isTrue trivial

/-- The holders next to all frames. -/
structure Reserved (m : Manager) (F : Multiset Frame) : Prop where
  fair : ∀ f ∈ F, f.Fair
  holders : Reservations m (total Frame.waiters F) (total Frame.reservations F)

private theorem free_of_opens {f : Frame} (h : f.opens = true)
    (hl : f.family ≠ .releaseRequest) : f.Free := by
  cases f with
  | releaseEngineRequest k => exact absurd rfl hl
  | admission pc call =>
    simp only [Frame.opens, Bool.and_eq_true, decide_eq_true_eq] at h
    obtain ⟨rfl, hc⟩ := h
    refine ⟨rfl, rfl, fun hf => ?_, by simp [Frame.waiters]⟩
    simpa [hf] using hc
  | request => cases h
  | _ => exact ⟨rfl, rfl, trivial⟩

theorem steady_reserved (cfg : Setup) : Steady (code cfg) Matched Reserved where
  call s f hq h := by
    obtain ⟨hw, hr, hf⟩ := free_of_opens hq.1 hq.2
    constructor
    · intro g hg
      rcases Multiset.mem_cons.mp hg with rfl | hg
      · exact hf
      · exact h.fair g hg
    · simpa [hw, hr] using h.holders
  run s i ch f rest r F _ _ _ h m' r' fs hx := by
    have hp : Fits s.shared [f] (total Frame.waiters F) (total Frame.reservations F) :=
      .of_one (h.fair f (Multiset.mem_cons_self f F)) (by simpa using h.holders)
    have ha := fits_advance hp hx
    constructor
    · intro g hg
      rcases Multiset.mem_add.mp hg with hg | hg
      · exact ha.fair g hg
      · exact h.fair g (Multiset.mem_cons_of_mem hg)
    · simpa using ha.holders
  outside s o _ h := ⟨h.fair, h.holders.same rfl⟩

theorem reserved_start : Reserved System.start.shared System.start.frames where
  fair := by simp [System.start, Config.frames]
  holders := by
    constructor
    all_goals simp [System.start, Config.frames, total, Manager.init, Manager.reserved]

/-- A frame holds a reservation: from the moment at which the admission loop or the request
takes it until the release. -/
def Frame.Holds (m : Manager) (k : Key) (f : Frame) : Prop :=
  k ∈ f.reservations + m.reserved f.waiters

instance (m : Manager) (k : Key) (f : Frame) : Decidable (f.Holds m k) := by
  unfold Frame.Holds
  infer_instance

/-- A call in progress of thread `i` holds a reservation. -/
def System.Holds (s : System) (i : ℕ) (k : Key) : Prop :=
  ∃ t, s.threads[i]? = some t ∧ ∃ f ∈ t.stack, f.Holds s.shared k

/-- The step explicitly shuts down the engine of `k`, or restarts it because its configuration
has changed or it is no longer alive. -/
def System.StopsEngine (cfg : Setup) (s : System) (k : Key) : Act → Prop
  | .run i _ => ∃ f rest r, s.threads[i]? = some ⟨f :: rest, r⟩ ∧ (f.scope cfg s.shared).stops k
  | _ => False

/-- The step registers an engine of `k`. -/
def System.Registers (cfg : Setup) (s : System) (k : Key) : Act → Prop
  | .run i _ => ∃ f rest r, s.threads[i]? = some ⟨f :: rest, r⟩ ∧
      (f.scope cfg s.shared).registers k
  | _ => False

theorem Reserved.pos {s : System} (h : Reserved s.shared s.frames) {i : ℕ} {k : Key}
    (hk : s.Holds i k) : 0 < s.shared.requestReservations k := by
  obtain ⟨t, ht, f, hf, hk⟩ := hk
  obtain ⟨F, hF⟩ := Multiset.exists_cons_of_mem
    (Config.mem_frames.mpr ⟨t, List.mem_of_getElem? ht, hf⟩)
  have hheld := h.holders.held k
  rw [hF, total_cons, total_cons] at hheld
  refine lt_of_lt_of_le (Multiset.count_pos.mpr ?_) hheld
  rcases Multiset.mem_add.mp hk with hk | hk
  · simp [hk]
  · refine Multiset.mem_add.mpr (Or.inr ?_)
    refine Multiset.mem_of_le (Multiset.map_le_map (Multiset.filter_le_filter _ ?_)) hk
    exact Multiset.le_add_right _ _

/-- The identity `k` is registered, with engine `e` unless an engine may be registered over
it, and its engine is in use. -/
private def Engaged (sc : Scope) (k : Key) (e : EngineId) (m : Manager) : Prop :=
  (∃ e', m.engines.get k = some e' ∧ (e' = e ∨ sc.registers k)) ∧ 0 < m.requestReservations k

private theorem Engaged.ne_of_idle {sc : Scope} {k k' : Key} {e e' : EngineId} {m : Manager}
    (h : Engaged sc k e m) (hi : m.idle k' e' = true) : k ≠ k' := by
  rintro rfl
  simp only [Manager.idle, Bool.and_eq_true, decide_eq_true_eq] at hi
  exact absurd hi.1.2 h.2.ne'

private theorem Engaged.stop {sc : Scope} {k k' : Key} {e : EngineId} {m : Manager}
    (h : Engaged sc k e m) (hne : k ≠ k') (e' : EngineId) : Engaged sc k e (m.beginStop k' e') := by
  refine ⟨?_, h.2⟩
  simpa [Manager.beginStop, hne] using h.1

private theorem kept_engaged (cfg : Setup) {sc : Scope} {k : Key} (e : EngineId)
    (hs : ¬ sc.stops k) (hr : ¬ sc.releases k) : Kept cfg sc (Engaged sc k e) where
  same := by
    intro m m' h he
    simp only [Manager.core, Prod.mk.injEq] at he
    unfold Engaged
    rw [he.1, he.2.2.2.2.1]
    exact h
  install _ _ h := h
  pop _ h := h
  reserve := by
    intro m m' a hres h
    simp only [Manager.reserveCapacityLocked] at hres
    split at hres
    · cases hres
      exact h
    · split at hres
      · cases hres
      case h_2 k' e' hidle =>
        cases hres
        have hm := List.mem_filter.mp (List.argmin_mem hidle)
        exact h.stop (h.ne_of_idle hm.2) e'
  take k' h := by
    refine ⟨h.1, ?_⟩
    by_cases hk : k = k'
    · subst hk
      simp [Manager.takeReservation]
    · simpa [Manager.takeReservation, hk] using h.2
  release k' hrel h := by
    have hk : k ≠ k' := by
      rintro rfl
      exact hr hrel
    refine ⟨h.1, ?_⟩
    simpa [Manager.releaseReservation, hk] using h.2
  stop := by
    intro m k' e' _ hwhy h
    refine h.stop ?_ e'
    rcases hwhy with hidle | hexp
    · exact h.ne_of_idle hidle
    · rintro rfl
      exact hs hexp
  put k' e' hreg h := by
    refine ⟨?_, h.2⟩
    by_cases hk : k = k'
    · subst hk
      exact ⟨e', by simp, Or.inr hreg⟩
    · simpa [hk] using h.1

/-- One step next to a held reservation. -/
theorem registered_step {cfg : Setup} {s s' : System} {a : Act} {k : Key} {e : EngineId}
    (hpos : 0 < s.shared.requestReservations k) (hstop : ¬ s.StopsEngine cfg k a)
    (he : s.shared.engines.get k = some e) (hs : s.step (code cfg) a = some s') :
    ∃ e', s'.shared.engines.get k = some e' ∧ (e' = e ∨ s.Registers cfg k a) := by
  cases a with
  | call f =>
    cases hs
    exact ⟨e, he, Or.inl rfl⟩
  | outside o =>
    cases hs
    exact ⟨e, he, Or.inl rfl⟩
  | run i ch =>
    simp only [Config.step] at hs
    split at hs
    case h_2 => cases hs
    case h_1 f rest r hi =>
      obtain ⟨x, hx, rfl⟩ := Option.map_eq_some_iff.mp hs
      by_cases hrel : (f.scope cfg s.shared).releases k
      · -- the release itself only counts down
        cases f with
        | releaseEngineRequest k' =>
          cases hx
          exact ⟨e, he, Or.inl rfl⟩
        | _ => cases hrel
      · have hkept := kept_engaged cfg e (fun h => hstop ⟨f, rest, r, hi, h⟩) hrel
        obtain ⟨⟨e', he', hor⟩, -⟩ := hkept.advance ⟨⟨e, he, Or.inl rfl⟩, hpos⟩ hx
        exact ⟨e', he', hor.imp_right fun h => ⟨f, rest, r, hi, h⟩⟩

/-- An admitted request keeps its engine. In every state of every run the reservations counted
for an identity are those taken and not yet released. And along every run on which some thread
holds a reservation before each step, and no step explicitly shuts the engine down or restarts
it, the identity stays registered, with the same engine unless another one is registered over
it. -/
theorem admitted_request_keeps_engine (cfg : Setup) {s : System}
    (hr : System.start.Reaches (code cfg) Matched s) :
    (∀ k, s.shared.requestReservations k + s.shared.history.released.count k =
      s.shared.history.taken.count k) ∧
    ∀ i k e, s.shared.engines.get k = some e → ∀ s',
      (s.Reaches (code cfg)
        (fun u a => Matched u a ∧ System.Holds u i k ∧ ¬ System.StopsEngine cfg u k a) s' →
        (s'.shared.engines.get k).isSome = true) ∧
      (s.Reaches (code cfg)
        (fun u a => (Matched u a ∧ System.Holds u i k ∧ ¬ System.StopsEngine cfg u k a) ∧
          ¬ System.Registers cfg u k a) s' → s'.shared.engines.get k = some e) := by
  have hinv := (steady_reserved cfg).reaches hr reserved_start
  refine ⟨hinv.holders.balance, fun i k e he s' => ⟨fun hrun => ?_, fun hrun => ?_⟩⟩
  · suffices h : Reserved s'.shared s'.frames ∧ (s'.shared.engines.get k).isSome = true from h.2
    induction hrun with
    | refl => exact ⟨hinv, by rw [he]; rfl⟩
    | tail _ hstep ih =>
      obtain ⟨a, ⟨hq, hk, hstop⟩, hs⟩ := hstep
      obtain ⟨e1, he1⟩ := Option.isSome_iff_exists.mp ih.2
      obtain ⟨e', he', -⟩ := registered_step (ih.1.pos hk) hstop he1 hs
      exact ⟨(steady_reserved cfg).step hq hs ih.1, by rw [he']; rfl⟩
  · suffices h : Reserved s'.shared s'.frames ∧ s'.shared.engines.get k = some e from h.2
    induction hrun with
    | refl => exact ⟨hinv, he⟩
    | tail _ hstep ih =>
      obtain ⟨a, ⟨⟨hq, hk, hstop⟩, hreg⟩, hs⟩ := hstep
      obtain ⟨e', he', hor⟩ := registered_step (ih.1.pos hk) hstop ih.2 hs
      rw [hor.resolve_right hreg] at he'
      exact ⟨(steady_reserved cfg).step hq hs ih.1, he'⟩

/-- A request of the engine `a`, which is idle. -/
def requestScript : List Act :=
  callSpawn "a" :: sections 0 13 ++
    .call (.admission .turn ⟨analysisKey "a", .interactive, true, true⟩) :: sections 1 2

/-- An admission that needs the slot of `a`. -/
def competingScript : List Act := callAdmission "b" :: sections 2 2

/-- Thread 1 holds a reservation of `a`, and the step neither spawns nor stops. -/
private def besideRequest (s : System) (a : Act) : Bool :=
  decide (Matched s a) &&
    (s.threads[1]?.any fun t => t.stack.any fun f => decide (f.Holds s.shared (analysisKey "a"))) &&
    match a with
    | .run i _ => match s.threads[i]? with
      | some ⟨.admission _ _ :: _, _⟩ => true
      | _ => false
    | _ => true

private theorem besideRequest_spec {s : System} {a : Act} (h : besideRequest s a = true) :
    Matched s a ∧ s.Holds 1 (analysisKey "a") ∧
      ¬ s.StopsEngine (plainSetup 1) (analysisKey "a") a := by
  simp only [besideRequest, Bool.and_eq_true, decide_eq_true_eq] at h
  obtain ⟨⟨hm, hh⟩, ha⟩ := h
  refine ⟨hm, ?_, ?_⟩
  · obtain ⟨t, ht, hf⟩ := (Option.any_eq_true _ _).mp hh
    obtain ⟨f, hmem, hk⟩ := List.any_eq_true.mp hf
    exact ⟨t, ht, f, hmem, of_decide_eq_true hk⟩
  · cases a with
    | call | outside => exact id
    | run i ch =>
      rintro ⟨f, rest, r, hi, hs⟩
      simp only [hi] at ha
      cases f with
      | admission => exact hs
      | _ => cases ha

/-- With one worker, the engine of the request is not evicted for the admission. -/
theorem admitted_request_keeps_engine_of_admission :
    ∃ s s' : System, System.start.Reaches (code (plainSetup 1)) Matched s ∧
      s.Reaches (code (plainSetup 1)) (fun u a => Matched u a ∧
        System.Holds u 1 (analysisKey "a") ∧
        ¬ System.StopsEngine (plainSetup 1) u (analysisKey "a") a) s' ∧
      s'.shared.spawnWaiters ≠ [] ∧ (s'.shared.engines.get (analysisKey "a")).isSome = true := by
  have hrun : ((System.start.replay (code (plainSetup 1)) (fun s a => decide (Matched s a))
      requestScript).any fun s => decide (s.shared.engines.get (analysisKey "a") = some 0) &&
        (s.replay (code (plainSetup 1)) besideRequest competingScript).any
          fun s' => decide (s'.shared.spawnWaiters ≠ [])) = true := by
    decide +kernel
  obtain ⟨s, hs, hp⟩ := (Option.any_eq_true _ _).mp hrun
  simp only [Bool.and_eq_true, decide_eq_true_eq] at hp
  obtain ⟨s', hs', hw⟩ := (Option.any_eq_true _ _).mp hp.2
  have hr : System.start.Reaches (code (plainSetup 1)) Matched s :=
    .of_replay (fun _ _ => of_decide_eq_true) hs
  have hr' := Config.Reaches.of_replay (fun _ _ => besideRequest_spec) hs'
  exact ⟨s, s', hr, hr', of_decide_eq_true hw,
    ((admitted_request_keeps_engine (plainSetup 1) hr).2 1 _ 0 hp.1 s').1 hr'⟩

end DataForge.Engines
