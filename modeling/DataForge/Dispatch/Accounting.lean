import Mathlib.Data.List.Nodup
import DataForge.Dispatch.Model

/-!
# Drain permits

The loop counts the drain wakes of a namespace: `drain_permits` holds exactly as many as are
pending or in flight, so that giving one back never misses its key. A namespace is dropped from
`drain_namespaces` only where its last drain wake found nothing more.
-/

namespace DataForge.Dispatch

variable {lane : Lane} {s s' : State} {ns : String}

/-- A drain wake of a namespace. -/
def ComputeRequestWake.drains (ns : String) (w : ComputeRequestWake) : Bool :=
  w.requestId == none && w.ns == ns

@[simp] theorem drain_drains {ns' : String} :
    (ComputeRequestWake.drain ns).drains ns' = (ns == ns') := by
  simp [ComputeRequestWake.drain, ComputeRequestWake.drains]

/-- How many drain wakes of a namespace are pending or in flight. -/
def State.drains (s : State) (ns : String) : ℕ :=
  s.pendingWakes.countP (·.drains ns) + s.inFlight.countP (·.wake.drains ns)

/-- The value of `drain_permits` for a number of drain wakes. -/
def permitsOf (n : ℕ) : Option ℤ := if n = 0 then none else some n

@[simp] theorem permitsOf_getD (n : ℕ) : (permitsOf n).getD 0 = n := by
  unfold permitsOf
  split
  · simp_all
  · rfl

/-- `drain_permits` counts the drain wakes; a namespace without one has no key. -/
def Accounted (s : State) : Prop := ∀ ns, s.drainPermits ns = permitsOf (s.drains ns)

/-- What holds between any two steps, whatever the loop does next. -/
structure Core (lane : Lane) (s : State) : Prop where
  permits : Accounted s
  limit : s.inFlight.length ≤ lane.concurrency
  fresh : ∀ f ∈ s.inFlight, f.task < s.nextTask
  nodup : (s.inFlight.map (·.task)).Nodup

theorem Core.same (h : Core lane s) (hp : s'.pendingWakes = s.pendingWakes)
    (hf : s'.inFlight = s.inFlight) (hd : s'.drainPermits = s.drainPermits)
    (hn : s'.nextTask = s.nextTask) : Core lane s' where
  permits ns := by
    rw [hd, h.permits ns, State.drains, State.drains, hp, hf]
  limit := hf ▸ h.limit
  fresh := hf ▸ hn ▸ h.fresh
  nodup := hf ▸ h.nodup

theorem State.drains_enqueueDrain (permits : ℕ) (ns' : String) :
    (s.enqueueDrain ns permits).drains ns' = s.drains ns' + if ns = ns' then permits else 0 := by
  simp only [State.drains, State.enqueueDrain, List.countP_append, List.countP_replicate,
    drain_drains, beq_iff_eq]
  omega

theorem Core.enqueueDrain (h : Core lane s) (ns : String) {permits : ℕ} (hpos : 0 < permits) :
    Core lane (s.enqueueDrain ns permits) where
  permits ns' := by
    rw [State.drains_enqueueDrain]
    by_cases hns : ns = ns'
    · cases hns
      have hget := permitsOf_getD (s.drains ns)
      have hne : s.drains ns + permits ≠ 0 := by omega
      simp only [State.enqueueDrain, Function.update_self, h.permits ns, hget, if_true]
      rw [permitsOf, if_neg hne]
      push_cast
      rfl
    · simp [State.enqueueDrain, hns, Function.update_of_ne (Ne.symm hns), h.permits ns']
  limit := h.limit
  fresh := h.fresh
  nodup := h.nodup

theorem Core.enqueueRequest (h : Core lane s) {wake : ComputeRequestWake}
    (hid : wake.requestId ≠ none) (hp : s'.pendingWakes = s.pendingWakes ++ [wake])
    (hf : s'.inFlight = s.inFlight) (hd : s'.drainPermits = s.drainPermits)
    (hn : s'.nextTask = s.nextTask) : Core lane s' where
  permits ns := by
    have hno : wake.drains ns = false := by simp [ComputeRequestWake.drains, hid]
    rw [hd, h.permits ns, State.drains, State.drains, hp, hf, List.countP_append,
      List.countP_singleton, hno]
    simp
  limit := hf ▸ h.limit
  fresh := hf ▸ hn ▸ h.fresh
  nodup := hf ▸ h.nodup

@[simp] theorem State.remember_same (id : String) :
    (s.remember id).pendingWakes = s.pendingWakes ∧ (s.remember id).inFlight = s.inFlight ∧
      (s.remember id).drainPermits = s.drainPermits ∧
      (s.remember id).drainNamespaces = s.drainNamespaces ∧
      (s.remember id).nextTask = s.nextTask ∧ (s.remember id).hub = s.hub ∧
      (s.remember id).lastSeen = s.lastSeen := by
  unfold State.remember
  split
  · split <;> exact ⟨rfl, rfl, rfl, rfl, rfl, rfl, rfl⟩
  · exact ⟨rfl, rfl, rfl, rfl, rfl, rfl, rfl⟩

theorem State.accept_cases (lane : Lane) (s : State) (payload : Option ComputeRequestWake) :
    s.accept lane payload = s ∨ (∃ ns, s.accept lane payload = s.enqueueDrain ns 1) ∨
      ∃ wake id, wake.requestId = some id ∧ s.accept lane payload =
        { s.remember id with
          pendingWakes := s.pendingWakes ++ [wake]
          drainNamespaces := insert wake.ns s.drainNamespaces } := by
  cases payload with
  | none => exact .inl rfl
  | some wake =>
    unfold State.accept
    dsimp only
    split
    · exact .inl rfl
    · cases hid : wake.requestId with
      | none =>
        dsimp only
        split
        · exact .inr (.inl ⟨wake.ns, rfl⟩)
        · exact .inl rfl
      | some id =>
        dsimp only
        split
        · exact .inl rfl
        · split
          · exact .inl rfl
          · refine .inr (.inr ⟨wake, id, hid, ?_⟩)
            rw [(State.remember_same id).1, (State.remember_same id).2.2.2.1]

theorem Core.accept (h : Core lane s) (payload : Option ComputeRequestWake) :
    Core lane (s.accept lane payload) := by
  obtain heq | ⟨ns, heq⟩ | ⟨wake, id, hid, heq⟩ := s.accept_cases lane payload
  · rw [heq]
    exact h
  · rw [heq]
    exact h.enqueueDrain ns Nat.one_pos
  · have hs := State.remember_same (s := s) id
    rw [heq]
    exact h.enqueueRequest (by simp [hid]) rfl hs.2.1 hs.2.2.1 hs.2.2.2.2.1

/-- The first pending wake goes into flight. -/
theorem Core.dispatch (h : Core lane s) {wake : ComputeRequestWake}
    {rest : List ComputeRequestWake} (hp : s.pendingWakes = wake :: rest)
    (hroom : s.inFlight.length < lane.concurrency) : Core lane (s.dispatch wake rest) where
  permits ns := by
    have heq : (s.dispatch wake rest).drains ns = s.drains ns := by
      simp only [State.drains, State.dispatch, hp, List.countP_append, List.countP_cons,
        List.countP_nil]
      omega
    rw [heq]
    exact h.permits ns
  limit := by
    simp only [State.dispatch, List.length_append, List.length_singleton]
    omega
  fresh f hf := by
    simp only [State.dispatch, List.mem_append, List.mem_singleton] at hf ⊢
    cases hf with
    | inl hf => exact (h.fresh f hf).trans (Nat.lt_succ_self _)
    | inr hf => rw [hf]; exact Nat.lt_succ_self _
  nodup := by
    have hnew : ∀ f ∈ s.inFlight, f.task ≠ s.nextTask := fun f hf => (h.fresh f hf).ne
    simp only [State.dispatch, List.map_append, List.map_cons, List.map_nil]
    refine h.nodup.append (List.nodup_singleton _) ?_
    simpa [List.disjoint_singleton] using hnew

variable {f : Flight}

theorem Core.split (h : Core lane s) (hf : f ∈ s.inFlight) :
    ∃ before after, s.inFlight = before ++ f :: after ∧
      s.inFlight.filter (·.task ≠ f.task) = before ++ after := by
  obtain ⟨before, after, heq⟩ := List.append_of_mem hf
  refine ⟨before, after, heq, ?_⟩
  have hnd := h.nodup
  rw [heq, List.map_append, List.map_cons, List.nodup_middle, List.nodup_cons] at hnd
  have hne : ∀ g ∈ before ++ after, g.task ≠ f.task := by
    intro g hg he
    exact hnd.1 (he ▸ List.map_append (f := Flight.task) ▸ List.mem_map_of_mem hg)
  rw [heq, List.filter_append, List.filter_cons_of_neg (by simp), ← List.filter_append]
  exact List.filter_eq_self.mpr fun g hg => by simpa using hne g hg

/-- What is left when a flight is taken off. -/
def State.without (s : State) (f : Flight) : State :=
  { s with inFlight := s.inFlight.filter (·.task ≠ f.task) }

theorem Core.drains_without (h : Core lane s) (hf : f ∈ s.inFlight) (ns : String) :
    s.drains ns = (s.without f).drains ns + if f.wake.drains ns then 1 else 0 := by
  obtain ⟨before, after, heq, hfilter⟩ := h.split hf
  unfold State.without State.drains
  dsimp only
  rw [hfilter, heq]
  simp only [List.countP_append, List.countP_cons]
  omega

theorem Core.without_fields (h : Core lane s) (f : Flight) :
    (s.without f).inFlight.length ≤ lane.concurrency ∧
      (∀ g ∈ (s.without f).inFlight, g.task < s.nextTask) ∧
      ((s.without f).inFlight.map (·.task)).Nodup :=
  ⟨(List.length_filter_le _ _).trans h.limit, fun g hg => h.fresh g (List.mem_of_mem_filter hg),
    h.nodup.sublist (List.filter_sublist.map _)⟩

theorem Core.withoutRequest (h : Core lane s) (hf : f ∈ s.inFlight) (hid : f.wake.requestId ≠ none)
    : Core lane (s.without f) where
  permits ns := by
    have hno : f.wake.drains ns = false := by simp [ComputeRequestWake.drains, hid]
    have hd := h.drains_without hf ns
    rw [hno] at hd
    rw [show (s.without f).drains ns = s.drains ns by simpa using hd.symm]
    exact h.permits ns
  limit := (h.without_fields f).1
  fresh := (h.without_fields f).2.1
  nodup := (h.without_fields f).2.2

theorem Core.requeue (h : Core lane s) (hf : f ∈ s.inFlight) :
    Core lane { s.without f with pendingWakes := s.pendingWakes ++ [f.wake] } where
  permits ns := by
    have heq : State.drains { s.without f with pendingWakes := s.pendingWakes ++ [f.wake] } ns =
        s.drains ns := by
      rw [h.drains_without hf ns]
      simp only [State.drains, State.without, List.countP_append, List.countP_cons,
        List.countP_nil]
      omega
    rw [heq]
    exact h.permits ns
  limit := (h.without_fields f).1
  fresh := (h.without_fields f).2.1
  nodup := (h.without_fields f).2.2

theorem Core.released (h : Core lane s) (hf : f ∈ s.inFlight) (hid : f.wake.requestId = none)
    {permits : Option ℤ} (hp : permits = permitsOf ((s.without f).drains f.wake.ns)) (ns : String) :
    Function.update s.drainPermits f.wake.ns permits ns = permitsOf ((s.without f).drains ns) := by
  by_cases hns : ns = f.wake.ns
  · rw [hns, Function.update_self, hp]
  · have hno : f.wake.drains ns = false := by
      simp [ComputeRequestWake.drains, hid, Ne.symm hns]
    have hd := h.drains_without hf ns
    rw [hno] at hd
    rw [Function.update_of_ne hns, h.permits ns]
    exact congrArg permitsOf (by simpa using hd)

/-- What settling a drain wake without a result does. -/
theorem Core.release_cases (h : Core lane s) (hf : f ∈ s.inFlight) (hid : f.wake.requestId = none) :
    ∃ permits kept, (s.without f).release f.wake.ns =
        { s.without f with
          drainPermits := Function.update s.drainPermits f.wake.ns permits
          drainNamespaces := kept } ∧
      permits = permitsOf ((s.without f).drains f.wake.ns) ∧
      (kept = s.drainNamespaces ∨ (s.without f).namespaceHasWork f.wake.ns = false ∧
        kept = s.drainNamespaces.erase f.wake.ns) := by
  have hown : f.wake.drains f.wake.ns = true := by simp [ComputeRequestWake.drains, hid]
  have hd := h.drains_without hf f.wake.ns
  rw [hown] at hd
  set n := (s.without f).drains f.wake.ns with hn
  have hper : (s.without f).drainPermits f.wake.ns = some ((n : ℤ) + 1) := by
    have hs : (s.without f).drainPermits f.wake.ns = _ := h.permits f.wake.ns
    rw [hd, permitsOf, if_neg (by simp)] at hs
    simpa using hs
  unfold State.release
  rw [hper]
  dsimp only
  by_cases hz : n = 0
  · rw [if_neg (by simp [hz])]
    cases hw : State.namespaceHasWork
        { s.without f with
          drainPermits := Function.update (s.without f).drainPermits f.wake.ns none } f.wake.ns with
    | true => exact ⟨none, _, by simp only [if_true]; rfl, by simp [permitsOf, hz], .inl rfl⟩
    | false =>
      exact ⟨none, _, by simp only [Bool.false_eq_true, if_false]; rfl, by simp [permitsOf, hz],
        .inr ⟨hw, rfl⟩⟩
  · rw [if_pos (by omega)]
    exact ⟨some n, _, by rw [Int.add_sub_cancel]; rfl, by simp [permitsOf, hz], .inl rfl⟩

theorem Core.settle (h : Core lane s) (hf : f ∈ s.inFlight) (hdone : f.state.done = true) :
    Core lane (s.settle f) ∧ (s.settle f).phase = s.phase := by
  unfold State.settle
  cases hid : f.wake.requestId with
  | some id => exact ⟨h.withoutRequest hf (by simp [hid]), rfl⟩
  | none =>
    cases hstate : f.state with
    | finished outcome =>
      dsimp only
      cases outcome.result with
      | true => exact ⟨h.requeue hf, rfl⟩
      | false =>
        obtain ⟨permits, kept, heq, hp, -⟩ := h.release_cases hf hid
        rw [State.without] at heq
        simp only [Bool.false_eq_true, if_false, heq]
        exact ⟨⟨h.released hf hid hp, (h.without_fields f).1, (h.without_fields f).2.1,
          (h.without_fields f).2.2⟩, trivial⟩
    | created | claiming | executing | rejecting => simp [hstate, TaskState.done] at hdone

variable {move : TaskMove}

theorem TaskState.step_done {t t' : TaskState} (h : t.step move = some t') :
    t.done = false := by
  cases t with
  | finished outcome => cases h
  | created | claiming | executing | rejecting => rfl

theorem taskStep_cases {k : ℕ} (h : taskStep k move s = some s') :
    s.phase.suspended = true ∧ ∃ f state, s.inFlight.find? (·.task = k) = some f ∧
      f.state.step move = some state ∧ s' = { s with
        inFlight := s.inFlight.map fun g => if g.task = k then { g with state } else g } := by
  unfold taskStep at h
  split at h
  · obtain ⟨f, hf, h⟩ := Option.bind_eq_some_iff.mp h
    obtain ⟨state, hs, rfl⟩ := Option.map_eq_some_iff.mp h
    exact ⟨‹_›, f, state, hf, hs, rfl⟩
  · cases h

theorem map_state {β : Type} (g : Flight → β) (k : ℕ) (state : TaskState) (flights : List Flight)
    (hg : ∀ f, g { f with state } = g f) :
    (flights.map fun f => if f.task = k then { f with state } else f).map g = flights.map g := by
  rw [List.map_map]
  refine List.map_congr_left fun f _ => ?_
  by_cases hk : f.task = k
  · rw [Function.comp_apply, if_pos hk]
    exact hg f
  · rw [Function.comp_apply, if_neg hk]

theorem Core.taskStep (h : Core lane s) {k : ℕ} (hs : taskStep k move s = some s') :
    Core lane s' := by
  obtain ⟨-, f, state, -, -, rfl⟩ := taskStep_cases hs
  have htasks := map_state (·.task) k state s.inFlight fun _ => rfl
  refine ⟨fun ns => ?_, ?_, fun g hg => ?_, ?_⟩
  · have hwakes := map_state (·.wake) k state s.inFlight fun _ => rfl
    have hcount : ∀ flights : List Flight, flights.countP (·.wake.drains ns) =
        (flights.map (·.wake)).countP (·.drains ns) := fun flights => by
      rw [List.countP_map]
      rfl
    dsimp only
    rw [State.drains, hcount, hwakes, ← hcount]
    exact h.permits ns
  · simpa using h.limit
  · have hg' : g.task ∈ s.inFlight.map (·.task) := htasks ▸ List.mem_map_of_mem hg
    obtain ⟨f', hf', heq⟩ := List.mem_map.mp hg'
    exact heq ▸ h.fresh f' hf'
  · exact htasks.symm ▸ h.nodup

/-- The done tasks that the loop still has to settle. -/
def Phase.remaining : Phase → List ℕ
  | .cancelling done _ _ _ => done
  | .settle rest _ _ => rest
  | _ => []

/-- The loop has read the namespaces with work, to fill a free place. -/
def Phase.recovering : Phase → Bool
  | .snapshot | .recover _ => true
  | _ => false

/-- The invariant of the loop. -/
structure Sound (lane : Lane) (s : State) : Prop extends Core lane s where
  room : s.phase.recovering = true → s.inFlight.length < lane.concurrency
  known : ∀ k ∈ s.phase.remaining, ∃ f ∈ s.inFlight, f.task = k ∧ f.state.done = true
  once : s.phase.remaining.Nodup
  intact : s.phase ≠ .crashed

/-- A phase that asks for nothing. -/
def Phase.plain (p : Phase) : Prop :=
  p.remaining = [] ∧ p.recovering = false ∧ p ≠ .crashed

theorem Core.sound (h : Core lane s) (hp : s.phase.plain) : Sound lane s where
  toCore := h
  room hr := by simp [hp.2.1] at hr
  known k hk := by simp [hp.1] at hk
  once := hp.1 ▸ List.nodup_nil
  intact := hp.2.2

theorem Core.goOn (h : Core lane s) (after : After) : Sound lane (s.goOn after) := by
  cases after with
  | idle => exact Core.sound (h.same rfl rfl rfl rfl) ⟨rfl, rfl, nofun⟩
  | top polled => exact Core.sound (h.same rfl rfl rfl rfl) ⟨rfl, rfl, nofun⟩

theorem Core.enqueueNotifications (h : Core lane s) (version : ℕ) (after : After) :
    Sound lane (s.enqueueNotifications version after) := by
  unfold State.enqueueNotifications
  split
  · exact h.goOn after
  · exact Core.sound (h.same rfl rfl rfl rfl) ⟨rfl, rfl, nofun⟩

theorem Core.doneTasks (h : Core lane s) :
    (∀ k ∈ s.doneTasks, ∃ f ∈ s.inFlight, f.task = k ∧ f.state.done = true) ∧
      s.doneTasks.Nodup := by
  refine ⟨fun k hk => ?_, h.nodup.sublist (List.filter_sublist.map _)⟩
  obtain ⟨f, hf, rfl⟩ := List.mem_map.mp hk
  exact ⟨f, List.mem_of_mem_filter hf, rfl, (List.mem_filter.mp hf).2⟩

theorem Core.find_eq (h : Core lane s) (hf : f ∈ s.inFlight) :
    s.inFlight.find? (·.task = f.task) = some f := by
  obtain ⟨before, after, heq, -⟩ := h.split hf
  have hnd := h.nodup
  rw [heq, List.map_append, List.map_cons, List.nodup_middle, List.nodup_cons,
    List.mem_append] at hnd
  rw [heq, List.find?_append, List.find?_eq_none.mpr, Option.none_or,
    List.find?_cons_of_pos (by simp)]
  intro g hg
  have hne : g.task ≠ f.task := fun he => hnd.1 (.inl (he ▸ List.mem_map_of_mem hg))
  simpa using hne

theorem mem_settle {f g : Flight} (hg : g ∈ s.inFlight) (hne : g.task ≠ f.task) :
    g ∈ (s.settle f).inFlight := by
  have hmem : g ∈ (s.without f).inFlight := List.mem_filter.mpr ⟨hg, by simpa using hne⟩
  unfold State.settle
  cases f.wake.requestId with
  | some id => exact hmem
  | none =>
    cases f.state with
    | finished outcome =>
      dsimp only
      split
      · exact hmem
      · unfold State.release
        split
        · exact hmem
        · split
          · exact hmem
          · dsimp only
            split <;> exact hmem
    | created | claiming | executing | rejecting => exact hmem

/-- Settling the next done task. -/
theorem Sound.settle (h : Sound lane s) {k : ℕ} {rest : List ℕ} {woken : Option ℕ} {polled : Bool}
    (hph : s.phase = .settle (k :: rest) woken polled) :
    ∃ f ∈ s.inFlight, f.task = k ∧ f.state.done = true ∧
      s.inFlight.find? (·.task = k) = some f ∧
      Sound lane (State.settle { s with phase := .settle rest woken polled } f) := by
  have hknown := h.known
  have honce := h.once
  rw [hph] at hknown honce
  obtain ⟨f, hf, rfl, hdone⟩ := hknown k (List.mem_cons_self ..)
  have hcore : Core lane { s with phase := .settle rest woken polled } :=
    h.toCore.same rfl rfl rfl rfl
  obtain ⟨hcore', hph'⟩ := hcore.settle hf hdone
  refine ⟨f, hf, rfl, hdone, h.toCore.find_eq hf, hcore', ?_, ?_, ?_, ?_⟩
  · simp [hph', Phase.recovering]
  · intro k' hk'
    rw [hph'] at hk'
    obtain ⟨g, hg, hgk, hgd⟩ := hknown k' (List.mem_cons_of_mem _ hk')
    have hne : g.task ≠ f.task := fun he =>
      (List.nodup_cons.mp honce).1 (he ▸ hgk.symm ▸ hk' : f.task ∈ rest)
    exact ⟨g, mem_settle hg hne, hgk, hgd⟩
  · rw [hph']
    exact (List.nodup_cons.mp honce).2
  · rw [hph']
    nofun

/-- One step of the loop keeps the invariant. -/
theorem Sound.loopStep (h : Sound lane s) {r : Reading} (hs : loopStep lane r s = some s') :
    Sound lane s' := by
  unfold DataForge.Dispatch.loopStep at hs
  have hc := h.toCore
  split at hs
  case h_1 =>
    split at hs <;> cases hs
    · exact Core.sound (hc.same rfl rfl rfl rfl) ⟨rfl, rfl, nofun⟩
    · exact hc.enqueueNotifications _ _
  case h_2 =>
    cases hs
    exact Core.sound ((hc.accept _).same rfl rfl rfl rfl) ⟨rfl, rfl, nofun⟩
  case h_3 version after _ =>
    cases hs
    have hc' : Core lane { s with lastSeen := version } := hc.same rfl rfl rfl rfl
    exact hc'.goOn after
  case h_4 =>
    split at hs
    · split at hs <;> cases hs
      exact Core.sound (hc.same rfl rfl rfl rfl) ⟨rfl, rfl, nofun⟩
    · cases hs
      exact Core.sound (hc.same rfl rfl rfl rfl) ⟨rfl, rfl, nofun⟩
  case h_5 ns rest _ =>
    cases hs
    refine Core.sound ?_ ⟨rfl, rfl, nofun⟩
    split
    · exact (hc.enqueueDrain ns Nat.one_pos).same rfl rfl rfl rfl
    · exact hc.same rfl rfl rfl rfl
  case h_6 =>
    cases hs
    exact Core.sound (hc.same rfl rfl rfl rfl) ⟨rfl, rfl, nofun⟩
  case h_7 =>
    split at hs
    · split at hs
      · cases hs
        exact Core.sound (hc.dispatch ‹_› ‹_›) ⟨rfl, rfl, nofun⟩
      · split at hs <;> cases hs
        · exact ⟨hc.same rfl rfl rfl rfl, fun _ => ‹_›, nofun, List.nodup_nil, nofun⟩
        · exact Core.sound (hc.same rfl rfl rfl rfl) ⟨rfl, rfl, nofun⟩
    · cases hs
      exact Core.sound (hc.same rfl rfl rfl rfl) ⟨rfl, rfl, nofun⟩
  case h_8 hph =>
    split at hs <;> cases hs
    · exact Core.sound (hc.same rfl rfl rfl rfl) ⟨rfl, rfl, nofun⟩
    · have hroom := h.room (by simp [hph, Phase.recovering])
      refine ⟨hc.same rfl rfl rfl rfl, fun _ => hroom, ?_, ?_, ?_⟩ <;> dsimp only <;> split
      · nofun
      · nofun
      · exact List.nodup_nil
      · exact List.nodup_nil
      · nofun
      · nofun
  case h_9 ns rest hph =>
    cases hs
    have hroom := h.room (by simp [hph, Phase.recovering])
    refine ⟨?_, fun _ => ?_, nofun, List.nodup_nil, nofun⟩ <;> split
    · exact hc.same rfl rfl rfl rfl
    · exact (hc.enqueueDrain ns Nat.one_pos).same rfl rfl rfl rfl
    · exact hroom
    · exact hroom
  case h_10 hph =>
    have hroom := h.room (by simp [hph, Phase.recovering])
    split at hs <;> cases hs
    · exact Core.sound (hc.dispatch ‹_› hroom) ⟨rfl, rfl, nofun⟩
    · exact Core.sound (hc.same rfl rfl rfl rfl) ⟨rfl, rfl, nofun⟩
  case h_11 =>
    split at hs <;> cases hs
    exact ⟨hc.same rfl rfl rfl rfl, nofun, hc.doneTasks.1, hc.doneTasks.2, nofun⟩
  case h_12 done woken polled stopped hph =>
    cases hs
    cases stopped with
    | true => exact Core.sound (hc.same rfl rfl rfl rfl) ⟨rfl, rfl, nofun⟩
    | false =>
      have hknown := h.known
      have honce := h.once
      rw [hph] at hknown honce
      exact ⟨hc.same rfl rfl rfl rfl, nofun, hknown, honce, nofun⟩
  case h_13 k rest woken polled hph =>
    obtain ⟨f, hf, hk, hdone, hfind, hsound⟩ := h.settle hph
    rw [hfind] at hs
    cases hs
    exact hsound
  case h_14 woken polled _ =>
    cases woken with
    | some version =>
      cases hs
      exact hc.enqueueNotifications _ _
    | none =>
      cases hs
      exact hc.goOn _
  case h_15 => cases hs
  case h_16 => cases hs

theorem Sound.step (h : Sound lane s) {a : Action} (hs : step lane s a = some s') :
    Sound lane s' := by
  cases a with
  | publish payload =>
    cases hs
    exact ⟨h.toCore.same rfl rfl rfl rfl, h.room, h.known, h.once, h.intact⟩
  | requestStop =>
    cases hs
    exact ⟨h.toCore.same rfl rfl rfl rfl, h.room, h.known, h.once, h.intact⟩
  | task k move =>
    have hcore := h.toCore.taskStep hs
    obtain ⟨-, f, state, hfind, hstep, rfl⟩ := taskStep_cases hs
    refine ⟨hcore, fun hr => ?_, fun k' hk' => ?_, h.once, h.intact⟩
    · simpa using h.room hr
    · obtain ⟨g, hg, hgk, hgd⟩ := h.known k' hk'
      refine ⟨g, List.mem_map.mpr ⟨g, hg, if_neg fun hk => ?_⟩, hgk, hgd⟩
      -- A task that moves is not done yet.
      have heq := h.toCore.find_eq hg
      rw [hk, hfind] at heq
      cases heq
      rw [TaskState.step_done hstep] at hgd
      cases hgd
  | loop r => exact h.loopStep hs

/-- A namespace is dropped: the step takes a done claim task of one of its drain wakes off, whose
outcome is one of `outcomes`, and no other wake of the namespace is pending or in flight. -/
def DroppedAfter (outcomes : Outcome → Prop) (s s' : State) (ns : String) : Prop :=
  ∃ f ∈ s.inFlight, ∃ outcome, f.wake.requestId = none ∧ f.wake.ns = ns ∧
    f.state = .finished outcome ∧ outcomes outcome ∧
    (∀ w ∈ s'.pendingWakes, w.ns ≠ ns) ∧ ∀ g ∈ s'.inFlight, g.wake.ns ≠ ns

theorem State.namespaceHasWork_false (h : s.namespaceHasWork ns = false) :
    (∀ w ∈ s.pendingWakes, w.ns ≠ ns) ∧ ∀ f ∈ s.inFlight, f.wake.ns ≠ ns := by
  simpa [State.namespaceHasWork, Bool.or_eq_false_iff] using h

theorem Core.dropped_settle (h : Core lane s) (hf : f ∈ s.inFlight) (hdone : f.state.done = true)
    (hin : ns ∈ s.drainNamespaces) (hout : ns ∉ (s.settle f).drainNamespaces) :
    DroppedAfter (·.result = false) s (s.settle f) ns := by
  unfold State.settle at hout ⊢
  cases hid : f.wake.requestId with
  | some id =>
    rw [hid] at hout
    exact absurd hin hout
  | none =>
    rw [hid] at hout
    cases hstate : f.state with
    | finished outcome =>
      rw [hstate] at hout
      dsimp only at hout ⊢
      cases hres : outcome.result with
      | true =>
        simp only [hres, if_true] at hout
        exact absurd hin hout
      | false =>
        obtain ⟨permits, kept, heq, -, hkept⟩ := h.release_cases hf hid
        rw [State.without] at heq hkept
        simp only [hres, Bool.false_eq_true, if_false, heq] at hout ⊢
        cases hkept with
        | inl hkept => exact absurd (hkept ▸ hin) hout
        | inr hkept =>
          obtain ⟨hwork, rfl⟩ := hkept
          have hns : ns = f.wake.ns := by
            by_contra hne
            exact hout (Finset.mem_erase.mpr ⟨hne, hin⟩)
          have hnone := State.namespaceHasWork_false hwork
          exact ⟨f, hf, outcome, hid, hns.symm, hstate, hres, hns ▸ hnone.1, hns ▸ hnone.2⟩
    | created | claiming | executing | rejecting => simp [hstate, TaskState.done] at hdone

theorem State.mem_accept (payload : Option ComputeRequestWake) (h : ns ∈ s.drainNamespaces) :
    ns ∈ (s.accept lane payload).drainNamespaces := by
  obtain heq | ⟨ns', heq⟩ | ⟨wake, id, -, heq⟩ := s.accept_cases lane payload
  · rw [heq]
    exact h
  · rw [heq]
    exact Finset.mem_insert_of_mem h
  · rw [heq]
    exact Finset.mem_insert_of_mem h

theorem State.drainNamespaces_goOn (after : After) :
    (s.goOn after).drainNamespaces = s.drainNamespaces := by
  cases after <;> rfl

theorem State.drainNamespaces_enqueueNotifications (version : ℕ) (after : After) :
    (s.enqueueNotifications version after).drainNamespaces = s.drainNamespaces := by
  unfold State.enqueueNotifications
  split
  · exact State.drainNamespaces_goOn after
  · rfl

/-- A namespace leaves `drain_namespaces` only where a done task is settled. -/
theorem Sound.dropped (h : Sound lane s) {a : Action} (hs : Dispatch.step lane s a = some s')
    (hin : ns ∈ s.drainNamespaces) (hout : ns ∉ s'.drainNamespaces) :
    DroppedAfter (·.result = false) s s' ns := by
  cases a with
  | publish payload =>
    cases hs
    exact absurd hin hout
  | requestStop =>
    cases hs
    exact absurd hin hout
  | task k move =>
    obtain ⟨-, f, state, -, -, rfl⟩ := taskStep_cases hs
    exact absurd hin hout
  | loop r =>
    change DataForge.Dispatch.loopStep lane r s = some s' at hs
    unfold DataForge.Dispatch.loopStep at hs
    split at hs
    case h_13 k rest woken polled hph =>
      obtain ⟨f, hf, rfl, hdone, hfind, -⟩ := h.settle hph
      rw [hfind] at hs
      cases hs
      have hcore : Core lane { s with phase := .settle rest woken polled } :=
        h.toCore.same rfl rfl rfl rfl
      exact hcore.dropped_settle hf hdone hin hout
    -- Every other step keeps the namespaces that are there.
    all_goals refine absurd ?_ hout
    case h_1 =>
      split at hs <;> cases hs
      · exact hin
      · rwa [State.drainNamespaces_enqueueNotifications]
    case h_2 =>
      cases hs
      exact State.mem_accept _ hin
    case h_3 =>
      cases hs
      rwa [State.drainNamespaces_goOn]
    case h_4 =>
      split at hs
      · split at hs <;> cases hs
        exact hin
      · cases hs
        exact hin
    case h_5 =>
      cases hs
      dsimp only
      split
      · exact Finset.mem_insert_of_mem hin
      · exact hin
    case h_6 =>
      cases hs
      exact hin
    case h_7 =>
      split at hs
      · split at hs
        · cases hs
          exact hin
        · split at hs <;> cases hs
          · exact hin
          · exact hin
      · cases hs
        exact hin
    case h_8 =>
      split at hs <;> cases hs
      · exact hin
      · exact hin
    case h_9 =>
      cases hs
      dsimp only
      split
      · exact hin
      · exact Finset.mem_insert_of_mem hin
    case h_10 =>
      split at hs <;> cases hs
      · exact hin
      · exact hin
    case h_11 =>
      split at hs <;> cases hs
      exact hin
    case h_12 =>
      cases hs
      exact hin
    case h_14 woken polled _ =>
      cases woken with
      | some version =>
        cases hs
        rwa [State.drainNamespaces_enqueueNotifications]
      | none =>
        cases hs
        rwa [State.drainNamespaces_goOn]
    case h_15 => cases hs
    case h_16 => cases hs

theorem Sound.start (lane : Lane) (hub : VersionHub) : Sound lane (.start hub) :=
  Core.sound ⟨fun _ => rfl, Nat.zero_le _, nofun, List.nodup_nil⟩ ⟨rfl, rfl, nofun⟩

end DataForge.Dispatch
