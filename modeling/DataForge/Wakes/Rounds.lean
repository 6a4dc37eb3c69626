import Mathlib.Data.Finset.Basic
import DataForge.Wakes.Dispatcher

/-!
# The steps of the dispatcher

What a step of the dispatcher or its environment can do (`Moves`), and what holds between any
two steps (`Sound`). A step that ends the idle wait moves the remembered version on without
enqueueing the wakes before it; the other two waits are followed by the wakes since the version
they started from.
-/

namespace DataForge.Wakes

/-- The membership set has the elements of the queue, which has no repetition. -/
def NamespaceWakeDispatcher.Consistent (d : NamespaceWakeDispatcher) : Prop :=
  d.pendingNamespaces.Nodup ∧ d.pendingNamespaceSet = d.pendingNamespaces.toFinset

section Queue

variable {d : NamespaceWakeDispatcher}

theorem NamespaceWakeDispatcher.Consistent.enqueueNamespace (h : d.Consistent) (ns : String) :
    (d.enqueueNamespace ns).Consistent := by
  unfold NamespaceWakeDispatcher.enqueueNamespace
  split
  case isTrue => exact h
  case isFalse hno =>
    have hnew : ns ∉ d.pendingNamespaces := by
      intro hmem
      exact hno (.inr (h.2 ▸ List.mem_toFinset.mpr hmem))
    constructor
    · refine h.1.append (List.nodup_singleton ns) ?_
      simpa [List.disjoint_singleton] using hnew
    · ext x
      simp only [h.2, Finset.mem_insert, List.mem_toFinset, List.mem_append, List.mem_singleton]
      exact or_comm

theorem NamespaceWakeDispatcher.Consistent.enqueueAll (h : d.Consistent) (names : List String) :
    (d.enqueueAll names).Consistent := by
  unfold NamespaceWakeDispatcher.enqueueAll
  induction names generalizing d with
  | nil => exact h
  | cons ns rest ih => exact ih (h.enqueueNamespace ns)

theorem NamespaceWakeDispatcher.enqueueAll_queue (d : NamespaceWakeDispatcher)
    (names : List String) :
    ∃ added, (d.enqueueAll names).pendingNamespaces = d.pendingNamespaces ++ added := by
  unfold NamespaceWakeDispatcher.enqueueAll
  induction names generalizing d with
  | nil => exact ⟨[], by simp⟩
  | cons ns rest ih =>
    obtain ⟨added, hadded⟩ := ih (d.enqueueNamespace ns)
    rw [List.foldl_cons, hadded]
    unfold NamespaceWakeDispatcher.enqueueNamespace
    split
    · exact ⟨added, rfl⟩
    · exact ⟨ns :: added, by simp⟩

theorem NamespaceWakeDispatcher.mem_enqueueAll_of_mem {ns : String} (names : List String)
    (h : ns ∈ d.pendingNamespaces) : ns ∈ (d.enqueueAll names).pendingNamespaces := by
  obtain ⟨added, hadded⟩ := d.enqueueAll_queue names
  rw [hadded]
  exact List.mem_append_left added h

theorem NamespaceWakeDispatcher.Consistent.mem_enqueueAll (h : d.Consistent) {ns : String}
    {names : List String} (hns : ns ∈ names) (hne : ns ≠ "") :
    ns ∈ (d.enqueueAll names).pendingNamespaces := by
  induction names generalizing d with
  | nil => cases hns
  | cons first rest ih =>
    rw [NamespaceWakeDispatcher.enqueueAll, List.foldl_cons]
    rcases List.mem_cons.mp hns with rfl | hrest
    · refine NamespaceWakeDispatcher.mem_enqueueAll_of_mem rest ?_
      unfold NamespaceWakeDispatcher.enqueueNamespace
      split
      case isTrue hin =>
        rw [← List.mem_toFinset, ← h.2]
        exact hin.resolve_left hne
      case isFalse => simp
    · exact ih (h.enqueueNamespace first) hrest

end Queue

variable {s s' : State} {a : Action}

/-- The version that a wait comes back with. -/
def Action.endsAt (s : State) : Action → Option ℕ
  | .woken version => some version
  | .lapsed => some s.hub.version
  | _ => none

/-- The payload of a publish. -/
def Action.published : Action → List (Option String)
  | .publish payload => [payload]
  | _ => []

/-- The phases that a step between two awaits, or one that only fails, can go on with. -/
def State.GoesOn (s : State) (q : Phase) : Prop :=
  q = .ended ∨ q = .wakes s.hub.version ∨ q = .refreshing ∨ q = .pop ∨ q = .failing ∨
    q = .idle ∧ s.dispatcher.pendingNamespaces = []

/-- What a step can do. -/
inductive Moves (s : State) (a : Action) : State → Prop where
  | publish (payload : Option String) (ha : a = .publish payload) :
      Moves s a { s with hub := s.hub.publish payload }
  | stop (ha : a = .requestStop) : Moves s a { s with stop := true }
  | goesOn (q : Phase) (ha : a.published = []) (hp : ∀ v, s.phase ≠ .wakesAfter v)
      (hq : s.GoesOn q) : Moves s a { s with phase := q }
  | starts (ns : String) (rest : List String) (ha : a.published = []) (hp : s.phase = .pop)
      (hq : s.dispatcher.pendingNamespaces = ns :: rest) :
      Moves s a { s with
        dispatcher := { s.dispatcher with
          pendingNamespaces := rest
          pendingNamespaceSet := s.dispatcher.pendingNamespaceSet.erase ns }
        phase := .dispatching ns }
  | wakes (v : ℕ) (ha : a.published = []) (hp : s.phase = .wakes v) :
      Moves s a { s with
        dispatcher := s.dispatcher.enqueueWakeNamespaces s.hub s.wakeVersion
        wakeVersion := v
        phase := .next }
  | wakesAfter (v : ℕ) (ha : a.published = []) (hp : s.phase = .wakesAfter v) :
      Moves s a { s with
        dispatcher := s.dispatcher.enqueueWakeNamespaces s.hub v
        phase := .top }
  | refreshes (d : NamespaceWakeDispatcher) (names : List String) (ha : a.published = [])
      (hp : s.phase = .refreshing) (hq : d.pendingNamespaces = s.dispatcher.pendingNamespaces)
      (hset : d.pendingNamespaceSet = s.dispatcher.pendingNamespaceSet) :
      Moves s a { s with dispatcher := d.enqueueAll names, phase := .pop }
  | dispatched (ns : String) (names : List String) (q : Phase) (ha : a.published = [])
      (hp : s.phase = .dispatching ns)
      (hq : q = .top ∨ q = .resting ∧ (s.dispatcher.enqueueAll names).pendingNamespaces = []) :
      Moves s a { s with dispatcher := s.dispatcher.enqueueAll names, phase := q }
  | idles (v : ℕ) (ha : a.published = []) (hp : s.phase = .idle) (hend : a.endsAt s = some v)
      (hv : v ≤ s.hub.version) : Moves s a { s with wakeVersion := v, phase := .top }
  | waited (v : ℕ) (ha : a.published = []) (hp : s.phase = .resting ∨ s.phase = .failing)
      (hv : v ≤ s.hub.version) :
      Moves s a { s with wakeVersion := v, phase := .wakesAfter s.wakeVersion }

private theorem ne_wakesAfter {p : Phase} (hp : s.phase = p) (h : ∀ v, p ≠ .wakesAfter v) (v : ℕ) :
    s.phase ≠ .wakesAfter v := hp ▸ h v

private theorem moves_advance {now : ℕ} (h : s.advance now = some s') :
    Moves s (.advance now) s' := by
  unfold State.advance at h
  split at h
  case h_1 hp =>
    cases h
    refine .goesOn _ rfl (ne_wakesAfter hp (by simp)) ?_
    split
    · exact .inl rfl
    · exact .inr (.inl rfl)
  case h_2 v hp =>
    cases h
    exact .wakes v rfl hp
  case h_3 hp =>
    cases h
    refine .goesOn _ rfl (ne_wakesAfter hp (by simp)) ?_
    split
    · exact .inr (.inr (.inl rfl))
    · exact .inr (.inr (.inr (.inl rfl)))
  case h_4 hp =>
    split at h <;> cases h
    case h_1 hq => exact .goesOn _ rfl (ne_wakesAfter hp (by simp)) (by simp [State.GoesOn, hq])
    case h_2 ns rest hq => exact .starts ns rest rfl hp hq
  case h_5 v hp =>
    cases h
    exact .wakesAfter v rfl hp
  case h_6 => cases h

private theorem moves_waited {v : ℕ} (ha : a.published = []) (hend : a.endsAt s = some v)
    (hv : v ≤ s.hub.version) (h : s.waited v = some s') : Moves s a s' := by
  unfold State.waited at h
  split at h <;> cases h
  case h_1 hp => exact .idles v ha hp hend hv
  case h_2 hp => exact .waited v ha (.inl hp) hv
  case h_3 hp => exact .waited v ha (.inr hp) hv

theorem step_moves (h : s.step a = some s') : Moves s a s' := by
  cases a with
  | publish payload =>
    cases h
    exact .publish payload rfl
  | requestStop =>
    cases h
    exact .stop rfl
  | advance now => exact moves_advance h
  | listed names now =>
    simp only [State.step, State.listed] at h
    split at h
    case isTrue hp =>
      cases h
      exact .refreshes { s.dispatcher with
        namespaces := (names.filter (· ≠ "")).eraseDups
        nextRefresh := now + s.dispatcher.namespaceRefresh } names rfl hp rfl rfl
    case isFalse => cases h
  | listingFails now =>
    simp only [State.step, State.listingFails, NamespaceWakeDispatcher.refreshFailed] at h
    split at h
    case isTrue hp =>
      split at h <;> cases h
      case h_1 d hd =>
        split at hd <;> cases hd
        exact .refreshes { s.dispatcher with
          nextRefresh := now + min s.dispatcher.namespaceRefresh 1000 }
          s.dispatcher.namespaces rfl hp rfl rfl
      case h_2 => exact .goesOn _ rfl (ne_wakesAfter hp (by simp)) (by simp [State.GoesOn])
    case isFalse => cases h
  | dispatched count =>
    simp only [State.step, State.dispatched] at h
    split at h <;> cases h
    case h_1 ns hp =>
      have hd : (if count = 0 then s.dispatcher else s.dispatcher.enqueueNamespace ns) =
          s.dispatcher.enqueueAll (if count = 0 then [] else [ns]) := by
        split <;> rfl
      rw [hd]
      refine .dispatched ns _ _ rfl hp ?_
      generalize s.dispatcher.enqueueAll _ = d
      by_cases hq : d.pendingNamespaces = []
      · exact .inr ⟨if_pos hq, hq⟩
      · exact .inl (if_neg hq)
  | dispatchFails =>
    simp only [State.step, State.dispatchFails] at h
    split at h <;> cases h
    case h_1 hp => exact .goesOn _ rfl (ne_wakesAfter hp (by simp)) (by simp [State.GoesOn])
  | woken version =>
    simp only [State.step] at h
    split at h
    case isTrue hv => exact moves_waited rfl rfl hv.2 h
    case isFalse => cases h
  | lapsed => exact moves_waited rfl rfl le_rfl h
  | cancelled =>
    simp only [State.step, State.cancelled] at h
    split at h <;> cases h <;> rename_i hp <;>
      exact .goesOn _ rfl (ne_wakesAfter hp (by simp)) (.inl rfl)

/-- A step that takes the head of the queue and starts its dispatch. -/
def Starts (s s' : State) (ns : String) : Prop :=
  s.phase = .pop ∧ s'.phase = .dispatching ns ∧
    s.dispatcher.pendingNamespaces = ns :: s'.dispatcher.pendingNamespaces

/-- The queue is first in, first out. -/
theorem Moves.queue (h : Moves s a s') : (∃ ns, Starts s s' ns) ∨
    (∃ added, s'.dispatcher.pendingNamespaces = s.dispatcher.pendingNamespaces ++ added) ∧
      ∀ ns, s'.phase = .dispatching ns → s.phase = .dispatching ns := by
  cases h with
  | publish | stop => exact .inr ⟨⟨[], by simp⟩, fun _ h => h⟩
  | goesOn q ha hp hq =>
    refine .inr ⟨⟨[], by simp⟩, fun ns h => ?_⟩
    rcases hq with rfl | rfl | rfl | rfl | rfl | ⟨rfl, -⟩ <;> cases h
  | starts ns rest ha hp hq => exact .inl ⟨ns, hp, rfl, hq⟩
  | wakes | wakesAfter =>
    exact .inr ⟨NamespaceWakeDispatcher.enqueueAll_queue _ _, fun ns h => by cases h⟩
  | refreshes d names ha hp hq =>
    refine .inr ⟨?_, fun ns h => by cases h⟩
    rw [← hq]
    exact d.enqueueAll_queue names
  | dispatched ns names q ha hp hq =>
    refine .inr ⟨s.dispatcher.enqueueAll_queue names, fun ns h => ?_⟩
    rcases hq with rfl | ⟨rfl, -⟩ <;> cases h
  | idles | waited => exact .inr ⟨⟨[], by simp⟩, fun ns h => by cases h⟩

/-- The version up to which every wake was enqueued. -/
def State.seen (s : State) : ℕ :=
  match s.phase with
  | .wakesAfter lastSeen => lastSeen
  | _ => s.wakeVersion

theorem seen_eq (hp : ∀ v, s.phase ≠ .wakesAfter v) : s.seen = s.wakeVersion := by
  unfold State.seen
  split
  case h_1 v hv => exact absurd hv (hp v)
  case h_2 => rfl

/-- What holds between any two steps. -/
structure Sound (s : State) : Prop where
  consistent : s.dispatcher.Consistent
  seen : s.seen ≤ s.hub.version
  remembers : s.wakeVersion ≤ s.hub.version
  current : ∀ v, s.phase = .wakes v → v ≤ s.hub.version
  rested : s.phase = .idle ∨ s.phase = .resting → s.dispatcher.pendingNamespaces = []

/-- What a step enqueues: nothing it has to, all wakes since `seen`, or, when it ends the idle
wait, nothing although `seen` moves on. -/
theorem Moves.seen (h : Moves s a s') : s'.seen = s.seen ∨
    s'.dispatcher = s.dispatcher.enqueueWakeNamespaces s.hub s.seen ∨
    s.phase = .idle ∧ a.endsAt s = some s'.seen := by
  cases h with
  | publish | stop => exact .inl rfl
  | goesOn q ha hp hq =>
    left
    rw [seen_eq hp, seen_eq]
    intro v
    rcases hq with rfl | rfl | rfl | rfl | rfl | ⟨rfl, -⟩ <;> simp
  | starts ns rest ha hp => exact .inl (seen_eq (ne_wakesAfter hp (by simp))).symm
  | wakes v ha hp =>
    rw [seen_eq (ne_wakesAfter hp (by simp))]
    exact .inr (.inl rfl)
  | wakesAfter v ha hp =>
    right; left
    simp only [State.seen, hp]
  | refreshes d names ha hp => exact .inl (seen_eq (ne_wakesAfter hp (by simp))).symm
  | dispatched ns names q ha hp hq =>
    left
    rw [seen_eq (ne_wakesAfter hp (by simp)), seen_eq]
    intro v
    rcases hq with rfl | ⟨rfl, -⟩ <;> simp
  | idles v ha hp hend => exact .inr (.inr ⟨hp, hend⟩)
  | waited v ha hp =>
    left
    rcases hp with hp | hp <;> exact (seen_eq (ne_wakesAfter hp (by simp))).symm

theorem Moves.hub (h : Moves s a s') : s'.hub = a.published.foldl VersionHub.publish s.hub := by
  cases h with
  | publish payload ha | stop ha => rw [ha]; rfl
  | goesOn _ ha | starts _ _ ha | wakes _ ha | wakesAfter _ ha | refreshes _ _ ha
  | dispatched _ _ _ ha | idles _ ha | waited _ ha => rw [ha]; rfl

theorem Sound.consistent_step (h : Sound s) (hm : Moves s a s') : s'.dispatcher.Consistent := by
  have hc := h.consistent
  cases hm with
  | publish | stop | goesOn | idles | waited => exact hc
  | starts ns rest ha hp hq =>
    have hnodup := hc.1
    rw [hq, List.nodup_cons] at hnodup
    refine ⟨hnodup.2, ?_⟩
    dsimp only
    rw [hc.2, hq, List.toFinset_cons, Finset.erase_insert]
    simpa using hnodup.1
  | wakes | wakesAfter => exact hc.enqueueAll _
  | refreshes d names ha hp hq hset =>
    have hd : d.Consistent := by
      rw [NamespaceWakeDispatcher.Consistent, hq, hset]
      exact hc
    exact hd.enqueueAll names
  | dispatched ns names => exact hc.enqueueAll names

theorem Sound.of_plain (hc : s.dispatcher.Consistent) (hr : s.wakeVersion ≤ s.hub.version)
    (hp : s.phase = .top ∨ s.phase = .next ∨ s.phase = .pop ∨ s.phase = .ended ∨
      s.phase = .refreshing ∨ s.phase = .failing ∨ ∃ ns, s.phase = .dispatching ns) : Sound s := by
  have hseen : s.seen = s.wakeVersion := by
    refine seen_eq fun v => ?_
    rcases hp with hp | hp | hp | hp | hp | hp | ⟨ns, hp⟩ <;> simp [hp]
  refine ⟨hc, hseen.trans_le hr, hr, fun v hv => ?_, fun hw => ?_⟩
  · rcases hp with hp | hp | hp | hp | hp | hp | ⟨ns, hp⟩ <;> rw [hp] at hv <;> cases hv
  · rcases hp with hp | hp | hp | hp | hp | hp | ⟨ns, hp⟩ <;> rw [hp] at hw <;> simp at hw

theorem Sound.step (h : Sound s) (hm : Moves s a s') : Sound s' := by
  have hc := h.consistent_step hm
  cases hm with
  | publish payload =>
    exact ⟨hc, h.seen.trans (Nat.le_succ _), h.remembers.trans (Nat.le_succ _),
      fun v hv => (h.current v hv).trans (Nat.le_succ _), h.rested⟩
  | stop => exact ⟨hc, h.seen, h.remembers, h.current, h.rested⟩
  | goesOn q ha hp hq =>
    rcases hq with rfl | rfl | rfl | rfl | rfl | ⟨rfl, hempty⟩
    · exact .of_plain hc h.remembers (by simp)
    · refine ⟨hc, h.remembers, h.remembers, fun v hv => ?_, fun hw => by simp at hw⟩
      cases hv
      exact le_rfl
    · exact .of_plain hc h.remembers (by simp)
    · exact .of_plain hc h.remembers (by simp)
    · exact .of_plain hc h.remembers (by simp)
    · exact ⟨hc, h.remembers, h.remembers, fun v hv => (by cases hv), fun _ => hempty⟩
  | starts ns => exact .of_plain hc h.remembers (by simp)
  | wakes v ha hp => exact .of_plain hc (h.current v hp) (by simp)
  | wakesAfter v ha hp => exact .of_plain hc h.remembers (by simp)
  | refreshes => exact .of_plain hc h.remembers (by simp)
  | dispatched ns names q ha hp hq =>
    rcases hq with rfl | ⟨rfl, hempty⟩
    · exact .of_plain hc h.remembers (by simp)
    · exact ⟨hc, h.remembers, h.remembers, fun v hv => (by cases hv), fun _ => hempty⟩
  | idles v ha hp hend hv => exact .of_plain hc hv (by simp)
  | waited v ha hp hv =>
    exact ⟨hc, h.remembers, hv, fun v hv => (by cases hv), fun hw => (by simp at hw)⟩

theorem Sound.start (hub : VersionHub String) (namespaceRefresh : ℕ) :
    Sound (.start hub namespaceRefresh) :=
  .of_plain ⟨List.nodup_nil, rfl⟩ le_rfl (.inl rfl)

end DataForge.Wakes
