import DataForge.Engines.Sections

/-!
# The record of lifecycle events

Every event ever installed is still installed, has been set, or was overwritten by an
eviction; and an overwritten event is never set afterwards. This holds in every run, without
any condition.
-/

namespace DataForge.Engines

open ReadCommitted Monitor

/-- The event that a frame waits for, with its identity. -/
def Frame.captured : Frame → Option (Key × EventId)
  | .spawnWait call ev => some (call.key, ev)
  | .shutdownWait k ev | .idleWait k ev => some (k, ev)
  | _ => none

namespace Manager

/-- The fields that the record speaks about. -/
def eventView (m : Manager) : Table Key EventId × Finset EventId × EventId ×
    List (Key × EventId) × List (Key × EventId) :=
  (m.engineEvents, m.setEvents, m.nextEvent, m.history.installed, m.history.overwritten)

/-- Installed, set and overwritten events. -/
structure Recorded (m : Manager) : Prop where
  fresh : ∀ p ∈ m.history.installed, p.2 < m.nextEvent
  inj : (m.history.installed.map Prod.snd).Nodup
  current : ∀ k ev, m.engineEvents.get k = some ev →
    (k, ev) ∈ m.history.installed ∧ ev ∉ m.setEvents ∧ (k, ev) ∉ m.history.overwritten
  set : ∀ ev ∈ m.setEvents, ∃ k, (k, ev) ∈ m.history.installed
  kept : ∀ p ∈ m.history.installed,
    m.engineEvents.get p.1 = some p.2 ∨ p.2 ∈ m.setEvents ∨ p ∈ m.history.overwritten
  lost : ∀ p ∈ m.history.overwritten, p ∈ m.history.installed ∧ p.2 ∉ m.setEvents

variable {m m' : Manager} {k : Key}

namespace Recorded

theorem same (h : m.Recorded) (he : m'.eventView = m.eventView) : m'.Recorded := by
  simp only [eventView, Prod.mk.injEq] at he
  obtain ⟨hev, hset, hnext, hins, hover⟩ := he
  constructor
  · rw [hins, hnext]
    exact h.fresh
  · rw [hins]
    exact h.inj
  · rw [hev, hins, hset, hover]
    exact h.current
  · rw [hset, hins]
    exact h.set
  · rw [hins, hev, hset, hover]
    exact h.kept
  · rw [hover, hins, hset]
    exact h.lost

theorem unique (h : m.Recorded) {p q : Key × EventId} (hp : p ∈ m.history.installed)
    (hq : q ∈ m.history.installed) (he : p.2 = q.2) : p = q :=
  List.inj_on_of_nodup_map h.inj hp hq he

/-- Installing an event; one that is installed already is overwritten. -/
theorem installEvent (h : m.Recorded) (k : Key) : (m.installEvent k).Recorded := by
  have hnew : ∀ k', (k', m.nextEvent) ∉ m.history.installed :=
    fun k' hm => (h.fresh _ hm).false
  have hmem : ∀ p, p ∈ (m.installEvent k).history.installed ↔
      p ∈ m.history.installed ∨ p = (k, m.nextEvent) := by
    simp [Manager.installEvent]
  have hover : ∀ p, p ∈ (m.installEvent k).history.overwritten ↔
      p ∈ m.history.overwritten ∨ (p.1 = k ∧ m.engineEvents.get k = some p.2) := by
    intro p
    simp only [Manager.installEvent, List.mem_append, List.mem_map, Option.mem_toList]
    refine or_congr_right ⟨?_, ?_⟩
    · rintro ⟨ev, hev, rfl⟩
      exact ⟨rfl, hev⟩
    · rintro ⟨rfl, hev⟩
      exact ⟨p.2, hev, rfl⟩
  constructor
  · intro p hp
    rcases (hmem p).mp hp with hp | rfl
    · exact Nat.lt_succ_of_lt (h.fresh p hp)
    · exact Nat.lt_succ_self _
  · simp only [Manager.installEvent, List.map_append, List.map_cons, List.map_nil]
    refine h.inj.append (List.nodup_singleton _) (List.disjoint_singleton.mpr fun hm => ?_)
    obtain ⟨p, hp, he⟩ := List.mem_map.mp hm
    exact (h.fresh p hp).ne he
  · intro k' ev hget
    simp only [Manager.installEvent, Table.get_put] at hget
    split at hget
    case isTrue hk =>
      cases hget
      refine ⟨(hmem _).mpr (Or.inr (by rw [hk])), fun hs => ?_, fun ho => ?_⟩
      · obtain ⟨k'', hk''⟩ := h.set _ hs
        exact hnew k'' hk''
      · rcases (hover _).mp ho with ho | ho
        · exact hnew _ (h.lost _ ho).1
        · exact hnew _ (h.current _ _ ho.2).1
    case isFalse hk =>
      obtain ⟨hin, hs, ho⟩ := h.current k' ev hget
      refine ⟨(hmem _).mpr (Or.inl hin), hs, fun hov => ?_⟩
      rcases (hover _).mp hov with hov | hov
      · exact ho hov
      · exact hk hov.1
  · intro ev hev
    obtain ⟨k', hk'⟩ := h.set ev hev
    exact ⟨k', (hmem _).mpr (Or.inl hk')⟩
  · intro p hp
    rcases (hmem p).mp hp with hp | rfl
    · rcases h.kept p hp with hk | hk | hk
      · by_cases he : p.1 = k
        · exact Or.inr (Or.inr ((hover p).mpr (Or.inr ⟨he, he ▸ hk⟩)))
        · refine Or.inl ?_
          simp only [Manager.installEvent, Table.get_put, if_neg he]
          exact hk
      · exact Or.inr (Or.inl hk)
      · exact Or.inr (Or.inr ((hover p).mpr (Or.inl hk)))
    · exact Or.inl (by simp [Manager.installEvent])
  · intro p hp
    rcases (hover p).mp hp with hp | hp
    · exact ⟨(hmem p).mpr (Or.inl (h.lost p hp).1), (h.lost p hp).2⟩
    · obtain ⟨hin, hs, -⟩ := h.current k p.2 hp.2
      rw [← hp.1] at hin
      exact ⟨(hmem p).mpr (Or.inl hin), hs⟩

/-- Popping an event sets it. -/
theorem popEvent (h : m.Recorded) (k : Key) : (m.popEvent k).Recorded := by
  have hset : ∀ ev, ev ∈ (m.popEvent k).setEvents ↔
      ev ∈ m.setEvents ∨ m.engineEvents.get k = some ev := by
    simp [Manager.popEvent]
  have hget : ∀ k', (m.popEvent k).engineEvents.get k' =
      if k' = k then none else m.engineEvents.get k' := by
    simp [Manager.popEvent]
  constructor
  · exact h.fresh
  · exact h.inj
  · intro k' ev hk'
    rw [hget] at hk'
    split at hk'
    case isTrue => cases hk'
    case isFalse hne =>
      obtain ⟨hin, hs, ho⟩ := h.current k' ev hk'
      refine ⟨hin, fun hm => ?_, ho⟩
      rcases (hset ev).mp hm with hm | hm
      · exact hs hm
      · exact hne (congrArg Prod.fst (h.unique hin (h.current k ev hm).1 rfl))
  · intro ev hev
    rcases (hset ev).mp hev with hev | hev
    · exact h.set ev hev
    · exact ⟨k, (h.current k ev hev).1⟩
  · intro p hp
    rcases h.kept p hp with hk | hk | hk
    · by_cases he : p.1 = k
      · exact Or.inr (Or.inl ((hset _).mpr (Or.inr (he ▸ hk))))
      · refine Or.inl ?_
        rw [hget, if_neg he]
        exact hk
    · exact Or.inr (Or.inl ((hset _).mpr (Or.inl hk)))
    · exact Or.inr (Or.inr hk)
  · intro p hp
    obtain ⟨hin, hs⟩ := h.lost p hp
    refine ⟨hin, fun hm => ?_⟩
    rcases (hset _).mp hm with hm | hm
    · exact hs hm
    · obtain ⟨hin', -, ho⟩ := h.current k p.2 hm
      rw [← h.unique hin hin' rfl] at ho
      exact ho hp

theorem reserve {cfg : Setup} {a : CapacityAdmission} (h : m.Recorded)
    (hr : m.reserveCapacityLocked cfg = some (a, m')) : m'.Recorded := by
  simp only [Manager.reserveCapacityLocked] at hr
  split at hr
  · cases hr
    exact h.same rfl
  · split at hr
    · cases hr
    case h_2 k e _ =>
      cases hr
      have ht : (m.takeReplacement k e m.warmWorkerAvailableLocked).Recorded := h.same rfl
      exact (ht.installEvent k).same rfl

end Recorded

theorem kept_recorded (cfg : Setup) (sc : Scope) : Kept cfg sc Manager.Recorded where
  same := by
    intro m m' h he
    refine h.same ?_
    simp only [Manager.core, Prod.mk.injEq] at he
    obtain ⟨-, hev, hset, hnext, -, hins, hover⟩ := he
    simp only [eventView, hev, hset, hnext, hins, hover]
  install k _ h := h.installEvent k
  pop k h := h.popEvent k
  reserve hr h := h.reserve hr
  take _ h := h.same rfl
  release _ _ h := h.same rfl
  stop _ _ h := h.same rfl
  put _ _ _ h := h.same rfl

end Manager

private theorem captured_of_family {g : Frame} (hg : g.family ≠ .acquire) (hs : g.family ≠ .stop) :
    g.captured = none := by
  cases g with
  | spawnWait => exact absurd rfl hg
  | shutdownWait | idleWait => exact absurd rfl hs
  | _ => rfl

theorem captured_none_of_all {m : Manager} {l : List Frame}
    (h : (l.all fun g => g.captured.isNone) = true) :
    ∀ g ∈ l, ∀ p ∈ g.captured, m.engineEvents.get p.1 = some p.2 := by
  intro g hg p hp
  rw [Option.isNone_iff_eq_none.mp (List.all_eq_true.mp h g hg)] at hp
  cases hp

theorem captured_of_singleton {m : Manager} {g : Frame} {p : Key × EventId}
    (hg : g.captured = some p) (hp : m.engineEvents.get p.1 = some p.2) :
    ∀ g' ∈ [g], ∀ p ∈ g'.captured, m.engineEvents.get p.1 = some p.2 := by
  intro g' hg' q hq
  rw [List.mem_singleton.mp hg', hg] at hq
  cases hq
  exact hp

/-- What a frame starts to wait for is installed at that moment. -/
theorem captured_advance {cfg : Setup} {ch : Choice} {m : Manager} {r : Option Outcome}
    {f : Frame} {x : Next} (hx : f.advance cfg ch m r = some x) :
    ∀ g ∈ x.2.2, ∀ p ∈ g.captured, m.engineEvents.get p.1 = some p.2 := by
  cases f with
  | spawnGate call =>
    cases hx
    unfold gateSection at *
    split
    · exact captured_none_of_all rfl
    · cases hk : m.engineEvents.get call.key with
      | some ev => exact captured_of_singleton rfl hk
      | none =>
        have hopen (target : Option EngineId) : ∀ g ∈ (openSpawn m call target).2.2,
            ∀ p ∈ g.captured, m.engineEvents.get p.1 = some p.2 := by
          obtain ⟨pc, l, hl, -⟩ := openSpawn_frames m call target
          rw [hl]
          exact captured_none_of_all rfl
        cases he : m.engines.get call.key with
        | none => exact hopen none
        | some e =>
          dsimp only
          split
          · exact hopen (some e)
          · exact captured_none_of_all rfl
  | shutdownGate k =>
    cases hx
    unfold shutdownSection
    cases hk : m.engineEvents.get k with
    | some ev => exact captured_of_singleton rfl hk
    | none =>
      dsimp only
      split <;> exact captured_none_of_all rfl
  | idleGate k =>
    cases hx
    unfold idleSection
    cases hk : m.engineEvents.get k with
    | some ev => exact captured_of_singleton rfl hk
    | none =>
      dsimp only
      repeat' split
      all_goals exact captured_none_of_all rfl
  | reapStop stale =>
    cases hx
    cases stale <;> exact captured_none_of_all rfl
  | request pc l =>
    cases hx
    cases pc <;> simp only [requestSection] <;> repeat' split
    all_goals exact captured_none_of_all rfl
  | spawnWait call ev | shutdownWait k ev | idleWait k ev | acquired k =>
    simp only [Frame.advance] at hx
    split at hx <;> cases hx
    all_goals exact captured_none_of_all rfl
  | acquire call | holding k e | stopEngine k ev e | reapStart | reapMark tracked =>
    cases hx
    exact captured_none_of_all rfl
  | _ =>
    intro g hg p hp
    have hf := family_advance hx g hg
    have hnone : g.captured = none := by
      apply captured_of_family
      all_goals
        intro hk
        rw [hk] at hf
        exact absurd hf (of_decide_eq_true rfl)
    rw [hnone] at hp
    cases hp

end DataForge.Engines
