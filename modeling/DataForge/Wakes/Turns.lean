import DataForge.Wakes.Rounds

/-!
# Every namespace gets its turn

Runs of the dispatcher. Its queue is first in, first out, so that between two dispatches of a
namespace every other one that was queued ahead of the second is dispatched. A namespace
published to the hub is enqueued before the dispatcher next waits, as long as every idle wait
ends without one (`wakes_in_turn`).
-/

namespace DataForge.Wakes

open Transitions

/-- The payloads published before a time. -/
def published (ρ : Run State.step) : ℕ → List (Option String)
  | 0 => []
  | t + 1 => published ρ t ++ ((ρ.act t).map Action.published).getD []

/-- Before a time at most 2048 publishes were outstanding. -/
def Within (ρ : Run State.step) (t : ℕ) : Prop :=
  ∀ k < t, (ρ.st k).hub.version ≤ (ρ.st k).seen + historyLength

/-- If a step ends the idle wait, then with a version up to which no namespace was published
since the version that is remembered. -/
def State.EndsIdleQuietly (s : State) (a : Action) : Prop :=
  s.phase = .idle → ∀ v ∈ a.endsAt s, ∀ e ∈ s.hub.history, s.wakeVersion < e.1 → e.1 ≤ v →
    e.2 = none ∨ e.2 = some ""

/-- Before a time every idle wait ended quietly. -/
def IdleQuiet (ρ : Run State.step) (t : ℕ) : Prop :=
  ∀ k < t, ∀ a ∈ ρ.act k, (ρ.st k).EndsIdleQuietly a

/-- If the dispatcher waits at a time, then every namespace published with a version that it
remembers was enqueued after its publish; and it was dispatched, unless the wait is the one
after a failure. -/
def NoWakeSkipped (ρ : Run State.step) (t : ℕ) : Prop :=
  (ρ.st t).phase.waits = true → ∀ u < t, ∀ ns, ρ.act u = some (.publish (some ns)) → ns ≠ "" →
    (ρ.st u).hub.version < (ρ.st t).wakeVersion →
    ∃ k > u, k ≤ t ∧ ns ∈ (ρ.st k).dispatcher.pendingNamespaces ∧
      ((ρ.st t).phase ≠ .failing → ∃ l ≥ k, l < t ∧ Starts (ρ.st l) (ρ.st (l + 1)) ns)

/-- One namespace is in the queue, and another is not before it. -/
def Ahead (queue : List String) (ns other : String) : Prop :=
  ∃ before after, queue = before ++ ns :: after ∧ other ∉ before

section Runs

variable {ρ : Run State.step} {log : List (Option String)} {namespaceRefresh : ℕ}

theorem sound_of_start {hub : VersionHub String}
    (h0 : ρ.st 0 = .start hub namespaceRefresh) (t : ℕ) : Sound (ρ.st t) :=
  ρ.invariant (h0 ▸ .start hub namespaceRefresh) (fun _ _ _ h hs => h.step (step_moves hs)) t

theorem hub_eq (h0 : (ρ.st 0).hub = .ofLog log) (t : ℕ) :
    (ρ.st t).hub = .ofLog (log ++ published ρ t) := by
  induction t with
  | zero => rw [h0, published, List.append_nil]
  | succ t ih =>
    rw [published, ← List.append_assoc, VersionHub.ofLog_append, ← ih]
    cases ha : ρ.act t with
    | none => rw [ρ.next_of_pause ha]; rfl
    | some a => exact (step_moves (ρ.next_of_act ha)).hub

theorem published_prefix {u t : ℕ} (h : u ≤ t) : ∃ rest, published ρ t = published ρ u ++ rest := by
  induction t, h using Nat.le_induction with
  | base => exact ⟨[], by simp⟩
  | succ t _ ih =>
    obtain ⟨rest, hrest⟩ := ih
    exact ⟨_, by rw [published, hrest, List.append_assoc]⟩

theorem published_at (h0 : (ρ.st 0).hub = .ofLog log) {u t : ℕ} {payload : Option String}
    (ha : ρ.act u = some (.publish payload)) (hlt : u < t) :
    (log ++ published ρ t)[(ρ.st u).hub.version]? = some payload := by
  obtain ⟨rest, hrest⟩ : ∃ rest, published ρ t = published ρ (u + 1) ++ rest :=
    published_prefix hlt
  have hsucc : published ρ (u + 1) = published ρ u ++ [payload] := by
    rw [published, ha]
    rfl
  rw [hub_eq h0 u, VersionHub.ofLog_version, hrest, hsucc, List.append_assoc, ← List.append_assoc,
    List.getElem?_append_right le_rfl, Nat.sub_self]
  rfl

/-- Up to the version `seen` every namespace was enqueued after its publish. -/
theorem enqueued (h0 : ρ.st 0 = .start (.ofLog log) namespaceRefresh) {t : ℕ}
    (hw : Within ρ t) (hq : IdleQuiet ρ t) {u : ℕ} (hu : u < t) {ns : String}
    (ha : ρ.act u = some (.publish (some ns))) (hne : ns ≠ "")
    (hv : (ρ.st u).hub.version < (ρ.st t).seen) :
    ∃ k > u, k ≤ t ∧ ns ∈ (ρ.st k).dispatcher.pendingNamespaces := by
  have hhub : (ρ.st 0).hub = .ofLog log := by rw [h0]; rfl
  induction t with
  | zero => exact absurd hu (Nat.not_lt_zero u)
  | succ t ih =>
    have ih := ih (fun k hk => hw k (hk.trans (Nat.lt_succ_self t)))
      fun k hk => hq k (hk.trans (Nat.lt_succ_self t))
    have hsound := sound_of_start h0 t
    rcases Nat.lt_succ_iff_lt_or_eq.mp hu with hlt | rfl
    · have hearlier : (ρ.st u).hub.version < (ρ.st t).seen →
          ∃ k > u, k ≤ t + 1 ∧ ns ∈ (ρ.st k).dispatcher.pendingNamespaces := by
        intro h
        obtain ⟨k, hk, hkt, hmem⟩ := ih hlt h
        exact ⟨k, hk, hkt.trans (Nat.le_succ t), hmem⟩
      cases hact : ρ.act t with
      | none => exact hearlier (ρ.next_of_pause hact ▸ hv)
      | some b =>
        have hlog := published_at hhub ha hlt
        have hbound := hw t (Nat.lt_succ_self t)
        rw [hub_eq hhub t, VersionHub.ofLog_version] at hbound
        by_cases hold : (ρ.st u).hub.version < (ρ.st t).seen
        · exact hearlier hold
        · have hm := step_moves (ρ.next_of_act hact)
          rcases hm.seen with hseen | hseen | ⟨hidle, hend⟩
          · exact hearlier (hseen ▸ hv)
          · refine ⟨t + 1, Nat.lt_succ_of_lt hlt, le_rfl, ?_⟩
            rw [hseen, hub_eq hhub t]
            refine hsound.consistent.mem_enqueueAll ?_ hne
            rw [VersionHub.payloadsSince_ofLog hbound, List.mem_filterMap]
            refine ⟨some ns, ?_, rfl⟩
            rw [List.mem_eraseDups]
            exact VersionHub.mem_drop_of_getElem? hlog (Nat.le_of_not_lt hold)
          · have hentry := VersionHub.mem_history_ofLog hlog (by omega)
            rw [← hub_eq hhub t] at hentry
            have hwake : (ρ.st t).seen = (ρ.st t).wakeVersion :=
              seen_eq (by simp [hidle])
            have hnone := hq t (Nat.lt_succ_self t) b hact hidle _ hend _ hentry
              (by dsimp only; omega) (by dsimp only; omega)
            simp [hne] at hnone
    · -- The version of a publish is not seen before a later step.
      have hnext := Option.some.inj (ρ.next_of_act ha)
      rw [← hnext] at hv
      exact absurd hv (Nat.not_lt.mpr hsound.seen)

theorem started_of_left {k t : ℕ} {ns : String} (hkt : k ≤ t)
    (hin : ns ∈ (ρ.st k).dispatcher.pendingNamespaces)
    (hout : ns ∉ (ρ.st t).dispatcher.pendingNamespaces) :
    ∃ l ≥ k, l < t ∧ Starts (ρ.st l) (ρ.st (l + 1)) ns := by
  obtain ⟨l, hl, hlt, hmem, hleft, a, ha⟩ :=
    Run.exists_ends (P := fun s : State => ns ∈ s.dispatcher.pendingNamespaces) hkt hin hout
  rcases (step_moves (ρ.next_of_act ha)).queue with ⟨first, hs⟩ | ⟨⟨added, hq⟩, -⟩
  · have hmem' := hmem
    rw [hs.2.2, List.mem_cons] at hmem'
    exact ⟨l, hl, hlt, hmem'.resolve_right hleft ▸ hs⟩
  · rw [hq] at hleft
    exact absurd (List.mem_append_left added hmem) hleft

/-- A queued namespace that another one does not stand before is dispatched before it. -/
theorem in_turn {k j : ℕ} {ns other : String} (hkj : k ≤ j)
    (hahead : Ahead (ρ.st k).dispatcher.pendingNamespaces ns other) (hne : ns ≠ other)
    (hj : Starts (ρ.st j) (ρ.st (j + 1)) other) :
    ∃ l ≥ k, l < j ∧ Starts (ρ.st l) (ρ.st (l + 1)) ns := by
  have hstays : Ahead (ρ.st j).dispatcher.pendingNamespaces ns other ∨
      ∃ l ≥ k, l < j ∧ Starts (ρ.st l) (ρ.st (l + 1)) ns := by
    clear hj
    induction j, hkj using Nat.le_induction with
    | base => exact .inl hahead
    | succ j hj ih =>
      rcases ih with ⟨before, after, hq, hno⟩ | ⟨l, hl, hlt, hs⟩
      · cases ha : ρ.act j with
        | none =>
          rw [ρ.next_of_pause ha]
          exact .inl ⟨before, after, hq, hno⟩
        | some a =>
          rcases (step_moves (ρ.next_of_act ha)).queue with ⟨first, hs⟩ | ⟨⟨added, happ⟩, -⟩
          · have hcons := hs.2.2.symm.trans hq
            cases before with
            | nil =>
              cases hcons
              exact .inr ⟨j, hj, Nat.lt_succ_self j, hs⟩
            | cons b before =>
              rw [List.cons_append] at hcons
              exact .inl ⟨before, after, (List.cons.inj hcons).2,
                fun h => hno (List.mem_cons_of_mem b h)⟩
          · exact .inl ⟨before, after ++ added, by simp [happ, hq], hno⟩
      · exact .inr ⟨l, hl, hlt.trans (Nat.lt_succ_self j), hs⟩
  refine hstays.resolve_left ?_
  rintro ⟨before, after, hq, hno⟩
  have hcons := hj.2.2.symm.trans hq
  cases before with
  | nil => exact hne (List.cons.inj hcons).1.symm
  | cons b before => exact hno ((List.cons.inj hcons).1 ▸ List.mem_cons_self)

end Runs

/-- In every run the membership set has the elements of the queue without repetition. As long as
at most 2048 publishes are outstanding and every idle wait ends quietly, no wake is skipped. And
before a dispatch of a namespace every other one that has been queued ahead of it is dispatched
first, so that this holds between any two dispatches of it. -/
theorem wakes_in_turn (ρ : Run State.step) (log : List (Option String)) (namespaceRefresh : ℕ)
    (h0 : ρ.st 0 = .start (.ofLog log) namespaceRefresh) :
    (∀ t, (ρ.st t).dispatcher.Consistent) ∧
    (∀ t, Within ρ t → IdleQuiet ρ t → NoWakeSkipped ρ t) ∧
    ∀ j ns other, ns ≠ other → Starts (ρ.st j) (ρ.st (j + 1)) other → ∀ k ≤ j,
      Ahead (ρ.st k).dispatcher.pendingNamespaces ns other →
      ∃ l ≥ k, l < j ∧ Starts (ρ.st l) (ρ.st (l + 1)) ns := by
  refine ⟨fun t => (sound_of_start h0 t).consistent, ?_, ?_⟩
  · intro t hw hq hwaits u hu ns ha hne hv
    have hseen : (ρ.st t).seen = (ρ.st t).wakeVersion := by
      refine seen_eq fun v hp => ?_
      rw [hp] at hwaits
      cases hwaits
    obtain ⟨k, hk, hkt, hmem⟩ := enqueued h0 hw hq hu ha hne (hseen ▸ hv)
    refine ⟨k, hk, hkt, hmem, fun hfail => started_of_left hkt hmem ?_⟩
    have hrested : (ρ.st t).phase = .idle ∨ (ρ.st t).phase = .resting := by
      cases hp : (ρ.st t).phase <;> rw [hp] at hwaits hfail <;> simp_all [Phase.waits]
    rw [(sound_of_start h0 t).rested hrested]
    exact List.not_mem_nil
  · intro j ns other hne hj k hkj hahead
    exact in_turn hkj hahead hne hj

/-- A namespace is listed and dispatched, another one is published while the dispatcher rests,
and is dispatched in its turn. -/
def restingActs : List Action :=
  [.advance 0, .advance 0, .advance 0, .listed ["default"] 0, .advance 0, .dispatched 0,
    .publish (some "sales"), .woken 1, .advance 0, .advance 0, .advance 0, .advance 0, .advance 0,
    .dispatched 0]

def restingRun : Run State.step :=
  .ofReplay (.start (.ofLog []) 5000) restingActs (Option.some_get (by rfl)).symm

theorem wakes_in_turn_resting : Within restingRun 14 ∧ IdleQuiet restingRun 14 ∧
    NoWakeSkipped restingRun 14 := by
  have hw : Within restingRun 14 := by
    unfold Within
    decide +kernel
  have hq : IdleQuiet restingRun 14 := by
    intro k hk a _ hidle
    have hno : ∀ k < 14, (restingRun.st k).phase ≠ .idle := by decide +kernel
    exact absurd hidle (hno k hk)
  exact ⟨hw, hq, (wakes_in_turn restingRun [] 5000 rfl).2.1 14 hw hq⟩

/-- A namespace is published while the dispatcher waits with an empty queue. -/
def idleActs : List Action :=
  [.advance 0, .advance 0, .advance 0, .listed [] 0, .advance 0, .publish (some "sales"),
    .woken 1, .advance 0, .advance 0, .advance 0, .advance 0]

def idleRun : Run State.step :=
  .ofReplay (.start (.ofLog []) 5000) idleActs (Option.some_get (by rfl)).symm

/-- A wake that ends the idle wait is skipped: the dispatcher waits again with its version, and
has not enqueued its namespace. -/
theorem idle_wake_skipped : idleRun.st 0 = .start (.ofLog []) 5000 ∧ Within idleRun 11 ∧
    ¬ NoWakeSkipped idleRun 11 := by
  refine ⟨rfl, ?_, fun h => ?_⟩
  · unfold Within
    decide +kernel
  · have hempty : ∀ k ≤ 11, (idleRun.st k).dispatcher.pendingNamespaces = [] := by decide +kernel
    obtain ⟨k, -, hk, hmem, -⟩ := h (by decide +kernel) 5 (by decide) "sales" rfl (by decide)
      (by decide +kernel)
    rw [hempty k hk] at hmem
    cases hmem

end DataForge.Wakes
