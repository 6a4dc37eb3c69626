import DataForge.Builds.Safety

/-!
# The event log of a build

Events of a build are numbered without gaps under the lock of its run. The log is fenced by the
execution generation, a terminal run is final, and what a rejected event had staged is rolled
back. A terminal event may be reported again: the repeat is logged, and changes nothing else.
-/

namespace DataForge.Builds

open ReadCommitted DataForge.Runtime

/-- The events of every build are numbered from 1 without gaps. -/
structure Numbered (w : BuildWorld) : Prop where
  pos : ∀ ns id, 1 ≤ nextSequence w.db ns id
  events : ∀ ns id n, eventAt w.db ns (id, n) ≠ none ↔ 1 ≤ n ∧ n < nextSequence w.db ns id

/-- Terminal events have the status of their run. -/
def Concluded (w : BuildWorld) : Prop :=
  ∀ ns id n e status, eventAt w.db ns (id, n) = some e →
    e.event.body.terminalStatus = some status → ∃ r, runAt w.db ns id = some r ∧ r.status = status

section Acts

variable {p : Platform} {renews : Prop} {i : ℕ} {op : Op} {h : BuildLocks}
  {w : BuildWorld} {db : Db Tables} {ns id : String}

theorem Act.nextSequence_le (ha : Act p renews i op h w db) (ns id : String) :
    nextSequence w.db ns id ≤ nextSequence db ns id := by
  unfold nextSequence
  cases hr : runAt db ns id with
  | none =>
    cases hb : runAt w.db ns id with
    | none => exact Nat.le_refl _
    | some b =>
      obtain ⟨r, hr', -⟩ := ha.run_descends hb
      rw [hr] at hr'
      cases hr'
  | some r =>
    rcases ha.run_from hr with ⟨b, hb, hd⟩ | ⟨hb, b, hnew, hd⟩
    · rw [hb]
      exact hd.sequence
    · rw [hb, Option.elim_none, ← hnew.sequence]
      exact hd.sequence

theorem Act.numbered (ha : Act p renews i op h w db) (hw : Numbered w) :
    Numbered ⟨w.now, db⟩ where
  pos ns id := (hw.pos ns id).trans (ha.nextSequence_le ns id)
  events ns id n := by
    have hlog := ha.joint.logged ns id
    have hle := ha.nextSequence_le ns id
    have hpos := hw.pos ns id
    have hbefore := hw.events ns id n
    change eventAt db ns (id, n) ≠ none ↔ 1 ≤ n ∧ n < nextSequence db ns id
    cases hb : eventAt w.db ns (id, n) with
    | none =>
      have hout : ¬(1 ≤ n ∧ n < nextSequence w.db ns id) := fun hin => hbefore.mpr hin hb
      rw [hlog.added n hb]
      omega
    | some e =>
      have hin := hbefore.mp (by rw [hb]; exact Option.some_ne_none _)
      rw [hlog.kept n e hb]
      exact ⟨fun _ => ⟨hin.1, hin.2.trans_le hle⟩, fun _ => Option.some_ne_none _⟩

theorem Act.concluded (ha : Act p renews i op h w db) (hw : Concluded w) :
    Concluded ⟨w.now, db⟩ := by
  intro ns id n e status he hst
  have hlog := ha.joint.logged ns id
  cases hb : eventAt w.db ns (id, n) with
  | none => exact hlog.terminal n e status hb he hst
  | some b =>
    obtain rfl : e = b := Option.some.inj (Eq.trans (Eq.symm he) (hlog.kept n b hb))
    obtain ⟨r, hr, rfl⟩ := hw ns id n e status hb hst
    obtain ⟨m, hr'⟩ := ha.run_final hr (isTerminal_of_event hst)
    exact ⟨_, hr', rfl⟩

theorem RunStep.expected {g : ℕ} {b : BuildRun} {y : Option BuildRun}
    (hs : RunStep i op h ns (some b) y) (hop : op.emits ns (some g)) :
    y = some b ∨ b.executionGeneration = g := by
  induction hs with
  | refl => exact Or.inl rfl
  | tail _ hc ih =>
    rcases ih with rfl | hgen
    · cases hc with
      | mark generation now b hop' => cases op <;> first | exact hop.elim | exact hop'.elim
      | event args b hop' hb =>
        have hexp : args.expected = some g := hop'.unique hop
        simp only [BuildRun.acceptsEvent, hexp, Bool.and_eq_true, Option.all_some,
          decide_eq_true_eq] at hb
        exact Or.inr hb.1.1
      | orphan now b hop' => cases op <;> first | exact hop.elim | exact hop'.elim
    · exact Or.inr hgen

end Acts

section Runs

variable {p : Platform} {s s' : BuildSystem} {ns id : String}

theorem Reachable.log (h : Reachable p s) : Numbered s.world ∧ Concluded s.world := by
  refine h.when.induct (S := fun w => Numbered w ∧ Concluded w) (fun now db hf => ⟨⟨?_, ?_⟩, ?_⟩)
    (fun _ _ _ hw => ⟨⟨hw.1.pos, hw.1.events⟩, hw.2⟩)
    (fun _ _ _ _ _ hc _ hw => ⟨hc.act.numbered hw.1, hc.act.concluded hw.2⟩)
  · intro ns id
    rw [nextSequence, hf.runAt_eq]
    exact Nat.le_refl _
  · intro ns id n
    rw [nextSequence, hf.runAt_eq, hf.eventAt_eq, Option.elim_none]
    exact ⟨fun hne => absurd rfl hne, fun hin => by omega⟩
  · intro ns id n e status he
    rw [hf.eventAt_eq] at he
    cases he

theorem Reachable.descends (h : Reachable p s) (hr : Reaches p s s') {r : BuildRun}
    (hb : runAt s.db ns id = some r) : ∃ r', runAt s'.db ns id = some r' ∧ Descends r r' := by
  induction hr with
  | refl => exact ⟨r, hb, .refl r⟩
  | step hr hs _ ih =>
    obtain ⟨b, hb', hd⟩ := ih
    rcases (h.trans hr).changes hs with hdb | ⟨i, c, next, -, -, -, hact⟩
    · exact ⟨b, hdb ▸ hb', hd⟩
    · obtain ⟨a, ha, hd'⟩ := hact.run_descends hb'
      exact ⟨a, ha, hd.trans hd'⟩

end Runs

section Rejection

variable {α β : Type} {ns : String} {ws : List (Write TableWrite)}

theorem ensures_selectForUpdate {C : BuildScript β → Prop}
    {Q : β → List (Write TableWrite) → Prop} {R : Rows α} {id : String}
    {cond : BuildEnv → α → Bool} {k : Option α → BuildScript β}
    (h : ∀ found, (k found).Ensures C Q ws) :
    (R.selectForUpdate ns id cond >>= k).Ensures C Q ws := by
  intro e
  rw [show (lockRows _ _ : Effect (Write TableWrite) (Resource TableRow)).writes = [] from rfl,
    List.append_nil]
  exact h _

/-- The script commits nothing. -/
abbrev Uncommitted (p : BuildScript α) : Prop :=
  ∀ ws, p.Ensures (fun _ => False) (fun _ _ => True) ws

theorem uncommitted_insert (R : Rows α) (id : String) (conflict : Table String α → Bool)
    (a : BuildEnv → α) : Uncommitted (R.insert ns id conflict a) := by
  intro ws e
  dsimp only
  split <;> trivial

theorem uncommitted_appendWake (kind : RuntimeWorkKind) (id : ℕ) :
    Uncommitted (appendWake ns kind id : BuildScript ℕ) := by
  intro ws e
  dsimp only
  split <;> trivial

theorem uncommitted_insertEvent (key : String × ℕ) (row : BuildEventRow) :
    Uncommitted (insertEvent ns key row) := by
  intro ws e
  dsimp only
  split <;> trivial

theorem uncommitted_notifyWhen (cond : Bool) (payloadNs buildId : String) (latestSequence : ℕ)
    (notice : Notice) :
    Uncommitted (notifyWhen ns cond payloadNs buildId latestSequence notice) := by
  intro ws
  unfold notifyWhen enqueueApiBuildNotification
  split
  · refine Script.ensures_query fun e => ?_
    refine .seq (uncommitted_insert _ _ _ _ _) fun _ ws => ?_
    exact .seq (uncommitted_appendWake _ _ _) fun _ _ => trivial
  · trivial

theorem uncommitted_notifyEvent (args : EventArgs) (run : BuildRun) :
    Uncommitted (notifyEvent ns args run) := by
  intro ws
  unfold notifyEvent
  split
  · exact fun e => trivial
  · exact uncommitted_notifyWhen _ _ _ _ _ _

theorem uncommitted_stageJobCancelled (jobId : String) :
    Uncommitted (stageJobCancelled ns jobId) := by
  intro ws
  unfold stageJobCancelled
  refine Script.ensures_query fun e => ?_
  refine .seq (fun e => trivial) fun updated ws1 => ?_
  cases updated with
  | some job => trivial
  | none =>
    refine Script.ensures_query fun e => ?_
    split <;> trivial

theorem ensures_stageBuildEvent (args : EventArgs) : (stageBuildEvent ns args).Ensures
    (fun _ => False) (fun sequence ws' => sequence = none → ws' = ws) ws := by
  unfold stageBuildEvent
  split
  · trivial
  · refine ensures_selectForUpdate fun found => ?_
    cases found with
    | none => trivial
    | some run =>
      dsimp only
      split
      · exact fun _ => rfl
      · split
        · trivial
        · refine .seq (fun e => trivial) fun _ ws1 => ?_
          refine .seq (uncommitted_insertEvent _ _ _) fun _ ws2 => ?_
          refine .seq (uncommitted_notifyEvent _ _ _) fun _ ws3 => ?_
          split
          · exact .seq (uncommitted_appendWake _ _ _) fun _ _ h => by cases h
          · exact fun h => by cases h

/-- Calls that report whether their event was taken. -/
def Op.reports : Op → Prop
  | .appendBuildEvent .. | .persistBuildEvent .. | .cancelBuild .. => True
  | _ => False

/-- A call that has just committed returns the sequence of its event. -/
def Accepted (rest : BuildScript Reply) : Prop := ∃ n, rest = .done (.sequence (some n))

theorem ensures_appendBuildEvent (args : EventArgs) :
    (appendBuildEvent ns args).Ensures Accepted (fun _ _ => True) ws := by
  unfold appendBuildEvent
  refine .seq (uncommitted_notifyWhen _ _ _ _ _ _) fun _ ws1 => ?_
  refine .seq ((ensures_stageBuildEvent _).mono fun _ _ _ => trivial) fun sequence ws2 => ?_
  cases sequence with
  | none => trivial
  | some n => exact ⟨⟨n, rfl⟩, trivial⟩

theorem ensures_persistBuildEvent (claim : BuildClaim) (args : EventArgs) :
    (persistBuildEvent ns claim args).Ensures Accepted (fun _ _ => True) ws := by
  unfold persistBuildEvent activeClaimOf
  rw [Script.bind_assoc]
  refine Script.ensures_query fun e => ?_
  rw [if_neg Bool.false_ne_true]
  refine Script.ensures_query fun e => ?_
  split
  · trivial
  · exact ensures_appendBuildEvent _

theorem ensures_cancelBuild (args : CancelBuildArgs) :
    (cancelBuild ns args).Ensures Accepted (fun _ _ => True) ws := by
  unfold cancelBuild
  refine Script.ensures_query fun e => ?_
  split
  · trivial
  · split
    · trivial
    · refine .seq (uncommitted_stageJobCancelled _ _) fun cancelled ws1 => ?_
      split
      · trivial
      · refine .seq ((ensures_stageBuildEvent _).mono fun _ _ _ => trivial) fun sequence ws2 => ?_
        cases sequence with
        | none => trivial
        | some n => exact ⟨⟨n, rfl⟩, trivial⟩

theorem ensures_reports {p : Platform} {i : ℕ} {op : Op} (hop : op.reports) :
    (code p i op).Ensures Accepted (fun _ _ => True) [] := by
  cases op with
  | appendBuildEvent ns args => exact ensures_appendBuildEvent args
  | persistBuildEvent ns claim args => exact ensures_persistBuildEvent claim args
  | cancelBuild ns args => exact ensures_cancelBuild args
  | _ => exact hop.elim

end Rejection

section Log

variable {p : Platform} {s s' : BuildSystem}

theorem Reachable.accepted (h : Reachable p s) {i : ℕ}
    {c : Call Op (Db Tables) (Write TableWrite) (Resource TableRow) Reply}
    (hs : s.step (code p) (.run i) = some s') (hc : s.calls[i]? = some c) (hop : c.op.reports) :
    s'.db = s.db ∨ ∃ c' n, s'.calls[i]? = some c' ∧ c'.script = .done (.sequence (some n)) := by
  obtain ⟨now, db, hfresh, hr⟩ := h
  have hscript := hr.ensures (P := Op.reports) (fun _ _ => ensures_reports)
    (fun d hd => by cases hd) c (List.mem_of_getElem? hc) hop
  cases stepped hs with
  | exec => exact Or.inl rfl
  | rollback => exact Or.inl rfl
  | @commit i op next t hd =>
    cases hc.symm.trans hd
    obtain ⟨n, rfl⟩ := (hscript rfl).1
    have hlt := (List.getElem?_eq_some_iff.mp hd).1
    exact Or.inr ⟨Call.settle ⟨op, .done (.sequence (some n)), {}⟩, n,
      by simp [System.resume, hlt], rfl⟩

/-- The event log of a build, over every run: its events are numbered from 1 to the last sequence
its run has handed out; the execution generation never decreases and a terminal run never
changes, but for that sequence; an event that expects a generation is not appended once a later
one is installed; terminal events have the status of the run; and a rejected event leaves the
committed state as it was. -/
theorem build_event_log (h : Reachable p s) (ns id : String) :
    (∀ n, eventAt s.db ns (id, n) ≠ none ↔ 1 ≤ n ∧ n < nextSequence s.db ns id) ∧
    (∀ s' r, Reaches p s s' → runAt s.db ns id = some r → ∃ r', runAt s'.db ns id = some r' ∧
      r.executionGeneration ≤ r'.executionGeneration ∧
      (r.status.isTerminal = true → r' = { r with nextEventSequence := r'.nextEventSequence })) ∧
    (∀ i c s' r g, s.step (code p) (.run i) = some s' → s.calls[i]? = some c →
      c.op.emits ns (some g) → runAt s.db ns id = some r →
      nextSequence s'.db ns id ≠ nextSequence s.db ns id → r.executionGeneration = g) ∧
    (∀ n e status, eventAt s.db ns (id, n) = some e → e.event.body.terminalStatus = some status →
      ∃ r, runAt s.db ns id = some r ∧ r.status = status ∧ status.isTerminal = true) ∧
    (∀ i c s', s.step (code p) (.run i) = some s' → s.calls[i]? = some c → c.op.reports →
      s'.db = s.db ∨ ∃ c' n, s'.calls[i]? = some c' ∧ c'.script = .done (.sequence (some n))) ∧
    (∀ args ws, (stageBuildEvent ns args).Ensures (fun _ => False)
      (fun sequence ws' => sequence = none → ws' = ws) ws) := by
  refine ⟨h.log.1.events ns id, ?_, ?_, ?_, ?_, fun args ws => ensures_stageBuildEvent args⟩
  · intro s' r hr hb
    obtain ⟨r', hr', hd⟩ := h.descends hr hb
    exact ⟨r', hr', hd.executed, hd.final⟩
  · intro i c s' r g hs hc hop hr hne
    rcases h.changes hs with hdb | ⟨j, d, next, ha, hd, -, hact⟩
    · exact absurd (by rw [hdb]) hne
    · cases ha
      cases hc.symm.trans hd
      have hstep := hact.run ns id
      rw [show runAt s.world.db ns id = some r from hr] at hstep
      refine (hstep.expected hop).resolve_left fun hsame => hne ?_
      rw [nextSequence, nextSequence, hsame, hr]
  · intro n e status he hst
    obtain ⟨r, hr, hstatus⟩ := h.log.2 ns id n e status he hst
    exact ⟨r, hr, hstatus, isTerminal_of_event hst⟩
  · intro i c s' hs hc hop
    exact h.accepted hs hc hop

/-- A build is executed and completes, and reports its completion again. -/
def sampleRepeat : List (ℕ × Op × ℕ) :=
  sampleExecution ++ [(1, sampleComplete ⟨"c", 2⟩, 10), (1, sampleComplete ⟨"r", 3⟩, 10)]

/-- The events of a completed build, and the run it leaves for good. -/
theorem build_event_log_completed : ∃ s r, Reachable samplePlatform s ∧
    runAt s.db "n" "b" = some r ∧ r.status = .completed ∧ r.nextEventSequence = 3 ∧
    (∀ n, eventAt s.db "n" ("b", n) ≠ none ↔ 1 ≤ n ∧ n < 3) ∧
    ∀ s', Reaches samplePlatform s s' → ∃ r', runAt s'.db "n" "b" = some r' ∧
      r' = { r with nextEventSequence := r'.nextEventSequence } := by
  obtain ⟨s, hreach, htest⟩ := Reachable.of_replay samplePlatform sampleDb_fresh 0
    (inTurn 0 sampleRepeat) (fun s => (runAt s.db "n" "b").any fun r =>
      r.status = .completed && r.nextEventSequence = 3) (by decide +kernel)
  obtain ⟨r, hr, hrow⟩ := (Option.any_eq_true _ _).mp htest
  simp only [Bool.and_eq_true, decide_eq_true_eq] at hrow
  obtain ⟨hevents, hfinal, -⟩ := build_event_log hreach "n" "b"
  have hnext : nextSequence s.db "n" "b" = 3 := by rw [nextSequence, hr]; exact hrow.2
  refine ⟨s, r, hreach, hr, hrow.1, hrow.2, hnext ▸ hevents, fun s' hs' => ?_⟩
  obtain ⟨r', hr', -, hterm⟩ := hfinal s' r hs' hr
  exact ⟨r', hr', hterm (by rw [hrow.1]; rfl)⟩

/-- The log of a build may hold two terminal events. -/
theorem two_terminal_events : ∃ s e e', Reachable samplePlatform s ∧
    eventAt s.db "n" ("b", 1) = some e ∧ eventAt s.db "n" ("b", 2) = some e' ∧
    e.event.body.terminalStatus = some .completed ∧
    e'.event.body.terminalStatus = some .completed := by
  obtain ⟨s, hreach, htest⟩ := Reachable.of_replay samplePlatform sampleDb_fresh 0
    (inTurn 0 sampleRepeat)
    (fun s => (eventAt s.db "n" ("b", 1)).any (·.event.body.terminalStatus = some .completed) &&
      (eventAt s.db "n" ("b", 2)).any (·.event.body.terminalStatus = some .completed))
    (by decide +kernel)
  simp only [Bool.and_eq_true, Option.any_eq_true, decide_eq_true_eq] at htest
  obtain ⟨⟨e, he, hst⟩, e', he', hst'⟩ := htest
  exact ⟨s, e, e', hreach, he, he', hst, hst'⟩

end Log

end DataForge.Builds
