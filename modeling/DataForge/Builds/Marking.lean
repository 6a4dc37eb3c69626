import DataForge.Builds.EventLog
import DataForge.ReadCommitted.Phases

/-!
# The generation of a run

`mark_build_running` installs the generation of the claim with a compare-and-set on the version of
the run, which every event moves. A caller that loses it gets the run as it is then.
-/

namespace DataForge.Builds

open ReadCommitted DataForge.Runtime

/-- The run that a call marks, and the generation that it brings. -/
def Op.marking : Op → Option (String × String × ℕ)
  | .markBuildRunning ns buildId generation _ _ => some (ns, buildId, generation)
  | .startBuildRun ns claim _ _ => some (ns, claim.buildId, claim.leaseGeneration)
  | _ => none

/-- The run has ended, or has this generation or a later one. -/
def Installed (db : Db Tables) (ns id : String) (generation : ℕ) : Prop :=
  ∃ r, runAt db ns id = some r ∧
    (r.status.isTerminal = true ∨ generation ≤ r.executionGeneration)

/-- What a caller does with the result of `mark_build_running`: it returns it, or nothing. -/
structure Returns (k : Option BuildRun → BuildScript Reply) : Prop where
  done : ∀ found, ∃ reply, k found = .done reply
  run : ∀ found r, k found = .done (.run (some r)) → found = some r

/-- The writes leave the run alone. -/
def Apart (ns id : String) (ws : List (Write TableWrite)) : Prop :=
  ∀ v ∈ ws, Storage.target v ≠ Resource.tenant ns (TableRow.run id)

/-- A call of `mark_build_running` that is about to read the run, or to compare and set what it
has read. -/
def Marks (db : Db Tables) (ns id : String) (g : ℕ) (q : BuildScript Reply)
    (ws : List (Write TableWrite)) : Prop :=
  (∃ now notice k, Returns k ∧ ws = [] ∧ q = (markBuildRunning ns id g now notice >>= k)) ∨
    ∃ now run k, Returns k ∧ Apart ns id ws ∧ runAt db ns id ≠ none ∧
      q = (casUpdateBuildRun ns id g now run >>= k)

/-- Where a call that marks a run is. -/
inductive Phase (db : Db Tables) (ns id : String) (g : ℕ) :
    BuildScript Reply → List (Write TableWrite) → Prop where
  | marks {q ws} (h : q.Until (fun reply => ∀ r, reply ≠ .run (some r)) (Marks db ns id g) ws) :
      Phase db ns id g q ws
  | won {k ws} (hk : Returns k)
      (h : ∀ db, ∃ r, runAt (view ws db) ns id = some r ∧ r.executionGeneration = g) :
      Phase db ns id g (.commit (runs.find ns id >>= k)) ws
  | lost {k ws} (hk : Returns k) (h : Installed db ns id g) :
      Phase db ns id g (.rollback (runs.find ns id >>= k)) ws
  | reads {k} (hk : Returns k) (h : Installed db ns id g) :
      Phase db ns id g (runs.find ns id >>= k) []

/-- A step whose compare-and-set, if it is one, finds the run as it was read, unless the run has
ended since or has got the generation of the caller or a later one. -/
def Undisturbed (s : BuildSystem) (a : Action Op) (_ : BuildSystem) : Prop :=
  ∀ i op ns id g now run k t, a = .run i → op.marking = some (ns, id, g) →
    s.calls[i]? = some ⟨op, casUpdateBuildRun ns id g now run >>= k, t⟩ →
    ∀ r, runAt (view t.writes s.db) ns id = some r →
      (r.status = run.status ∧ r.version = run.version) ∨ r.status.isTerminal = true ∨
        g ≤ r.executionGeneration

section Apart

variable {ns id : String} {ws : List (Write TableWrite)}

theorem Apart.nil : Apart ns id [] := fun v hv => by cases hv

theorem Apart.append {vs : List (Write TableWrite)} (h : Apart ns id ws) (hv : Apart ns id vs) :
    Apart ns id (ws ++ vs) :=
  List.forall_mem_append.mpr ⟨h, hv⟩

theorem Apart.runAt_view (h : Apart ns id ws) (db : Db Tables) :
    runAt (view ws db) ns id = runAt db ns id := view_same_of_ne db h

variable {D : Reply → Prop} {B : BuildScript Reply → List (Write TableWrite) → Prop}

theorem until_insertOutbox {ns' key : String} {row : BuildEnv → OutboxEvent}
    {conflict : Table String OutboxEvent → Bool} {k : Unit → BuildScript Reply}
    (hws : Apart ns id ws) (h : ∀ ws', Apart ns id ws' → (k ()).Until D B ws') :
    (outbox.insert ns' key conflict row >>= k).Until D B ws := by
  refine .inr fun e => ?_
  dsimp only
  split
  · trivial
  · refine h _ (hws.append fun v hv => ?_)
    rw [List.mem_singleton.mp hv]
    intro he
    cases he

theorem until_appendWake {ns' : String} {kind : RuntimeWorkKind} {wakeId : ℕ}
    {k : ℕ → BuildScript Reply} (hws : Apart ns id ws)
    (h : ∀ a ws', Apart ns id ws' → (k a).Until D B ws') :
    (appendWake ns' kind wakeId >>= k).Until D B ws := by
  refine .inr fun e => ?_
  dsimp only
  split
  · refine h _ _ (hws.append fun v hv => ?_)
    rw [List.mem_singleton.mp hv]
    intro he
    cases he
  · trivial

theorem until_notifyWhen {ns' payloadNs buildId : String} {cond : Bool} {latest : ℕ}
    {notice : Notice} {k : Unit → BuildScript Reply} (hws : Apart ns id ws)
    (h : ∀ ws', Apart ns id ws' → (k ()).Until D B ws') :
    (notifyWhen ns' cond payloadNs buildId latest notice >>= k).Until D B ws := by
  unfold notifyWhen enqueueApiBuildNotification
  split
  · rw [Script.bind_assoc]
    refine Script.until_query fun now => ?_
    rw [Script.bind_assoc]
    refine until_insertOutbox hws fun ws1 hws1 => ?_
    rw [Script.bind_assoc]
    exact until_appendWake hws1 fun _ ws2 hws2 => h ws2 hws2
  · exact h ws hws

end Apart

section Phases

variable {ns id : String} {g : ℕ} {db db' : Db Tables} {q : BuildScript Reply}
  {ws : List (Write TableWrite)}

theorem returns_markBuildRunning : Returns fun run => .done (.run run) :=
  ⟨fun _ => ⟨_, rfl⟩, fun found r h => by cases h; rfl⟩

theorem returns_startBuildRun :
    Returns fun run => .done (.run (run.filter (·.status = .running))) := by
  refine ⟨fun _ => ⟨_, rfl⟩, fun found r h => ?_⟩
  simp only [Script.done.injEq, Reply.run.injEq, Option.filter_eq_some_iff] at h
  exact h.1

theorem phase_code {p : Platform} {i : ℕ} {op : Op} (hop : op.marking = some (ns, id, g)) :
    Phase db ns id g (code p i op) [] := by
  refine .marks ?_
  cases op with
  | markBuildRunning ns' buildId generation now notice =>
    cases hop
    exact .inl (.inl ⟨now, notice, _, returns_markBuildRunning, rfl, rfl⟩)
  | startBuildRun ns' claim now notice =>
    cases hop
    show (startBuildRun ns claim now notice).Until _ _ []
    unfold startBuildRun activeClaimOf
    rw [Script.bind_assoc]
    refine Script.until_query fun t => ?_
    rw [if_pos rfl]
    refine Script.until_statement fun e => ?_
    rw [show (lockRows _ _ : Effect (Write TableWrite) (Resource TableRow)).writes = [] from rfl,
      List.append_nil]
    split
    · exact fun r h => by cases h
    · exact .inl (.inl ⟨now, notice, _, returns_startBuildRun, rfl, rfl⟩)
  | _ => cases hop

/-- What follows the read in `mark_build_running`. -/
def afterFind (ns id : String) (g now : ℕ) (notice : Notice) :
    Option BuildRun → BuildScript (Option BuildRun)
  | none => pure none
  | some run =>
    if run.status.inflight = false then pure (some run)
    else if g < run.executionGeneration then pure none
    else if run.status = .running ∧ g = run.executionGeneration then pure (some run)
    else do
      notifyWhen ns (run.status = .queued) run.ns id (run.nextEventSequence - 1) notice
      casUpdateBuildRun ns id g now run

theorem markBuildRunning_eq (now : ℕ) (notice : Notice) :
    markBuildRunning ns id g now notice = (runs.find ns id >>= afterFind ns id g now notice) := by
  unfold markBuildRunning
  congr 1

/-- A call that returns the run as it is stored, ended or at the generation. -/
def Answers (db : Db Tables) (ns id : String) (g : ℕ) (q : BuildScript Reply) : Prop :=
  ∃ r, q = .done (.run (some r)) ∧ runAt db ns id = some r ∧
    (r.status.isTerminal = true ∨ g ≤ r.executionGeneration)

theorem terminal_of_not_inflight {status : BuildRunStatus} (h : status.inflight = false) :
    status.isTerminal = true := by
  cases status <;> first | rfl | cases h

theorem answers_or_phase {k : Option BuildRun → BuildScript Reply} (hk : Returns k)
    {found : Option BuildRun} (hfound : found = runAt db ns id)
    (h : ∀ r, found = some r → r.status.isTerminal = true ∨ g ≤ r.executionGeneration) :
    Answers db ns id g (k found) ∨ Phase db ns id g (k found) ws := by
  obtain ⟨reply, hreply⟩ := hk.done found
  rw [hreply]
  by_cases hsome : ∃ r, reply = .run (some r)
  · obtain ⟨r, rfl⟩ := hsome
    have hr := hk.run found r hreply
    exact .inl ⟨r, rfl, hfound ▸ hr, h r hr⟩
  · exact .inr (.marks fun r hr => hsome ⟨r, hr⟩)

/-- The read of `mark_build_running`. -/
theorem phase_afterFind {k : Option BuildRun → BuildScript Reply} (hk : Returns k) {now : ℕ}
    {notice : Notice} {found : Option BuildRun} (hfound : found = runAt db ns id) :
    Answers db ns id g (afterFind ns id g now notice found >>= k) ∨
      Phase db ns id g (afterFind ns id g now notice found >>= k) [] := by
  cases found with
  | none => exact answers_or_phase hk hfound fun r hr => by cases hr
  | some run =>
    simp only [afterFind]
    split
    · next hterm =>
      refine answers_or_phase hk hfound fun r hr => ?_
      cases hr
      exact .inl (terminal_of_not_inflight hterm)
    · split
      · obtain ⟨reply, hreply⟩ := hk.done none
        refine .inr (.marks ?_)
        rw [Script.pure_eq_done, Script.done_bind, hreply]
        rintro r rfl
        cases hk.run none r hreply
      · split
        · next hrunning =>
          refine answers_or_phase hk hfound fun r hr => ?_
          cases hr
          exact .inr hrunning.2.le
        · refine .inr (.marks ?_)
          rw [Script.bind_assoc]
          refine until_notifyWhen Apart.nil fun ws' hws' =>
            .inl (.inr ⟨now, run, k, hk, hws', ?_, rfl⟩)
          rw [← hfound]
          exact Option.some_ne_none run

/-- The row as the compare-and-set of `mark_build_running` reads it. -/
def matching (id ns : String) (run : BuildRun) (e : BuildEnv) : Option BuildRun :=
  (runs.get ns id e).filter fun r => r.status = run.status && r.version = run.version

/-- The compare-and-set and what follows it. -/
theorem casUpdateBuildRun_bind (now : ℕ) (run : BuildRun)
    (k : Option BuildRun → BuildScript Reply) :
    (casUpdateBuildRun ns id g now run >>= k) =
      .exec
        (fun e => match matching id ns run e with
          | some r => { writes := [.tenant ns (.run id (some { r with
              status := .running, executionGeneration := g, updatedAt := now
              version := run.version + 1 }))] }
          | none => {})
        (fun e => if (matching id ns run e).isSome then .commit (runs.find ns id >>= k)
          else .rollback (runs.find ns id >>= k)) := by
  have hnext (updated : Option BuildRun) :
      ((if updated.isSome then Script.commitNow >>= fun _ => runs.find ns id
        else Script.rollbackNow >>= fun _ => runs.find ns id : BuildScript (Option BuildRun)) >>=
          k) =
        if updated.isSome then .commit (runs.find ns id >>= k)
        else .rollback (runs.find ns id >>= k) := by
    cases updated with
    | none => rfl
    | some r => rfl
  refine congrArg₂ Script.exec (funext fun e => ?_) (funext fun e => ?_)
  · unfold matching
    dsimp only
    cases (runs.get ns id e).filter fun r => r.status = run.status && r.version = run.version with
    | none => rfl
    | some r => rfl
  · refine (hnext _).trans ?_
    rw [Option.isSome_map]
    rfl

/-- A statement of a call that marks a run, which loses its compare-and-set only to a run that has
ended or has the generation. -/
theorem Phase.exec {effect : BuildEnv → Effect (Write TableWrite) (Resource TableRow)}
    {next : BuildEnv → BuildScript Reply} (h : Phase db ns id g (.exec effect next) ws)
    {e : BuildEnv} (he : e.db = view ws db)
    (hcas : ∀ now run k, .exec effect next = (casUpdateBuildRun ns id g now run >>= k) →
      ∀ r, runAt (view ws db) ns id = some r →
        (r.status = run.status ∧ r.version = run.version) ∨ r.status.isTerminal = true ∨
          g ≤ r.executionGeneration) :
    Answers db ns id g (next e) ∨ Phase db ns id g (next e) (ws ++ (effect e).writes) := by
  generalize hq : Script.exec effect next = q at h
  cases h with
  | marks h =>
    subst hq
    rcases h with (⟨now, notice, k, hk, rfl, hq⟩ | ⟨now, run, k, hk, hws, hrun, hq⟩) | hall
    · rw [markBuildRunning_eq, Script.bind_assoc] at hq
      cases show Script.exec effect next = .exec (fun _ => {}) (fun e =>
        afterFind ns id g now notice (runs.get ns id e) >>= k) from hq
      exact phase_afterFind hk (congrArg (runAt · ns id) he)
    · specialize hcas now run k hq
      rw [casUpdateBuildRun_bind] at hq
      cases hq
      cases hm : matching id ns run e with
      | some r =>
        dsimp only
        rw [hm]
        refine .inr (.won hk fun db' => ⟨{ r with
          status := .running, executionGeneration := g, updatedAt := now
          version := run.version + 1 }, ?_, rfl⟩)
        rw [view_append]
        exact runAt_run _
      | none =>
        dsimp only
        rw [hm]
        obtain ⟨r, hstored⟩ := Option.ne_none_iff_exists'.mp hrun
        have hr : runAt (view ws db) ns id = some r := (hws.runAt_view db).trans hstored
        refine .inr (.lost hk ⟨r, hstored, (hcas r hr).resolve_left fun hsame => ?_⟩)
        have hget : runs.get ns id e = some r := (congrArg (runAt · ns id) he).trans hr
        rw [matching, hget, Option.filter_some_pos (by simpa using hsame)] at hm
        cases hm
    · exact .inr (.marks (hall e))
  | won => cases hq
  | lost => cases hq
  | @reads k hk h =>
    cases show Script.exec effect next = .exec (fun _ => {}) (fun e => k (runs.get ns id e)) from hq
    obtain ⟨r', hr', hinstalled⟩ := h
    refine answers_or_phase hk (congrArg (runAt · ns id) he) fun r hr => ?_
    cases hr'.symm.trans ((congrArg (runAt · ns id) he).symm.trans hr)
    exact hinstalled

theorem Phase.commit {next : BuildScript Reply} (h : Phase db ns id g (.commit next) ws) :
    Phase (view ws db) ns id g next [] := by
  generalize hq : Script.commit next = q at h
  cases h with
  | marks h =>
    subst hq
    exact h.elim
  | won hk h =>
    cases hq
    obtain ⟨r, hr, hgen⟩ := h db
    exact .reads hk ⟨r, hr, .inr hgen.ge⟩
  | lost => cases hq
  | reads => cases hq

theorem Phase.rollback {next : BuildScript Reply} (h : Phase db ns id g (.rollback next) ws) :
    Phase db ns id g next [] := by
  generalize hq : Script.rollback next = q at h
  cases h with
  | marks h =>
    subst hq
    exact h.elim
  | won => cases hq
  | lost hk h =>
    cases hq
    exact .reads hk h
  | reads => cases hq

theorem Phase.not_run {r : BuildRun} : ¬ Phase db ns id g (.done (.run (some r))) ws := by
  intro h
  generalize hq : Script.done (Reply.run (some r)) = q at h
  cases h with
  | marks h =>
    subst hq
    exact h r rfl
  | won => cases hq
  | lost => cases hq
  | reads => cases hq

/-- Runs that descend from those of another state. -/
def Follows (ns id : String) (db db' : Db Tables) : Prop :=
  ∀ r, runAt db ns id = some r → ∃ r', runAt db' ns id = some r' ∧ Descends r r'

theorem Installed.follows (h : Installed db ns id g) (hf : Follows ns id db db') :
    Installed db' ns id g := by
  obtain ⟨r, hr, hinstalled⟩ := h
  obtain ⟨r', hr', hd⟩ := hf r hr
  refine ⟨r', hr', hinstalled.imp (fun hterm => ?_) fun hgen => hgen.trans hd.executed⟩
  rw [hd.status hterm]
  exact hterm

theorem Phase.follows (h : Phase db ns id g q ws) (hf : Follows ns id db db') :
    Phase db' ns id g q ws := by
  cases h with
  | marks h =>
    refine .marks (h.mono fun q ws hmarks => hmarks.imp_right ?_)
    rintro ⟨now, run, k, hk, hws, hrun, hq⟩
    obtain ⟨r, hr⟩ := Option.ne_none_iff_exists'.mp hrun
    obtain ⟨r', hr', -⟩ := hf r hr
    exact ⟨now, run, k, hk, hws, hr' ▸ Option.some_ne_none r', hq⟩
  | won hk h => exact .won hk h
  | lost hk h => exact .lost hk (h.follows hf)
  | reads hk h => exact .reads hk (h.follows hf)

end Phases

section Runs

variable {p : Platform} {s s' : BuildSystem} {ns id : String} {g : ℕ}

/-- Every state that an undisturbed run reaches. -/
def UndisturbedRun (p : Platform) (s : BuildSystem) : Prop :=
  ∃ now db, Fresh db ∧ Run (code p) Undisturbed ⟨now, db, []⟩ s

theorem UndisturbedRun.reachable (h : UndisturbedRun p s) : Reachable p s := by
  obtain ⟨now, db, hfresh, hr⟩ := h
  exact ⟨now, db, hfresh, hr.mono fun _ _ _ _ => trivial⟩

theorem Reachable.follows (h : Reachable p s) {a : Action Op}
    (hs : s.step (code p) a = some s') : Follows ns id s.db s'.db :=
  fun _ hr => h.descends ((Run.refl s).step hs trivial) hr

/-- Calls that mark a run are at one of the phases. -/
theorem UndisturbedRun.phases (h : UndisturbedRun p s) :
    ∀ c ∈ s.calls, c.script.ended = false → ∀ ns id g, c.op.marking = some (ns, id, g) →
      Phase s.db ns id g c.script c.txn.writes := by
  obtain ⟨now, db, hfresh, hr⟩ := h
  induction hr with
  | refl => exact fun c hc => by cases hc
  | @step s s' a hr hs hok ih =>
    have hreach : Reachable p s := ⟨now, db, hfresh, hr.mono fun _ _ _ _ => trivial⟩
    refine (stepped hs).phases
      (S := fun op q ws => ∀ ns id g, op.marking = some (ns, id, g) → Phase s.db ns id g q ws)
      (T := fun op q ws => ∀ ns id g, op.marking = some (ns, id, g) → Phase s'.db ns id g q ws)
      ih (fun op q ws h ns id g hop => (h ns id g hop).follows (hreach.follows hs))
      (fun i op ns id g hop => phase_code hop) ?_ ?_ ?_
    · intro i op effect next t ha hdb hc h hend ns id g hop
      rw [hdb]
      refine ((h ns id g hop).exec (e := t.env s.world (s.free i)) rfl
        fun now run k hq r hr => ?_).resolve_left ?_
      · exact hok i op ns id g now run k t ha hop (hq ▸ hc) r hr
      · rintro ⟨r, hr, -⟩
        rw [hr] at hend
        cases hend
    · intro op next t hdb h ns id g hop
      rw [hdb]
      exact (h ns id g hop).commit
    · intro op next ws hdb h ns id g hop
      rw [hdb]
      exact (h ns id g hop).rollback

/-- In a run without a disturbance a run that `mark_build_running` returns is the stored one, and
has the generation of the caller or a later one unless it has ended. -/
theorem mark_installs (h : UndisturbedRun p s) {i : ℕ}
    (hs : s.step (code p) (.run i) = some s') (hok : Undisturbed s (.run i) s')
    {c : Call Op (Db Tables) (Write TableWrite) (Resource TableRow) Reply} {r : BuildRun}
    (hc : s'.calls[i]? = some c) (hop : c.op.marking = some (ns, id, g))
    (hr : c.script = .done (.run (some r))) (hlive : r.status.isTerminal = false) :
    runAt s'.db ns id = some r ∧ g ≤ r.executionGeneration := by
  have hphases := h.phases
  cases stepped hs with
  | @exec _ op effect next t hd hf =>
    obtain ⟨hdone, rfl⟩ := System.done_resume hc hr
    have hphase := hphases _ (List.mem_of_getElem? hd) rfl ns id g hop
    rcases hphase.exec (e := t.env s.world (s.free i)) rfl fun now run k hq r hr =>
      hok i _ ns id g now run k t rfl hop (hq ▸ hd) r hr with ⟨r', hr', hstored, hinstalled⟩ | hp
    · cases hdone.symm.trans hr'
      refine ⟨hstored, hinstalled.resolve_left ?_⟩
      rw [hlive]
      exact Bool.false_ne_true
    · dsimp only at hdone
      rw [hdone] at hp
      exact absurd hp Phase.not_run
  | commit hd =>
    obtain ⟨hdone, rfl⟩ := System.done_resume hc hr
    have hp := (hphases _ (List.mem_of_getElem? hd) rfl ns id g hop).commit
    dsimp only at hdone
    rw [hdone] at hp
    exact absurd hp Phase.not_run
  | rollback hd =>
    obtain ⟨hdone, rfl⟩ := System.done_resume hc hr
    have hp := (hphases _ (List.mem_of_getElem? hd) rfl ns id g hop).rollback
    dsimp only at hdone
    rw [hdone] at hp
    exact absurd hp Phase.not_run

end Runs

/-! ## Two runs -/

/-- Whether the rest of a call begins with a rollback. -/
def rollsBack : BuildScript Reply → Bool
  | .rollback _ => true
  | _ => false

/-- Whether the action is enabled and, if it steps a call, does not make it roll back. -/
def keepsGoing (p : Platform) (s : BuildSystem) : Action Op → Bool
  | .run i =>
    (s.step (code p) (.run i)).any fun s' => (s'.calls[i]?).all fun c => !rollsBack c.script
  | _ => true

theorem undisturbed_of_keepsGoing {p : Platform} {s s' : BuildSystem} {a : Action Op}
    (h : keepsGoing p s a = true) : Undisturbed s a s' := by
  intro i op ns id g now run k t ha _ hc r hr
  subst ha
  obtain ⟨u, hu, hgoes⟩ := (Option.any_eq_true _ _).mp h
  rw [casUpdateBuildRun_bind] at hc
  have hlt := (List.getElem?_eq_some_iff.mp hc).1
  cases stepped hu with
  | exec hd hf =>
    cases hc.symm.trans hd
    simp only [System.resume, List.getElem?_set_self hlt, Option.all_some] at hgoes
    by_cases hm : (matching id ns run (t.env s.world (s.free i))).isSome
    · obtain ⟨r', hr'⟩ := Option.isSome_iff_exists.mp hm
      obtain ⟨hget, hsame⟩ := Option.filter_eq_some_iff.mp hr'
      cases hr.symm.trans hget
      exact .inl (by simpa using hsame)
    · simp [hm, Call.settle, Script.ended, rollsBack] at hgoes
  | commit hd => cases hc.symm.trans hd
  | rollback hd => cases hc.symm.trans hd

/-- The run that a call has returned. -/
def returned : BuildScript Reply → Option BuildRun
  | .done (.run found) => found
  | _ => none

theorem returned_eq {q : BuildScript Reply} {r : BuildRun} (h : returned q = some r) :
    q = .done (.run (some r)) := by
  unfold returned at h
  split at h
  · rw [h]
  · cases h

/-- A build is started, and marked with the first generation up to the last statement. -/
def sampleMark : List (ℕ × Op × ℕ) :=
  [(0, .startBuild "n" ⟨⟨"b", "j", 0, sampleRun⟩, ["d"], []⟩, 7),
    (1, .markBuildRunning "n" "b" 1 1 ⟨"o", 1⟩, 6)]

theorem mark_installs_first : ∃ s s' c r, UndisturbedRun samplePlatform s ∧
    s.step (code samplePlatform) (.run 1) = some s' ∧ s'.calls[1]? = some c ∧
    c.script = .done (.run (some r)) ∧ runAt s'.db "n" "b" = some r ∧
    1 ≤ r.executionGeneration := by
  have hreplay : (System.replayWhen (code samplePlatform) (keepsGoing samplePlatform)
      ⟨0, sampleDb, []⟩ (inTurn 0 sampleMark)).any (fun s =>
        keepsGoing samplePlatform s (.run 1) &&
          (s.step (code samplePlatform) (.run 1)).any fun s' => (s'.calls[1]?).any fun c =>
            c.op.marking = some ("n", "b", 1) &&
              (returned c.script).any fun r => r.status.isTerminal = false) = true := by
    decide +kernel
  simp only [Option.any_eq_true, Bool.and_eq_true, decide_eq_true_eq] at hreplay
  obtain ⟨s, hs, hgoes, s', hstep, c, hc, hop, r, hr, hlive⟩ := hreplay
  have hrun : UndisturbedRun samplePlatform s :=
    ⟨0, sampleDb, sampleDb_fresh,
      (Run.of_replayWhen hs).mono fun _ _ _ h => undisturbed_of_keepsGoing h⟩
  have hinstalls := mark_installs hrun hstep (undisturbed_of_keepsGoing hgoes) hc hop
    (returned_eq hr) hlive
  exact ⟨s, s', c, r, hrun, hstep, hc, returned_eq hr, hinstalls⟩

/-- The report of the first executor that arrives while the second one marks the build. -/
def sampleProgress : Op :=
  .appendBuildEvent "n"
    { buildId := "b"
      event := ⟨⟨"b", "a", 2, none, none, none, none, none, none, none⟩,
        .progress 0 0 none none none 1⟩
      expected := some 1
      notice := ⟨"c", 2⟩
      createdAt := 2
      wakeId := 9 }

/-- A job is claimed again, and its second executor marks the build while the first one reports its
progress: the second one reads the run, the report is appended, and the compare-and-set is lost. -/
def sampleLost : List (Action Op) :=
  inTurn 0 sampleMark ++
    [Action.run 1, .spawn (.markBuildRunning "n" "b" 2 2 ⟨"p", 3⟩), .run 2,
      .spawn sampleProgress] ++ List.replicate 4 (Action.run 3) ++ List.replicate 3 (Action.run 2)

/-- The call returns the running build, which still has the generation of the first executor. -/
theorem mark_loses_generation : ∃ s c r r', Reachable samplePlatform s ∧
    s.calls[2]? = some c ∧ c.op.marking = some ("n", "b", 2) ∧
    c.script = .done (.run (some r)) ∧ r.status.isTerminal = false ∧
    runAt s.db "n" "b" = some r' ∧ r'.executionGeneration = 1 := by
  obtain ⟨s, hreach, htest⟩ := Reachable.of_replay samplePlatform sampleDb_fresh 0 sampleLost
    (fun s => ((s.calls[2]?).any fun c => c.op.marking = some ("n", "b", 2) &&
      (returned c.script).any fun r => r.status.isTerminal = false) &&
        (runAt s.db "n" "b").any fun r => r.executionGeneration = 1) (by decide +kernel)
  simp only [Option.any_eq_true, Bool.and_eq_true, decide_eq_true_eq] at htest
  obtain ⟨⟨c, hc, hop, r, hr, hlive⟩, r', hr', hgen⟩ := htest
  exact ⟨s, c, r, r', hreach, hc, hop, returned_eq hr, hlive, hr', hgen⟩

end DataForge.Builds
