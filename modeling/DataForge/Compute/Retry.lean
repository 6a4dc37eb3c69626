import DataForge.Compute.Safety
import DataForge.Compute.Writers

/-!
# Compute requests: repeated results

A worker repeats the publication of a result when it has not heard of its success, and
`_matching_terminal_request` recognises the repetition by what the row holds
(`compute_requests_service.py:1160-1186,1241-1320`). The row holds what the first call published
only in part: a failure keeps the artifact columns of staging, and the source services clear them
or delete the row.
-/

namespace DataForge.Compute

open ReadCommitted DataForge.Runtime

/-- The request table with all its writers. -/
abbrev RowSystem := System RowOp (Db Tables) (Write TableWrite) (Resource TableRow) Reply

/-- A request row of a system state. -/
def rowAt (s : RowSystem) (ns id : String) : Option ComputeRequest :=
  (s.db.tenants ns).requests.get id

/-- Any interleaving of any number of calls. -/
abbrev RowReaches (p : Platform) : RowSystem → RowSystem → Prop :=
  Run (rowCode p) fun _ _ _ => True

/-- A state that some interleaving reaches. -/
def RowReachable (p : Platform) (s : RowSystem) : Prop :=
  ∃ now db, Fresh db ∧ RowReaches p ⟨now, db, []⟩ s

/-- The step does not give the id of a deleted request to a new one: ids are fresh UUIDs. -/
def KeepsId (ns id : String) (u u' : RowSystem) : Prop :=
  rowAt u ns id = none → rowAt u' ns id = none

/-- What may become of a row with a terminal request. -/
def Later (r : ComputeRequest) (x : Option ComputeRequest) : Prop :=
  x = some r ∨ r.status = .completed ∧ x = some r.clearArtifacts ∨ x = none

section Runs

variable {p : Platform} {s s' : RowSystem} {a : Action RowOp} {ns id : String}
  {r : ComputeRequest} {x y : Option ComputeRequest}

theorem row_admits : rowProtocol.Admits s a s' :=
  ⟨fun _ _ => trivial, fun _ _ _ _ _ _ => trivial, fun _ _ _ _ _ _ _ => trivial⟩

theorem RowReachable.good (h : RowReachable p s) :
    Good rowProtocol (fun _ _ _ _ _ => True) s := by
  obtain ⟨now, db, hfresh, hr⟩ := h
  have hinv : rowProtocol.inv ⟨now, db⟩ := by
    intro ns id r hr
    rw [(hfresh ns).1] at hr
    cases hr
  exact (Good.start hinv).run (rowVerified p) (hr.mono fun _ _ _ _ => row_admits)

theorem RowReachable.trans (h : RowReachable p s) (hr : RowReaches p s s') :
    RowReachable p s' := by
  obtain ⟨now, db, hfresh, hr0⟩ := h
  exact ⟨now, db, hfresh, hr0.trans hr⟩

theorem RowReachable.row_step (h : RowReachable p s) (hs : s.step (rowCode p) a = some s')
    (ns id : String) : ∃ op, RowStep op (rowAt s ns id) (rowAt s' ns id) := by
  rcases h.good.changes hs row_admits with hdb | ⟨i, c, next, -, -, -, -, -, -, hact⟩
  · refine ⟨.queue (.reconcileExpiredRequests ns), ?_⟩
    rw [show rowAt s' ns id = rowAt s ns id by rw [rowAt, hdb, rowAt]]
    exact .same _
  · exact ⟨c.op, hact.1 ns id⟩

theorem Later.step {op : RowOp} (hx : Later r x) (hr : r.status.active = false)
    (hs : RowStep op x y) (hkeep : x = none → y = none) : Later r y := by
  cases hs with
  | same => exact hx
  | @work x r' hwork _ =>
    rcases hx with rfl | ⟨hc, rfl⟩ | rfl
    · have hact := hwork r rfl
      rw [hr] at hact
      cases hact
    · have hact := hwork _ rfl
      rw [show r.clearArtifacts.status = .completed from hc] at hact
      cases hact
    · cases hkeep rfl
  | @cleared b _ hb =>
    rcases hx with hx | ⟨hc, hx⟩ | hx
    · cases hx
      exact Or.inr (Or.inl ⟨hb, rfl⟩)
    · cases hx
      exact Or.inr (Or.inl ⟨hc, rfl⟩)
    · cases hx
  | deleted => exact Or.inr (Or.inr rfl)

theorem RowReachable.later (h : RowReachable p s)
    (hr : Run (rowCode p) (fun u _ u' => KeepsId ns id u u') s s') (hx : rowAt s ns id = some r)
    (hterm : r.status.active = false) : Later r (rowAt s' ns id) := by
  induction hr with
  | refl => exact Or.inl hx
  | step hr hs hok ih =>
    obtain ⟨op, hstep⟩ := (h.trans (hr.mono fun _ _ _ _ => trivial)).row_step hs ns id
    exact ih.step hterm hstep hok

end Runs

section Retry

variable {ns : String} {args : FinishArgs} {b r : ComputeRequest}

/-- The row may be what has become of a terminal request. -/
def Held (ns id : String) (r : ComputeRequest) (db : Db Tables) : Prop :=
  Later r ((db.tenants ns).requests.get id)

theorem Later.active {x : Option ComputeRequest} (h : Later r x) (hr : r.status.active = false) :
    ∀ b, x = some b → b.status.active = false := by
  rintro b rfl
  rcases h with h | ⟨hc, h⟩ | h
  · cases h
    exact hr
  · cases h
    exact hr
  · cases h

theorem finishClaimedRequest_readsOnly (hr : r.status.active = false) :
    (finishClaimedRequest ns args).ReadsOnly (Held ns args.requestId r) fun db reply =>
      reply = .finished (((db.tenants ns).requests.get args.requestId).filter
        (matchesTerminal args)) := by
  intro e1 _
  refine ⟨rfl, fun _ h => (by cases h), fun e2 he2 => ?_⟩
  have hnone : ((requests ns e2).get args.requestId).filter (activeClaim args e2.now) = none := by
    rw [Option.filter_eq_none_iff]
    intro b hb hclaim
    have hact := he2.active hr b hb
    simp only [activeClaim, Bool.and_eq_true, decide_eq_true_eq] at hclaim
    rw [hclaim.1.1.1.1] at hact
    cases hact
  dsimp only [Script.bind]
  rw [hnone]
  refine ⟨rfl, fun _ h => (by cases h), fun _ h => (by cases h), fun e3 _ =>
    ⟨rfl, fun _ h => ?_, trivial⟩⟩
  cases h
  rfl

theorem stagedArtifacts_eq_none {command : ComputeCommand} :
    stagedArtifacts command = (none, none, none) ↔ command.usesCleanup = false := by
  unfold stagedArtifacts ComputeCommand.usesCleanup
  cases command.command with
  | none => simp
  | some body =>
    cases body with
    | datasource c =>
      cases c with
      | none => simp
      | some c =>
        cases c with
        | preflight c =>
          dsimp only
          split <;> simp
        | _ => simp
    | _ => simp

theorem finishedRow_artifacts :
    (finishedRow args b).artifacts = args.artifacts.getD b.artifacts := by
  unfold finishedRow
  cases args.artifacts <;> rfl

theorem finishedRow_status : (finishedRow args b).status = args.status := by
  unfold finishedRow
  cases args.artifacts <;> rfl

theorem clearArtifacts_eq (h : r.artifacts = (none, none, none)) : r.clearArtifacts = r := by
  cases r
  simp only [ComputeRequest.artifacts, Prod.mk.injEq] at h
  obtain ⟨rfl, rfl, rfl⟩ := h
  rfl

theorem matchesTerminal_finishedRow :
    matchesTerminal args (finishedRow args b) = true ↔
      args.artifacts.getD b.artifacts = args.artifacts.getD (none, none, none) := by
  rw [← finishedRow_artifacts]
  have hresponse : (finishedRow args b).responseEnvelope = some args.responseEnvelope := by
    unfold finishedRow
    cases args.artifacts <;> rfl
  have herror : (finishedRow args b).errorMessage = args.errorMessage := by
    unfold finishedRow
    cases args.artifacts <;> rfl
  simp [matchesTerminal, finishedRow_status, hresponse, herror, ComputeRequest.artifacts,
    Prod.ext_iff, and_assoc]

theorem matchesTerminal_clearArtifacts (h : matchesTerminal args r.clearArtifacts = true) :
    args.artifacts.getD (none, none, none) = (none, none, none) := by
  simp only [matchesTerminal, ComputeRequest.clearArtifacts, Bool.and_eq_true] at h
  obtain ⟨⟨⟨-, hpath⟩, hname⟩, htype⟩ := h
  exact Prod.ext (of_decide_eq_true hpath).symm
    (Prod.ext (of_decide_eq_true hname).symm (of_decide_eq_true htype).symm)

/-- A row answers a repetition: it is still there, and its artifact columns are those of the call.
After a failure these are the columns of staging, which have to be empty. -/
def Answers (args : FinishArgs) (b : ComputeRequest) (after : Option ComputeRequest) : Prop :=
  after.isSome = true ∧ match args.artifacts with
    | some artifacts => after = some (finishedRow args b) ∨ artifacts = (none, none, none)
    | none => b.commandEnvelope.command.usesCleanup = false

/-- What is found in a row that held the result at first. -/
theorem answers_iff {x : Option ComputeRequest} (hform : args.artifacts.isSome = args.completed)
    (hstaged : AsStaged b) (hx : Later (finishedRow args b) x) :
    (∃ r, x = some r ∧ matchesTerminal args r = true) ↔ Answers args b x := by
  unfold Answers
  rcases hx with rfl | ⟨hc, rfl⟩ | rfl
  · simp only [Option.some.injEq, exists_eq_left', matchesTerminal_finishedRow]
    cases args.artifacts with
    | none => simp [show b.artifacts = _ from hstaged, stagedArtifacts_eq_none]
    | some artifacts => simp
  · have hcompleted : args.completed = true := by
      rw [finishedRow_status, FinishArgs.status] at hc
      split at hc
      · assumption
      · cases hc
    obtain ⟨artifacts, ha⟩ := Option.isSome_iff_exists.mp (hform.trans hcompleted)
    have hfinished : (finishedRow args b).artifacts = artifacts := by
      rw [finishedRow_artifacts, ha]
      rfl
    have hempty : artifacts = (none, none, none) →
        matchesTerminal args (finishedRow args b).clearArtifacts = true := by
      intro he
      rw [clearArtifacts_eq (hfinished.trans he), matchesTerminal_finishedRow, ha]
      rfl
    rw [ha]
    constructor
    · rintro ⟨r, hr, hm⟩
      cases hr
      have hm' := matchesTerminal_clearArtifacts hm
      rw [ha] at hm'
      exact ⟨rfl, Or.inr hm'⟩
    · rintro ⟨-, heq | he⟩
      · refine ⟨_, rfl, hempty ?_⟩
        rw [← hfinished, ← Option.some.inj heq]
        rfl
      · exact ⟨_, rfl, hempty he⟩
  · simp

end Retry

/-- A repetition of a published result, at any later time, changes nothing; and it is acknowledged
with the row if and only if, when it is read, the row is still there and holds the artifact
columns of the call: a completion's as long as no source service has cleared them (or if they are
empty anyway), a failure's if staging wrote none. -/
theorem retry_acknowledged_iff {p : Platform} {s0 s1 : RowSystem} {i : ℕ} {ns : String}
    {args : FinishArgs} {next : ComputeScript Reply}
    {t : ComputeTxn} (h : RowReachable p s0)
    (hform : args.artifacts.isSome = args.completed)
    (hcall : s0.calls[i]? = some ⟨.queue (.finishClaimedRequest ns args), .commit next, t⟩)
    (hfirst : s0.step (rowCode p) (.run i) = some s1) :
    ∃ b, rowAt s0 ns args.requestId = some b ∧
      rowAt s1 ns args.requestId = some (finishedRow args b) ∧
      ∀ s2 s3 j c now finalization,
        Run (rowCode p) (fun u _ u' => KeepsId ns args.requestId u u') s1 s2 →
        s1.calls.length ≤ j → s2.calls[j]? = some c →
        c.op = .queue (.finishClaimedRequest ns
          { args with now, finalization }) →
        s2.step (rowCode p) (.run j) = some s3 →
        s3.db = s2.db ∧ ∀ d reply, s3.calls[j]? = some d → d.script = .done reply →
          ((∃ r, reply = .finished (some r) ∧ rowAt s3 ns args.requestId = some r) ↔
            Answers args b (rowAt s2 ns args.requestId)) := by
  obtain ⟨-, hfinishes⟩ := h.good.commits hcall rfl trivial
  obtain ⟨b, hb, hactive, hafter⟩ := hfinishes ns args rfl
  have hstaged : AsStaged b := h.good.inv ns args.requestId b hb hactive
  have hrow : rowAt s1 ns args.requestId = some (finishedRow args b) := by
    cases stepped hfirst with
    | commit hc =>
      cases hc.symm.trans hcall
      exact hafter
    | exec hc => cases hc.symm.trans hcall
    | rollback hc => cases hc.symm.trans hcall
  have hterm := finishedRow_active args b
  have hreach : RowReachable p s1 := h.trans ((Run.refl s0).step hfirst trivial)
  refine ⟨b, hb, hrow, fun s2 s3 j c now finalization hrun hj hc hop hlast => ?_⟩
  set repeated : FinishArgs := { args with now, finalization } with hrep
  have hheld {u : RowSystem} (hu : Run (rowCode p) (fun u _ u' => KeepsId ns args.requestId u u')
      s1 u) : Held ns args.requestId (finishedRow args b) u.db := hreach.later hu hrow hterm
  have hreads : c.Reads (Held ns repeated.requestId (finishedRow args b)) fun db reply =>
      reply = .finished (((db.tenants ns).requests.get repeated.requestId).filter
        (matchesTerminal repeated)) := by
    refine Run.reads (P := fun op => op = .queue (.finishClaimedRequest ns repeated))
      (fun k op hop => ?_) (fun u a u' hu => hheld hu.2.1) hrun.along hj hc hop
    subst hop
    have hreads : (finishClaimedRequest ns repeated).ReadsOnly _ _ :=
      finishClaimedRequest_readsOnly hterm
    exact hreads
  refine ⟨(hreads.step (d := c) (hheld hrun) hc hlast).1, fun d reply hd hdone => ?_⟩
  obtain ⟨hdb, hreply⟩ := hreads.step (hheld hrun) hc hlast
  rw [hreply reply hd hdone,
    show rowAt s3 ns args.requestId = rowAt s2 ns args.requestId by rw [rowAt, hdb, rowAt]]
  refine Iff.trans ?_ (answers_iff hform hstaged (hheld hrun))
  constructor
  · rintro ⟨r, hr, hget⟩
    have hfilter := Option.filter_eq_some_iff.mp (Reply.finished.inj hr)
    exact ⟨r, hfilter.1, hfilter.2⟩
  · rintro ⟨r, hget, hm⟩
    exact ⟨r, congrArg Reply.finished (Option.filter_eq_some_iff.mpr ⟨hget, hm⟩), hget⟩

/-! ## Runs -/

/-- The call is about to commit this result. -/
def publishes (args : FinishArgs) :
    Option (Call RowOp (Db Tables) (Write TableWrite) (Resource TableRow) Reply) → Bool
  | some ⟨.queue (.finishClaimedRequest ns args'), .commit _, _⟩ => ns = "n" && args' = args
  | _ => false

/-- The call repeats the publication of this result. -/
def repeats (args : FinishArgs) :
    Option (Call RowOp (Db Tables) (Write TableWrite) (Resource TableRow) Reply) → Bool
  | some ⟨.queue (.finishClaimedRequest ns args'), _, _⟩ => ns = "n" && args' = args
  | _ => false

/-- Whether the call has returned a request. -/
def acknowledged :
    Option (Call RowOp (Db Tables) (Write TableWrite) (Resource TableRow) Reply) → Option Bool
  | some ⟨_, .done (.finished r), _⟩ => some r.isSome
  | _ => none

/-- The third call publishes a result, and the fourth one repeats it. -/
structure Repetition (args : FinishArgs) (answer : Bool) (s0 s1 s2 s3 : RowSystem) : Prop where
  reachable : RowReachable samplePlatform s0
  publishes : ∃ next t,
    s0.calls[2]? = some ⟨.queue (.finishClaimedRequest "n" args), .commit next, t⟩
  first : s0.step (rowCode samplePlatform) (.run 2) = some s1
  three : s1.calls.length = 3
  run : Run (rowCode samplePlatform) (fun u _ u' => KeepsId "n" args.requestId u u') s1 s2
  row : (rowAt s2 "n" args.requestId).isSome = true
  repeats : ∃ c, s2.calls[3]? = some c ∧ c.op = RowOp.queue (.finishClaimedRequest "n" args)
  last : s2.step (rowCode samplePlatform) (.run 3) = some s3
  answer : ∃ d r, s3.calls[3]? = some d ∧ d.script = Script.done (.finished r) ∧ r.isSome = answer

/-- Stage a request, claim it, publish its result, and repeat that. -/
def repetition (stage : StageArgs) (args : FinishArgs) (answer : Bool) : Bool :=
  ((⟨0, sampleDb, []⟩ : RowSystem).replay (rowCode samplePlatform)
    (Action.spawn (.queue (.stageRequest "n" stage)) :: List.replicate 4 (.run 0) ++
      Action.spawn (.queue (sampleClaim "w" "t")) :: List.replicate 7 (.run 1) ++
      Action.spawn (.queue (.finishClaimedRequest "n" args)) ::
        List.replicate 6 (.run 2))).any fun s0 =>
  publishes args s0.calls[2]? &&
  (s0.step (rowCode samplePlatform) (.run 2)).any fun s1 => decide (s1.calls.length = 3) &&
  (s1.replayWhen (rowCode samplePlatform) (fun u _ => (rowAt u "n" args.requestId).isSome)
    (.spawn (.queue (.finishClaimedRequest "n" args)) :: List.replicate 3 (.run 3))).any fun s2 =>
  (rowAt s2 "n" args.requestId).isSome && repeats args s2.calls[3]? &&
  (s2.step (rowCode samplePlatform) (.run 3)).any fun s3 =>
    decide (acknowledged s3.calls[3]? = some answer)

/-- What the evaluation of such a run shows. -/
theorem exists_of_repetition {stage : StageArgs} {args : FinishArgs} {answer : Bool}
    (h : repetition stage args answer = true) :
    ∃ s0 s1 s2 s3, Repetition args answer s0 s1 s2 s3 := by
  obtain ⟨s0, h0, h⟩ := (Option.any_eq_true _ _).mp h
  obtain ⟨hpublishes, h⟩ := Bool.and_eq_true_iff.mp h
  obtain ⟨s1, h1, h⟩ := (Option.any_eq_true _ _).mp h
  obtain ⟨hthree, h⟩ := Bool.and_eq_true_iff.mp h
  obtain ⟨s2, h2, h⟩ := (Option.any_eq_true _ _).mp h
  obtain ⟨hrow, h⟩ := Bool.and_eq_true_iff.mp h
  obtain ⟨hrow, hrepeats⟩ := Bool.and_eq_true_iff.mp hrow
  obtain ⟨s3, h3, h⟩ := (Option.any_eq_true _ _).mp h
  refine ⟨s0, s1, s2, s3, ⟨0, sampleDb, sampleDb_fresh, .of_replay h0⟩, ?_, h1,
    of_decide_eq_true hthree, (Run.of_replayWhen h2).mono fun u a u' hu hnone => ?_, hrow, ?_, h3,
    ?_⟩
  · unfold publishes at hpublishes
    split at hpublishes
    · next ns args' next t hc =>
      simp only [Bool.and_eq_true, decide_eq_true_eq] at hpublishes
      obtain ⟨rfl, rfl⟩ := hpublishes
      exact ⟨next, t, hc⟩
    · cases hpublishes
  · rw [hnone] at hu
    cases hu
  · unfold repeats at hrepeats
    split at hrepeats
    · next ns args' script t hc =>
      simp only [Bool.and_eq_true, decide_eq_true_eq] at hrepeats
      obtain ⟨rfl, rfl⟩ := hrepeats
      exact ⟨_, hc, rfl⟩
    · cases hrepeats
  · have h := of_decide_eq_true h
    unfold acknowledged at h
    split at h
    · next op r t hd => exact ⟨_, r, hd, rfl, Option.some.inj h⟩
    · cases h

/-- The result of an engine command. -/
def sampleCompletion : FinishArgs :=
  markRequestCompleted "x" ⟨.spawnEngine, 1, "x", .completed, none, .result ""⟩ "w" "t" 1
    (none, none, none) none 1

/-- A repeated completion is acknowledged. -/
theorem retry_acknowledged_completion : ∃ s2 r, rowAt s2 "n" "x" = some r ∧
    ∃ (s3 : RowSystem) (d : Call RowOp (Db Tables) (Write TableWrite) (Resource TableRow) Reply),
      s2.step (rowCode samplePlatform) (.run 3) = some s3 ∧ s3.calls[3]? = some d ∧
        d.script = .done (.finished (some r)) ∧ s3.db = s2.db := by
  obtain ⟨s0, s1, s2, s3, h⟩ := exists_of_repetition
    (show repetition { kind := .spawnEngine
                       command := ⟨[], some (.spawnEngine ⟨.analysisInteractive, .shared, "a"⟩ "")⟩
                       requestId := "x"
                       now := 0
                       wakeId := 0 } sampleCompletion true = true by decide +kernel)
  obtain ⟨next, t, hcall⟩ := h.publishes
  obtain ⟨c, hc, hop⟩ := h.repeats
  obtain ⟨d, reply, hd, hdone, -⟩ := h.answer
  obtain ⟨b, -, -, hall⟩ := retry_acknowledged_iff h.reachable rfl hcall h.first
  obtain ⟨hdb, hiff⟩ := hall s2 s3 3 c _ _ h.run (Nat.le_of_eq h.three) hc hop h.last
  obtain ⟨r, hreply, hrow⟩ := (hiff d _ hd hdone).mpr ⟨h.row, Or.inr rfl⟩
  refine ⟨s2, r, ?_, s3, d, h.last, hd, ?_, hdb⟩
  · rw [rowAt, ← hdb]
    exact hrow
  · rw [hdone, hreply]

/-- The failure of a request that creates a datasource from a file. -/
def sampleFailure : FinishArgs :=
  markRequestFailed "x" "" ⟨.createFileDatasource, 1, "x", .failed, none, .error ""⟩ "w" "t" 1
    none 1

/-- A failure keeps the staged artifact path, and its repetition compares it with none. -/
theorem failure_not_acknowledged :
    ¬ ∀ (args : FinishArgs) (s0 s1 s2 s3 : RowSystem) (answer : Bool),
      Repetition args answer s0 s1 s2 s3 → answer = true := by
  intro h
  obtain ⟨s0, s1, s2, s3, hrun⟩ := exists_of_repetition
    (show repetition { kind := .createFileDatasource
                       command := ⟨[], some (.datasource (some (.createFile "file" "")))⟩
                       requestId := "x"
                       now := 0
                       wakeId := 0 } sampleFailure false = true by decide +kernel)
  cases h _ _ _ _ _ _ hrun

end DataForge.Compute
