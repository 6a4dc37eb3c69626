import DataForge.Builds.Scheduler
import DataForge.Runtime.Coverage

/-!
# Builds and schedules: rows

What a statement of each operation may do to one row, and what follows for the rows a
transaction leaves: terminal jobs and runs are final, a run keeps its schedule and its origin,
lease columns fit the status, and no job deadline moves forward without a wake.
-/

namespace DataForge.Builds

open ReadCommitted DataForge.Runtime

/-- The transaction was granted `r` exclusively. -/
def Granted (h : BuildLocks) (r : Resource TableRow) : Prop :=
  ∃ since, ⟨r, .exclusive, since⟩ ∈ h

section Accessors

variable (db : Db Tables) (ns id : String)

def jobAt : Option BuildJob := (db.tenants ns).jobs.get id

def runAt : Option BuildRun := (db.tenants ns).runs.get id

def scheduleAt : Option Schedule := (db.tenants ns).schedules.get id

def eventAt (key : String × ℕ) : Option BuildEventRow := (db.tenants ns).events.get key

end Accessors

namespace Op

/-- Operations that may settle the claimed job of a build. -/
def finishes (ns : String) : Op → Prop
  | .failBuildJob ns' .. | .finalizeBuildJob ns' _ => ns' = ns
  | _ => False

/-- The exhaustion pass of a namespace. -/
def exhausts (ns : String) : Op → Prop
  | .reconcileExpiredBuildJobs ns' _ => ns' = ns
  | _ => False

/-- Operations that insert a run with its job. -/
def stages (ns : String) : Op → Prop
  | .startBuild ns' _ | .enqueueScheduleRun ns' _ => ns' = ns
  | _ => False

/-- Operations that may start the execution of a run. -/
def marks (ns : String) : Op → Prop
  | .startBuildRun ns' .. | .markBuildRunning ns' .. => ns' = ns
  | _ => False

/-- Operations that append an event to a run, under the execution generation they expect. -/
def emits (ns : String) (expected : Option ℕ) : Op → Prop
  | .appendBuildEvent ns' args => ns' = ns ∧ expected = args.expected
  | .persistBuildEvent ns' claim _ => ns' = ns ∧ expected = some claim.leaseGeneration
  | .failBuildJob ns' claim .. => ns' = ns ∧ expected = some claim.leaseGeneration
  | .cancelBuild ns' _ => ns' = ns ∧ expected = none
  | _ => False

/-- Operations that apply this terminal build to its schedule. -/
def reconciles (ns buildId : String) : Op → Prop
  | .reconcileScheduleRun ns' buildId' _ => ns' = ns ∧ buildId' = buildId
  | .reconcilePendingScheduleRuns ns' .. => ns' = ns
  | _ => False

/-- Operations that append a schedule wake with every change of a schedule. -/
def edits (ns : String) : Op → Prop
  | .createSchedule ns' _ | .updateSchedule ns' _ | .deleteSchedule ns' .. => ns' = ns
  | .markScheduleEnqueueFailed ns' _ => ns' = ns
  | _ => False

/-- Operations that may acknowledge wakes or move the marker of this queue. -/
def acks (ns : String) (kind : RuntimeWorkKind) : Op → Prop
  | .reconcileExpiredBuildJobs ns' _ => ns' = ns ∧ kind = .build
  | .finishScheduleWorkScan ns' _ => ns' = ns ∧ kind = .schedule
  | .otherWork .. => RuntimeWorkKind.ofBuilds kind = false
  | _ => False

variable {op : Op} {ns : String}

theorem marks.not_exhausts (h : op.marks ns) : ¬op.exhausts ns := by
  cases op <;> first | exact id | exact h.elim

theorem emits.unique {expected expected' : Option ℕ} (h : op.emits ns expected)
    (h' : op.emits ns expected') : expected = expected' := by
  cases op <;> first | exact h.2.trans h'.2.symm | exact h.elim

theorem emits.not_exhausts {expected : Option ℕ} (h : op.emits ns expected) :
    ¬op.exhausts ns := by
  cases op <;> first | exact id | exact h.elim

end Op

/-- What one statement of `op` may do to a job row, up to the time `limit`. -/
inductive JobChange (p : Platform) (op : Op) (limit : ℕ) (ns : String) :
    Option BuildJob → Option BuildJob → Prop where
  | stage (buildId now) (hop : op.stages ns) :
      JobChange p op limit ns none (some (stagedJob buildId now))
  | claim (args b now since) (hop : op = .claimNextJob ns args)
      (hb : claimableJob args now b = true) (hnow : now ≤ since) :
      JobChange p op limit ns (some b) (some (claimedJob args b since b))
  | renew (claim b since) (hop : op = .renewJobLease ns claim)
      (hb : activeJobClaim claim since b = true) :
      JobChange p op limit ns (some b) (some (renewedJob p since b))
  | finish (claim status error now b) (hop : op.finishes ns) (hterm : status.isTerminal = true)
      (hb : activeJobClaim claim now b = true) :
      JobChange p op limit ns (some b) (some (finishedJob status error now b))
  | exhaust (now b) (hop : op.exhausts ns) (hnow : now ≤ limit)
      (hb : exhaustedJob now b = true) :
      JobChange p op limit ns (some b) (some (failedJob now b))
  | cancel (args now b) (hop : op = .cancelBuild ns args) (hb : b.status.cancellable = true) :
      JobChange p op limit ns (some b) (some (cancelledJob now b))

/-- The run a new build starts with: of no schedule, or of the schedule whose row the enqueuing
transaction holds. -/
inductive NewRun (i : ℕ) (op : Op) (h : BuildLocks) (ns : String) :
    BuildRun → Prop where
  | manual (args r) (hop : op = .startBuild ns args) (hns : r.ns = ns)
      (hsched : r.scheduleId = none) (horigin : r.origin = none) : NewRun i op h ns (queuedRun r)
  | scheduled (args s target) (hop : op = .enqueueScheduleRun ns args)
      (hrow : Granted h (schedules.row ns args.scheduleId)) :
      NewRun i op h ns (scheduledRun i ns args s target)

/-- What one statement of call `i` of `op` may do to a run row. -/
inductive RunChange (i : ℕ) (op : Op) (h : BuildLocks) (ns : String) :
    Option BuildRun → Option BuildRun → Prop where
  | stage (r) (hnew : NewRun i op h ns r) : RunChange i op h ns none (some r)
  | mark (generation now b) (hop : op.marks ns) (hb : b.status.inflight = true)
      (hgen : b.executionGeneration ≤ generation) :
      RunChange i op h ns (some b) (some { b with
        status := .running
        executionGeneration := generation
        updatedAt := now
        version := b.version + 1 })
  | event (args : EventArgs) (b) (hop : op.emits ns args.expected)
      (hb : b.acceptsEvent args.event args.expected args.authoritative = true) :
      RunChange i op h ns (some b)
        (some (b.afterEvent args.event args.authoritative args.resourceConfigJson))
  | orphan (now b) (hop : op.exhausts ns) (hb : b.status.inflight = true) :
      RunChange i op h ns (some b) (some (orphanedRun now b))

/-- What one statement of `op` may do to a schedule row. -/
inductive ScheduleChange (p : Platform) (op : Op) (ns id : String) :
    Option Schedule → Option Schedule → Prop where
  | create (args) (hop : op = .createSchedule ns args) :
      ScheduleChange p op ns id none (some (newSchedule p args))
  | update (args loaded b) (hop : op = .updateSchedule ns args) :
      ScheduleChange p op ns id (some b) (some (updatedSchedule p args loaded b))
  | delete (wakeId b) (hop : op = .deleteSchedule ns id wakeId) :
      ScheduleChange p op ns id (some b) (some { b with deleted := true })
  | claim (args token b) (hop : op = .claimDueSchedules ns args)
      (hb : b.leaseOwner = none ∨ b.leaseOwner.any (· ∈ args.reclaimable) = true ∨
        b.leaseExpiresAt.any (· ≤ args.now) = true) :
      ScheduleChange p op ns id (some b) (some (claimedSchedule args token b))
  | trigger (args b) (hop : op = .enqueueScheduleRun ns args) (hid : id = args.scheduleId)
      (hb : staleClaim args b = false) :
      ScheduleChange p op ns id (some b) (some (triggeredSchedule args b))
  | fail (args : EnqueueFailedArgs) (b) (hop : op = .markScheduleEnqueueFailed ns args) :
      ScheduleChange p op ns id (some b) (some { b with
        lastFailureAt := some args.now
        leaseOwner := none
        claimToken := none
        leaseExpiresAt := none })
  | reconcile (buildId run now b a) (hop : op.reconciles ns buildId)
      (ha : applyReconciliation p buildId run now b = some a) :
      ScheduleChange p op ns id (some b) (some a)
  | next (args next b) (hop : op = .finishScheduleWorkScan ns args) :
      ScheduleChange p op ns id (some b) (some { b with nextRun := some next })

section Steps

variable (p : Platform) (i : ℕ) (op : Op) (h : BuildLocks) (limit : ℕ)
  (ns id : String)

/-- What a transaction of `op` may do to a job row up to the time `limit`. -/
def JobStep : Option BuildJob → Option BuildJob → Prop :=
  Relation.ReflTransGen (JobChange p op limit ns)

/-- What a transaction of call `i` of `op` under the locks `h` may do to a run row. -/
def RunStep : Option BuildRun → Option BuildRun → Prop :=
  Relation.ReflTransGen (RunChange i op h ns)

/-- What a transaction of `op` may do to a schedule row. -/
def ScheduleStep : Option Schedule → Option Schedule → Prop :=
  Relation.ReflTransGen (ScheduleChange p op ns id)

end Steps

/-- Lease columns are set exactly while a job is active. -/
def LeaseOk (j : BuildJob) : Prop :=
  if j.status.isActive then j.leaseOwner.isSome ∧ j.claimToken.isSome ∧ j.leaseExpiresAt.isSome
  else j.leaseOwner = none ∧ j.claimToken = none ∧ j.leaseExpiresAt = none

/-- The earliest time at which a job is claimable, if its lease is not renewed. -/
def BuildJob.deadline (j : BuildJob) : ℕ∞ :=
  if j.status = .queued then 0
  else if j.status.isActive then
    if j.leaseOwner = none then 0 else j.leaseExpiresAt.elim ⊤ (fun e => (e : ℕ∞))
  else ⊤

/-- Claims as the servers make them: nobody passes owners to reclaim from
(`backend_grpc/server.py:970,1962`). -/
def Op.plain : Op → Prop
  | .claimNextJob _ args => args.reclaimable = []
  | .claimDueSchedules _ args => args.reclaimable = []
  | _ => True

section Jobs

variable {p : Platform} {op : Op} {limit : ℕ} {ns : String} {a b : BuildJob}
  {x y : Option BuildJob}

theorem activeJobClaim_status {claim : BuildClaim} {now : ℕ}
    (h : activeJobClaim claim now b = true) : b.status = .running := by
  simp only [activeJobClaim, Bool.and_eq_true, decide_eq_true_eq] at h
  exact h.1.1.1.1

private theorem JobChange.not_terminal (hs : JobChange p op limit ns (some b) y) :
    b.status.isTerminal = false := by
  cases hs with
  | claim args b now since hop hb hnow =>
    simp only [claimableJob, Bool.and_eq_true, Bool.or_eq_true, decide_eq_true_eq] at hb
    rcases hb.2 with hq | hact
    · rw [hq]; rfl
    · cases hst : b.status <;> simp_all [BuildJobStatus.isActive, BuildJobStatus.isTerminal]
  | renew claim b since hop hb => rw [activeJobClaim_status hb]; rfl
  | finish claim status error now b hop hterm hb => rw [activeJobClaim_status hb]; rfl
  | exhaust now b hop hnow hb =>
    simp only [exhaustedJob, Bool.and_eq_true] at hb
    cases hst : b.status <;> simp_all [BuildJobStatus.isActive, BuildJobStatus.isTerminal]
  | cancel args now b hop hb =>
    cases hst : b.status <;>
      simp_all [BuildJobStatus.cancellable, BuildJobStatus.isActive, BuildJobStatus.isTerminal]

theorem JobStep.stays (hs : JobStep p op limit ns (some b) y) :
    ∃ a, y = some a ∧ a.buildId = b.buildId := by
  induction hs with
  | refl => exact ⟨b, rfl, rfl⟩
  | tail _ hc ih =>
    obtain ⟨c, rfl, hid⟩ := ih
    cases hc <;> exact ⟨_, rfl, hid⟩

theorem JobStep.terminal (hs : JobStep p op limit ns (some b) y) (hb : b.status.isTerminal = true) :
    y = some b := by
  induction hs with
  | refl => rfl
  | tail _ hc ih =>
    subst ih
    rw [hc.not_terminal] at hb
    cases hb

private theorem JobChange.leaseOk (hs : JobChange p op limit ns x (some a))
    (hx : ∀ b, x = some b → LeaseOk b) : LeaseOk a := by
  cases hs with
  | stage => exact ⟨rfl, rfl, rfl⟩
  | claim => exact ⟨rfl, rfl, rfl⟩
  | renew claim b since hop hb =>
    have hl := hx b rfl
    have hact : b.status.isActive = true := by rw [activeJobClaim_status hb]; rfl
    rw [LeaseOk, if_pos hact] at hl
    rw [LeaseOk, if_pos (show (renewedJob p since b).status.isActive = true from hact)]
    exact ⟨hl.1, hl.2.1, rfl⟩
  | finish claim status error now b hop hterm hb =>
    have hact : status.isActive = false := by cases status <;> first | rfl | cases hterm
    rw [LeaseOk, if_neg (by simpa [finishedJob] using hact)]
    exact ⟨rfl, rfl, rfl⟩
  | exhaust => exact ⟨rfl, rfl, rfl⟩
  | cancel => exact ⟨rfl, rfl, rfl⟩

theorem JobStep.leaseOk (hs : JobStep p op limit ns x y) (hx : ∀ b, x = some b → LeaseOk b) :
    ∀ a, y = some a → LeaseOk a := by
  induction hs with
  | refl => exact hx
  | tail _ hc ih =>
    intro a ha
    subst ha
    exact hc.leaseOk ih

theorem deadline_of_terminal (ha : a.status.isTerminal = true) : a.deadline = ⊤ := by
  unfold BuildJob.deadline
  cases hs : a.status <;> simp_all [BuildJobStatus.isActive, BuildJobStatus.isTerminal]

private theorem JobChange.deadline_le (hs : JobChange p op limit ns (some b) (some a))
    (hplain : op.plain) (hl : LeaseOk b) (hrenew : ∀ claim, op = .renewJobLease ns claim → ∀ e e',
      b.leaseExpiresAt = some e → a.leaseExpiresAt = some e' → e ≤ e') :
    b.deadline ≤ a.deadline := by
  cases hs with
  | claim args b now since hop hb hnow =>
    have hnil : args.reclaimable = [] := by rw [hop] at hplain; exact hplain
    have ha : (claimedJob args b since b).deadline = ((since + claimDeliveryLease : ℕ) : ℕ∞) := rfl
    rw [ha, BuildJob.deadline]
    split
    · exact zero_le
    · next hq =>
      split
      · next hact =>
        split
        · exact zero_le
        · next howner =>
          -- an owned job is claimable only once its lease has expired
          rw [LeaseOk, if_pos hact] at hl
          obtain ⟨owner, ho⟩ := Option.isSome_iff_exists.mp hl.1
          obtain ⟨e, he⟩ := Option.isSome_iff_exists.mp hl.2.2
          have hexp : e ≤ now := by
            simp [claimableJob, hq, hnil, ho, he] at hb
            exact hb.2.1.2
          rw [he, Option.elim_some]
          exact ENat.natCast_le_natCast.mpr (by omega)
      · next hact =>
        exfalso
        simp [claimableJob, hq, hact] at hb
  | renew claim b since hop hb =>
    have hst := activeJobClaim_status hb
    rw [LeaseOk, if_pos (by rw [hst]; rfl)] at hl
    obtain ⟨e, he⟩ := Option.isSome_iff_exists.mp hl.2.2
    have hle := hrenew claim hop e _ he rfl
    have hst' : (renewedJob p since b).status = .running := hst
    have ho : (renewedJob p since b).leaseOwner = b.leaseOwner := rfl
    have he' : (renewedJob p since b).leaseExpiresAt =
      some (since + seconds p.runtimeWorkLeaseTtlSeconds) := rfl
    simp only [BuildJob.deadline, hst, hst', ho, he, he', BuildJobStatus.isActive]
    simp only [reduceCtorEq, if_false, if_true]
    split
    · exact zero_le
    · exact ENat.natCast_le_natCast.mpr hle
  | finish claim status error now b hop hterm hb =>
    rw [deadline_of_terminal (a := finishedJob status error now b) hterm]
    exact le_top
  | exhaust now b hop hnow hb =>
    rw [deadline_of_terminal (a := failedJob now b) rfl]
    exact le_top
  | cancel args now b hop hb =>
    rw [deadline_of_terminal (a := cancelledJob now b) rfl]
    exact le_top

private theorem JobStep.renewed {claim : BuildClaim} (hs : JobStep p op limit ns (some b) (some a))
    (hop : op = .renewJobLease ns claim) :
    a = b ∨ (b.status = .running ∧ a.status = .running ∧ a.leaseOwner = b.leaseOwner) := by
  have key : ∀ y, JobStep p op limit ns (some b) y → ∀ c, y = some c →
      c = b ∨ (b.status = .running ∧ c.status = .running ∧ c.leaseOwner = b.leaseOwner) := by
    intro y hy
    induction hy with
    | refl => intro c hc; cases hc; exact Or.inl rfl
    | tail _ hc ih =>
      intro c hy
      subst hy
      cases hc with
      | renew claim' m since hop' hm =>
        have hst := activeJobClaim_status hm
        rcases ih m rfl with rfl | ⟨hb, -, ho⟩
        · exact Or.inr ⟨hst, hst, rfl⟩
        · exact Or.inr ⟨hb, hst, ho⟩
      | stage buildId now hop' => rw [hop] at hop'; exact hop'.elim
      | claim args m now since hop' => rw [hop] at hop'; cases hop'
      | finish claim status error now m hop' => rw [hop] at hop'; exact hop'.elim
      | exhaust now m hop' => rw [hop] at hop'; exact hop'.elim
      | cancel args now m hop' => rw [hop] at hop'; cases hop'
  exact key _ hs a rfl

/-- Claims as the servers make them and renewals that do not shorten a lease never move a
deadline forward. -/
theorem JobStep.deadline_le (hs : JobStep p op limit ns (some b) (some a)) (hplain : op.plain)
    (hl : LeaseOk b) (hrenew : ∀ claim, op = .renewJobLease ns claim → ∀ e e',
      b.leaseExpiresAt = some e → a.leaseExpiresAt = some e' → e ≤ e') :
    b.deadline ≤ a.deadline := by
  by_cases hren : ∃ claim, op = .renewJobLease ns claim
  · obtain ⟨claim, hop⟩ := hren
    rcases hs.renewed hop with rfl | ⟨hb, ha, ho⟩
    · exact le_refl _
    · have hla := hs.leaseOk (fun c hc => by cases hc; exact hl) a rfl
      rw [LeaseOk, if_pos (by rw [hb]; rfl)] at hl
      rw [LeaseOk, if_pos (by rw [ha]; rfl)] at hla
      obtain ⟨e, he⟩ := Option.isSome_iff_exists.mp hl.2.2
      obtain ⟨e', he'⟩ := Option.isSome_iff_exists.mp hla.2.2
      have hle := hrenew claim hop e e' he he'
      simp only [BuildJob.deadline, hb, ha, ho, he, he', BuildJobStatus.isActive]
      simp only [reduceCtorEq, if_false, if_true]
      split
      · exact zero_le
      · exact ENat.natCast_le_natCast.mpr hle
  · have key : ∀ y, JobStep p op limit ns (some b) y → ∀ c, y = some c →
        b.deadline ≤ c.deadline := by
      intro y hy
      induction hy with
      | refl => intro c hc; cases hc; exact le_refl _
      | tail hm hc ih =>
        intro c hy
        subst hy
        obtain ⟨m, rfl, -⟩ := JobStep.stays hm
        have hlm := JobStep.leaseOk hm (fun d hd => by cases hd; exact hl) m rfl
        exact (ih m rfl).trans (hc.deadline_le hplain hlm
          fun claim hop => absurd ⟨claim, hop⟩ hren)
    exact key _ hs a rfl

theorem JobStep.mono {limit' : ℕ} (hl : limit ≤ limit') (hs : JobStep p op limit ns x y) :
    JobStep p op limit' ns x y := by
  refine Relation.ReflTransGen.mono (fun u v hc => ?_) _ _ hs
  cases hc with
  | stage buildId now hop => exact .stage buildId now hop
  | claim args b now since hop hb hnow => exact .claim args b now since hop hb hnow
  | renew claim b since hop hb => exact .renew claim b since hop hb
  | finish claim status error now b hop hterm hb =>
    exact .finish claim status error now b hop hterm hb
  | exhaust now b hop hnow hb => exact .exhaust now b hop (hnow.trans hl) hb
  | cancel args now b hop hb => exact .cancel args now b hop hb

theorem JobStep.exhausted (hs : JobStep p op limit ns (some b) y) (hop : op.exhausts ns)
    (hne : y ≠ some b) : exhaustedJob limit b = true := by
  induction hs with
  | refl => exact absurd rfl hne
  | @tail y z hm hc ih =>
    by_cases hsame : y = some b
    · subst hsame
      cases hc with
      | exhaust now b hop' hnow hb =>
        simp only [exhaustedJob, Bool.and_eq_true] at hb ⊢
        refine ⟨⟨hb.1.1, ?_⟩, hb.2⟩
        cases he : b.leaseExpiresAt with
        | none => simp [he] at hb
        | some e =>
          have hle : e ≤ now := by simpa [he] using hb.1.2
          simpa using hle.trans hnow
      | claim args b now since hop' => rw [hop'] at hop; exact hop.elim
      | renew claim b since hop' => rw [hop'] at hop; exact hop.elim
      | finish claim status error now b hop' =>
        cases op <;> first | exact hop.elim | exact hop'.elim
      | cancel args now b hop' => rw [hop'] at hop; exact hop.elim
    · exact ih hsame

theorem JobStep.stages (hs : JobStep p op limit ns none y) (hy : y ≠ none) : op.stages ns := by
  induction hs with
  | refl => exact absurd rfl hy
  | tail hm hc ih =>
    cases hc with
    | stage buildId now hop => exact hop
    | _ => exact ih (Option.some_ne_none _)

private theorem JobChange.not_stages (hs : JobChange p op limit ns (some b) y) :
    ¬op.stages ns := by
  cases hs with
  | claim args b now since hop => rw [hop]; exact id
  | renew claim b since hop => rw [hop]; exact id
  | finish claim status error now b hop => cases op <;> first | exact id | exact hop.elim
  | exhaust now b hop => cases op <;> first | exact id | exact hop.elim
  | cancel args now b hop => rw [hop]; exact id

theorem JobStep.queued (hs : JobStep p op limit ns none y) :
    ∀ a, y = some a → a.status = .queued := by
  induction hs with
  | refl => intro a ha; cases ha
  | @tail x z hm hc _ =>
    intro a ha
    subst ha
    cases x with
    | none =>
      cases hc with
      | stage buildId now => rfl
    | some b => exact absurd (JobStep.stages hm (Option.some_ne_none _)) hc.not_stages

end Jobs

/-- What no operation changes in a run, and what is final once it is terminal. -/
structure Descends (b a : BuildRun) : Prop where
  ns : a.ns = b.ns
  scheduleId : a.scheduleId = b.scheduleId
  createdAt : a.createdAt = b.createdAt
  origin : a.origin = b.origin
  final : b.status.isTerminal = true → a = { b with nextEventSequence := a.nextEventSequence }
  version : b.version ≤ a.version
  executed : b.executionGeneration ≤ a.executionGeneration
  generation : a.version = b.version → a.executionGeneration = b.executionGeneration
  sequence : b.nextEventSequence ≤ a.nextEventSequence

section Runs

variable {i : ℕ} {op : Op} {h h' : BuildLocks} {ns : String}
  {a b c : BuildRun} {x y : Option BuildRun}

theorem Descends.refl (b : BuildRun) : Descends b b :=
  ⟨rfl, rfl, rfl, rfl, fun _ => rfl, Nat.le_refl _, Nat.le_refl _, fun _ => rfl, Nat.le_refl _⟩

theorem Descends.status (h : Descends b a) (hb : b.status.isTerminal = true) :
    a.status = b.status := by
  rw [h.final hb]

theorem Descends.trans (hb : Descends c b) (ha : Descends b a) : Descends c a where
  ns := ha.ns.trans hb.ns
  scheduleId := ha.scheduleId.trans hb.scheduleId
  createdAt := ha.createdAt.trans hb.createdAt
  origin := ha.origin.trans hb.origin
  final hc := by
    have hfinal := ha.final (by rw [hb.status hc]; exact hc)
    rw [hb.final hc] at hfinal
    exact hfinal
  version := hb.version.trans ha.version
  executed := hb.executed.trans ha.executed
  generation hv := by
    have h1 := hb.version
    have h2 := ha.version
    exact (ha.generation (by omega)).trans (hb.generation (by omega))
  sequence := hb.sequence.trans ha.sequence

theorem inflight_eq_not_terminal (s : BuildRunStatus) : s.inflight = !s.isTerminal := by
  cases s <;> rfl

theorem isTerminal_of_event {body : EventBody} {status : BuildRunStatus}
    (h : body.terminalStatus = some status) : status.isTerminal = true := by
  cases body <;> cases h <;> rfl

private theorem kept_applyRuntimeEvent (r : BuildRun) (body : EventBody) :
    (r.applyRuntimeEvent body).ns = r.ns ∧ (r.applyRuntimeEvent body).scheduleId = r.scheduleId ∧
      (r.applyRuntimeEvent body).createdAt = r.createdAt ∧
      (r.applyRuntimeEvent body).origin = r.origin ∧
      (r.applyRuntimeEvent body).version = r.version ∧
      (r.applyRuntimeEvent body).executionGeneration = r.executionGeneration ∧
      (r.applyRuntimeEvent body).nextEventSequence = r.nextEventSequence := by
  cases body <;> exact ⟨rfl, rfl, rfl, rfl, rfl, rfl, rfl⟩

private theorem kept_applyTerminalEvent (r : BuildRun) (event : BuildEvent) :
    (r.applyTerminalEvent event).ns = r.ns ∧
      (r.applyTerminalEvent event).scheduleId = r.scheduleId ∧
      (r.applyTerminalEvent event).createdAt = r.createdAt ∧
      (r.applyTerminalEvent event).origin = r.origin ∧
      (r.applyTerminalEvent event).version = r.version ∧
      (r.applyTerminalEvent event).executionGeneration = r.executionGeneration ∧
      (r.applyTerminalEvent event).nextEventSequence = r.nextEventSequence := by
  obtain ⟨context, body⟩ := event
  cases body <;> exact ⟨rfl, rfl, rfl, rfl, rfl, rfl, rfl⟩

/-- What an event projects on an open row. -/
theorem kept_project (r : BuildRun) (event : BuildEvent) (authoritative : Option ℕ)
    (config : Option String) : ∃ x : BuildRun,
      r.project event authoritative config =
        { x with updatedAt := event.context.emittedAt, version := r.version + 1 } ∧
      x.ns = r.ns ∧ x.scheduleId = r.scheduleId ∧ x.createdAt = r.createdAt ∧
      x.origin = r.origin ∧
      x.executionGeneration = authoritative.getD r.executionGeneration ∧
      x.nextEventSequence = r.nextEventSequence := by
  let y : BuildRun :=
    { { r with executionGeneration := authoritative.getD r.executionGeneration }.applyEventContext
        event.context with resourceConfigJson := config <|> r.resourceConfigJson }
  obtain ⟨hns, hschedule, hcreated, horigin, hversion, hgeneration, hsequence⟩ :=
    kept_applyRuntimeEvent y event.body
  obtain ⟨hns', hschedule', hcreated', horigin', hversion', hgeneration', hsequence'⟩ :=
    kept_applyTerminalEvent (y.applyRuntimeEvent event.body) event
  refine ⟨(y.applyRuntimeEvent event.body).applyTerminalEvent event, ?_, hns'.trans hns,
    hschedule'.trans hschedule, hcreated'.trans hcreated, horigin'.trans horigin,
    hgeneration'.trans hgeneration, hsequence'.trans hsequence⟩
  rw [show r.version = _ from (hversion'.trans hversion).symm]
  rfl

/-- What an event leaves of the row it is applied to. -/
theorem descends_afterEvent {event : BuildEvent} {expected authoritative : Option ℕ}
    (config : Option String) (h : b.acceptsEvent event expected authoritative = true) :
    Descends b (b.afterEvent event authoritative config) := by
  have hgen : b.executionGeneration ≤ authoritative.getD b.executionGeneration := by
    cases authoritative with
    | none => exact Nat.le_refl _
    | some g =>
      simp only [BuildRun.acceptsEvent, Bool.and_eq_true, Option.all_some, decide_eq_true_eq] at h
      exact h.1.2.le
  unfold BuildRun.afterEvent
  cases ht : b.status.isTerminal with
  | true =>
    rw [if_pos rfl]
    exact ⟨rfl, rfl, rfl, rfl, fun _ => rfl, Nat.le_refl _, Nat.le_refl _, fun _ => rfl,
      Nat.le_succ _⟩
  | false =>
    obtain ⟨x, hx, hns, hschedule, hcreated, horigin, hgeneration, hsequence⟩ :=
      kept_project b event authoritative config
    rw [if_neg Bool.false_ne_true, hx]
    exact ⟨hns, hschedule, hcreated, horigin,
      fun h => absurd (ht.symm.trans h) Bool.false_ne_true, Nat.le_succ _,
      hgen.trans_eq hgeneration.symm, fun h => absurd h (Nat.succ_ne_self _),
      hsequence ▸ Nat.le_succ _⟩

theorem RunChange.descends (hs : RunChange i op h ns (some b) y) :
    ∃ a, y = some a ∧ Descends b a := by
  cases hs with
  | mark generation now b hop hb hgen =>
    rw [inflight_eq_not_terminal, Bool.not_eq_true'] at hb
    exact ⟨_, rfl, rfl, rfl, rfl, rfl, fun h => absurd (hb.symm.trans h) Bool.false_ne_true,
      Nat.le_succ _, hgen, fun h => absurd h (Nat.succ_ne_self _), Nat.le_refl _⟩
  | event args b hop hb => exact ⟨_, rfl, descends_afterEvent _ hb⟩
  | orphan now b hop hb =>
    rw [inflight_eq_not_terminal, Bool.not_eq_true'] at hb
    exact ⟨_, rfl, rfl, rfl, rfl, rfl, fun h => absurd (hb.symm.trans h) Bool.false_ne_true,
      Nat.le_refl _, Nat.le_refl _, fun _ => rfl, Nat.le_refl _⟩

theorem RunStep.descends (hs : RunStep i op h ns (some b) y) : ∃ a, y = some a ∧ Descends b a := by
  induction hs with
  | refl => exact ⟨b, rfl, .refl b⟩
  | tail _ hc ih =>
    obtain ⟨c, rfl, hd⟩ := ih
    obtain ⟨a, rfl, hd'⟩ := hc.descends
    exact ⟨a, rfl, hd.trans hd'⟩

theorem RunStep.staged (hs : RunStep i op h ns none (some a)) :
    ∃ r, NewRun i op h ns r ∧ Descends r a := by
  have key : ∀ y, RunStep i op h ns none y → ∀ c, y = some c →
      ∃ r, NewRun i op h ns r ∧ Descends r c := by
    intro y hy
    induction hy with
    | refl => intro c hc; cases hc
    | @tail y z hm hc ih =>
      intro c hz
      subst hz
      cases y with
      | none =>
        cases hc with
        | stage r hnew => exact ⟨_, hnew, .refl _⟩
      | some m =>
        obtain ⟨r, hnew, hd⟩ := ih m rfl
        obtain ⟨a', ha', hd'⟩ := hc.descends
        cases ha'
        exact ⟨r, hnew, hd.trans hd'⟩
  exact key _ hs a rfl

theorem NewRun.mono {r : BuildRun} (hh : h ⊆ h') (hs : NewRun i op h ns r) :
    NewRun i op h' ns r := by
  cases hs with
  | manual args r hop hns hsched horigin => exact .manual args r hop hns hsched horigin
  | scheduled args s target hop hrow =>
    obtain ⟨since, hm⟩ := hrow
    exact .scheduled args s target hop ⟨since, hh hm⟩

theorem RunStep.spares (hs : RunStep i op h ns x (some a)) (hop : op.exhausts ns)
    (ha : a.status = .completed ∨ a.status = .cancelled) : x = some a := by
  have key : ∀ y, RunStep i op h ns x y → ∀ c, y = some c →
      c.status = .completed ∨ c.status = .cancelled → x = some c := by
    intro y hy
    induction hy with
    | refl => exact fun c hc _ => hc
    | tail _ hc ih =>
      intro c hy hst
      subst hy
      cases hc with
      | stage r hnew =>
        cases hnew with
        | manual args r hop' => rw [hop'] at hop; exact hop.elim
        | scheduled args s target hop' => rw [hop'] at hop; exact hop.elim
      | mark generation now b hop' => exact (hop'.not_exhausts hop).elim
      | event args b hop' => exact (hop'.not_exhausts hop).elim
      | orphan now b hop' hb => rcases hst with hst | hst <;> cases hst
  exact key _ hs a rfl ha

theorem RunStep.reconciled {buildId : String} (hs : RunStep i op h ns x y)
    (hop : op.reconciles ns buildId) : y = x := by
  induction hs with
  | refl => rfl
  | tail _ hc ih =>
    rw [← ih]
    cases hc with
    | stage r hnew =>
      cases hnew with
      | manual args r hop' => rw [hop'] at hop; exact hop.elim
      | scheduled args s target hop' => rw [hop'] at hop; exact hop.elim
    | mark generation now b hop' => cases op <;> first | exact hop.elim | exact hop'.elim
    | event args b hop' => cases op <;> first | exact hop.elim | exact hop'.elim
    | orphan now b hop' => cases op <;> first | exact hop.elim | exact hop'.elim

theorem NewRun.ns_eq {r : BuildRun} (hs : NewRun i op h ns r) : r.ns = ns := by
  cases hs with
  | manual args r hop hns hsched horigin => exact hns
  | scheduled args s target hop hrow => rfl

theorem NewRun.sequence {r : BuildRun} (hs : NewRun i op h ns r) : r.nextEventSequence = 1 := by
  cases hs <;> rfl

theorem RunStep.ns_eq (hs : RunStep i op h ns x (some a)) (hx : ∀ b, x = some b → b.ns = ns) :
    a.ns = ns := by
  cases x with
  | none =>
    obtain ⟨r, hnew, hd⟩ := hs.staged
    exact hd.ns.trans hnew.ns_eq
  | some b =>
    obtain ⟨a', ha', hd⟩ := hs.descends
    cases ha'
    exact hd.ns.trans (hx b rfl)

theorem RunStep.mono (hh : h ⊆ h') (hs : RunStep i op h ns x y) : RunStep i op h' ns x y := by
  refine Relation.ReflTransGen.mono (fun u v hc => ?_) _ _ hs
  cases hc with
  | stage r hnew => exact .stage r (hnew.mono hh)
  | mark generation now b hop hb hgen => exact .mark generation now b hop hb hgen
  | event args b hop hb => exact .event args b hop hb
  | orphan now b hop hb => exact .orphan now b hop hb

theorem NewRun.ofSchedule {r : BuildRun} {id : String} (hs : NewRun i op h ns r)
    (hid : r.scheduleId = some id) : ∃ args, op = .enqueueScheduleRun ns args ∧
      id = args.scheduleId ∧ Granted h (schedules.row ns id) ∧ r.status = .queued ∧
      r.createdAt = args.stamp ∧ r.origin = some ⟨i, args.leaseGeneration⟩ := by
  cases hs with
  | manual args r hop hns hsched horigin =>
    rw [show (queuedRun r).scheduleId = r.scheduleId from rfl, hsched] at hid
    cases hid
  | scheduled args s target hop hrow =>
    cases hid
    exact ⟨args, hop, rfl, hrow, rfl, rfl, rfl⟩

end Runs

section Schedules

variable {p : Platform} {op : Op} {ns id : String} {a b : Schedule} {x y : Option Schedule}

/-- What the reconciliation changes: the lease and the outcome columns. -/
theorem applyReconciliation_spec {buildId : String} {run : BuildRun} {now : ℕ}
    (h : applyReconciliation p buildId run now b = some a) :
    a.leaseOwner = none ∧ a.claimToken = none ∧ a.leaseExpiresAt = none ∧
      a.leaseGeneration = b.leaseGeneration ∧ a.lastTriggeredAt = b.lastTriggeredAt ∧
      a.deleted = b.deleted ∧ b.lastTriggeredAt.all (· ≤ run.createdAt) = true ∧
      a.releasedBy = if b.leaseOwner = none then b.releasedBy else some buildId := by
  unfold applyReconciliation at h
  split at h
  · cases h
  · next htrig =>
    have hall : b.lastTriggeredAt.all (· ≤ run.createdAt) = true := by
      cases hb : b.lastTriggeredAt with
      | none => rfl
      | some t => simpa [hb] using htrig
    split at h
    · cases h
    · cases h
      by_cases hst : run.status = .completed
      · simp only [reconciledSchedule, if_pos hst]
        exact ⟨trivial, trivial, trivial, trivial, trivial, trivial, hall, trivial⟩
      · simp only [reconciledSchedule, if_neg hst]
        exact ⟨trivial, trivial, trivial, trivial, trivial, trivial, hall, trivial⟩

private theorem ScheduleChange.stays (hs : ScheduleChange p op ns id (some b) y) :
    ∃ a, y = some a ∧ b.leaseGeneration ≤ a.leaseGeneration := by
  cases hs with
  | claim args token b hop hb => exact ⟨_, rfl, Nat.le_succ _⟩
  | reconcile buildId run now b a hop ha =>
    exact ⟨a, rfl, (applyReconciliation_spec ha).2.2.2.1.ge⟩
  | _ => exact ⟨_, rfl, Nat.le_refl _⟩

theorem ScheduleStep.stays (hs : ScheduleStep p op ns id (some b) y) :
    ∃ a, y = some a ∧ b.leaseGeneration ≤ a.leaseGeneration := by
  induction hs with
  | refl => exact ⟨b, rfl, Nat.le_refl _⟩
  | tail _ hc ih =>
    obtain ⟨c, rfl, hle⟩ := ih
    obtain ⟨a, rfl, hle'⟩ := hc.stays
    exact ⟨a, rfl, hle.trans hle'⟩

private theorem ScheduleChange.triggered (hs : ScheduleChange p op ns id x (some a))
    (hop : ∀ args, op = .enqueueScheduleRun ns args → id ≠ args.scheduleId) :
    (∃ b, x = some b ∧ a.lastTriggeredAt = b.lastTriggeredAt) ∨
      (x = none ∧ a.lastTriggeredAt = none) := by
  cases hs with
  | create => exact Or.inr ⟨rfl, rfl⟩
  | trigger args b hop' hid hb => exact absurd hid (hop args hop')
  | reconcile buildId run now b a hop' ha =>
    exact Or.inl ⟨b, rfl, (applyReconciliation_spec ha).2.2.2.2.1⟩
  | update args loaded b => exact Or.inl ⟨b, rfl, rfl⟩
  | delete wakeId b => exact Or.inl ⟨b, rfl, rfl⟩
  | claim args token b => exact Or.inl ⟨b, rfl, rfl⟩
  | fail args b => exact Or.inl ⟨b, rfl, rfl⟩
  | next args next b => exact Or.inl ⟨b, rfl, rfl⟩

theorem ScheduleStep.triggered (hs : ScheduleStep p op ns id (some b) (some a))
    (hop : ∀ args, op = .enqueueScheduleRun ns args → id ≠ args.scheduleId) :
    a.lastTriggeredAt = b.lastTriggeredAt := by
  have key : ∀ y, ScheduleStep p op ns id (some b) y → ∀ c, y = some c →
      c.lastTriggeredAt = b.lastTriggeredAt := by
    intro y hy
    induction hy with
    | refl => intro c hc; cases hc; rfl
    | tail hm hc ih =>
      intro c hy
      subst hy
      obtain ⟨m, rfl, -⟩ := ScheduleStep.stays hm
      rcases hc.triggered hop with ⟨m', hm', heq⟩ | ⟨hnone, -⟩
      · cases hm'
        exact heq.trans (ih m rfl)
      · cases hnone
  exact key _ hs a rfl

/-- A claim forgets who released the schedule; nothing else moves its generation. -/
theorem ScheduleStep.generation (hs : ScheduleStep p op ns id (some b) (some a)) :
    a.releasedBy = none ∨ a.leaseGeneration = b.leaseGeneration := by
  have key : ∀ y, ScheduleStep p op ns id (some b) y → ∀ c, y = some c →
      (c.releasedBy = none ∧ ∃ args, op = .claimDueSchedules ns args) ∨
        c.leaseGeneration = b.leaseGeneration := by
    intro y hy
    induction hy with
    | refl => intro c hc; cases hc; exact Or.inr rfl
    | tail hm hc ih =>
      intro c hy
      subst hy
      obtain ⟨m, rfl, -⟩ := ScheduleStep.stays hm
      -- an operation that claims does nothing else to the row
      have other (hne : ∀ args, op ≠ .claimDueSchedules ns args)
          (hgen : c.leaseGeneration = m.leaseGeneration) :
          (c.releasedBy = none ∧ ∃ args, op = .claimDueSchedules ns args) ∨
            c.leaseGeneration = b.leaseGeneration := by
        rcases ih m rfl with ⟨-, args, hop⟩ | hm'
        · exact absurd hop (hne args)
        · exact Or.inr (hgen.trans hm')
      cases hc with
      | claim args token m hop hb => exact Or.inl ⟨rfl, args, hop⟩
      | update args loaded m hop => exact other (fun _ he => by rw [hop] at he; cases he) rfl
      | delete wakeId m hop => exact other (fun _ he => by rw [hop] at he; cases he) rfl
      | trigger args m hop => exact other (fun _ he => by rw [hop] at he; cases he) rfl
      | fail args m hop => exact other (fun _ he => by rw [hop] at he; cases he) rfl
      | reconcile buildId run now m c hop hc =>
        exact other (fun _ he => by rw [he] at hop; exact hop) (applyReconciliation_spec hc).2.2.2.1
      | next args next m hop => exact other (fun _ he => by rw [hop] at he; cases he) rfl
  exact (key _ hs a rfl).imp_left And.left

/-- What a reconciling transaction leaves of a schedule: if it clears a lease, the row says for
which build. -/
theorem ScheduleStep.reconciled {buildId : String}
    (hs : ScheduleStep p op ns id (some b) (some a)) (hop : op.reconciles ns buildId) :
    a.leaseGeneration = b.leaseGeneration ∧ a.lastTriggeredAt = b.lastTriggeredAt ∧
      (a = b ∨ (a.leaseOwner = none ∧
        if b.leaseOwner = none then a.releasedBy = b.releasedBy else a.releasedBy ≠ none)) := by
  have key : ∀ y, ScheduleStep p op ns id (some b) y → ∀ c, y = some c →
      c.leaseGeneration = b.leaseGeneration ∧ c.lastTriggeredAt = b.lastTriggeredAt ∧
        (c = b ∨ (c.leaseOwner = none ∧
          if b.leaseOwner = none then c.releasedBy = b.releasedBy else c.releasedBy ≠ none)) := by
    intro y hy
    induction hy with
    | refl => intro c hc; cases hc; exact ⟨rfl, rfl, Or.inl rfl⟩
    | tail hm hc ih =>
      intro c hy
      subst hy
      obtain ⟨m, rfl, -⟩ := ScheduleStep.stays hm
      obtain ⟨hgen, htrig, hcase⟩ := ih m rfl
      cases hc with
      | reconcile buildId run now m c hop' hc =>
        obtain ⟨ho, -, -, hg, ht, -, -, hr⟩ := applyReconciliation_spec hc
        refine ⟨hg.trans hgen, ht.trans htrig, Or.inr ⟨ho, ?_⟩⟩
        rcases hcase with rfl | ⟨hmo, hmr⟩
        · split
          · next hown => rw [hr, if_pos hown]
          · next hown =>
            rw [hr, if_neg hown]
            exact Option.some_ne_none _
        · rw [hr, if_pos hmo]
          exact hmr
      | update args loaded m hop' => rw [hop'] at hop; exact hop.elim
      | delete wakeId m hop' => rw [hop'] at hop; exact hop.elim
      | claim args token m hop' => rw [hop'] at hop; exact hop.elim
      | trigger args m hop' => rw [hop'] at hop; exact hop.elim
      | fail args m hop' => rw [hop'] at hop; exact hop.elim
      | next args next m hop' => rw [hop'] at hop; exact hop.elim
  exact key _ hs a rfl

end Schedules
end DataForge.Builds
