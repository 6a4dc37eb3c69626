import DataForge.Builds.Rows

/-!
# Builds and schedules: protocol

What a commit of each operation may do to the committed state: row by row, and across rows.
A new job has a run and a wake, a job settles with its run, a scheduled run that ends and every
edit of a schedule leave a schedule wake, and an enqueue happens under the current claim of a
schedule that has nothing in flight.
-/

namespace DataForge.Builds

open ReadCommitted DataForge.Runtime

/-- A wake of this kind under a new id. -/
def NewWake (a b : Db Tables) (ns : String) (kind : RuntimeWorkKind) : Prop :=
  ∃ id, a.work.wakes.get id = none ∧ b.work.Live ns kind id

/-- The job status is the one `_terminal_outcome` assigns to the run. -/
def Agrees (status : BuildJobStatus) (r : BuildRun) : Prop :=
  (terminalOutcome r.status r.errorMessage).map Prod.fst = some status

/-- The sequence the next event of a build takes. -/
def nextSequence (db : Db Tables) (ns id : String) : ℕ :=
  (runAt db ns id).elim 1 BuildRun.nextEventSequence

/-- What is added to the log of a build: the sequences its run has handed out, and no terminal
event but that of the status the run has. -/
structure Logged (ns id : String) (a b : Db Tables) : Prop where
  kept : ∀ n e, eventAt a ns (id, n) = some e → eventAt b ns (id, n) = some e
  added : ∀ n, eventAt a ns (id, n) = none → (eventAt b ns (id, n) ≠ none ↔
    nextSequence a ns id ≤ n ∧ n < nextSequence b ns id)
  terminal : ∀ n e status, eventAt a ns (id, n) = none → eventAt b ns (id, n) = some e →
    e.event.body.terminalStatus = some status → ∃ r, runAt b ns id = some r ∧ r.status = status

/-- What happens to several rows in one transaction. -/
structure Joint (op : Op) (a b : Db Tables) : Prop where
  owned : ∀ ns id j, jobAt a ns id = none → jobAt b ns id = some j →
    runAt b ns j.buildId ≠ none
  woken : ∀ ns id, jobAt a ns id = none → jobAt b ns id ≠ none → NewWake a b ns .build
  settled : ∀ ns id x j, jobAt a ns id = some x → x.status.isTerminal = false →
    jobAt b ns id = some j → j.status.isTerminal = true →
    ∃ r, runAt b ns j.buildId = some r ∧ r.status.isTerminal = true ∧ (Agrees j.status r ∨
      (op.exhausts ns ∧ (r.status = .completed ∨ r.status = .cancelled)))
  alarmed : ∀ ns id x r, runAt a ns id = some x → x.status.isTerminal = false →
    x.scheduleId ≠ none → runAt b ns id = some r → r.status.isTerminal = true →
    NewWake a b x.ns .schedule
  edited : ∀ ns id, op.edits ns → scheduleAt b ns id ≠ scheduleAt a ns id →
    NewWake a b ns .schedule
  logged : ∀ ns id, Logged ns id a b
  released : ∀ ns id s x, scheduleAt b ns id = some s → s.releasedBy = some x →
    (∃ s0, scheduleAt a ns id = some s0 ∧ s0.releasedBy = some x) ∨
      (op.reconciles ns x ∧ ∃ r, runAt b ns x = some r ∧ r.status.isTerminal = true ∧
        r.scheduleId = some id ∧ s.lastTriggeredAt.all (· ≤ r.createdAt) = true)

/-- What the commit of an enqueue rests on and leaves: the presented claim is the current one
and has not expired, nothing of the schedule was in flight, and something is now. -/
structure Enqueued (ns : String) (args : EnqueueArgs) (s : Schedule) (a b : Db Tables) :
    Prop where
  before : scheduleAt a ns args.scheduleId = some s
  live : s.deleted = false
  current : staleClaim args s = false
  idle : ∀ id r, runAt a ns id = some r → r.scheduleId = some args.scheduleId →
    r.status.isTerminal = true
  after : scheduleAt b ns args.scheduleId = some (triggeredSchedule args s)
  inflight : ∃ id r, runAt b ns id = some r ∧ r.scheduleId = some args.scheduleId ∧
    r.status.inflight = true

theorem buildWork_le (now : ℕ) (db : Tables) (id : String) :
    alarmOf (buildWorkPending now db) (buildWorkDue now db) ≤
      (db.jobs.get id).elim ⊤ BuildJob.deadline := by
  cases hj : db.jobs.get id with
  | none => exact le_top
  | some j =>
    have hmem := (Table.mem_rows_iff _ _ _).mpr hj
    by_cases hp : buildWorkPending now db = true
    · rw [alarmOf, hp, if_pos rfl]
      exact zero_le
    · have hnot : ¬(j.status = .queued ∨ (j.status.isActive = true ∧
          (j.leaseOwner = none ∨ j.leaseExpiresAt.any (· ≤ now) = true))) := by
        intro hc
        apply hp
        rw [buildWorkPending, List.any_eq_true]
        exact ⟨(id, j), hmem, by simpa using hc⟩
      rw [alarmOf, if_neg hp, Option.elim_some, BuildJob.deadline]
      split
      · next hs => exact absurd (Or.inl hs) hnot
      · split
        · next hact =>
          have howner : j.leaseOwner ≠ none := fun ho => hnot (Or.inr ⟨hact, Or.inl ho⟩)
          rw [if_neg howner]
          cases he : j.leaseExpiresAt with
          | none => exact le_top
          | some e =>
            have hlt : now < e := by
              by_contra hle
              exact hnot (Or.inr ⟨hact, Or.inr (by simp [he]; omega)⟩)
            have hin : e ∈ db.jobs.rows.filterMap fun j =>
                if j.2.status.isActive then j.2.leaseExpiresAt.filter (now < ·) else none :=
              List.mem_filterMap.mpr ⟨(id, j), hmem, by simp [hact, he, hlt]⟩
            obtain ⟨m, hm⟩ := Option.isSome_iff_exists.mp (List.isSome_min?_of_mem hin)
            rw [buildWorkDue, hm]
            exact ENat.natCast_le_natCast.mpr ((List.min?_eq_some_iff.mp hm).2 e hin)
        · exact le_top

/-- The build queue, as the wake service sees it. -/
def queue : Queue Tables TableWrite TableRow where
  Row := String
  resource := .job
  deadline db id := (db.jobs.get id).elim ⊤ BuildJob.deadline
  pending := buildWorkPending
  due := buildWorkDue
  deadline_same {a b id} h := by rw [show a.jobs.get id = b.jobs.get id from h]
  snapshot_le := buildWork_le

/-- The marker of this queue is as it was, and none of its wakes is gone. -/
def Still (ns : String) (kind : RuntimeWorkKind) (a b : Db Tables) : Prop :=
  b.work.markers.get (ns, kind) = a.work.markers.get (ns, kind) ∧
    ∀ id, a.work.Live ns kind id → b.work.Live ns kind id

/-- What a commit of call `i` of `op` may do. The refresh of an exhaustion pass is good for
something if callers keep the promise `renews` about renewals. -/
structure Act (p : Platform) (renews : Prop) (i : ℕ) (op : Op)
    (h : BuildLocks) (w : BuildWorld) (db : Db Tables) : Prop where
  job : ∀ ns id, JobStep p op w.now ns (jobAt w.db ns id) (jobAt db ns id)
  run : ∀ ns id, RunStep i op h ns (runAt w.db ns id) (runAt db ns id)
  schedule : ∀ ns id, ScheduleStep p op ns id (scheduleAt w.db ns id) (scheduleAt db ns id)
  datasource : ∀ ns id, (db.tenants ns).datasources.get id = (w.db.tenants ns).datasources.get id ∨
    ∃ args, op = .startBuild ns args
  joint : Joint op w.db db
  enqueued : ∀ ns args, op = .enqueueScheduleRun ns args → ∃ s, Enqueued ns args s w.db db
  issued : ∀ id, w.db.work.wakes.get id ≠ none → db.work.wakes.get id ≠ none
  still : ∀ ns kind, RuntimeWorkKind.ofBuilds kind = true → ¬op.acks ns kind →
    Still ns kind w.db db
  refreshed : renews → ∀ ns, op.exhausts ns →
    Still ns .build w.db db ∨ Refreshed queue ns .build w.db db

/-- What the operations rely on: lease columns fit, every job has its run, and every run is in
its namespace. -/
structure Inv (w : BuildWorld) : Prop where
  lease : ∀ ns id j, jobAt w.db ns id = some j → LeaseOk j
  owned : ∀ ns id j, jobAt w.db ns id = some j → runAt w.db ns j.buildId ≠ none
  home : ∀ ns id r, runAt w.db ns id = some r → r.ns = ns

/-- A renewal never sets an earlier expiry. -/
def NoShorterLease (op : Op) (w : BuildWorld) (db : Db Tables) : Prop :=
  ∀ ns claim, op = .renewJobLease ns claim → ∀ id b a e e', jobAt w.db ns id = some b →
    jobAt db ns id = some a → b.leaseExpiresAt = some e → a.leaseExpiresAt = some e' → e ≤ e'

section Acts

variable {p : Platform} {renews : Prop} {i : ℕ} {op : Op} {h : BuildLocks}
  {w : BuildWorld} {db : Db Tables}

theorem Act.run_descends (ha : Act p renews i op h w db) {ns id : String} {r : BuildRun}
    (hr : runAt w.db ns id = some r) : ∃ r', runAt db ns id = some r' ∧ Descends r r' := by
  have hs := ha.run ns id
  rw [hr] at hs
  exact hs.descends

theorem Act.inv (hw : Inv w) (ha : Act p renews i op h w db) : Inv ⟨w.now, db⟩ where
  lease ns id j hj := (ha.job ns id).leaseOk (hw.lease ns id) j hj
  owned ns id j hj := by
    cases hx : jobAt w.db ns id with
    | none => exact ha.joint.owned ns id j hx hj
    | some x =>
      have hs := ha.job ns id
      rw [hx] at hs
      obtain ⟨j', hj', hid⟩ := hs.stays
      replace hj : jobAt db ns id = some j := hj
      rw [hj] at hj'
      cases hj'
      obtain ⟨r, hr⟩ := Option.ne_none_iff_exists'.mp (hw.owned ns id x hx)
      obtain ⟨r', hr', -⟩ := ha.run_descends hr
      change runAt db ns j.buildId ≠ none
      rw [hid, hr']
      exact Option.some_ne_none _
  home ns id r hr := by
    have hs := ha.run ns id
    rw [show runAt db ns id = some r from hr] at hs
    exact hs.ns_eq (hw.home ns id)

/-- Under the promise about renewals a deadline moves forward only with a new wake. -/
theorem Act.work (ha : Act p renews i op h w db) (hC : renews) (hplain : op.plain) (hw : Inv w)
    (hcond : NoShorterLease op w db) (ns : String) :
    Quiet queue ns .build w.db db ∨ Refreshed queue ns .build w.db db := by
  have hdeadline (id : String) : queue.deadline (w.db.tenants ns) id ≤
      queue.deadline (db.tenants ns) id ∨ NewWake w.db db ns .build := by
    have hs := ha.job ns id
    change (jobAt w.db ns id).elim ⊤ BuildJob.deadline ≤
      (jobAt db ns id).elim ⊤ BuildJob.deadline ∨ _
    cases hx : jobAt w.db ns id with
    | none =>
      by_cases hy : jobAt db ns id = none
      · exact Or.inl (by rw [hy])
      · exact Or.inr (ha.joint.woken ns id hx hy)
    | some b =>
      rw [hx] at hs
      obtain ⟨a, ha', -⟩ := hs.stays
      rw [ha'] at hs ⊢
      exact Or.inl (hs.deadline_le hplain (hw.lease ns id b hx) fun claim hop e e' he he' =>
        hcond ns claim hop id b a e e' hx ha' he he')
  have quiet (hstill : Still ns .build w.db db) : Quiet queue ns .build w.db db :=
    ⟨hstill.1, hstill.2, hdeadline⟩
  by_cases hex : op.exhausts ns
  · exact (ha.refreshed hC ns hex).imp_left quiet
  · refine Or.inl (quiet (ha.still ns .build rfl fun hack => ?_))
    cases op with
    | reconcileExpiredBuildJobs ns' wakeId => exact hex hack.1
    | finishScheduleWorkScan ns' args => cases hack.2
    | otherWork wakes markers => cases hack
    | _ => exact hack

/-- The protocol of builds and schedules. -/
def protocol (p : Platform) (renews : Prop) :
    Protocol Op (Db Tables) (Write TableWrite) (Resource TableRow) where
  visited _ _ _ := True
  calls op := renews → op.plain
  inv := Inv
  act := Act p renews
  cond op w db := renews → NoShorterLease op w db
  inv_tick h _ := ⟨h.lease, h.owned, h.home⟩
  inv_act _ hw _ ha := ha.inv hw

theorem keeps (p : Platform) (renews : Prop) : Keeps (protocol p renews) queue .build renews where
  issued hc := hc.act.issued
  step hC hc := hc.act.work hC (hc.calls hC) hc.inv (hc.cond hC)

end Acts
end DataForge.Builds
