import DataForge.Builds.Safety
import DataForge.Compute.Safety

/-!
# No lost wake in either queue

Compute requests and build jobs share the work tables, and both queues stay covered: whenever a
row is claimable, `list_pending_namespaces` returns its namespace. Callers promise that they
reclaim from nobody and that a renewal never sets an earlier expiry.
-/

namespace DataForge

open ReadCommitted DataForge.Runtime

namespace Compute

/-- The promises of the callers about one step. -/
structure Promised (s : ComputeSystem) (a : Action Op) (s' : ComputeSystem) : Prop where
  plain : ∀ op, a = .spawn op → op.plain
  renewal : ∀ i c next, a = .run i → s.calls[i]? = some c → c.script = .commit next →
    NoShorterLease c.op s.world s'.db

/-- A request that a worker may claim at time `t`. -/
def ComputeRequest.Claimable (t : ℕ) (r : ComputeRequest) : Prop :=
  r.status = .queued ∨ (r.status = .running ∧ ∃ e, r.leaseExpiresAt = some e ∧ e ≤ t)

theorem ComputeRequest.Claimable.deadline_le {t : ℕ} {r : ComputeRequest} (h : r.Claimable t) :
    r.deadline ≤ t := by
  unfold ComputeRequest.deadline
  rcases h with hq | ⟨hr, e, he, hle⟩
  · rw [hq]
    exact zero_le
  · rw [hr, he]
    dsimp only
    split
    · exact zero_le
    · exact ENat.natCast_le_natCast.mpr hle

/-- The promises, as the protocol asks for them. -/
def promisedSetting : Setting := ⟨True, fun _ _ => True⟩

theorem Promised.admits {p : Platform} {s s' : ComputeSystem} {a : Action Op}
    (h : Promised s a s') : (protocol p promisedSetting).Admits s a s' :=
  ⟨fun op hop _ => h.plain op hop, fun i c next ha hc hs _ => h.renewal i c next ha hc hs,
    fun _ _ _ _ _ _ _ => trivial⟩

theorem covered {p : Platform} {now : ℕ} {db : Db Tables} {s : ComputeSystem} (hf : Fresh db)
    (hr : Run (code p) Promised ⟨now, db, []⟩ s) (ns : String) : Covered queue ns .compute s.db :=
  ((Good.start (hf.inv p promisedSetting now)).run (verified p promisedSetting)
    (hr.mono fun _ _ _ h => h.admits)).inv.covered trivial ns

/-- Operations that keep the promises by themselves: plain claims and no renewals. -/
def Op.calm : Op → Bool
  | .claimNextRequest _ args => args.reclaimable = []
  | .renewRequestLeases .. => false
  | _ => true

theorem promised_of_calm {s s' : ComputeSystem} {a : Action Op}
    (h : a.spawns Op.calm = true ∧ ∀ c ∈ s.calls, c.op.calm = true) : Promised s a s' where
  plain op ha := by
    have hcalm := h.1
    rw [ha] at hcalm
    cases op with
    | claimNextRequest ns args => exact of_decide_eq_true (p := args.reclaimable = []) hcalm
    | _ => trivial
  renewal i c next _ hc _ ns claims workerId hop := by
    have hcalm := h.2 c (List.mem_of_getElem? hc)
    rw [hop] at hcalm
    cases hcalm

theorem run_of_replay {p : Platform} {now : ℕ} {db : Db Tables} {s : ComputeSystem}
    {actions : List (Action Op)} (h : System.replay (code p) ⟨now, db, []⟩ actions = some s)
    (ha : actions.all (Action.spawns Op.calm) = true) : Run (code p) Promised ⟨now, db, []⟩ s :=
  (Run.of_replay_spawns Op.calm h ha fun _ hc => by cases hc).mono
    fun _ _ _ hcalm => promised_of_calm hcalm

end Compute

namespace Builds

/-- The promises of the callers about one step. -/
structure Promised (s : BuildSystem) (a : Action Op) (s' : BuildSystem) : Prop where
  plain : ∀ op, a = .spawn op → op.plain
  renewal : ∀ i c next, a = .run i → s.calls[i]? = some c → c.script = .commit next →
    NoShorterLease c.op s.world s'.db

/-- A job that a worker may claim at time `t`. -/
def BuildJob.Claimable (t : ℕ) (j : BuildJob) : Prop :=
  j.status = .queued ∨ (j.status.isActive = true ∧ ∃ e, j.leaseExpiresAt = some e ∧ e ≤ t)

theorem BuildJob.Claimable.deadline_le {t : ℕ} {j : BuildJob} (h : j.Claimable t) :
    j.deadline ≤ t := by
  unfold BuildJob.deadline
  rcases h with hq | ⟨hact, e, he, hle⟩
  · rw [if_pos hq]
    exact zero_le
  · split
    · exact zero_le
    · rw [he]
      split
      · exact zero_le
      · exact ENat.natCast_le_natCast.mpr hle

theorem Promised.admits {p : Platform} {s s' : BuildSystem} {a : Action Op}
    (h : Promised s a s') : (protocol p True).Admits s a s' :=
  ⟨fun op hop _ => h.plain op hop, fun i c next ha hc hs _ => h.renewal i c next ha hc hs,
    fun _ _ _ _ _ _ _ => trivial⟩

theorem covered {p : Platform} {now : ℕ} {db : Db Tables} {s : BuildSystem} (hf : Fresh db)
    (hr : Run (code p) Promised ⟨now, db, []⟩ s) (ns : String) : Covered queue ns .build s.db := by
  have hstart : Covered queue ns .build db := by
    intro id
    change _ ≤ ((db.tenants ns).jobs.get id).elim ⊤ BuildJob.deadline
    rw [(hf ns).1]
    exact le_top
  refine (Good.start (hf.inv now)).preserves (E := fun _ _ => True) (verified p True)
    (S := fun w => Covered queue ns .build w.db) (fun _ _ _ hw => hw) ?_
    (hr.mono fun _ _ _ h => ⟨h.admits, fun _ _ _ _ _ _ => trivial⟩) hstart
  intro w db' i op t hc _ hw
  rcases (keeps p True).step trivial hc ns with hquiet | hrefreshed
  · exact hquiet.covered hw
  · exact hrefreshed.covered

/-- Operations that keep the promises by themselves: plain claims and no renewals. -/
def Op.calm : Op → Bool
  | .claimNextJob _ args => args.reclaimable = []
  | .claimDueSchedules _ args => args.reclaimable = []
  | .renewJobLease .. => false
  | _ => true

theorem promised_of_calm {s s' : BuildSystem} {a : Action Op}
    (h : a.spawns Op.calm = true ∧ ∀ c ∈ s.calls, c.op.calm = true) : Promised s a s' where
  plain op ha := by
    have hcalm := h.1
    rw [ha] at hcalm
    cases op with
    | claimNextJob ns args => exact of_decide_eq_true (p := args.reclaimable = []) hcalm
    | claimDueSchedules ns args => exact of_decide_eq_true (p := args.reclaimable = []) hcalm
    | _ => trivial
  renewal i c next _ hc _ ns claim hop := by
    have hcalm := h.2 c (List.mem_of_getElem? hc)
    rw [hop] at hcalm
    cases hcalm

theorem run_of_replay {p : Platform} {now : ℕ} {db : Db Tables} {s : BuildSystem}
    {actions : List (Action Op)} (h : System.replay (code p) ⟨now, db, []⟩ actions = some s)
    (ha : actions.all (Action.spawns Op.calm) = true) : Run (code p) Promised ⟨now, db, []⟩ s :=
  (Run.of_replay_spawns Op.calm h ha fun _ hc => by cases hc).mono
    fun _ _ _ hcalm => promised_of_calm hcalm

end Builds

/-- No lost wake: at any time, a claimable compute request or build job has its namespace among
those that `list_pending_namespaces` returns for its kind. -/
theorem claimable_namespace_is_listed :
    (∀ p now db s, Compute.Fresh db → Run (Compute.code p) Compute.Promised ⟨now, db, []⟩ s →
      ∀ ns id r t, Compute.requestAt s ns id = some r → r.Claimable t →
        ∀ kinds, .compute ∈ kinds → ns ∈ s.db.work.listPendingNamespaces kinds t) ∧
    (∀ p now db s, Builds.Fresh db → Run (Builds.code p) Builds.Promised ⟨now, db, []⟩ s →
      ∀ ns id j t, Builds.jobAt s.db ns id = some j → j.Claimable t →
        ∀ kinds, .build ∈ kinds → ns ∈ s.db.work.listPendingNamespaces kinds t) := by
  constructor
  · intro p now db s hf hr ns id r t hrow hclaimable kinds hkind
    have halarm := Compute.covered hf hr ns id
    rw [show Compute.queue.deadline (s.db.tenants ns) id = r.deadline by
      change (Compute.requestAt s ns id).elim ⊤ _ = _; rw [hrow]; rfl] at halarm
    exact Work.mem_listPendingNamespaces.mpr ⟨_, hkind, halarm.trans hclaimable.deadline_le⟩
  · intro p now db s hf hr ns id j t hrow hclaimable kinds hkind
    have halarm := Builds.covered hf hr ns id
    rw [show Builds.queue.deadline (s.db.tenants ns) id = j.deadline by
      change (Builds.jobAt s.db ns id).elim ⊤ _ = _; rw [hrow]; rfl] at halarm
    exact Work.mem_listPendingNamespaces.mpr ⟨_, hkind, halarm.trans hclaimable.deadline_le⟩

/-- A request is staged and claimed. -/
def sampleClaimed : List (Action Compute.Op) :=
  Action.spawn (Compute.sampleStage "x" 0) :: List.replicate 4 (.run 0) ++
    Action.spawn (Compute.sampleClaim "w" "t") :: List.replicate 7 (.run 1)

/-- A request whose worker is gone, and a build job that waits for a worker. -/
theorem claimable_namespace_is_listed_sample :
    (∃ (s : Compute.ComputeSystem) (r : Compute.ComputeRequest),
      Compute.requestAt s "n" "x" = some r ∧ r.status = .running ∧ r.Claimable (seconds 30) ∧
        "n" ∈ s.db.work.listPendingNamespaces [.compute] (seconds 30)) ∧
    ∃ (s : Builds.BuildSystem) (j : Builds.BuildJob), Builds.jobAt s.db "n" "j" = some j ∧
      j.Claimable 1 ∧ "n" ∈ s.db.work.listPendingNamespaces [.build, .compute] 1 := by
  constructor
  · have hreplay : (System.replay (Compute.code Compute.samplePlatform)
        ⟨0, Compute.sampleDb, []⟩ sampleClaimed).any (fun s =>
          (Compute.requestAt s "n" "x").any fun r =>
            r.status = .running && r.leaseExpiresAt.any (· ≤ seconds 30)) = true := by
      decide +kernel
    obtain ⟨s, hs, htest⟩ := (Option.any_eq_true _ _).mp hreplay
    obtain ⟨r, hr, hrow⟩ := (Option.any_eq_true _ _).mp htest
    simp only [Bool.and_eq_true, decide_eq_true_eq, Option.any_eq_true] at hrow
    have hclaimable : r.Claimable (seconds 30) := Or.inr hrow
    have hrun := Compute.run_of_replay hs (by decide)
    exact ⟨s, r, hr, hrow.1, hclaimable, claimable_namespace_is_listed.1 _ 0 _ s
      Compute.sampleDb_fresh hrun "n" "x" r (seconds 30) hr hclaimable _ List.mem_cons_self⟩
  · have hreplay : (System.replay (Builds.code Builds.samplePlatform) ⟨0, Builds.sampleDb, []⟩
        (Builds.inTurn 0 [Builds.sampleExecution.head (by decide)])).any (fun s =>
          (Builds.jobAt s.db "n" "j").any fun j => j.status = .queued) = true := by
      decide +kernel
    obtain ⟨s, hs, htest⟩ := (Option.any_eq_true _ _).mp hreplay
    obtain ⟨j, hj, hrow⟩ := (Option.any_eq_true _ _).mp htest
    have hclaimable : j.Claimable 1 := Or.inl (of_decide_eq_true hrow)
    have hrun := Builds.run_of_replay hs (by decide)
    exact ⟨s, j, hj, hclaimable, claimable_namespace_is_listed.2 _ 0 _ s
      Builds.sampleDb_fresh hrun "n" "j" j 1 hj hclaimable _ List.mem_cons_self⟩

end DataForge
