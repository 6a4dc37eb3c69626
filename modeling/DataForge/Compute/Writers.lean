import DataForge.Compute.Claim
import DataForge.Compute.Rows

/-!
# Compute requests: verified writers

Every operation that writes request rows meets the protocol of the rows. The parts of the
scripts that write other tables need no more than the shape of their writes; what is left are
the few statements that write requests, each under a lock or on a row it has just seen.
-/

namespace DataForge.Compute

open ReadCommitted DataForge.Runtime

section Parts

variable {p : Platform} {ns id key : String} {now : ℕ}

theorem stays_check {α : Type} (x : Except String α) : (check x).Stays Spares := by
  cases x <;> trivial

theorem stays_tryAdvisoryXactLock (k : ℤ) : (tryAdvisoryXactLock k).Stays Spares :=
  Script.stays_statement fun _ _ hv => by cases hv

theorem stays_readFlight : (readFlight ns key).Stays Spares := by
  refine Script.stays_query.bind fun flight => ?_
  cases flight with
  | none => trivial
  | some f => exact Script.stays_query.bind fun _ => trivial

theorem stays_findReusableFlight : (findReusableFlight ns key now).Stays Spares := by
  refine stays_readFlight.bind fun x => ?_
  cases x with
  | none => trivial
  | some x => exact (stays_check _).bind fun _ => trivial

theorem stays_reusableFlight : (reusableFlight ns key now).Stays Spares := by
  refine stays_readFlight.bind fun x => ?_
  cases x with
  | none => trivial
  | some x =>
    refine (stays_check _).bind fun reusable => ?_
    cases reusable with
    | some r => trivial
    | none =>
      refine (Script.stays_statement fun _ _ hv => by cases hv).bind fun stale => ?_
      cases stale with
      | none => trivial
      | some f =>
        refine Script.stays_query.bind fun request => (stays_check _).bind fun again => ?_
        cases again with
        | some r => trivial
        | none =>
          refine (Script.stays_statement fun _ v hv => ?_).bind fun _ => trivial
          rw [List.mem_singleton.mp hv]
          exact fun _ _ h => by cases h

theorem stays_finishFlight {cache : Bool} : (finishFlight ns id cache now).Stays Spares := by
  refine (Script.stays_statement fun _ _ hv => by cases hv).bind fun flight => ?_
  cases flight with
  | none => trivial
  | some f =>
    refine Script.stays_statement fun _ v hv => ?_
    rw [List.mem_singleton.mp hv]
    exact fun _ _ h => by cases h

theorem stays_validateStage {args : StageArgs} : (validateStage args).Stays Spares := by
  unfold validateStage
  cases args.validate with
  | none => trivial
  | some validate =>
    intro e
    dsimp only
    cases validate e.db with
    | ok rows => exact ⟨fun _ hv => (by cases hv), trivial⟩
    | error m => exact ⟨fun _ hv => (by cases hv), trivial⟩

theorem stays_validatePreflightParent {args : StageArgs} :
    (validatePreflightParent ns args).Stays Spares := by
  unfold validatePreflightParent
  split
  · split
    · refine (Script.stays_statement fun _ _ hv => by cases hv).bind fun parent => ?_
      cases parent with
      | none => trivial
      | some r =>
        dsimp only
        split
        · trivial
        · refine (stays_check _).bind fun original => ?_
          split <;> trivial
    · trivial
  · trivial

theorem stays_snapshotInputRevisions {command : ComputeCommand} :
    (snapshotInputRevisions ns command).Stays Spares := by
  unfold snapshotInputRevisions
  dsimp only
  split
  · trivial
  · exact Script.stays_statement fun _ _ hv => by cases hv

theorem stays_appendWake {kind : RuntimeWorkKind} {wakeId : ℕ} :
    (appendWake ns kind wakeId : ComputeScript ℕ).Stays Spares := by
  intro e
  dsimp only
  cases e.db.work.wakes.get wakeId with
  | none =>
    refine ⟨fun v hv => ?_, trivial⟩
    rw [List.mem_singleton.mp hv]
    exact fun _ _ h => by cases h
  | some w => exact ⟨fun _ hv => (by cases hv), trivial⟩

theorem stays_refreshPendingWork {kind : RuntimeWorkKind} {pendingQuery : ℕ → Tables → Bool}
    {dueQuery : ℕ → Tables → Option ℕ} :
    (refreshPendingWork ns kind pendingQuery dueQuery : ComputeScript Unit).Stays Spares := by
  unfold refreshPendingWork
  refine Script.stays_query.bind fun ids => Script.stays_query.bind fun x => ?_
  refine (Script.stays_statement fun e v hv => ?_).bind fun updated => ?_
  · dsimp only at hv
    split at hv
    · rw [List.mem_singleton.mp hv]
      exact fun _ _ h => by cases h
    · cases hv
  · split
    · refine Script.stays_statement fun e v hv => ?_
      obtain ⟨wakeId, u, rfl, -⟩ := mem_acknowledge hv
      exact fun _ _ h => by cases h
    · trivial

theorem stays_associate {requestId : String} {ids : List String} :
    (Script.statement (fun _ => ⟨[], ids.map fun id =>
      .tenant ns (.requestDatasource (requestId, id) (some ()))⟩)
      (fun _ => ()) : ComputeScript Unit).Stays Spares := by
  refine Script.stays_statement fun _ v hv => ?_
  obtain ⟨x, -, rfl⟩ := List.mem_map.mp hv
  exact fun _ _ h => by cases h

theorem stays_insertFlight {taken : ComputeEnv → Bool} {k : String × String}
    {f : ComputeRequestFlight} :
    (insertRow taken (.tenant ns (.flight k (some f)))).Stays Spares := by
  intro e
  dsimp only
  split
  · exact ⟨fun _ hv => (by cases hv), trivial⟩
  · refine ⟨fun v hv => ?_, trivial⟩
    rw [List.mem_singleton.mp hv]
    exact fun _ _ h => by cases h

end Parts

section Rules

variable {op : RowOp} {i : ℕ} {t : ComputeTxn}
  {w : ComputeWorld} {ns id : String}
  {Q : Reply → ComputeTxn → ComputeWorld → Prop}

theorem wp_spare {α β : Type} {p : ComputeScript α} {k : α → ComputeScript β}
    {R : β → ComputeTxn → ComputeWorld → Prop}
    (hp : p.Stays Spares) (hm : Opened op t w)
    (hk : ∀ a t' w', Opened op t' w' → t.held ⊆ t'.held → rowProtocol.Rely t.held w w' →
      (∃ ws, t'.writes = t.writes ++ ws ∧ ∀ v ∈ ws, Spares v) →
      rowProtocol.wp i op R (k a) t' w') :
    rowProtocol.wp i op R (p >>= k) t w :=
  Protocol.wp_stays (fun _ _ _ hm hr => hm.rely hr) (fun _ _ _ f hm _ hs hf => hm.spare hs f hf)
    hp hm hk

theorem wp_check_row {α : Type} {x : Except String α} {k : α → ComputeScript Reply}
    (h : ∀ a, x = .ok a → rowProtocol.wp i op Q (k a) t w) :
    rowProtocol.wp i op Q (check x >>= k) t w := by
  cases x with
  | ok a => exact h a rfl
  | error m => trivial

/-- The operation is not the publication of a result. -/
def RowOp.Plain (op : RowOp) : Prop := ∀ ns args, op ≠ .queue (.finishClaimedRequest ns args)

theorem Opened.act (hm : Opened op t w) (hop : op.Plain) :
    rowProtocol.act i op t.held w (view t.writes w.db) :=
  ⟨fun ns id => hm.staged (.tenant ns (.request id)), fun ns args h => absurd h (hop ns args)⟩

theorem wp_last {k : Unit → ComputeScript Reply} (hm : Opened op t w) (hop : op.Plain)
    (hk : ∀ t' w', Opened op t' w' → rowProtocol.wp i op Q (k ()) t' w') :
    rowProtocol.wp i op Q (Script.commitNow >>= k) t w := by
  apply Protocol.wp_commit
  intro w1 hr1 hi1 _
  exact ⟨(hm.rely hr1).act hop, hk _ _ (.of_nil op _ rfl)⟩

/-- `_publish_terminal` on a row that is ours. -/
theorem wp_publishTerminal_row {f : ComputeRequest → ComputeRequest} {cache : Bool}
    {completedAt : ℕ} {k : Unit → ComputeScript Reply} (hm : Opened op t w)
    (ho : Ours ns id t w) (hf : ∀ r, (f r).status.active = false)
    (hk : ∀ t' w', Opened op t' w' → t.held ⊆ t'.held → rowProtocol.Rely t.held w w' →
      (∀ r, ((view t.writes w.db).tenants ns).requests.get id = some r →
        ∀ db, ((view t'.writes db).tenants ns).requests.get id = some (f r)) →
      rowProtocol.wp i op Q (k ()) t' w') :
    rowProtocol.wp i op Q (publishTerminal ns id f cache completedAt >>= k) t w := by
  unfold publishTerminal updateRequest
  rw [Script.bind_assoc]
  apply Protocol.wp_statement
  intro w1 e1 hr1 hi1 hs1
  obtain ⟨lock, hlock, hres⟩ := ho.held
  have hseen : (requests ns e1).get id =
      ((view t.writes w.db).tenants ns).requests.get id := by
    rw [requests, hs1.db]
    exact view_row_rely hr1 hlock hres
  have hsub := t.held_subset_after e1
  cases hget : (requests ns e1).get id with
  | none =>
    refine wp_spare stays_finishFlight ((hm.rely hr1).spare hs1 {} fun _ hv => by cases hv)
      fun _ t' w' hm' hh' hr' _ => ?_
    refine hk t' w' hm' (fun x hx => hh' (hsub _ hx)) (hr1.trans (hr'.mono (hsub _)))
      fun r hr => ?_
    rw [← hseen, hget] at hr
    cases hr
  | some r =>
    have hstep : RowStep op ((w1.db.tenants ns).requests.get id) (some (f r)) :=
      .work (ho.rely hr1).active fun hact => by rw [hf] at hact; cases hact
    refine wp_spare stays_finishFlight ((hm.rely hr1).request hs1 hstep)
      fun _ t' w' hm' hh' hr' hws => ?_
    refine hk t' w' hm' (fun x hx => hh' (hsub _ hx)) (hr1.trans (hr'.mono (hsub _)))
      fun r' hr' db => ?_
    rw [← hseen, hget, Option.some.injEq] at hr'
    obtain ⟨ws, hws, hspare⟩ := hws
    rw [hws, view_row_append hspare, ← hr', Txn.after, view_append]
    have hwritten := request_write (view t.writes db) ns id id (some (f r))
    rw [if_pos rfl] at hwritten
    exact hwritten

/-- Retiring a batch of rows that are ours, by induction on the batch. -/
theorem wp_retireAll_rows {reason : ComputeRequest → String} {now : ℕ}
    {rows : List (String × ComputeRequest)} {k : Unit → ComputeScript Reply}
    (hm : Opened op t w) (hrows : ∀ x ∈ rows, Ours ns x.1 t w)
    (hk : ∀ t' w', Opened op t' w' → rowProtocol.wp i op Q (k ()) t' w') :
    rowProtocol.wp i op Q (retireAll ns reason now rows >>= k) t w := by
  induction rows generalizing t w with
  | nil => exact hk t w hm
  | cons x rest ih =>
    obtain ⟨id, r⟩ := x
    rw [retireAll, Script.bind_assoc]
    refine wp_publishTerminal_row hm (hrows _ List.mem_cons_self) (fun _ => rfl)
      fun t' w' hm' hh' hr' _ => ?_
    exact ih hm' fun y hy => ((hrows y (List.mem_cons_of_mem _ hy)).rely hr').mono hh'

theorem stagedRequest_asStaged {p : Platform} {args : StageArgs} {command : ComputeCommand} :
    AsStaged (stagedRequest p ns args command) := rfl

theorem wp_insertStaged {p : Platform} {args : StageArgs} {command : ComputeCommand}
    {k : Unit → ComputeScript Reply} (hm : Opened op t w) (hdel : ¬ op.deletes)
    (hk : ∀ t' w', Opened op t' w' → rowProtocol.wp i op Q (k ()) t' w') :
    rowProtocol.wp i op Q (insertRow (fun e => ((requests ns e).get args.requestId).isSome)
      (.tenant ns (.request args.requestId (some (stagedRequest p ns args command)))) >>= k)
      t w := by
  apply Protocol.wp_exec
  intro w1 e1 hr1 hi1 hs1
  have hm1 := hm.rely hr1
  cases hget : (requests ns e1).get args.requestId with
  | some r =>
    simp only [hget, Option.isSome_some, if_true]
    trivial
  | none =>
    simp only [hget, Option.isSome_none, Bool.false_eq_true, if_false]
    refine hk _ _ (hm1.request hs1 (.work (fun b hb => ?_) fun _ => stagedRequest_asStaged))
    have hstep := hm1.sees hs1 ns args.requestId
    rw [hget] at hstep
    rw [hstep.none_before hdel] at hb
    cases hb

/-- `_active_request_claim`: the row it returns runs, and is ours if it was locked. -/
theorem wp_activeRequestClaim_row {args : FinishArgs} {forUpdate : Bool}
    {k : Option ComputeRequest → ComputeScript Reply} (hm : Opened op t w)
    (hnone : ∀ t' w', rowProtocol.wp i op Q (k none) t' w')
    (hsome : ∀ t' w' r, Opened op t' w' → t'.writes = t.writes →
      ((view t.writes w'.db).tenants ns).requests.get args.requestId = some r →
      (forUpdate = true → Ours ns args.requestId t' w') →
      rowProtocol.wp i op Q (k (some r)) t' w') :
    rowProtocol.wp i op Q (activeRequestClaim ns args forUpdate >>= k) t w := by
  unfold activeRequestClaim
  rw [Script.bind_assoc]
  apply Protocol.wp_query
  intro w1 e1 hr1 hi1 hs1
  apply Protocol.wp_statement
  intro w2 e2 hr2 hi2 hs2
  have hm2 := ((hm.rely hr1).query (some e1.began)).rely hr2
  cases hf : ((requests ns e2).get args.requestId).filter (activeClaim args e2.now) with
  | none => exact hnone _ _
  | some r =>
    obtain ⟨hget, hclaim⟩ := Option.filter_eq_some_iff.mp hf
    have hact : r.status.active = true := by
      simp only [activeClaim, Bool.and_eq_true, decide_eq_true_eq] at hclaim
      rw [hclaim.1.1.1.1]
      rfl
    refine hsome _ _ r (hm2.lock hs2 _ _) (List.append_nil _) ?_ fun hfor => ?_
    · rw [requests, hs2.db] at hget
      exact hget
    · refine Ours.of_lock hm2 hs2 ?_ hget hact
      simp [hfor]

end Rules

section Operations

variable {op : RowOp} {i : ℕ} {w : ComputeWorld} {ns : String} {p : Platform}
  {Q : Reply → ComputeTxn → ComputeWorld → Prop}

theorem wp_insertRequest_row {args : StageArgs} {command : ComputeCommand} {key : Option String}
    {t : ComputeTxn} (hm : Opened op t w) (hop : op.Plain)
    (hdel : ¬ op.deletes) (hQ : ∀ r t w, Q r t w) :
    rowProtocol.wp i op Q (insertRequest p ns args command key) t w := by
  unfold insertRequest
  refine wp_spare (stays_check _) hm fun _ t1 w1 hm1 _ _ _ => ?_
  refine wp_insertStaged hm1 hdel fun t2 w2 hm2 => ?_
  refine wp_spare stays_associate hm2 fun _ t3 w3 hm3 _ _ _ => ?_
  have hrest {t4 : ComputeTxn} {w4 : ComputeWorld}
      (hm4 : Opened op t4 w4) : rowProtocol.wp i op Q (do
        let _ ← appendWake ns .compute args.wakeId
        Script.commitNow
        pure (.staged args.requestId (stagedRequest p ns args command) true)) t4 w4 :=
    wp_spare stays_appendWake hm4 fun _ t5 w5 hm5 _ _ _ => wp_last hm5 hop fun _ _ _ => hQ _ _ _
  cases key with
  | none => exact hrest hm3
  | some key => exact wp_spare stays_insertFlight hm3 fun _ t4 w4 hm4 _ _ _ => hrest hm4

theorem verified_stageRequest_row {args : StageArgs} {deduplicateFlight : Bool} (hop : op.Plain)
    (hdel : ¬ op.deletes) (hQ : ∀ r t w, Q r t w) :
    rowProtocol.wp i op Q (stageRequest p ns args deduplicateFlight) {} w := by
  unfold stageRequest
  refine wp_spare stays_validateStage (.of_nil op w rfl) fun _ t1 w1 hm1 _ _ _ => ?_
  refine wp_spare stays_validatePreflightParent hm1 fun _ t2 w2 hm2 _ _ _ => ?_
  refine wp_spare stays_snapshotInputRevisions hm2 fun command t3 w3 hm3 _ _ _ => ?_
  cases (if deduplicateFlight then flightKey p args.kind command else none) with
  | none => exact wp_insertRequest_row hm3 hop hdel hQ
  | some key =>
    refine wp_spare stays_findReusableFlight hm3 fun found t4 w4 hm4 _ _ _ => ?_
    cases found with
    | some x => exact hQ _ _ _
    | none =>
      refine wp_spare (stays_tryAdvisoryXactLock _) hm4 fun locked t5 w5 hm5 _ _ _ => ?_
      split
      · refine wp_spare stays_reusableFlight hm5 fun again t6 w6 hm6 _ _ _ => ?_
        cases again with
        | some x => exact hQ _ _ _
        | none => exact wp_insertRequest_row hm6 hop hdel hQ
      · trivial

theorem verified_finishClaimedRequest_row {args : FinishArgs}
    (hop : op = .queue (.finishClaimedRequest ns args)) (hQ : ∀ r t w, Q r t w) :
    rowProtocol.wp i op Q (finishClaimedRequest ns args) {} w := by
  have hack (t : ComputeTxn) (w : ComputeWorld) :
      rowProtocol.wp i op Q (acknowledgeRetry ns args) t w := by
    apply Protocol.wp_rollback
    intro w1 _ _
    apply Protocol.wp_query
    exact fun _ _ _ _ _ => hQ _ _ _
  unfold finishClaimedRequest
  refine wp_activeRequestClaim_row (.of_nil op w rfl) hack fun t1 w1 r1 hm1 hw1 _ _ => ?_
  refine wp_check_row fun _ _ => wp_check_row fun _ _ => ?_
  refine wp_activeRequestClaim_row hm1 hack fun t2 w2 r hm2 hw2 hget hours => ?_
  refine wp_check_row fun cached _ => ?_
  have hempty : t2.writes = [] := hw2.trans hw1
  rw [hw1] at hget
  obtain ⟨lock, hlock, hres⟩ := (hours rfl).held
  refine wp_publishTerminal_row hm2 (hours rfl) (finishedRow_active args)
    fun t3 w3 hm3 hh3 hr3 hview => ?_
  apply Protocol.wp_commit
  intro w4 hr4 hi4 _
  have hrow : (w4.db.tenants ns).requests.get args.requestId = some r :=
    ((row_rely hr4 (hh3 hlock) hres).trans (row_rely hr3 hlock hres)).trans hget
  have hm4 := hm3.rely hr4
  refine ⟨⟨fun ns id => hm4.staged (.tenant ns (.request id)), fun ns' args' h => ?_⟩, hQ _ _ _⟩
  rw [hop] at h
  cases h
  refine ⟨r, hrow, (hours rfl).active r hget, hview r ?_ _⟩
  rw [hempty]
  exact hget

theorem verified_cancelDisconnectedRequest_row {requestId reason : String} {now : ℕ}
    (hop : op.Plain) (hQ : ∀ r t w, Q r t w) :
    rowProtocol.wp i op Q (cancelDisconnectedRequest p ns requestId reason now) {} w := by
  unfold cancelDisconnectedRequest
  apply Protocol.wp_statement
  intro w1 e1 hr1 hi1 hs1
  have hm : Opened op {} w1 := .of_nil op w1 rfl
  cases hf : ((requests ns e1).get requestId).filter (·.status.active) with
  | none =>
    apply Protocol.wp_rollback
    exact fun w2 _ _ => hQ _ _ _
  | some r =>
    obtain ⟨hget, hact⟩ := Option.filter_eq_some_iff.mp hf
    refine wp_check_row fun envelope _ => ?_
    split
    · apply Protocol.wp_rollback
      exact fun w2 _ _ => hQ _ _ _
    · split
      · apply Protocol.wp_rollback
        exact fun w2 _ _ => hQ _ _ _
      · have hours : Ours ns requestId
            (Txn.after {} e1 (lockRows [requestRow ns requestId] .exclusive)) w1 :=
          .of_lock hm hs1 List.mem_cons_self hget hact
        refine wp_publishTerminal_row (hm.lock hs1 _ _) hours (fun _ => rfl)
          fun t2 w2 hm2 _ _ _ => wp_last hm2 hop fun t3 w3 _ => ?_
        apply Protocol.wp_query
        exact fun _ _ _ _ _ => hQ _ _ _

theorem verified_cancelActiveRequestsForEngine_row {identity : ComputeWorkerIdentity}
    {reason : String} {now : ℕ} (hop : op.Plain) (hQ : ∀ r t w, Q r t w) :
    rowProtocol.wp i op Q (cancelActiveRequestsForEngine ns identity reason now) {} w := by
  unfold cancelActiveRequestsForEngine
  apply Protocol.wp_statement
  intro w1 e1 hr1 hi1 hs1
  have hm : Opened op {} w1 := .of_nil op w1 rfl
  refine wp_retireAll_rows (hm.lock hs1 _ _) (fun x hx => ?_) fun t2 w2 hm2 => ?_
  · obtain ⟨hmem, htarget⟩ := List.mem_filter.mp hx
    simp only [targetsEngine, Bool.and_eq_true] at htarget
    exact Ours.of_lock hm hs1 (List.mem_map.mpr ⟨x, hx, rfl⟩)
      ((Table.mem_rows_iff _ _ _).mp hmem) htarget.1.1.1.2
  · split
    · exact wp_last hm2 hop fun _ _ _ => hQ _ _ _
    · apply Protocol.wp_rollback
      exact fun w2 _ _ => hQ _ _ _

theorem verified_reconcileExpiredRequests_row (hop : op.Plain) (hQ : ∀ r t w, Q r t w) :
    rowProtocol.wp i op Q (reconcileExpiredRequests ns) {} w := by
  unfold reconcileExpiredRequests
  apply Protocol.wp_query
  intro w1 e1 hr1 hi1 hs1
  apply Protocol.wp_statement
  intro w2 e2 hr2 hi2 hs2
  have hm : Opened op ⟨[], [], some e1.began⟩ w2 := .of_nil op w2 rfl
  refine wp_retireAll_rows (hm.lock hs2 _ _) (fun x hx => ?_) fun t3 w3 hm3 => ?_
  · obtain ⟨hget, hex⟩ := (exhaustBatch_spec ns e2 e1.began).2 x hx
    simp only [exhausted, Bool.and_eq_true, decide_eq_true_eq] at hex
    refine Ours.of_lock hm hs2 (List.mem_map.mpr ⟨x, hx, rfl⟩) hget ?_
    rw [hex.1.1.2]
    rfl
  · refine wp_spare stays_refreshPendingWork hm3 fun _ t4 w4 hm4 _ _ _ => ?_
    exact wp_last hm4 hop fun _ _ _ => hQ _ _ _

theorem verified_renewRequestLeases_row {claims : List LeaseClaim} {workerId : String}
    (hop : op.Plain) (hQ : ∀ r t w, Q r t w) :
    rowProtocol.wp i op Q (renewRequestLeases p ns claims workerId) {} w := by
  unfold renewRequestLeases
  split
  · trivial
  · apply Protocol.wp_statement
    intro w1 e1 hr1 hi1 hs1
    have hm : Opened op {} w1 := .of_nil op w1 rfl
    have hm1 := hm.after hs1 ⟨[], ((requests ns e1).rows.filter
        fun r => renewable claims workerId e1.now r.1 r.2).map
      fun r => .tenant ns (.request r.1 (some (renewedRow p e1.now r.2)))⟩ fun v hv ns' id' ht => ?_
    · split
      · exact wp_last hm1 hop fun _ _ _ => hQ _ _ _
      · apply Protocol.wp_rollback
        exact fun w2 _ _ => hQ _ _ _
    · obtain ⟨⟨id, r⟩, hx, rfl⟩ := List.mem_map.mp hv
      injection ht with hns hid
      injection hid with hid
      subst hns
      subst hid
      rw [view_requests ns (renewedRow p e1.now) e1.db (nodup_filter_keys _) hx]
      obtain ⟨hmem, hren⟩ := List.mem_filter.mp hx
      have hget := (Table.mem_rows_iff _ _ _).mp hmem
      have hact : r.status.active = true := by
        simp only [renewable, Bool.and_eq_true, decide_eq_true_eq] at hren
        rw [hren.1.1.1]
        rfl
      have hstep := hm.sees hs1 ns id
      rw [hget] at hstep
      exact .work (hstep.active_before hact) fun _ => hstep.asStaged (hi1 ns id) hact

/-- The end of a claim writes a row that is active when it is seen. -/
theorem wp_finishClaim_row {args : ClaimArgs} {id : String} {row : ComputeRequest}
    {t : ComputeTxn} (hm : Opened op t w)
    (hrow : row.status.active = true) (hop : op.Plain) (hQ : ∀ r t w, Q r t w) :
    rowProtocol.wp i op Q (finishClaim ns args id row) t w := by
  have hrest (t : ComputeTxn) (w : ComputeWorld)
      (hm : Opened op t w) : rowProtocol.wp i op Q (do
        Script.commitNow
        pure .nothing) t w := wp_last hm hop fun _ _ _ => hQ _ _ _
  unfold finishClaim claimByLeaseOwner
  apply Protocol.wp_statement
  intro w1 e1 hr1 hi1 hs1
  have hm1 := hm.rely hr1
  cases hget : (requests ns e1).get id with
  | none =>
    apply Protocol.wp_rollback
    exact fun w2 _ _ => hrest _ _ (.of_nil op w2 rfl)
  | some r =>
    by_cases hguard : claimGuard row r = true
    · simp only [hguard, if_true, Option.any_some]
      have hact : r.status.active = true := by
        simp only [claimGuard, Bool.and_eq_true, decide_eq_true_eq] at hguard
        rw [hguard.1.1]
        exact hrow
      have hstep := hm1.sees hs1 ns id
      rw [hget] at hstep
      refine wp_last (hm1.request hs1 (.work (hstep.active_before hact)
        fun _ => hstep.asStaged (hi1 ns id) hact)) hop fun t2 w2 hm2 => ?_
      apply Protocol.wp_query
      intro w3 e3 hr3 hi3 hs3
      have hm3 := (hm2.rely hr3).query (some e3.began)
      split
      · exact hrest _ _ hm3
      · split
        · exact hrest _ _ hm3
        · exact hQ _ _ _
    · simp only [hguard, Option.any_some]
      apply Protocol.wp_rollback
      exact fun w2 _ _ => hrest _ _ (.of_nil op w2 rfl)

theorem verified_claimNextRequest_row {args : ClaimArgs} (hop : op.Plain)
    (hQ : ∀ r t w, Q r t w) : rowProtocol.wp i op Q (claimNextRequest p ns args) {} w := by
  unfold claimNextRequest
  -- induction on the rounds of the retry loop; nothing is held between rounds
  generalize args.fuel = fuel
  generalize ([] : List (String × ComputeWorkerScope × ComputeWorkerReusePolicy × String)) = blocked
  induction fuel generalizing w blocked with
  | zero => exact hQ _ _ _
  | succ fuel ih =>
    rw [claimLoop]
    apply Protocol.wp_query
    intro w1 e1 hr1 hi1 hs1
    apply Protocol.wp_statement
    intro w2 e2 hr2 hi2 hs2
    have hm : Opened op ⟨[], [], some e1.began⟩ w2 := .of_nil op w2 rfl
    cases hcand : claimCandidate ns args e2 e1.began blocked with
    | none => exact wp_last (hm.lock hs2 _ _) hop fun _ _ _ => hQ _ _ _
    | some x =>
      obtain ⟨id, row⟩ := x
      have hactive := active_of_claimable (claimCandidate_spec hcand).2
      dsimp only
      unfold claimSelected
      have hlock : (lockEngineClaim p row).Stays Spares := by
        unfold lockEngineClaim
        cases row.engineClaimIdentity with
        | none => trivial
        | some identity => exact stays_tryAdvisoryXactLock _
      refine wp_spare hlock (hm.lock hs2 _ _) fun locked t3 w3 hm3 _ _ _ => ?_
      split
      · refine wp_spare Script.stays_query hm3 fun sibling t4 w4 hm4 _ _ _ => ?_
        split
        · apply Protocol.wp_rollback
          exact fun w5 _ _ => ih _
        · exact wp_finishClaim_row hm4 hactive hop hQ
      · split
        · trivial
        · apply Protocol.wp_rollback
          exact fun w5 _ _ => ih _

theorem verified_writeDatasource_row {id : String} {row : Option DataSource} (hop : op.Plain)
    (hQ : ∀ r t w, Q r t w) : rowProtocol.wp i op Q (writeDatasource ns id row) {} w := by
  unfold writeDatasource
  refine wp_spare (Script.stays_statement fun _ v hv => ?_) (.of_nil op w rfl)
    fun _ t1 w1 hm1 _ _ _ => wp_last hm1 hop fun _ _ _ => hQ _ _ _
  rw [List.mem_singleton.mp hv]
  exact fun _ _ h => by cases h

theorem verified_otherWork_row {wakes : List (ℕ × Wake)}
    {markers : List ((String × RuntimeWorkKind) × Marker)} (hop : op.Plain)
    (hQ : ∀ r t w, Q r t w) : rowProtocol.wp i op Q (otherWork wakes markers) {} w := by
  unfold otherWork
  refine wp_spare (Script.stays_statement fun _ v hv => ?_) (.of_nil op w rfl)
    fun _ t1 w1 hm1 _ _ _ => wp_last hm1 hop fun _ _ _ => hQ _ _ _
  rcases List.mem_append.mp hv with hv | hv
  · obtain ⟨x, -, rfl⟩ := List.mem_map.mp hv
    exact fun _ _ h => by cases h
  · obtain ⟨x, -, rfl⟩ := List.mem_map.mp hv
    exact fun _ _ h => by cases h

/-! ## Sources -/

variable {t : ComputeTxn} {id : String}

/-- A row that is read for an update is locked, and seen in the same way until it is written. -/
theorem wp_getRequestForUpdate {β : Type} {k : Option ComputeRequest → ComputeScript β}
    {R : β → ComputeTxn → ComputeWorld → Prop}
    (hm : Opened op t w)
    (hnone : ∀ t' w', Opened op t' w' → rowProtocol.wp i op R (k none) t' w')
    (hsome : ∀ t' w' r, Opened op t' w' → (∃ k ∈ t'.held, k.res = requestRow ns id) →
      ((view t'.writes w'.db).tenants ns).requests.get id = some r →
      rowProtocol.wp i op R (k (some r)) t' w') :
    rowProtocol.wp i op R (getRequestForUpdate ns id >>= k) t w := by
  apply Protocol.wp_statement
  intro w1 e1 hr1 hi1 hs1
  have hm1 := (hm.rely hr1).lock hs1
    (((requests ns e1).get id).toList.map fun _ => requestRow ns id) .exclusive
  cases hget : (requests ns e1).get id with
  | none =>
    rw [hget] at hm1
    exact hnone _ _ hm1
  | some r =>
    rw [hget] at hm1
    refine hsome _ _ r hm1 ⟨_, mem_held_lockRows t e1 List.mem_cons_self, rfl⟩ ?_
    change ((view (t.writes ++ []) w1.db).tenants ns).requests.get id = some r
    rw [List.append_nil, ← hs1.db]
    exact hget

/-- Clearing the artifact columns of a completed request that is locked. -/
theorem wp_clearArtifacts {β : Type} {k : Unit → ComputeScript β} {r : ComputeRequest}
    {R : β → ComputeTxn → ComputeWorld → Prop}
    (hm : Opened op t w) (hop : op.clears) (hheld : ∃ k ∈ t.held, k.res = requestRow ns id)
    (hr : ((view t.writes w.db).tenants ns).requests.get id = some r) (hst : r.status = .completed)
    (hk : ∀ t' w', Opened op t' w' → rowProtocol.wp i op R (k ()) t' w') :
    rowProtocol.wp i op R (updateRequest ns id ComputeRequest.clearArtifacts >>= k) t w := by
  apply Protocol.wp_statement
  intro w1 e1 hr1 hi1 hs1
  obtain ⟨lock, hlock, hres⟩ := hheld
  have hget : (requests ns e1).get id = some r := by
    rw [requests, hs1.db, view_row_rely hr1 hlock hres]
    exact hr
  simp only [hget]
  have hstep := (hm.rely hr1).sees hs1 ns id
  rw [hget] at hstep
  refine hk _ _ ((hm.rely hr1).request hs1 ?_)
  cases hcommitted : (w1.db.tenants ns).requests.get id with
  | none =>
    rw [hcommitted] at hstep
    exact .work (fun b hb => by cases hb) fun hact => by
      rw [show r.clearArtifacts.status = .completed from hst] at hact
      cases hact
  | some b =>
    rw [hcommitted] at hstep
    cases hstep with
    | same => exact .cleared hop hst
    | work hx _ =>
      exact .work hx fun hact => by
        rw [show r.clearArtifacts.status = .completed from hst] at hact
        cases hact
    | cleared _ hb => exact .cleared hop hb

/-- Deleting a request. -/
theorem wp_deleteRequest {β : Type} {k : Unit → ComputeScript β}
    {R : β → ComputeTxn → ComputeWorld → Prop}
    (hm : Opened op t w) (hop : op.deletes)
    (hk : ∀ t' w', Opened op t' w' → rowProtocol.wp i op R (k ()) t' w') :
    rowProtocol.wp i op R (deleteRequest ns id >>= k) t w := by
  apply Protocol.wp_statement
  intro w1 e1 hr1 hi1 hs1
  refine hk _ _ ((hm.rely hr1).after hs1 _ fun v hv ns' id' ht => ?_)
  have hrest : ∀ v ∈ (((e1.db.tenants ns).requestDatasources.rows.filter fun r => r.1.1 = id).map
        fun r => (Write.tenant ns (TableWrite.requestDatasource r.1 none))) ++
      ((e1.db.tenants ns).flights.rows.filter fun f => f.2.requestId = id).map
        fun f => Write.tenant ns (TableWrite.flight f.1 none), Spares v := by
    intro u hu
    rcases List.mem_append.mp hu with hu | hu
    · obtain ⟨x, -, rfl⟩ := List.mem_map.mp hu
      exact fun _ _ h => by cases h
    · obtain ⟨x, -, rfl⟩ := List.mem_map.mp hu
      exact fun _ _ h => by cases h
  rcases List.mem_cons.mp hv with rfl | hv
  · injection ht with hns hid
    injection hid with hid
    subst hns
    subst hid
    have hview : _ = ((view [Write.tenant ns (TableWrite.request id none)] e1.db).tenants
        ns).requests.get id := view_row_append hrest e1.db
    have hwritten := request_write e1.db ns id id none
    rw [if_pos rfl] at hwritten
    refine Eq.symm (hview.trans hwritten) ▸ ?_
    cases (w1.db.tenants ns).requests.get id with
    | none => exact .same none
    | some b => exact .deleted hop
  · exact absurd ht (hrest v hv ns' id')

theorem verified_createFromPreflight {args : StageArgs} {owner source : Option String}
    (hop : op = .createFromPreflight ns args owner source) (hQ : ∀ r t w, Q r t w) :
    rowProtocol.wp i op Q (createFromPreflight p ns args owner source) {} w := by
  have hplain : op.Plain := fun _ _ h => by rw [hop] at h; cases h
  have hclears : op.clears := by rw [hop]; trivial
  have hdel : ¬ op.deletes := by rw [hop]; exact id
  unfold createFromPreflight
  refine wp_spare stays_validateStage (.of_nil op w rfl) fun _ t1 w1 hm1 _ _ _ => ?_
  refine wp_spare stays_snapshotInputRevisions hm1 fun command t2 w2 hm2 _ _ _ => ?_
  refine wp_check_row fun _ _ => ?_
  -- the end, from the insertion on
  have hinsert {t : ComputeTxn} {w : ComputeWorld}
      (hm : Opened op t w) : rowProtocol.wp i op Q (do
        insertRow (fun e => ((requests ns e).get args.requestId).isSome)
          (.tenant ns (.request args.requestId (some (stagedRequest p ns args command))))
        Script.statement
          (fun _ => ⟨[], (datasourceIdsForCommand command).map fun id =>
            .tenant ns (.requestDatasource (args.requestId, id) (some ()))⟩)
          (fun _ => ())
        let _ ← appendWake ns .compute args.wakeId
        takePreflightSource ns command source
        Script.commitNow
        pure (.staged args.requestId (stagedRequest p ns args command) true)) t w := by
    refine wp_insertStaged hm hdel fun t4 w4 hm4 => ?_
    refine wp_spare stays_associate hm4 fun _ t5 w5 hm5 _ _ _ => ?_
    refine wp_spare stays_appendWake hm5 fun _ t6 w6 hm6 _ _ _ => ?_
    cases source with
    | none => exact wp_last hm6 hplain fun _ _ _ => hQ _ _ _
    | some id =>
      rw [takePreflightSource, Script.bind_assoc]
      refine wp_getRequestForUpdate hm6 (fun _ _ _ => trivial) fun t7 w7 r hm7 hheld hr => ?_
      dsimp only
      split
      · trivial
      · split
        · trivial
        · next hst =>
          rw [Script.bind_assoc]
          refine wp_check_row fun original _ => ?_
          split
          · split
            · trivial
            · split
              · trivial
              · exact wp_clearArtifacts hm7 hclears hheld hr (not_not.mp hst)
                  fun _ _ hm8 => wp_last hm8 hplain fun _ _ _ => hQ _ _ _
          · split <;> trivial
          · trivial
  cases owner with
  | none => exact hinsert hm2
  | some owner =>
    rw [transferPreflightSource, Script.bind_assoc]
    refine wp_getRequestForUpdate hm2 (fun _ _ _ => trivial) fun t3 w3 r hm3 hheld hr => ?_
    dsimp only
    split
    · trivial
    · next hst =>
      exact wp_clearArtifacts hm3 hclears hheld hr (not_not.mp hst) fun _ _ hm4 => hinsert hm4

theorem verified_removePreflight {deleteSource : Bool}
    (hop : op = .removePreflight ns id deleteSource) (hQ : ∀ r t w, Q r t w) :
    rowProtocol.wp i op Q (removePreflight ns id deleteSource) {} w := by
  have hplain : op.Plain := fun _ _ h => by rw [hop] at h; cases h
  have hdel : op.deletes := by rw [hop]; trivial
  unfold removePreflight
  refine wp_getRequestForUpdate (.of_nil op w rfl) (fun _ _ _ => hQ _ _ _)
    fun t1 w1 r hm1 _ _ => ?_
  dsimp only
  split
  · exact hQ _ _ _
  · split
    · trivial
    · exact wp_deleteRequest hm1 hdel fun t2 w2 hm2 => wp_last hm2 hplain fun _ _ _ => hQ _ _ _

theorem verified_expirePreflights {before : ℕ} {order : List String}
    (hop : op = .expirePreflights ns before order) (hQ : ∀ r t w, Q r t w) :
    rowProtocol.wp i op Q (expirePreflights ns before order) {} w := by
  have hplain : op.Plain := fun _ _ h => by rw [hop] at h; cases h
  have hdel : op.deletes := by rw [hop]; trivial
  -- the loop, by induction on the batch
  have hloop (rows : List (String × ComputeRequest)) :
      ∀ {t : ComputeTxn} {w : ComputeWorld},
        Opened op t w → rowProtocol.wp i op Q (do
          expireEach ns rows
          Script.commitNow
          pure .nothing) t w := by
    induction rows with
    | nil => exact fun hm => wp_last hm hplain fun _ _ _ => hQ _ _ _
    | cons x rest ih =>
      intro t w hm
      obtain ⟨id, r⟩ := x
      rw [expireEach, Script.bind_assoc]
      refine wp_spare Script.stays_query hm fun active t1 w1 hm1 _ _ _ => ?_
      split
      · exact ih hm1
      · split
        · trivial
        · rw [Script.bind_assoc]
          exact wp_deleteRequest hm1 hdel fun t2 w2 hm2 => ih hm2
  unfold expirePreflights
  refine wp_spare (Script.stays_statement fun _ _ hv => by cases hv) (.of_nil op w rfl)
    fun rows t1 w1 hm1 _ _ _ => hloop rows hm1

theorem verified_authorizeCleanup {owner url : String} {referenced : Bool}
    (hop : op = .authorizeCleanup ns owner url referenced) (hQ : ∀ r t w, Q r t w) :
    rowProtocol.wp i op Q (authorizeCleanup ns owner url referenced) {} w := by
  have hplain : op.Plain := fun _ _ h => by rw [hop] at h; cases h
  have hdel : op.deletes := by rw [hop]; trivial
  unfold authorizeCleanup
  refine wp_getRequestForUpdate (.of_nil op w rfl)
    (fun _ _ hm1 => wp_last hm1 hplain fun _ _ _ => hQ _ _ _) fun t1 w1 r hm1 _ _ => ?_
  dsimp only
  split
  · exact wp_last hm1 hplain fun _ _ _ => hQ _ _ _
  · split
    · exact hQ _ _ _
    · exact wp_deleteRequest hm1 hdel fun t2 w2 hm2 => wp_last hm2 hplain fun _ _ _ => hQ _ _ _

end Operations

/-- Every operation that writes request rows meets their protocol. -/
theorem rowVerified (p : Platform) : Verified rowProtocol (rowCode p) fun _ _ _ _ _ => True := by
  intro i op w _ _
  cases op with
  | createFromPreflight ns args owner source =>
    exact verified_createFromPreflight rfl fun _ _ _ => trivial
  | removePreflight ns id deleteSource => exact verified_removePreflight rfl fun _ _ _ => trivial
  | expirePreflights ns before order => exact verified_expirePreflights rfl fun _ _ _ => trivial
  | authorizeCleanup ns owner url referenced =>
    exact verified_authorizeCleanup rfl fun _ _ _ => trivial
  | queue op =>
    cases op with
    | finishClaimedRequest ns args =>
      exact verified_finishClaimedRequest_row rfl fun _ _ _ => trivial
    | stageRequest ns args =>
      have hplain : RowOp.Plain (.queue (.stageRequest ns args)) := fun _ _ h => by cases h
      change rowProtocol.wp i _ _ (stageRequest p ns args false) {} w
      exact verified_stageRequest_row hplain id fun _ _ _ => trivial
    | stageSharedFlightRequest ns args =>
      change rowProtocol.wp i _ _ (stageSharedFlightRequest p ns args) {} w
      unfold stageSharedFlightRequest
      split
      · trivial
      · split
        · trivial
        · have hplain : RowOp.Plain (.queue (.stageSharedFlightRequest ns args)) :=
            fun _ _ h => by cases h
          exact verified_stageRequest_row hplain id fun _ _ _ => trivial
    | claimNextRequest ns args =>
      exact verified_claimNextRequest_row (fun _ _ h => by cases h) fun _ _ _ => trivial
    | renewRequestLeases ns claims workerId =>
      exact verified_renewRequestLeases_row (fun _ _ h => by cases h) fun _ _ _ => trivial
    | cancelDisconnectedRequest ns requestId reason now =>
      exact verified_cancelDisconnectedRequest_row (fun _ _ h => by cases h) fun _ _ _ => trivial
    | cancelActiveRequestsForEngine ns identity reason now =>
      exact verified_cancelActiveRequestsForEngine_row (fun _ _ h => by cases h)
        fun _ _ _ => trivial
    | reconcileExpiredRequests ns =>
      exact verified_reconcileExpiredRequests_row (fun _ _ h => by cases h) fun _ _ _ => trivial
    | writeDatasource ns id row =>
      exact verified_writeDatasource_row (fun _ _ h => by cases h) fun _ _ _ => trivial
    | otherWork wakes markers =>
      exact verified_otherWork_row (fun _ _ h => by cases h) fun _ _ _ => trivial

end DataForge.Compute

