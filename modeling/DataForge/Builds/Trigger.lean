import DataForge.Builds.Events

/-!
# Schedules: verified operations

The operations on schedules meet the protocol: edits with their wakes, the claim of due
schedules, the enqueue under a claim, reconciliation, and the scan that publishes when the
namespace is due next.
-/

namespace DataForge.Builds

open ReadCommitted DataForge.Runtime

variable {p : Platform} {renews : Prop} {i : ℕ} {op : Op} {t : BuildTxn} {w : BuildWorld}
  {ns : String}

section Rows

/-- One more change of a schedule by an operation that is no edit. -/
theorem Mine.schedule (hm : Mine p i op t w) (e : BuildEnv) {id : String} (row : Schedule)
    (hc : ScheduleChange p op ns id (scheduleAt (view t.writes w.db) ns id) (some row))
    (hedit : ¬op.edits ns)
    (hreleased : ∀ x, row.releasedBy = some x →
      (∃ s0, scheduleAt (view t.writes w.db) ns id = some s0 ∧ s0.releasedBy = some x) ∨
        (op.reconciles ns x ∧ ∃ r, runAt (view t.writes w.db) ns x = some r ∧
          r.status.isTerminal = true ∧ r.scheduleId = some id ∧
          row.lastTriggeredAt.all (· ≤ r.createdAt) = true)) :
    Mine p i op (t.after e ⟨[], [.tenant ns (.schedule id (some row))]⟩) w := by
  refine hm.unit ((Over.refl hm.within.guarded).schedule e hc) ?_
  rw [view_write]
  refine Joint.schedule ns id (fun _ _ => jobAt_schedule _) (fun _ _ => runAt_schedule _)
    (fun _ _ => eventAt_schedule _ _) (fun _ _ hne => scheduleAt_schedule_of_ne _ hne)
    (fun h => absurd h hedit) fun s x hs hx => ?_
  rw [scheduleAt_schedule] at hs
  cases hs
  rw [runAt_schedule]
  exact hreleased x hx

/-- An edited schedule and its wake. -/
theorem Mine.edit (hm : Mine p i op t w) (e e' : BuildEnv) (now : ℕ) {id : String}
    {row : Schedule} {wake : ℕ}
    (hc : ScheduleChange p op ns id (scheduleAt (view t.writes w.db) ns id) (some row))
    (hnone : (view t.writes w.db).work.wakes.get wake = none)
    (hreleased : ∀ x, row.releasedBy = some x →
      ∃ s0, scheduleAt (view t.writes w.db) ns id = some s0 ∧ s0.releasedBy = some x) :
    Mine p i op ((t.after e ⟨[], [.tenant ns (.schedule id (some row))]⟩).after e'
      ⟨[], [.wake wake (some ⟨ns, .schedule, now, false⟩)]⟩) w := by
  refine hm.unit (((Over.refl hm.within.guarded).schedule e hc).wake e' _ ?_) ?_
  · rw [view_write, wakes_tenant]
    exact hnone
  · rw [view_write, view_write]
    refine Joint.schedule ns id (fun _ _ => (jobAt_wake _ _).trans (jobAt_schedule _))
      (fun _ _ => (runAt_wake _ _).trans (runAt_schedule _))
      (fun _ _ => (eventAt_wake _ _ _).trans (eventAt_schedule _ _))
      (fun _ _ hne => (scheduleAt_wake _ _).trans (scheduleAt_schedule_of_ne _ hne))
      (fun _ => NewWake.of_write ns .schedule now hnone) fun s x hs hx => ?_
    rw [scheduleAt_wake, scheduleAt_schedule] at hs
    cases hs
    exact Or.inl (hreleased x hx)

theorem schedule_held {w' : BuildWorld} {k : Lock (Resource TableRow)} {id : String}
    (hr : (protocol p renews).Rely t.held w w') (hk : k ∈ t.held)
    (hres : k.res = schedules.row ns id) :
    scheduleAt (view t.writes w'.db) ns id = scheduleAt (view t.writes w.db) ns id := by
  have hsame := view_same t.writes (hr.same hk)
  rw [hres] at hsame
  exact hsame

end Rows

section Editing

variable {Q : Reply → BuildTxn → BuildWorld → Prop}

variable {wakeId : ℕ}

/-- Appending the wake of an edit that has been staged, and committing. -/
theorem wp_commitEdit {id : String} {row : Schedule} {e : BuildEnv} {reply : Reply}
    (huns : op.unscheduled) (hm : Mine p i op t w)
    (hc : ScheduleChange p op ns id (scheduleAt (view t.writes w.db) ns id) (some row))
    (hreleased : ∀ x, row.releasedBy = some x →
      ∃ s0, scheduleAt (view t.writes w.db) ns id = some s0 ∧ s0.releasedBy = some x)
    (hQ : ∀ r t w, Q r t w) :
    (protocol p renews).wp i op Q
      (do
        let _ ← appendWake ns .schedule wakeId
        Script.commitNow
        pure reply)
      (t.after e ⟨[], [.tenant ns (.schedule id (some row))]⟩) w := by
  apply wp_appendWake
  intro w1 e1 hr1 hi1 hs1 hnone1
  have hsub := t.held_subset_after e ⟨[], [.tenant ns (.schedule id (some row))]⟩
  -- the schedule is held since it was written
  have hsame : scheduleAt (view t.writes w1.db) ns id = scheduleAt (view t.writes w.db) ns id :=
    view_same t.writes (hr1.same (granted_write t e _))
  have hwake : (view t.writes w1.db).work.wakes.get wakeId = none := by
    rwa [hs1.db, view_write, wakes_tenant] at hnone1
  have hm1 := (hm.rely (hr1.mono hsub)).edit e e1 e1.now (by rw [hsame]; exact hc) hwake
    (by rw [hsame]; exact hreleased)
  apply Protocol.wp_commit
  intro w2 hr2 _ _
  exact ⟨(hm1.rely hr2).commit huns, hQ _ _ _⟩

variable {R : Unit → BuildTxn → BuildWorld → Prop}

private theorem wp_triggerDatasource (triggerOn : Option String)
    (hQ : ∀ began w', (protocol p renews).Rely t.held w w' →
      R () ⟨t.held, t.writes, began⟩ w') (t' : BuildTxn) (w' : BuildWorld)
    (hh : t'.held = t.held) (hw : t'.writes = t.writes)
    (hr : (protocol p renews).Rely t.held w w') :
    (protocol p renews).wp i op R (match truthy triggerOn with
      | none => pure ()
      | some id => do
        let found ← Script.query fun e => (e.db.tenants ns).datasources.get id
        if found.isNone then .raise ("Datasource " ++ id ++ " not found")
        else pure ()) t' w' := by
  split
  · have h := hQ t'.began w' hr
    rw [← hh, ← hw] at h
    exact h
  · apply Protocol.wp_query
    intro w1 e1 hr1 _ _
    split
    · trivial
    · rw [hh, hw]
      rw [hh] at hr1
      exact hQ _ w1 (hr.trans hr1)

theorem wp_validateScheduleReferences {dependsOn triggerOn : Option String}
    (hQ : ∀ began w', (protocol p renews).Rely t.held w w' →
      R () ⟨t.held, t.writes, began⟩ w') :
    (protocol p renews).wp i op R (validateScheduleReferences ns dependsOn triggerOn) t w := by
  unfold validateScheduleReferences
  cases truthy dependsOn with
  | none => exact wp_triggerDatasource triggerOn hQ t w rfl rfl .refl
  | some id =>
    apply Protocol.wp_query
    intro w1 e1 hr1 _ _
    simp only [Script.pure_eq_done, Script.done_bind]
    split
    · trivial
    · exact wp_triggerDatasource triggerOn hQ _ w1 rfl rfl hr1

theorem wp_commitWake {reply : Reply} (huns : op.unscheduled) (hm : Mine p i op t w)
    (hQ : ∀ r t w, Q r t w) :
    (protocol p renews).wp i op Q
      (do
        let _ ← appendWake ns .schedule wakeId
        Script.commitNow
        pure reply) t w := by
  apply wp_appendWake
  intro w1 e1 hr1 _ hs1 hnone
  have hm1 := (hm.rely hr1).wake e1 ⟨ns, .schedule, e1.now, false⟩ (by rw [← hs1.db]; exact hnone)
  apply Protocol.wp_commit
  intro w2 hr2 _ _
  exact ⟨(hm1.rely hr2).commit huns, hQ _ _ _⟩

theorem verified_createSchedule {args : CreateScheduleArgs} (hop : op = .createSchedule ns args)
    (hQ : ∀ r t w, Q r t w) :
    (protocol p renews).wp i op Q (createSchedule p ns args) {} w := by
  have huns : op.unscheduled := fun _ _ he => by rw [hop] at he; cases he
  unfold createSchedule
  split
  · trivial
  · apply Protocol.wp_query
    intro w1 e1 hr1 _ _
    dsimp only
    split
    · trivial
    · split
      · trivial
      · rw [Protocol.wp_bind]
        refine wp_validateScheduleReferences fun began w2 hr2 => ?_
        apply wp_insert
        intro w3 e3 hr3 hi3 hs3 hnone
        have hseen : scheduleAt w3.db ns args.id = none := by
          rw [← show e3.db = w3.db from hs3.db]
          exact hnone
        refine wp_commitEdit huns (t := ⟨[], [], began⟩) (Mine.of_nil rfl) ?_ ?_ hQ
        · change ScheduleChange p op ns args.id (scheduleAt w3.db ns args.id) _
          rw [hseen]
          exact .create args hop
        · exact fun x hx => by cases hx

theorem verified_updateSchedule {args : UpdateScheduleArgs} (hop : op = .updateSchedule ns args)
    (hQ : ∀ r t w, Q r t w) :
    (protocol p renews).wp i op Q (updateSchedule p ns args) {} w := by
  have huns : op.unscheduled := fun _ _ he => by rw [hop] at he; cases he
  -- the row is loaded without a lock, so what is flushed meets whatever is there by then
  have hflush (loaded : Schedule) (t : BuildTxn) (w : BuildWorld) (ht : t.writes = []) :
      (protocol p renews).wp i op Q (do
        let updated ← if updatedSchedule p args loaded loaded = loaded then pure (some loaded)
          else schedules.update ns args.id liveSchedule (fun _ => updatedSchedule p args loaded)
        if updated.isNone then
          .raise "UPDATE statement on table 'schedules' expected to update 1 row"
        else do
          let _ ← appendWake ns .schedule args.wakeId
          Script.commitNow
          pure (.schedule updated)) t w := by
    split
    · exact wp_commitWake huns (Mine.of_nil ht) hQ
    · apply wp_update
      · exact fun _ _ _ _ _ _ => trivial
      · intro w1 e1 a hr1 hi1 hs1 hget _
        have hseen : scheduleAt (view t.writes w1.db) ns args.id = some a := by
          rw [← hs1.db]
          exact hget
        refine wp_commitEdit huns (Mine.of_nil ht) ?_ ?_ hQ
        · rw [hseen]
          exact .update args loaded a hop
        · exact fun x hx => ⟨a, hseen, hx⟩
  unfold updateSchedule
  dsimp only
  split
  · trivial
  · apply Protocol.wp_query
    intro w1 e1 hr1 _ _
    dsimp only
    split
    · trivial
    · next loaded _ =>
      split
      · rw [Script.pure_eq_done, Script.done_bind, if_neg Bool.false_ne_true, Protocol.wp_bind]
        exact wp_validateScheduleReferences fun began w2 _ => hflush loaded _ w2 rfl
      · apply Protocol.wp_query
        intro w2 e2 hr2 _ _
        rw [Script.pure_eq_done, Script.done_bind]
        split
        · trivial
        · rw [Protocol.wp_bind]
          exact wp_validateScheduleReferences fun began w3 _ => hflush loaded _ w3 rfl

theorem verified_deleteSchedule {id : String} (hop : op = .deleteSchedule ns id wakeId)
    (hQ : ∀ r t w, Q r t w) :
    (protocol p renews).wp i op Q (deleteSchedule ns id wakeId) {} w := by
  have huns : op.unscheduled := fun _ _ he => by rw [hop] at he; cases he
  unfold deleteSchedule
  apply Protocol.wp_query
  intro w1 e1 hr1 _ _
  dsimp only
  split
  · trivial
  · apply wp_update
    · intro w2 e2 _ _ _ _
      exact wp_commitWake huns (Mine.of_nil rfl) hQ
    · intro w2 e2 a hr2 hi2 hs2 hget _
      have hseen : scheduleAt w2.db ns id = some a := by
        rw [← show e2.db = w2.db from hs2.db]
        exact hget
      refine wp_commitEdit huns (t := ⟨[], [], some e1.began⟩) (Mine.of_nil rfl) ?_ ?_ hQ
      · change ScheduleChange p op ns id (scheduleAt w2.db ns id) _
        rw [hseen]
        exact .delete wakeId a hop
      · exact fun x hx => ⟨a, hseen, hx⟩

theorem verified_markScheduleEnqueueFailed {args : EnqueueFailedArgs}
    (hop : op = .markScheduleEnqueueFailed ns args) (hQ : ∀ r t w, Q r t w) :
    (protocol p renews).wp i op Q (markScheduleEnqueueFailed ns args) {} w := by
  have huns : op.unscheduled := fun _ _ he => by rw [hop] at he; cases he
  unfold markScheduleEnqueueFailed
  apply wp_selectForUpdate
  · exact fun _ _ _ _ _ _ => hQ _ _ _
  · intro w1 e1 s hr1 hi1 hs1 hget hlive
    dsimp only
    split
    · trivial
    · have hm1 : Mine p i op
          (Txn.after {} e1 (lockRows [schedules.row ns args.scheduleId] .exclusive)) w1 :=
        Mine.of_nil rfl
      apply wp_update
      · intro w2 e2 _ _ _ _
        exact wp_commitWake huns (Mine.of_nil rfl) hQ
      · intro w2 e2 a hr2 hi2 hs2 hget2 _
        have hseen : scheduleAt w2.db ns args.scheduleId = some a := by
          rw [← show e2.db = w2.db from hs2.db]
          exact hget2
        refine wp_commitEdit huns (hm1.rely hr2) ?_ ?_ hQ
        · change ScheduleChange p op ns args.scheduleId (scheduleAt w2.db ns args.scheduleId) _
          rw [hseen]
          exact .fail args a hop
        · exact fun x hx => ⟨a, hseen, hx⟩

end Editing

section Claiming

/-- What the claim knows of a row it has locked: it is held, seen as it was selected, and its
lease may be taken. -/
structure Offered (ns : String) (args : ClaimDueArgs) (t : BuildTxn) (w : BuildWorld)
    (x : String × Schedule) : Prop where
  held : ∃ k ∈ t.held, k.res = schedules.row ns x.1
  seen : scheduleAt (view t.writes w.db) ns x.1 = some x.2
  lease : x.2.leaseOwner = none ∨ x.2.leaseOwner.any (· ∈ args.reclaimable) = true ∨
    x.2.leaseExpiresAt.any (· ≤ args.now) = true

variable {args : ClaimDueArgs}

private theorem Offered.rely {x : String × Schedule} {w' : BuildWorld}
    (h : Offered ns args t w x) (hr : (protocol p renews).Rely t.held w w') :
    Offered ns args t w' x := by
  obtain ⟨k, hk, hres⟩ := h.held
  exact ⟨h.held, (schedule_held hr hk hres).trans h.seen, h.lease⟩

private theorem Offered.after {x : String × Schedule} {e : BuildEnv} {id : String}
    {row : Option Schedule} (h : Offered ns args t w x) (hne : x.1 ≠ id) :
    Offered ns args (t.after e ⟨[], [.tenant ns (.schedule id row)]⟩) w x := by
  obtain ⟨k, hk, hres⟩ := h.held
  refine ⟨⟨k, t.held_subset_after _ _ hk, hres⟩, ?_, h.lease⟩
  rw [view_write, scheduleAt_schedule_of_ne _ (fun he => hne (Prod.ext_iff.mp he).2)]
  exact h.seen

variable {β : Type} {Q : β → BuildTxn → BuildWorld → Prop}

theorem wp_dueScheduleCandidates {rows : List (String × Schedule)} {now host : ℕ}
    {k : List (String × Schedule) → BuildScript β}
    (hk : ∀ due began w', due.Sublist rows → (protocol p renews).Rely t.held w w' →
      (protocol p renews).wp i op Q (k due) ⟨t.held, t.writes, began⟩ w') :
    (protocol p renews).wp i op Q (dueScheduleCandidates p ns rows now host >>= k) t w := by
  unfold dueScheduleCandidates
  rw [Script.bind_assoc]
  apply Protocol.wp_query
  intro w1 e1 hr1 _ _
  rw [Script.bind_assoc]
  apply Protocol.wp_query
  intro w2 e2 hr2 _ _
  rw [Script.bind_assoc]
  apply Protocol.wp_query
  intro w3 e3 hr3 _ _
  rw [Script.bind_assoc]
  apply Protocol.wp_query
  intro w4 e4 hr4 _ _
  exact hk _ _ _ List.filter_sublist (hr1.trans (hr2.trans (hr3.trans hr4)))

/-- The claims of a locked batch, by induction on the batch. -/
theorem wp_claimLocked {claimed : List String} {rows : List (String × Schedule)}
    {k : List String → BuildScript β} (hop : op = .claimDueSchedules ns args) (hm : Mine p i op t w)
    (hn : (rows.map Prod.fst).Nodup) (hrows : ∀ x ∈ rows, Offered ns args t w x)
    (hk : ∀ claimed t' w', Mine p i op t' w' →
      (protocol p renews).wp i op Q (k claimed) t' w') :
    (protocol p renews).wp i op Q (claimLocked ns args claimed rows >>= k) t w := by
  induction rows generalizing t w claimed with
  | nil => exact hk claimed t w hm
  | cons x rest ih =>
    obtain ⟨id, s⟩ := x
    rw [List.map_cons, List.nodup_cons] at hn
    have hne (y : String × Schedule) (hy : y ∈ rest) : y.1 ≠ id :=
      fun he => hn.1 (he ▸ List.mem_map.mpr ⟨y, hy, rfl⟩)
    unfold claimLocked
    rw [Script.bind_assoc]
    apply Protocol.wp_query
    intro w1 e1 hr1 hi1 hs1
    have hm1 := (hm.rely hr1).query (some e1.began)
    have hrows1 (y) (hy : y ∈ (id, s) :: rest) :
        Offered ns args ⟨t.held, t.writes, some e1.began⟩ w1 y := by
      have ho := (hrows y hy).rely hr1
      exact ⟨ho.held, ho.seen, ho.lease⟩
    split
    · exact ih hm1 hn.2 fun y hy => hrows1 y (List.mem_cons_of_mem _ hy)
    · rw [Script.bind_assoc]
      apply wp_update
      · intro w2 e2 hr2 _ _ _
        refine ih ((hm1.rely hr2).query _) hn.2 fun y hy => ?_
        have ho := (hrows1 y (List.mem_cons_of_mem _ hy)).rely hr2
        exact ⟨ho.held, ho.seen, ho.lease⟩
      · intro w2 e2 a hr2 hi2 hs2 hget _
        have ho := (hrows1 _ List.mem_cons_self).rely hr2
        have ha : a = s := by
          have hseen := ho.seen
          rw [← hs2.db] at hseen
          exact Option.some.inj (Eq.trans (Eq.symm hget) hseen)
        subst ha
        have hm2 : Mine p i op _ w2 := (hm1.rely hr2).schedule e2
          (claimedSchedule args (args.claimToken claimed.length) a)
          (by rw [show scheduleAt (view t.writes w2.db) ns id = some a from ho.seen]
              exact .claim args _ a hop ho.lease)
          (fun he => by rw [hop] at he; exact he) fun x hx => by cases hx
        simp only [Option.isNone_some, Bool.false_eq_true, if_false]
        split
        · exact hk _ _ _ hm2
        · exact ih hm2 hn.2 fun y hy =>
            ((hrows1 y (List.mem_cons_of_mem _ hy)).rely hr2).after (hne y hy)

private theorem lockedBatch_spec (ns : String) (args : ClaimDueArgs) (e : BuildEnv)
    (ids : List String) :
    ((lockedBatch ns args e ids).map Prod.fst).Nodup ∧
      ∀ x ∈ lockedBatch ns args e ids, scheduleAt e.db ns x.1 = some x.2 ∧
        claimableSchedule args (e.db.tenants ns) x.1 x.2 = true := by
  refine ⟨?_, fun x hx => ?_⟩
  · refine List.Nodup.sublist ((List.take_sublist _ _).map _) ?_
    refine ((List.perm_insertionSort _ _).map _).nodup_iff.mpr ?_
    exact (e.db.tenants ns).schedules.nodup.sublist (List.filter_sublist.map _)
  · have hmem := (List.mem_insertionSort _).mp (List.mem_of_mem_take hx)
    obtain ⟨hrow, hc⟩ := List.mem_filter.mp hmem
    simp only [Bool.and_eq_true] at hc
    exact ⟨(Table.mem_rows_iff _ _ _).mp hrow, hc.1.1⟩

private theorem claimable_lease {db : Tables} {id : String} {s : Schedule}
    (h : claimableSchedule args db id s = true) :
    s.leaseOwner = none ∨ s.leaseOwner.any (· ∈ args.reclaimable) = true ∨
      s.leaseExpiresAt.any (· ≤ args.now) = true := by
  simp only [claimableSchedule, Bool.and_eq_true, Bool.or_eq_true, decide_eq_true_eq] at h
  rcases h.2 with (h | h) | h
  · exact Or.inl h
  · exact Or.inr (Or.inl h)
  · exact Or.inr (Or.inr h)

/-- The batches of candidates, by induction on their number. -/
theorem wp_claimBatches {fuel : ℕ} {cursor : Option (ℕ × ℕ × String)} {claimed : List String}
    {k : List String → BuildScript β} (hop : op = .claimDueSchedules ns args) (hm : Mine p i op t w)
    (hk : ∀ claimed t' w', Mine p i op t' w' →
      (protocol p renews).wp i op Q (k claimed) t' w') :
    (protocol p renews).wp i op Q (claimBatches p ns args fuel cursor claimed >>= k) t w := by
  induction fuel generalizing t w cursor claimed with
  | zero => exact hk claimed t w hm
  | succ fuel ih =>
    unfold claimBatches
    rw [Script.bind_assoc]
    apply Protocol.wp_query
    intro w1 e1 hr1 hi1 hs1
    have hm1 := (hm.rely hr1).query (some e1.began)
    dsimp only
    split
    · exact hk claimed _ _ hm1
    · next last _ =>
      have hrest (claimed : List String) (t' : BuildTxn) (w' : BuildWorld)
          (hm' : Mine p i op t' w') (full : Prop) [Decidable full] :
          (protocol p renews).wp i op Q
            ((if args.limit ≤ claimed.length then pure claimed
              else if full then pure claimed
              else claimBatches p ns args fuel (some (candidateKey last)) claimed) >>= k)
            t' w' := by
        split
        · exact hk claimed t' w' hm'
        · split
          · exact hk claimed t' w' hm'
          · exact ih hm'
      rw [Script.bind_assoc]
      refine wp_dueScheduleCandidates fun due began w2 _ hr2 => ?_
      have hm2 := (hm1.rely hr2).query began
      split
      · exact hrest claimed _ _ hm2 _
      · simp only [Script.bind_assoc]
        apply Protocol.wp_statement
        intro w3 e3 hr3 hi3 hs3
        have hm3 := (hm2.rely hr3).lock e3 ((lockedBatch ns args e3 (due.map Prod.fst)).map
          fun s => schedules.row ns s.1) .exclusive
        refine wp_dueScheduleCandidates fun rows began4 w4 hsub hr4 => ?_
        have hm4 := (hm3.rely hr4).query began4
        obtain ⟨hnodup, hspec⟩ := lockedBatch_spec ns args e3 (due.map Prod.fst)
        refine wp_claimLocked hop hm4 (hnodup.sublist (hsub.map _)) (fun x hx => ?_)
          fun claimed' t' w' hm' => hrest claimed' t' w' hm' _
        obtain ⟨hseen, hclaim⟩ := hspec x (hsub.subset hx)
        have hdb : e3.db = view t.writes w3.db := hs3.db
        rw [hdb] at hseen
        have hrow : schedules.row ns x.1 ∈ (lockedBatch ns args e3 (due.map Prod.fst)).map
            fun s => schedules.row ns s.1 := List.mem_map.mpr ⟨x, hsub.subset hx, rfl⟩
        have hk := granted_lockRows ⟨t.held, t.writes, began⟩ e3 hrow
        refine ⟨⟨_, hk, rfl⟩, (schedule_held hr4 hk rfl).trans ?_, claimable_lease hclaim⟩
        rw [writes_lockRows]
        exact hseen

theorem verified_claimDueSchedules {R : Reply → BuildTxn → BuildWorld → Prop}
    (hop : op = .claimDueSchedules ns args) (hQ : ∀ r t w, R r t w) :
    (protocol p renews).wp i op R (claimDueSchedules p ns args) {} w := by
  have huns : op.unscheduled := fun _ _ he => by rw [hop] at he; cases he
  unfold claimDueSchedules
  split
  · exact hQ _ _ _
  · refine wp_claimBatches hop (Mine.of_nil rfl) fun claimed t1 w1 hm1 => ?_
    split
    · apply Protocol.wp_rollback
      exact fun _ _ _ => hQ _ _ _
    · apply Protocol.wp_commit
      intro w2 hr2 _ _
      refine ⟨(hm1.rely hr2).commit huns, ?_⟩
      apply Protocol.wp_query
      exact fun _ _ _ _ _ => hQ _ _ _

end Claiming

section Triggering

/-- What an enqueue relies on while it holds its schedule: the row is as it was selected, and
nobody else brings a run of it in flight. -/
structure Enqueueing (ns : String) (args : EnqueueArgs) (s : Schedule) (t : BuildTxn)
    (w : BuildWorld) : Prop where
  held : Granted t.held (schedules.row ns args.scheduleId)
  before : scheduleAt w.db ns args.scheduleId = some s
  idle : ∀ id r, runAt w.db ns id = some r → r.scheduleId = some args.scheduleId →
    r.status.isTerminal = true

variable {args : EnqueueArgs} {s : Schedule}

private theorem Enqueueing.rely {w' : BuildWorld} (h : Enqueueing ns args s t w)
    (hr : (protocol p renews).Rely t.held w w') :
    Enqueueing ns args s t w' := by
  obtain ⟨since, hk⟩ := h.held
  refine ⟨h.held, Eq.trans (hr.same hk) h.before, ?_⟩
  refine hr.stable (S := fun v : BuildWorld => ∀ id r, runAt v.db ns id = some r →
    r.scheduleId = some args.scheduleId → r.status.isTerminal = true) (fun _ _ _ hs => hs) ?_ h.idle
  intro v db j op' t' hc hidle id r hrun hsched
  have hstep := hc.act.run ns id
  rw [show runAt db ns id = some r from hrun] at hstep
  cases hold : runAt v.db ns id with
  | some b =>
    rw [hold] at hstep
    obtain ⟨r', hr', hd⟩ := hstep.descends
    cases hr'
    have hterm := hidle id b hold (hd.scheduleId.symm.trans hsched)
    rw [hd.status hterm]
    exact hterm
  | none =>
    -- a new run of the schedule takes the lock this transaction has
    rw [hold] at hstep
    obtain ⟨b, hnew, hd⟩ := hstep.staged
    obtain ⟨_, -, -, ⟨since', hk'⟩, -⟩ := hnew.ofSchedule (hd.scheduleId.symm.trans hsched)
    exact (hc.compatible.not_exclusive hk hk' rfl rfl).elim

private theorem Enqueueing.mono {t' : BuildTxn} (h : Enqueueing ns args s t w)
    (hh : t.held ⊆ t'.held) : Enqueueing ns args s t' w :=
  ⟨h.held.imp fun _ hm => hh hm, h.before, h.idle⟩

/-- The schedule has been triggered, and unless targets are left, something of it is in flight. -/
structure Triggered (ns : String) (args : EnqueueArgs) (s : Schedule) (left : Prop)
    (t : BuildTxn) : Prop where
  schedule : ∀ db, scheduleAt (view t.writes db) ns args.scheduleId =
    some (triggeredSchedule args s)
  inflight : left ∨ ∃ id r, (∀ db, runAt (view t.writes db) ns id = some r) ∧
    r.scheduleId = some args.scheduleId ∧ r.status.inflight = true

variable {Q : Unit → BuildTxn → BuildWorld → Prop}

/-- The fan-out, by induction on the targets. -/
theorem wp_enqueueTargets {n : ℕ} {targets : List (Except String BuildTarget)}
    (hop : op = .enqueueScheduleRun ns args) (hm : Mine p i op t w) (he : Enqueueing ns args s t w)
    (ht : Triggered ns args s (targets ≠ []) t)
    (hQ : ∀ t' w', Mine p i op t' w' → Enqueueing ns args s t' w' →
      Triggered ns args s False t' → Q () t' w') :
    (protocol p renews).wp i op Q (enqueueTargets p i ns args s n targets) t w := by
  induction targets generalizing t w n with
  | nil => exact hQ t w hm he ⟨ht.schedule, ht.inflight.imp_left fun hne => hne rfl⟩
  | cons target rest ih =>
    cases target with
    | error e => trivial
    | ok target =>
      unfold enqueueTargets
      rw [Protocol.wp_bind]
      refine wp_lockActiveDatasources hm fun t1 w1 hm1 hh1 hw1 hr1 => ?_
      have he1 := (he.rely hr1).mono hh1
      rw [Protocol.wp_bind]
      refine wp_stageBuild (by rw [hop]; rfl) hm1 (.scheduled args s target hop he1.held)
        fun t2 w2 hm2 hh2 hr2 hrun2 hsched₂ => ?_
      refine ih hm2 ((he1.rely hr2).mono hh2) ⟨fun db => ?_, Or.inr ⟨_, _, hrun2, rfl, rfl⟩⟩
      rw [hsched₂, hw1]
      exact ht.schedule db

theorem scheduleTargets_ne_nil (db : Tables) (scheduleId datasourceId : String)
    (kind : TargetKind) : scheduleTargets db scheduleId datasourceId kind ≠ [] := by
  have hreaders (kind : TargetKind) : (if readersOf db datasourceId ≠ [] then
      (readersOf db datasourceId).map fun r => readerTarget datasourceId r.1 r.2.1 r.2.2
    else if kind = .datasource then
      [.error ("Datasource " ++ datasourceId ++ " has no analysis reading it and cannot be " ++
        "re-ingested. Schedule an analysis output instead.")]
    else [.ok (ingestTarget scheduleId datasourceId (db.datasources.get datasourceId))]) ≠ [] := by
    split
    · next hne => exact fun he => hne (List.map_eq_nil_iff.mp he)
    · split <;> exact List.cons_ne_nil _ _
  cases kind with
  | analysis id => exact List.cons_ne_nil _ _
  | raw => exact hreaders .raw
  | datasource => exact hreaders .datasource

private theorem idle_of_hasInflightBuild {db : Tables} {scheduleId id : String} {r : BuildRun}
    (h : ¬hasInflightBuild db scheduleId = true) (hr : db.runs.get id = some r)
    (hsched : r.scheduleId = some scheduleId) : r.status.isTerminal = true := by
  by_contra hterm
  refine h (List.any_eq_true.mpr ⟨(id, r), (Table.mem_rows_iff _ _ _).mpr hr, ?_⟩)
  simp only [hsched, decide_true, Bool.true_and, inflight_eq_not_terminal]
  simpa using hterm

theorem verified_enqueueScheduleRun {R : Reply → BuildTxn → BuildWorld → Prop}
    (hop : op = .enqueueScheduleRun ns args) (hQ : ∀ r t w, R r t w) :
    (protocol p renews).wp i op R (enqueueScheduleRun p i ns args) {} w := by
  unfold enqueueScheduleRun
  apply wp_selectForUpdate
  · exact fun _ _ _ _ _ _ => trivial
  · intro w1 e1 s hr1 hi1 hs1 hget hlive
    set t1 : BuildTxn := Txn.after {} e1 (lockRows [schedules.row ns args.scheduleId] .exclusive)
    have hgrant : Granted t1.held (schedules.row ns args.scheduleId) :=
      ⟨e1.now, granted_lockRows _ e1 List.mem_cons_self⟩
    have hseen1 : scheduleAt w1.db ns args.scheduleId = some s := by
      rw [← show e1.db = w1.db from hs1.db]
      exact hget
    apply Protocol.wp_query
    intro w2 e2 hr2 hi2 hs2
    have hdb2 : e2.db = w2.db := hs2.db
    split
    · trivial
    · next hinflight =>
      have he2 : Enqueueing ns args s ⟨t1.held, [], some e2.began⟩ w2 := by
        obtain ⟨since, hk⟩ := hgrant
        refine ⟨⟨since, hk⟩, Eq.trans (hr2.same hk) hseen1, fun id r hrun hsched => ?_⟩
        rw [hdb2] at hinflight
        exact idle_of_hasInflightBuild hinflight hrun hsched
      split
      · trivial
      · next hstale =>
        rw [Bool.not_eq_true] at hstale
        apply Protocol.wp_query
        intro w3 e3 hr3 hi3 hs3
        dsimp only
        split
        · trivial
        · next d _ =>
          apply Protocol.wp_query
          intro w4 e4 hr4 hi4 hs4
          have he4 := (he2.rely hr3).rely hr4
          apply wp_update
          · intro w5 e5 hr5 hi5 hs5 hmiss
            have hseen := (he4.rely hr5).before
            rw [← show e5.db = w5.db from hs5.db] at hseen
            rw [show schedules.get ns args.scheduleId e5 = some s from hseen] at hmiss
            cases hmiss
          · intro w5 e5 a hr5 hi5 hs5 hget5 _
            have he5 := he4.rely hr5
            have ha : a = s := by
              have hseen := he5.before
              rw [← show e5.db = w5.db from hs5.db] at hseen
              exact Option.some.inj (Eq.trans (Eq.symm hget5) hseen)
            subst ha
            set t4 : BuildTxn := ⟨t1.held, [], some e4.began⟩
            have hc : ScheduleChange p op ns args.scheduleId
                (scheduleAt (view t4.writes w5.db) ns args.scheduleId)
                (some (triggeredSchedule args a)) := by
              rw [show scheduleAt (view t4.writes w5.db) ns _ = _ from he5.before]
              exact .trigger args a hop rfl hstale
            have hm4 : Mine p i op t4 w5 := Mine.of_nil rfl
            have hm5 := hm4.schedule e5 (triggeredSchedule args a) hc
              (fun he => by rw [hop] at he; exact he) fun x hx => Or.inl ⟨a, he5.before, hx⟩
            rw [Protocol.wp_bind]
            refine wp_enqueueTargets hop hm5
              ((Enqueueing.mk he5.held he5.before he5.idle : Enqueueing ns args a t4 w5).mono
                (t4.held_subset_after _ _))
              ⟨fun db => ?_, Or.inl (scheduleTargets_ne_nil _ _ _ _)⟩ fun t6 w6 hm6 he6 ht6 => ?_
            · rw [view_write]
              exact scheduleAt_schedule _
            · apply Protocol.wp_commit
              intro w7 hr7 _ _
              refine ⟨(hm6.rely hr7).act fun ns' args' hop' => ?_, hQ _ _ _⟩
              rw [hop] at hop'
              cases hop'
              have he7 := he6.rely hr7
              obtain ⟨id, r, hrun, hsched, hflight⟩ := ht6.inflight.resolve_left id
              refine ⟨a, he7.before, ?_, hstale, he7.idle, ht6.schedule _, id, r, hrun _, hsched,
                hflight⟩
              simpa [liveSchedule] using hlive

end Triggering

section Reconciling

variable {β : Type} {Q : β → BuildTxn → BuildWorld → Prop}

/-- `apply_schedule_run_reconciliation` changes at most the schedule of the build, which it
holds. -/
theorem wp_applyScheduleRunReconciliation {buildId : String} {now : ℕ}
    {k : Option Schedule → BuildScript β} (hop : op.reconciles ns buildId) (hedit : ¬op.edits ns)
    (hm : Mine p i op t w)
    (hk : ∀ s t' w', Mine p i op t' w' → (protocol p renews).wp i op Q (k s) t' w') :
    (protocol p renews).wp i op Q
      (applyScheduleRunReconciliation p ns buildId now >>= k) t w := by
  unfold applyScheduleRunReconciliation
  rw [Script.bind_assoc]
  apply Protocol.wp_query
  intro w1 e1 hr1 hi1 hs1
  have hm1 := (hm.rely hr1).query (some e1.began)
  cases hrun : (runs.get ns buildId e1).filter (fun r => r.status.isTerminal) with
  | none => exact hk _ _ _ hm1
  | some run =>
    obtain ⟨hfound, hterm⟩ := Option.filter_eq_some_iff.mp hrun
    have hrun1 : runAt (view t.writes w1.db) ns buildId = some run := by
      rw [← hs1.db]
      exact hfound
    dsimp only
    cases hsched : run.scheduleId with
    | none => exact hk _ _ _ hm1
    | some id =>
      dsimp only
      rw [Script.bind_assoc]
      apply wp_selectForUpdate
      · intro w2 e2 hr2 _ _ _
        exact hk _ _ _ ((hm1.rely hr2).lock e2 _ _)
      · intro w2 e2 s hr2 hi2 hs2 hget _
        have hm2 := (hm1.rely hr2).lock e2 [schedules.row ns id] .exclusive
        set t1 : BuildTxn := ⟨t.held, t.writes, some e1.began⟩
        set t2 := t1.after e2 (lockRows [schedules.row ns id] .exclusive) with ht2
        have hw2 : t2.writes = t.writes := writes_lockRows _ _ _ _
        dsimp only
        cases happly : applyReconciliation p buildId run now s with
        | none => exact hk _ _ _ hm2
        | some after =>
          dsimp only
          rw [Script.bind_assoc]
          apply wp_update
          · intro w3 e3 hr3 _ _ _
            exact hk _ _ _ ((hm2.rely hr3).query _)
          · intro w3 e3 a hr3 hi3 hs3 hget3 _
            -- the schedule is held since it was selected, and the run only grows older
            have hseen : scheduleAt (view t2.writes w3.db) ns id = some s := by
              have hk2 := granted_lockRows t1 e2 (List.mem_singleton_self (schedules.row ns id))
              refine (schedule_held hr3 hk2 rfl).trans ?_
              rw [hw2, ← show e2.db = view t.writes w2.db from hs2.db]
              exact hget
            obtain ⟨run', hrun', hd⟩ := run_view_rely hm.within.guarded
              (hr2.trans (hr3.mono (t1.held_subset_after _ _))) hrun1
            obtain ⟨-, -, -, -, htrig, -, hall, hrel⟩ := applyReconciliation_spec happly
            refine hk _ _ _ ((hm2.rely hr3).schedule e3 after ?_ hedit fun x hx => ?_)
            · rw [hseen]
              exact .reconcile buildId run now s after hop happly
            · rw [hrel] at hx
              split at hx
              · exact Or.inl ⟨s, hseen, hx⟩
              · cases hx
                refine Or.inr ⟨hop, run', ?_, by rwa [hd.status hterm],
                  hd.scheduleId.trans hsched, ?_⟩
                · rw [hw2]
                  exact hrun'
                · rw [htrig, hd.createdAt]
                  exact hall

theorem verified_reconcileScheduleRun {buildId : String} {now : ℕ}
    {R : Reply → BuildTxn → BuildWorld → Prop}
    (hop : op = .reconcileScheduleRun ns buildId now) (hQ : ∀ r t w, R r t w) :
    (protocol p renews).wp i op R (reconcileScheduleRun p ns buildId now) {} w := by
  unfold reconcileScheduleRun
  refine wp_applyScheduleRunReconciliation (by rw [hop]; exact ⟨rfl, rfl⟩)
    (fun he => by rw [hop] at he; exact he) (Mine.of_nil rfl) fun s t1 w1 hm1 => ?_
  cases s with
  | none => exact hQ _ _ _
  | some s =>
    apply Protocol.wp_commit
    intro w2 hr2 _ _
    exact ⟨(hm1.rely hr2).commit fun _ _ he => (by rw [hop] at he; cases he), hQ _ _ _⟩

/-- The pass over the candidates, by induction on their list. -/
theorem wp_reconcileAll {now count : ℕ} {ids : List String} {k : ℕ → BuildScript β}
    (hop : ∀ buildId, op.reconciles ns buildId) (hedit : ¬op.edits ns) (hm : Mine p i op t w)
    (hk : ∀ n t' w', Mine p i op t' w' → (protocol p renews).wp i op Q (k n) t' w') :
    (protocol p renews).wp i op Q (reconcileAll p ns now count ids >>= k) t w := by
  induction ids generalizing t w count with
  | nil => exact hk _ _ _ hm
  | cons id rest ih =>
    unfold reconcileAll
    rw [Script.bind_assoc]
    exact wp_applyScheduleRunReconciliation (hop id) hedit hm fun s t1 w1 hm1 => ih hm1

theorem verified_reconcilePendingScheduleRuns {limit now : ℕ}
    {R : Reply → BuildTxn → BuildWorld → Prop}
    (hop : op = .reconcilePendingScheduleRuns ns limit now) (hQ : ∀ r t w, R r t w) :
    (protocol p renews).wp i op R (reconcilePendingScheduleRuns p ns limit now) {} w := by
  unfold reconcilePendingScheduleRuns
  apply Protocol.wp_query
  intro w1 e1 _ _ _
  refine wp_reconcileAll (fun _ => by rw [hop]; rfl) (fun he => by rw [hop] at he; exact he)
    (Mine.of_nil rfl) fun n t2 w2 hm2 => ?_
  split
  · apply Protocol.wp_commit
    intro w3 hr3 _ _
    exact ⟨(hm2.rely hr3).commit fun _ _ he => (by rw [hop] at he; cases he), hQ _ _ _⟩
  · exact hQ _ _ _

end Reconciling
end DataForge.Builds
