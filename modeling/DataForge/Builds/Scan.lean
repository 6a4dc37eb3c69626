import DataForge.Builds.Trigger

/-!
# Schedules: the scan and the other queues

The two operations that move markers and acknowledge wakes meet the protocol:
`finish_schedule_work_scan`, which publishes when the namespace is due next, and the
transactions of the other queue kinds.
-/

namespace DataForge.Builds

open ReadCommitted DataForge.Runtime

/-- Operations on the work tables that leave builds alone. -/
def Op.scans : Op → Prop
  | .finishScheduleWorkScan .. | .otherWork .. => True
  | _ => False

/-- What such an operation may do to one resource: fill the next run of a schedule, and move
the markers and acknowledge the wakes of its own queues. -/
def WorkCell (p : Platform) (op : Op) (_ : BuildLocks)
    (r : Resource TableRow) (a b : Db Tables) : Prop :=
  match r with
  | .tenant ns (.schedule id) => ScheduleStep p op ns id (scheduleAt a ns id) (scheduleAt b ns id)
  | .tenant ns row => (b.tenants ns).Same (a.tenants ns) row
  | .wake id => b.work.wakes.get id = a.work.wakes.get id ∨
      ((a.work.wakes.get id ≠ none → b.work.wakes.get id ≠ none) ∧
        ∀ u, a.work.wakes.get id = some u → ∀ ns kind, u.live ns kind = true → op.acks ns kind)
  | .marker key => b.work.markers.get key = a.work.markers.get key ∨ op.acks key.1 key.2
  | .advisory _ => True

variable {p : Platform} {renews : Prop} {i : ℕ} {op : Op} {t : BuildTxn} {w : BuildWorld}
  {ns : String}

section Cells

theorem local_workCell (p : Platform) (op : Op) :
    Protocol.Local (Write TableWrite) (WorkCell p op) where
  refl h r db := by
    rcases r with ⟨ns, id | id | key | id | id | id⟩ | key | id | key
    all_goals first
      | exact Relation.ReflTransGen.refl
      | exact Or.inl rfl
      | exact Eq.refl _
      | trivial
  mono _ h := h
  congr {h r a a' b b'} ha hb hc := by
    rcases r with ⟨ns, id | id | key | id | id | id⟩ | key | id | key
    case tenant.schedule =>
      have ha' : scheduleAt a' ns id = scheduleAt a ns id := ha
      have hb' : scheduleAt b' ns id = scheduleAt b ns id := hb
      simp only [WorkCell, ha', hb'] at hc ⊢
      exact hc
    case wake =>
      have ha' : a'.work.wakes.get id = a.work.wakes.get id := ha
      have hb' : b'.work.wakes.get id = b.work.wakes.get id := hb
      simp only [WorkCell, ha', hb'] at hc ⊢
      exact hc
    case marker =>
      have ha' : a'.work.markers.get key = a.work.markers.get key := ha
      have hb' : b'.work.markers.get key = b.work.markers.get key := hb
      simp only [WorkCell, ha', hb'] at hc ⊢
      exact hc
    case advisory => trivial
    all_goals exact Eq.trans hb (Eq.trans hc (Eq.symm ha))

/-- A scan does not change who released a schedule. -/
theorem ScheduleStep.scanned {id : String} {x : Option Schedule} {a : Schedule}
    (hs : ScheduleStep p op ns id x (some a)) (hop : op.scans) :
    ∃ b, x = some b ∧ a.releasedBy = b.releasedBy := by
  have key : ∀ y, ScheduleStep p op ns id x y → ∀ c, y = some c →
      ∃ b, x = some b ∧ c.releasedBy = b.releasedBy := by
    intro y hy
    induction hy with
    | refl => exact fun c hc => ⟨c, hc, rfl⟩
    | tail _ hc ih =>
      intro c hy
      subst hy
      cases hc with
      | next args next m hop' => exact ih m rfl
      | create args hop' => rw [hop'] at hop; exact hop.elim
      | update args loaded m hop' => rw [hop'] at hop; exact hop.elim
      | delete wakeId m hop' => rw [hop'] at hop; exact hop.elim
      | claim args token m hop' => rw [hop'] at hop; exact hop.elim
      | trigger args m hop' => rw [hop'] at hop; exact hop.elim
      | fail args m hop' => rw [hop'] at hop; exact hop.elim
      | reconcile buildId run now m c hop' => cases op <;> first | exact hop.elim | exact hop'.elim
  exact key _ hs a rfl

/-- Committing what such an operation has staged. -/
theorem act_of_staged (hop : op.scans) (hs : Protocol.Staged (WorkCell p op) t w) :
    Act p renews i op t.held w (view t.writes w.db) := by
  have hjob (ns id : String) : jobAt (view t.writes w.db) ns id = jobAt w.db ns id :=
    hs (.tenant ns (.job id))
  have hrun (ns id : String) : runAt (view t.writes w.db) ns id = runAt w.db ns id :=
    hs (.tenant ns (.run id))
  have hevent (ns : String) (key : String × ℕ) :
      eventAt (view t.writes w.db) ns key = eventAt w.db ns key := hs (.tenant ns (.event key))
  have hschedule (ns id : String) : ScheduleStep p op ns id (scheduleAt w.db ns id)
      (scheduleAt (view t.writes w.db) ns id) := hs (.tenant ns (.schedule id))
  refine
    { job := fun ns id => by rw [hjob]; exact .refl
      run := fun ns id => by rw [hrun]; exact .refl
      schedule := hschedule
      datasource := fun ns id => Or.inl (hs (.tenant ns (.datasource id)))
      joint :=
        { owned := fun ns id j hx hj => by rw [hjob, hx] at hj; cases hj
          woken := fun ns id hx hj => absurd ((hjob ns id).trans hx) hj
          settled := fun ns id x j hx hn hj ht => by
            rw [hjob, hx] at hj
            cases hj
            rw [hn] at ht
            cases ht
          alarmed := fun ns id x r hx hn _ hr ht => by
            rw [hrun, hx] at hr
            cases hr
            rw [hn] at ht
            cases ht
          edited := fun ns id hedit _ => by cases op <;> first | exact hop.elim | exact hedit.elim
          logged := fun ns id => .of_rows (hrun ns id) fun n => hevent ns (id, n)
          released := fun ns id s x hx hrel => by
            have hstep := hschedule ns id
            rw [hx] at hstep
            obtain ⟨s0, hs0, hsame⟩ := hstep.scanned hop
            exact Or.inl ⟨s0, hs0, hsame.symm.trans hrel⟩ }
      enqueued := fun ns args he => by rw [he] at hop; exact hop.elim
      issued := fun id hid => ?_
      still := fun ns kind _ hack => ⟨?_, fun id hl => ?_⟩
      refreshed := fun _ ns hex => by cases op <;> first | exact hop.elim | exact hex.elim }
  · rcases hs (.wake id) with hsame | ⟨hne, -⟩
    · rwa [hsame]
    · exact hne hid
  · exact (hs (.marker (ns, kind))).resolve_right hack
  · obtain ⟨u, hu, hlive⟩ := hl
    rcases hs (.wake id) with hsame | ⟨-, hacked⟩
    · exact ⟨u, hsame.trans hu, hlive⟩
    · exact absurd (hacked u hu ns kind hlive) hack

end Cells

section Scanning

variable {β : Type} {Q : β → BuildTxn → BuildWorld → Prop}

private theorem staged_marker {kind : RuntimeWorkKind} (hacks : op.acks ns kind)
    (hs : Protocol.Staged (WorkCell p op) t w) (e : BuildEnv) (row : Option Marker) :
    Protocol.Staged (WorkCell p op) (t.after e ⟨[], [.marker (ns, kind) row]⟩) w := by
  refine hs.write (local_workCell p op) fun v hv => ?_
  cases List.mem_singleton.mp hv
  exact Or.inr hacks

/-- The rows without a next run are filled, by induction on their list. -/
theorem wp_fillNextRuns {now : ℕ} {rows : List (String × Schedule)}
    {k : List ℕ → BuildScript β} {args : FinishScanArgs}
    (hop : op = .finishScheduleWorkScan ns args) (hg : t.Guarded)
    (hs : Protocol.Staged (WorkCell p op) t w)
    (hk : ∀ l t' w', t'.Guarded → Protocol.Staged (WorkCell p op) t' w' →
      (protocol p renews).wp i op Q (k l) t' w') :
    (protocol p renews).wp i op Q (fillNextRuns p ns now rows >>= k) t w := by
  induction rows generalizing t w k with
  | nil => exact hk [] t w hg hs
  | cons x rest ih =>
    obtain ⟨id, s⟩ := x
    unfold fillNextRuns
    split
    · rw [Script.bind_assoc]
      exact ih hg hs fun l t' w' hg' hs' => hk _ t' w' hg' hs'
    · split
      · exact ih hg hs hk
      · next next _ =>
        rw [Script.bind_assoc]
        apply wp_update
        · intro w1 e1 hr1 _ _ _
          rw [Script.bind_assoc]
          exact ih hg (hs.rely (local_workCell p op) hg hr1)
            fun l t' w' hg' hs' => hk _ t' w' hg' hs'
        · intro w1 e1 a hr1 hi1 hs1 hget _
          have hseen : scheduleAt (view t.writes w1.db) ns id = some a := by
            rw [← hs1.db]
            exact hget
          have hs' := hs.rely (local_workCell p op) hg hr1
          rw [Script.bind_assoc]
          refine ih (hg.after _ _) (hs'.write (local_workCell p op) fun v hv => ?_)
            fun l t' w' hg' hs' => hk _ t' w' hg' hs'
          cases List.mem_singleton.mp hv
          have hstep : ScheduleStep p op ns id (scheduleAt w1.db ns id)
              (scheduleAt (view t.writes w1.db) ns id) := hs' (.tenant ns (.schedule id))
          rw [hseen] at hstep
          change ScheduleStep p op ns id (scheduleAt w1.db ns id) (scheduleAt
            ((view t.writes w1.db).write (.tenant ns (TableWrite.schedule id
              (some { a with nextRun := some next })))) ns id)
          rw [scheduleAt_schedule]
          exact hstep.tail (.next args next a hop)

private theorem staged_acknowledge {ids : List ℕ} (hacks : op.acks ns .schedule)
    (hs : Protocol.Staged (WorkCell p op) t w) (e : BuildEnv) (hdb : e.db = view t.writes w.db) :
    Protocol.Staged (WorkCell p op)
      (t.after e { writes := acknowledge e.db.work ns .schedule ids }) w := by
  refine hs.write (local_workCell p op) fun v hv => ?_
  obtain ⟨id, u, rfl, -, hu, hlive⟩ := mem_acknowledge hv
  rw [hdb] at hu
  refine Or.inr ⟨fun _ => ?_, fun u0 hu0 ns' kind' hlive' => ?_⟩
  · rcases view_acknowledge (W := TableWrite) ns .schedule e.db.work ids
      (view t.writes w.db) id with
      ⟨x, -, -, -, hx⟩ | ⟨-, hx⟩
    · exact ne_of_eq_of_ne hx (Option.some_ne_none _)
    · exact ne_of_eq_of_ne (hx.trans hu) (Option.some_ne_none _)
  · rcases hs (.wake id) with hsame | ⟨-, hacked⟩
    · rw [hsame, hu0] at hu
      cases hu
      simp only [Wake.live, Bool.and_eq_true, decide_eq_true_eq] at hlive hlive'
      rw [← hlive'.1.1, ← hlive'.1.2, hlive.1.1, hlive.1.2]
      exact hacks
    · exact hacked u0 hu0 ns' kind' hlive'

private theorem staged_missing (hacks : op.acks ns .schedule)
    (hs : Protocol.Staged (WorkCell p op) t w) (e : BuildEnv) :
    Protocol.Staged (WorkCell p op) (t.after e
      (match e.db.work.markers.get (ns, .schedule) with
        | none => { writes := [.marker (ns, .schedule) (some ⟨false, 0, 0, none, e.now⟩)] }
        | some _ => {})) w := by
  split
  · exact staged_marker hacks hs e _
  · exact hs.lock (local_workCell p op)

/-- `finish_schedule_scan` stays within the work tables of its queue. -/
theorem wp_finishScheduleScan {generation : ℕ} {dueAt : Option ℕ} {wakeIds : List ℕ}
    {k : Unit → BuildScript β} (hacks : op.acks ns .schedule) (hg : t.Guarded)
    (hs : Protocol.Staged (WorkCell p op) t w)
    (hk : ∀ t' w', t'.Guarded → Protocol.Staged (WorkCell p op) t' w' →
      (protocol p renews).wp i op Q (k ()) t' w') :
    (protocol p renews).wp i op Q
      (finishScheduleScan ns generation dueAt wakeIds >>= k) t w := by
  have hl := local_workCell p op
  unfold finishScheduleScan
  rw [Script.bind_assoc]
  apply Protocol.wp_statement
  intro w1 e1 hr1 _ _
  have hs1 := hs.rely hl hg hr1
  have hmarked := staged_missing hacks hs1 e1
  have hlast (t' : BuildTxn) (w' : BuildWorld) (hg' : t'.Guarded)
      (hs' : Protocol.Staged (WorkCell p op) t' w') :
      (protocol p renews).wp i op Q ((do
        let scanned ← scanMarker ns generation dueAt
        if scanned then pure ()
        else .raise ("Schedule work changed while scanning namespace " ++ ns)) >>= k) t' w' := by
    rw [Script.bind_assoc]
    apply Protocol.wp_statement
    intro w2 e2 hr2 _ _
    have hs2 := hs'.rely hl hg' hr2
    cases hm : (e2.db.work.markers.get (ns, .schedule)).filter (·.generation = generation) with
    | none => trivial
    | some m => exact hk _ _ (hg'.after _ _) (staged_marker hacks hs2 e2 _)
  rw [Script.bind_assoc]
  unfold deleteWakes
  split
  · apply Protocol.wp_statement
    intro w2 e2 hr2 _ hsees
    exact hlast _ _ ((hg.after _ _).after _ _) (staged_acknowledge hacks
      (hmarked.rely hl (hg.after _ _) hr2) e2 hsees.db)
  · exact hlast _ _ (hg.after _ _) hmarked

theorem verified_finishScheduleWorkScan {args : FinishScanArgs}
    {R : Reply → BuildTxn → BuildWorld → Prop}
    (hop : op = .finishScheduleWorkScan ns args) (hQ : ∀ r t w, R r t w) :
    (protocol p renews).wp i op R (finishScheduleWorkScan p ns args) {} w := by
  have hl := local_workCell p op
  unfold finishScheduleWorkScan nextScheduleNamespaceDueAt
  simp only [Script.bind_assoc]
  apply Protocol.wp_query
  intro w1 e1 _ _ _
  apply Protocol.wp_query
  intro w2 e2 _ _ _
  apply Protocol.wp_query
  intro w3 e3 _ _ _
  have hs3 : Protocol.Staged (WorkCell p op) (⟨[], [], some e3.began⟩ : BuildTxn) w3 :=
    fun r => hl.refl _ r _
  refine wp_fillNextRuns hop (fun v hv => by cases hv) hs3 fun filled t4 w4 hg4 hs4 => ?_
  rw [Script.pure_eq_done, Script.done_bind]
  refine wp_finishScheduleScan (by rw [hop]; exact ⟨rfl, rfl⟩) hg4 hs4 fun t5 w5 hg5 hs5 => ?_
  apply Protocol.wp_commit
  intro w6 hr6 _ _
  exact ⟨act_of_staged (by rw [hop]; trivial) (hs5.rely hl hg5 hr6), hQ _ _ _⟩

theorem verified_otherWork {wakes : List (ℕ × Wake)}
    {markers : List ((String × RuntimeWorkKind) × Marker)}
    {R : Reply → BuildTxn → BuildWorld → Prop} (hop : op = .otherWork wakes markers)
    (hQ : ∀ r t w, R r t w) :
    (protocol p renews).wp i op R (otherWork wakes markers) {} w := by
  have hl := local_workCell p op
  have hacks (ns : String) (kind : RuntimeWorkKind) (hk : RuntimeWorkKind.ofBuilds kind = false) :
      op.acks ns kind := by rw [hop]; exact hk
  unfold otherWork
  apply Protocol.wp_statement
  intro w1 e1 _ _ hsees
  have hs0 : Protocol.Staged (WorkCell p op) ({} : BuildTxn) w1 := fun r => hl.refl _ r _
  have hdb : e1.db = w1.db := hsees.db
  set writes : List (Write TableWrite) := (wakes.filter fun w =>
      !RuntimeWorkKind.ofBuilds w.2.kind &&
        (e1.db.work.wakes.get w.1).all (!RuntimeWorkKind.ofBuilds ·.kind)).map
          (fun w => Write.wake w.1 (some w.2)) ++
      (markers.filter fun m => !RuntimeWorkKind.ofBuilds m.1.2).map
        fun m => Write.marker m.1 (some m.2) with hwrites
  have hforms : ∀ v ∈ writes, (∃ id row, v = .wake id (some row)) ∨
      ∃ key row, v = .marker key row := by
    intro v hv
    rcases List.mem_append.mp hv with hv | hv
    · obtain ⟨x, -, rfl⟩ := List.mem_map.mp hv
      exact Or.inl ⟨_, _, rfl⟩
    · obtain ⟨x, -, rfl⟩ := List.mem_map.mp hv
      exact Or.inr ⟨_, _, rfl⟩
  have hs1 : Protocol.Staged (WorkCell p op) (Txn.after {} e1 ⟨[], writes⟩) w1 := by
    refine hs0.write hl fun v hv => ?_
    rcases List.mem_append.mp hv with hv | hv
    · obtain ⟨x, hx, rfl⟩ := List.mem_map.mp hv
      obtain ⟨-, hold⟩ := Bool.and_eq_true_iff.mp (List.mem_filter.mp hx).2
      refine Or.inr ⟨(view_work w1.db hforms).2 x.1, fun u hu ns kind hlive => hacks ns kind ?_⟩
      rw [hdb, hu] at hold
      simp only [Wake.live, Bool.and_eq_true, decide_eq_true_eq] at hlive
      rw [← hlive.1.2]
      simpa using hold
    · obtain ⟨x, hx, rfl⟩ := List.mem_map.mp hv
      exact Or.inr (hacks _ _ (by simpa using (List.mem_filter.mp hx).2))
  apply Protocol.wp_commit
  intro w2 hr2 _ _
  exact ⟨act_of_staged (by rw [hop]; trivial)
    (hs1.rely hl (Txn.guarded_empty.after _ _) hr2), hQ _ _ _⟩

end Scanning
end DataForge.Builds
