import DataForge.Builds.Safety
import DataForge.ReadCommitted.Reading

/-!
# Schedules: overlapping scans

A scan captures the wakes and the generation of a namespace, works in other transactions and
finishes: it deletes what it captured and moves the marker on, unless another scan has finished
since its capture.
-/

namespace DataForge.Builds

open ReadCommitted DataForge.Runtime

/-- What a scan with these captured ids makes of the wake row `id`. -/
def Acked (ns : String) (ids : List ℕ) (id : ℕ) (a b : Option Wake) : Prop :=
  b = a ∨ id ∈ ids ∧ ∃ u, a = some u ∧ u.live ns .schedule = true ∧
    b = some { u with acknowledged := true }

/-- What a scan of this generation makes of the marker of its namespace. -/
inductive Marked (generation : ℕ) : Option Marker → Option Marker → Prop where
  | same (a : Option Marker) : Marked generation a a
  | inserted (now : ℕ) : Marked generation none (some ⟨false, 0, 0, none, now⟩)
  | scanned {a : Option Marker} {m : Marker} (ha : (a.map Marker.generation).getD 0 = generation)
      (hm : m.generation = generation + 1) : Marked generation a (some m)

/-- What the commit of a scan does to the work tables. -/
structure Scanned (ns : String) (args : FinishScanArgs) (a b : Work) : Prop where
  generation : a.generation ns .schedule = args.generation
  marker : ∃ m, b.markers.get (ns, .schedule) = some m ∧ m.generation = args.generation + 1
  markers (key : String × RuntimeWorkKind) :
    key ≠ (ns, .schedule) → b.markers.get key = a.markers.get key
  wakes (id : ℕ) : Acked ns args.wakeIds id (a.wakes.get id) (b.wakes.get id)

/-- What a scan stages, resource by resource. -/
def ScanCell (ns : String) (args : FinishScanArgs) (_ : BuildLocks)
    (r : Resource TableRow) (a b : Db Tables) : Prop :=
  match r with
  | .wake id => Acked ns args.wakeIds id (a.work.wakes.get id) (b.work.wakes.get id)
  | .marker key => (key ≠ (ns, .schedule) → b.work.markers.get key = a.work.markers.get key) ∧
      (key = (ns, .schedule) →
        Marked args.generation (a.work.markers.get key) (b.work.markers.get key))
  | _ => True

/-- The protocol of the scans: it asks nothing of the other operations. -/
def scans : Protocol Op (Db Tables) (Write TableWrite) (Resource TableRow) where
  visited _ _ _ := True
  calls _ := True
  inv _ := True
  act _ op _ w db :=
    ∀ ns args, op = .finishScheduleWorkScan ns args → Scanned ns args w.db.work db.work
  cond _ _ _ := True
  inv_tick _ _ := trivial
  inv_act _ _ _ _ := trivial

section Staging

variable {ns : String} {args : FinishScanArgs} {i : ℕ} {op : Op} {t : BuildTxn}
  {w : BuildWorld} {β : Type} {Q : β → BuildTxn → BuildWorld → Prop}

theorem local_scanCell (ns : String) (args : FinishScanArgs) :
    Protocol.Local (Write TableWrite) (ScanCell ns args) where
  refl h r db := by
    cases r with
    | tenant => trivial
    | advisory => trivial
    | wake id => exact Or.inl rfl
    | marker key => exact ⟨fun _ => rfl, fun _ => .same _⟩
  mono _ h := h
  congr {h r a a' b b'} ha hb hc := by
    cases r with
    | tenant => trivial
    | advisory => trivial
    | wake id =>
      have ha' : a'.work.wakes.get id = a.work.wakes.get id := ha
      have hb' : b'.work.wakes.get id = b.work.wakes.get id := hb
      simp only [ScanCell, ha', hb'] at hc ⊢
      exact hc
    | marker key =>
      have ha' : a'.work.markers.get key = a.work.markers.get key := ha
      have hb' : b'.work.markers.get key = b.work.markers.get key := hb
      simp only [ScanCell, ha', hb'] at hc ⊢
      exact hc

theorem staged_tenant {e : BuildEnv} {f : Effect (Write TableWrite) (Resource TableRow)}
    (hs : Protocol.Staged (ScanCell ns args) t w)
    (hf : ∀ v ∈ f.writes, ∃ ns' row, v = .tenant ns' row) :
    Protocol.Staged (ScanCell ns args) (t.after e f) w := by
  refine hs.write (local_scanCell ns args) fun v hv => ?_
  obtain ⟨ns', row, rfl⟩ := hf v hv
  trivial

theorem Marked.generation_eq {generation : ℕ} {a : Option Marker} {m : Marker}
    (h : Marked generation a (some m)) (hm : m.generation = generation) :
    (a.map Marker.generation).getD 0 = generation := by
  cases h with
  | same => exact hm
  | inserted now => exact hm
  | scanned ha hm' => exact ha

theorem staged_ensureMarker (hs : Protocol.Staged (ScanCell ns args) t w) (e : BuildEnv)
    (hdb : e.db = view t.writes w.db) :
    Protocol.Staged (ScanCell ns args) (t.after e
      (match e.db.work.markers.get (ns, .schedule) with
        | none => { writes := [.marker (ns, .schedule) (some ⟨false, 0, 0, none, e.now⟩)] }
        | some _ => {})) w := by
  split
  · next hnone =>
    refine hs.write (local_scanCell ns args) fun v hv => ?_
    cases List.mem_singleton.mp hv
    refine ⟨fun hne => absurd rfl hne, fun _ => ?_⟩
    have hmarked := (hs (.marker (ns, .schedule))).2 rfl
    rw [← hdb, hnone] at hmarked
    change Marked args.generation (w.db.work.markers.get (ns, .schedule))
      (((view t.writes w.db).work.markers.put (ns, .schedule) _).get (ns, .schedule))
    rw [Table.get_put, if_pos rfl]
    generalize w.db.work.markers.get (ns, .schedule) = a at hmarked ⊢
    cases hmarked
    exact .inserted e.now
  · exact hs.lock (local_scanCell ns args)

/-- The captured wakes are acknowledged. -/
theorem staged_deleteWakes (hs : Protocol.Staged (ScanCell ns args) t w) (e : BuildEnv)
    (hdb : e.db = view t.writes w.db) : Protocol.Staged (ScanCell ns args)
      (t.after e { writes := acknowledge e.db.work ns .schedule args.wakeIds }) w := by
  refine hs.write (local_scanCell ns args) fun v hv => ?_
  obtain ⟨id, u, rfl, -, hu, hlive⟩ := mem_acknowledge hv
  have hacked : Acked ns args.wakeIds id (w.db.work.wakes.get id)
      ((view t.writes w.db).work.wakes.get id) := hs (.wake id)
  change Acked ns args.wakeIds id (w.db.work.wakes.get id)
    ((view (acknowledge e.db.work ns .schedule args.wakeIds)
      (view t.writes w.db)).work.wakes.get id)
  rw [hdb] at hu ⊢
  rcases view_acknowledge (W := TableWrite) ns .schedule (view t.writes w.db).work args.wakeIds
    (view t.writes w.db) id with ⟨x, hid, hx, hl, hafter⟩ | ⟨-, hafter⟩
  · rcases hacked with hsame | ⟨-, y, -, -, hy⟩
    · exact Or.inr ⟨hid, x, hsame ▸ hx, hl, hafter⟩
    · -- an acknowledged wake is not live
      rw [hx] at hy
      cases hy
      simp [Wake.live] at hl
  · rw [hafter]
    exact hacked

/-- The write of a marker. -/
def markerWrite (ns : String) (row : Marker) : Effect (Write TableWrite) (Resource TableRow) :=
  { writes := [.marker (ns, .schedule) (some row)] }

/-- `finish_schedule_scan` in a transaction that has staged nothing in the work tables, up to the
statement that moves the marker on. -/
theorem wp_scanned {dueAt : Option ℕ} {k : Unit → BuildScript β}
    (hg : t.Guarded) (hs : Protocol.Staged (ScanCell ns args) t w)
    (hk : ∀ t' w' e row, t'.Guarded → Protocol.Staged (ScanCell ns args) t' w' →
      w'.db.work.generation ns .schedule = args.generation →
      row.generation = args.generation + 1 →
      scans.wp i op Q (k ()) (t'.after e (markerWrite ns row)) w') :
    scans.wp i op Q (finishScheduleScan ns args.generation dueAt args.wakeIds >>= k) t w := by
  have hl := local_scanCell ns args
  have hlast (t' : BuildTxn) (w' : BuildWorld) (hg' : t'.Guarded)
      (hs' : Protocol.Staged (ScanCell ns args) t' w') : scans.wp i op Q ((do
        let scanned ← scanMarker ns args.generation dueAt
        if scanned then pure ()
        else .raise ("Schedule work changed while scanning namespace " ++ ns)) >>= k) t' w' := by
    rw [Script.bind_assoc]
    apply Protocol.wp_statement
    intro w2 e2 hr2 _ hsees
    have hs2 := hs'.rely hl hg' hr2
    cases hm : (e2.db.work.markers.get (ns, .schedule)).filter (·.generation = args.generation) with
    | none => trivial
    | some m =>
      obtain ⟨hget, hgen⟩ := Option.filter_eq_some_iff.mp hm
      have hmarked := (hs2 (.marker (ns, .schedule))).2 rfl
      rw [← hsees.db, hget] at hmarked
      have hgen' := of_decide_eq_true hgen
      exact hk t' w2 e2 _ hg' hs2 (hmarked.generation_eq hgen')
        (show m.generation + 1 = _ by rw [hgen'])
  unfold finishScheduleScan
  rw [Script.bind_assoc]
  apply Protocol.wp_statement
  intro w1 e1 hr1 _ hsees1
  have hmarked := staged_ensureMarker (hs.rely hl hg hr1) e1 hsees1.db
  rw [Script.bind_assoc]
  unfold deleteWakes
  split
  · apply Protocol.wp_statement
    intro w2 e2 hr2 _ hsees2
    exact hlast _ _ ((hg.after _ _).after _ _)
      (staged_deleteWakes (hmarked.rely hl (hg.after _ _) hr2) e2 hsees2.db)
  · exact hlast _ _ (hg.after _ _) hmarked

/-- The error of a scan that another one has overtaken. -/
def overtaken (ns error : String) : Prop :=
  error = "Schedule work changed while scanning namespace " ++ ns

/-- The due time is read in the tables of the namespace. -/
theorem wp_nextDueAt {p : Platform} {now : ℕ} {k : Option ℕ → BuildScript β} (hg : t.Guarded)
    (hs : Protocol.Staged (ScanCell ns args) t w)
    (hk : ∀ dueAt t' w', t'.Guarded → Protocol.Staged (ScanCell ns args) t' w' →
      scans.wp i op Q (k dueAt) t' w') :
    scans.wp i op Q (nextScheduleNamespaceDueAt p ns now >>= k) t w := by
  have hl := local_scanCell ns args
  have hquery {γ : Type} {result : BuildEnv → γ} {k : γ → BuildScript β} {t : BuildTxn}
      {w : BuildWorld} (hg : t.Guarded) (hs : Protocol.Staged (ScanCell ns args) t w)
      (hk : ∀ c t' w', t'.Guarded → Protocol.Staged (ScanCell ns args) t' w' →
        scans.wp i op Q (k c) t' w') : scans.wp i op Q (Script.query result >>= k) t w := by
    apply Protocol.wp_query
    intro w' e hr _ _
    exact hk _ ⟨t.held, t.writes, some e.began⟩ w' hg (hs.rely hl hg hr)
  have hfill (rows : List (String × Schedule)) : ∀ {k : List ℕ → BuildScript β} {t : BuildTxn}
      {w : BuildWorld}, t.Guarded → Protocol.Staged (ScanCell ns args) t w →
      (∀ c t' w', t'.Guarded → Protocol.Staged (ScanCell ns args) t' w' →
        scans.wp i op Q (k c) t' w') →
      scans.wp i op Q (fillNextRuns p ns now rows >>= k) t w := by
    induction rows with
    | nil => exact fun hg hs hk => hk [] _ _ hg hs
    | cons x rest ih =>
      intro k t w hg hs hk
      obtain ⟨id, s⟩ := x
      unfold fillNextRuns
      split
      · rw [Script.bind_assoc]
        exact ih hg hs fun c => hk _
      · split
        · exact ih hg hs hk
        · rw [Script.bind_assoc]
          apply Protocol.wp_statement
          intro w1 e1 hr1 _ _
          rw [Script.bind_assoc]
          refine ih (hg.after _ _) (staged_tenant (hs.rely hl hg hr1) fun v hv => ?_) fun c => hk _
          split at hv
          · exact ⟨_, _, List.mem_singleton.mp hv⟩
          · cases hv
  unfold nextScheduleNamespaceDueAt
  simp only [Script.bind_assoc]
  refine hquery hg hs fun cron t1 w1 hg1 hs1 => hquery hg1 hs1 fun lease t2 w2 hg2 hs2 => ?_
  refine hquery hg2 hs2 fun missing t3 w3 hg3 hs3 => hfill missing hg3 hs3 fun filled => hk _

/-- A scan commits what its protocol allows. -/
theorem wp_scan {p : Platform} {R : Reply → BuildTxn → BuildWorld → Prop}
    (hQ : ∀ r t w, R r t w) :
    scans.wp i (.finishScheduleWorkScan ns args) R (finishScheduleWorkScan p ns args) {} w := by
  have hl := local_scanCell ns args
  unfold finishScheduleWorkScan
  refine wp_nextDueAt Txn.guarded_empty (.empty hl w) fun dueAt t1 w1 hg1 hs1 => ?_
  refine wp_scanned hg1 hs1 fun t2 w2 e row hg2 hs2 hgeneration hrow => ?_
  apply Protocol.wp_commit
  intro w3 hr _ _
  refine ⟨?_, hQ _ _ _⟩
  rintro ns' args' ⟨⟩
  have hneeds : (.marker (ns, .schedule), .exclusive) ∈ (markerWrite ns row).needs :=
    List.mem_singleton.mpr rfl
  have hlock := t2.lock_mem_after e hneeds
  have hsame : w3.db.work.markers.get (ns, .schedule) = w2.db.work.markers.get (ns, .schedule) :=
    hr.same hlock
  have hs3 := hs2.rely hl hg2 (hr.mono (t2.held_subset_after e _))
  have hview : view (t2.after e (markerWrite ns row)).writes w3.db =
      Db.write (W := TableWrite) (view t2.writes w3.db) (.marker (ns, .schedule) (some row)) :=
    view_append _ _ _
  rw [hview]
  refine ⟨?_, ⟨row, ?_, hrow⟩, fun key hne => ?_, fun id => hs3 (.wake id)⟩
  · rw [Work.generation, hsame]
    exact hgeneration
  · exact (Table.get_put _ _ _ _).trans (if_pos rfl)
  · refine Eq.trans (Table.get_put _ _ _ _) (Eq.trans (if_neg hne) ?_)
    exact (hs3 (.marker key)).1 hne

/-- A scan returns by its commit, or raises. -/
theorem endsBy_scan (p : Platform) (ns : String) (args : FinishScanArgs) :
    (finishScheduleWorkScan p ns args).EndsBy (overtaken ns) := by
  have hfill (rows : List (String × Schedule)) : ∀ {k : List ℕ → BuildScript Reply},
      (∀ c, (k c).EndsBy (overtaken ns)) →
      (fillNextRuns p ns args.now rows >>= k).EndsBy (overtaken ns) := by
    induction rows with
    | nil => exact fun hk => hk []
    | cons x rest ih =>
      intro k hk
      obtain ⟨id, s⟩ := x
      unfold fillNextRuns
      split
      · rw [Script.bind_assoc]
        exact ih fun c => hk _
      · split
        · exact ih hk
        · rw [Script.bind_assoc]
          refine Script.endsBy_statement fun _ => ?_
          rw [Script.bind_assoc]
          exact ih fun c => hk _
  have hlast (dueAt : Option ℕ) : ((do
      let scanned ← scanMarker ns args.generation dueAt
      if scanned then pure ()
      else .raise ("Schedule work changed while scanning namespace " ++ ns)) >>= fun _ =>
        (do Script.commitNow; pure .nothing : BuildScript Reply)).EndsBy (overtaken ns) := by
    rw [Script.bind_assoc]
    refine Script.endsBy_statement fun scanned => ?_
    cases scanned with
    | true => exact ⟨_, rfl⟩
    | false => exact rfl
  unfold finishScheduleWorkScan nextScheduleNamespaceDueAt
  simp only [Script.bind_assoc]
  refine Script.endsBy_statement fun cron => Script.endsBy_statement fun lease => ?_
  refine Script.endsBy_statement fun missing => hfill missing fun filled => ?_
  rw [Script.pure_eq_done, Script.done_bind, finishScheduleScan, Script.bind_assoc]
  refine Script.endsBy_statement fun _ => ?_
  rw [Script.bind_assoc]
  unfold deleteWakes
  split
  · exact Script.endsBy_statement fun _ => hlast _
  · exact hlast _

end Staging

section Listing

variable {work : Work} (now : ℕ) {ns : String}

/-- The order of the listing. -/
def listedBefore (work : Work) (now : ℕ) (a b : String) : Prop :=
  work.scheduleOrder now a < work.scheduleOrder now b ∨
    (work.scheduleOrder now a = work.scheduleOrder now b ∧ a ≤ b)

instance (work : Work) (now : ℕ) : DecidableRel (listedBefore work now) :=
  fun _ _ => inferInstanceAs (Decidable (_ ∨ _))

instance (work : Work) (now : ℕ) : Std.Total (listedBefore work now) where
  total a b := by
    rcases Nat.lt_trichotomy (work.scheduleOrder now a) (work.scheduleOrder now b) with h | h | h
    · exact Or.inl (Or.inl h)
    · rcases String.le_total a b with hab | hab
      · exact Or.inl (Or.inr ⟨h, hab⟩)
      · exact Or.inr (Or.inr ⟨h.symm, hab⟩)
    · exact Or.inr (Or.inl h)

instance (work : Work) (now : ℕ) : IsTrans String (listedBefore work now) where
  trans a b c := by
    rintro (hab | ⟨hab, hle⟩) (hbc | ⟨hbc, hle'⟩)
    · exact Or.inl (Nat.lt_trans hab hbc)
    · exact Or.inl (Nat.lt_of_lt_of_eq hab hbc)
    · exact Or.inl (hab.trans_lt hbc)
    · exact Or.inr ⟨hab.trans hbc, String.le_trans hle hle'⟩

/-- The other due namespaces that come before this one. -/
def dueBefore (work : Work) (now : ℕ) (ns : String) : List String :=
  (work.scheduleCandidates now).filter fun a => a ≠ ns ∧ listedBefore work now a ns

/-- A due namespace is listed, unless the limit is used up by others before it. -/
theorem listed_of_due {limit : ℕ} (hdue : ns ∈ work.scheduleCandidates now)
    (hlimit : (dueBefore work now ns).length < limit) :
    (ns, work.generation ns .schedule, work.captured ns .schedule) ∈
      work.listDueScheduleNamespaces now limit := by
  have hsorted := List.pairwise_insertionSort (listedBefore work now) (work.scheduleCandidates now)
  have hperm := List.perm_insertionSort (listedBefore work now) (work.scheduleCandidates now)
  have hnodup := hperm.nodup_iff.mpr (List.nodup_dedup _)
  obtain ⟨before, after, hsplit⟩ := List.append_of_mem (hperm.mem_iff.mpr hdue)
  rw [hsplit] at hsorted hnodup
  obtain ⟨hbefore, -, hne⟩ := List.nodup_append.mp hnodup
  have hsub : before ⊆ dueBefore work now ns := by
    intro a ha
    have hmem : a ∈ work.scheduleCandidates now :=
      hperm.mem_iff.mp (hsplit ▸ List.mem_append_left _ ha)
    have hle := (List.pairwise_append.mp hsorted).2.2 a ha ns List.mem_cons_self
    exact List.mem_filter.mpr
      ⟨hmem, decide_eq_true ⟨hne a ha ns List.mem_cons_self, hle⟩⟩
  have hlength : before.length < limit :=
    Nat.lt_of_le_of_lt (List.subperm_of_subset hbefore hsub).length_le hlimit
  refine List.mem_map.mpr ⟨ns, ?_, rfl⟩
  change ns ∈ ((work.scheduleCandidates now).insertionSort (listedBefore work now)).take limit
  rw [hsplit, List.take_append]
  refine List.mem_append_right _ ?_
  obtain ⟨k, hk⟩ := Nat.exists_eq_add_of_lt hlength
  rw [show limit - before.length = k + 1 by omega]
  exact List.mem_cons_self

/-- A namespace is not listed when the limit is used up by others whose turn is before. -/
theorem not_listed {limit : ℕ} (others : List String) (hnodup : others.Nodup)
    (hlimit : limit ≤ others.length) (hdue : ∀ a ∈ others, a ∈ work.scheduleCandidates now)
    (hbefore : ∀ a ∈ others, work.scheduleOrder now a < work.scheduleOrder now ns) :
    ns ∉ (work.listDueScheduleNamespaces now limit).map Prod.fst := by
  have hsorted := List.pairwise_insertionSort (listedBefore work now) (work.scheduleCandidates now)
  have hperm := List.perm_insertionSort (listedBefore work now) (work.scheduleCandidates now)
  have hcandidates := hperm.nodup_iff.mpr (List.nodup_dedup _)
  intro hlisted
  obtain ⟨entry, hlisted, hentry⟩ := List.mem_map.mp hlisted
  obtain ⟨a, hmem, rfl⟩ := List.mem_map.mp hlisted
  obtain rfl : a = ns := hentry
  change a ∈ ((work.scheduleCandidates now).insertionSort (listedBefore work now)).take limit
    at hmem
  obtain ⟨before, after, hsplit⟩ := List.append_of_mem (List.mem_of_mem_take hmem)
  rw [hsplit] at hsorted hcandidates hmem
  have hsub : others ⊆ before := by
    intro b hb
    have hlt := hbefore b hb
    have hin : b ∈ before ++ a :: after := hsplit ▸ hperm.mem_iff.mpr (hdue b hb)
    rcases List.mem_append.mp hin with hin | hin
    · exact hin
    · rcases List.mem_cons.mp hin with rfl | hin
      · exact absurd hlt (Nat.lt_irrefl _)
      · rcases (List.pairwise_cons.mp (List.pairwise_append.mp hsorted).2.1).1 b hin with h | h
        · exact absurd h (Nat.lt_asymm hlt)
        · exact absurd h.1 (Nat.ne_of_gt hlt)
  have hle : limit ≤ before.length :=
    Nat.le_trans hlimit (List.subperm_of_subset hnodup hsub).length_le
  rw [List.take_append_of_le_length hle] at hmem
  exact (List.nodup_append.mp hcandidates).2.2 a (List.mem_of_mem_take hmem) a
    List.mem_cons_self rfl

theorem scheduleOrder_le {id : ℕ} {w : Wake} (hmarker : work.markers.get (ns, .schedule) = none)
    (hw : work.wakes.get id = some w) (hlive : w.live ns .schedule = true) :
    work.scheduleOrder now ns ≤ w.createdAt := by
  rw [Work.scheduleOrder, hmarker]
  have hmem : w.createdAt ∈ (work.wakes.rows.filter fun e => e.2.live ns .schedule).map
      (·.2.createdAt) :=
    List.mem_map.mpr ⟨(id, w), List.mem_filter.mpr ⟨(Table.mem_rows_iff _ _ _).mpr hw, hlive⟩, rfl⟩
  change Option.getD (List.min? _) now ≤ _
  cases hmin : ((work.wakes.rows.filter fun e => e.2.live ns .schedule).map
      (·.2.createdAt)).min? with
  | none =>
    rw [List.min?_eq_none_iff] at hmin
    rw [hmin] at hmem
    cases hmem
  | some m => exact (List.min?_eq_some_iff.mp hmin).2 _ hmem

theorem due_of_live {id : ℕ} (h : work.Live ns .schedule id) :
    ns ∈ work.scheduleCandidates now := by
  obtain ⟨w, hw, hlive⟩ := h
  simp only [Wake.live, Bool.and_eq_true, decide_eq_true_eq] at hlive
  refine List.mem_dedup.mpr (List.mem_append_right _ (List.mem_map.mpr ⟨(id, w), ?_, hlive.1.1⟩))
  refine List.mem_filter.mpr ⟨(Table.mem_rows_iff _ _ _).mpr hw, ?_⟩
  simp [hlive.1.2, hlive.2]

end Listing

/-- In `u` the listing captures these wakes and this generation for the scan. -/
def Captured (u : BuildSystem) (ns : String) (args : FinishScanArgs) : Prop :=
  ∃ limit, (ns, args.generation, args.wakeIds) ∈
    u.db.work.listDueScheduleNamespaces u.now limit

/-- Call `i` finishes a scan that was captured in `u`, before the call started. -/
structure Finishing (u s : BuildSystem) (i : ℕ) (ns : String) (args : FinishScanArgs) : Prop where
  captured : Captured u ns args
  later : u.calls.length ≤ i
  call : ∃ c, s.calls[i]? = some c ∧ c.op = .finishScheduleWorkScan ns args

/-- The namespace is due, and listed unless the limit is used up by others before it. -/
def Listed (s : BuildSystem) (ns : String) : Prop :=
  ∀ now, ns ∈ s.db.work.scheduleCandidates now ∧
    ∀ limit, (dueBefore s.db.work now ns).length < limit →
      (ns, s.db.work.generation ns .schedule, s.db.work.captured ns .schedule) ∈
        s.db.work.listDueScheduleNamespaces now limit

/-- A call of the system finishes a scan that has captured this wake. -/
def Acknowledges (s : BuildSystem) (ns : String) (id : ℕ) : Prop :=
  ∃ c ∈ s.calls, ∃ args, c.op = .finishScheduleWorkScan ns args ∧ id ∈ args.wakeIds

/-- What the step from `s` to `s'` of such a call does. -/
structure CompareAndSet (p : Platform) (u s s' : BuildSystem) (i : ℕ) (ns : String)
    (args : FinishScanArgs) : Prop where
  /-- The wakes that go were captured. -/
  deleted (ns' : String) (kind : RuntimeWorkKind) (id : ℕ) : s.db.work.Live ns' kind id →
    ¬ s'.db.work.Live ns' kind id →
    ns' = ns ∧ kind = .schedule ∧ id ∈ args.wakeIds ∧ u.db.work.Live ns .schedule id
  /-- A commit replaces the marker of the capture. -/
  published : s'.db ≠ s.db →
    s.db.work.markers.get (ns, .schedule) = u.db.work.markers.get (ns, .schedule)
  /-- The other markers stay. -/
  others (key : String × RuntimeWorkKind) : key ≠ (ns, .schedule) →
    s'.db.work.markers.get key = s.db.work.markers.get key
  /-- When another scan has finished since the capture, nothing changes and the call raises. -/
  overtaken : s.db.work.generation ns .schedule ≠ args.generation →
    s'.db = s.db ∧ ∀ c, s'.calls[i]? = some c → c.script.ended = true →
      c.script = .raise ("Schedule work changed while scanning namespace " ++ ns)
  /-- For a wake that was not captured the namespace stays listed, until a scan captures it. -/
  stays (id : ℕ) : s.db.work.Live ns .schedule id → id ∉ args.wakeIds → Listed s' ns ∧
    ∀ v, Reaches p s' v → ¬ Acknowledges v ns id → Listed v ns

section Runs

variable {p : Platform} {s s' u : BuildSystem} {a : Action Op} {ns : String} {i : ℕ}
  {args : FinishScanArgs}

theorem scan_of_acks {op : Op} (h : op.acks ns .schedule) :
    ∃ args, op = .finishScheduleWorkScan ns args := by
  cases op with
  | finishScheduleWorkScan ns' args => exact ⟨args, by rw [h.1]⟩
  | reconcileExpiredBuildJobs => cases h.2
  | otherWork => cases h
  | _ => exact h.elim

theorem verified_scans (p : Platform) : Verified scans (code p) anyReply := by
  intro i op w _ _
  cases op with
  | finishScheduleWorkScan ns args => exact wp_scan fun _ _ _ => trivial
  | _ =>
    refine Protocol.wp_free (fun h w db ns args hop => ?_) (fun _ _ _ => trivial) _
    cases hop

theorem admits_scans : scans.Admits s a s' :=
  ⟨fun _ _ => trivial, fun _ _ _ _ _ _ => trivial, fun _ _ _ _ _ _ _ => trivial⟩

theorem Reachable.scans (h : Reachable p s) : Good scans anyReply s := by
  obtain ⟨now, db, -, hr⟩ := h
  exact (Good.start trivial).run (verified_scans p) (hr.mono fun _ _ _ _ => admits_scans)

theorem Reachable.scanStep (h : Reachable p s) (hs : s.step (code p) a = some s') (ns : String) :
    Still ns .schedule s.db s'.db ∨ ∃ i c args, a = .run i ∧ s.calls[i]? = some c ∧
      c.op = .finishScheduleWorkScan ns args ∧ Scanned ns args s.db.work s'.db.work := by
  have hsame (hdb : s'.db = s.db) : Still ns .schedule s.db s'.db := by
    rw [hdb]
    exact ⟨rfl, fun _ h => h⟩
  rcases h.changes hs with hdb | ⟨i, c, next, ha, hc, -, hact⟩
  · exact Or.inl (hsame hdb)
  · by_cases hack : c.op.acks ns .schedule
    · rcases h.scans.changes hs admits_scans with hdb | ⟨j, d, _, ha', hd, -, -, -, -, hscan⟩
      · exact Or.inl (hsame hdb)
      · cases ha.symm.trans ha'
        cases hc.symm.trans hd
        obtain ⟨args, hop⟩ := scan_of_acks hack
        exact Or.inr ⟨i, c, args, ha, hc, hop, hscan ns args hop⟩
    · exact Or.inl (hact.still ns .schedule rfl hack)

theorem Reachable.marker_or_lt (hu : Reachable p u) (hr : Reaches p u s) (ns : String) :
    s.db.work.markers.get (ns, .schedule) = u.db.work.markers.get (ns, .schedule) ∨
      u.db.work.generation ns .schedule < s.db.work.generation ns .schedule := by
  induction hr with
  | refl => exact Or.inl rfl
  | @step v v' a hr hs _ ih =>
    rcases (hu.trans hr).scanStep hs ns with hstill | ⟨i, c, args, -, -, -, hscan⟩
    · rw [Work.generation, Work.generation, hstill.1]
      exact ih
    · obtain ⟨m, hm, hgen⟩ := hscan.marker
      have hbefore := hscan.generation
      have hafter : v'.db.work.generation ns .schedule = args.generation + 1 := by
        rw [Work.generation, hm, ← hgen]
        rfl
      refine Or.inr ?_
      rcases ih with ih | ih
      · rw [Work.generation, ih] at hbefore
        rw [hafter, Work.generation, hbefore]
        exact Nat.lt_succ_self _
      · omega

theorem Captured.spec (h : Captured u ns args) :
    args.generation = u.db.work.generation ns .schedule ∧
      ∀ id ∈ args.wakeIds, u.db.work.Live ns .schedule id := by
  obtain ⟨limit, hmem⟩ := h
  obtain ⟨ns', -, heq⟩ := List.mem_map.mp hmem
  rw [Prod.mk.injEq, Prod.mk.injEq] at heq
  obtain ⟨rfl, hgeneration, hids⟩ := heq
  refine ⟨hgeneration.symm, fun id hid => Work.mem_captured ?_⟩
  rw [hids]
  exact hid

theorem Acked.live {ns' : String} {kind : RuntimeWorkKind} {ids : List ℕ} {id : ℕ} {a b : Work}
    (h : Acked ns ids id (a.wakes.get id) (b.wakes.get id)) (hlive : a.Live ns' kind id)
    (hgone : ¬ b.Live ns' kind id) : ns' = ns ∧ kind = .schedule ∧ id ∈ ids := by
  obtain ⟨x, hx, hl⟩ := hlive
  rcases h with hsame | ⟨hid, y, hy, hl', -⟩
  · exact absurd ⟨x, hsame.trans hx, hl⟩ hgone
  · cases hx.symm.trans hy
    simp only [Wake.live, Bool.and_eq_true, decide_eq_true_eq] at hl hl'
    exact ⟨hl.1.1.symm.trans hl'.1.1, hl.1.2.symm.trans hl'.1.2, hid⟩

theorem listed_of_live {id : ℕ} (h : s.db.work.Live ns .schedule id) : Listed s ns :=
  fun now => ⟨due_of_live now h, fun _ => listed_of_due now (due_of_live now h)⟩

theorem Acknowledges.step {id : ℕ} (h : Acknowledges s ns id)
    (hs : s.step (code p) a = some s') : Acknowledges s' ns id := by
  obtain ⟨c, hc, args, hop, hid⟩ := h
  obtain ⟨i, hi⟩ := List.getElem?_of_mem hc
  obtain ⟨c', hc', hop'⟩ := (stepped hs).op_eq hi
  exact ⟨c', List.mem_of_getElem? hc', args, hop'.trans hop, hid⟩

theorem Reachable.live_or_acknowledges (h : Reachable p s) (hr : Reaches p s s') {id : ℕ}
    (hlive : s.db.work.Live ns .schedule id) :
    s'.db.work.Live ns .schedule id ∨ Acknowledges s' ns id := by
  induction hr with
  | refl => exact Or.inl hlive
  | step hr hs _ ih =>
    rcases ih with hlive | hack
    · rcases (h.trans hr).scanStep hs ns with hstill | ⟨i, c, args, -, hc, hop, hscan⟩
      · exact Or.inl (hstill.2 id hlive)
      · refine or_iff_not_imp_left.mpr fun hgone => Acknowledges.step ?_ hs
        exact ⟨c, List.mem_of_getElem? hc, args, hop, ((hscan.wakes id).live hlive hgone).2.2⟩
    · exact Or.inr (hack.step hs)

theorem Reachable.finishStep (h : Reachable p s) (hs : s.step (code p) (.run i) = some s')
    {c : Call Op (Db Tables) (Write TableWrite) (Resource TableRow) Reply}
    (hc : s.calls[i]? = some c) (hop : c.op = .finishScheduleWorkScan ns args) :
    s'.db = s.db ∨ Scanned ns args s.db.work s'.db.work := by
  rcases h.scans.changes hs admits_scans with hdb | ⟨j, d, _, ha, hd, -, -, -, -, hscan⟩
  · exact Or.inl hdb
  · cases ha
    cases hc.symm.trans hd
    exact Or.inr (hscan ns args hop)

/-- How such a call ends when its generation is gone. -/
theorem Reachable.overtaken (h : Reachable p s) (hs : s.step (code p) (.run i) = some s')
    {c d : Call Op (Db Tables) (Write TableWrite) (Resource TableRow) Reply}
    (hc : s.calls[i]? = some c) (hop : c.op = .finishScheduleWorkScan ns args)
    (hgone : s.db.work.generation ns .schedule ≠ args.generation)
    (hd : s'.calls[i]? = some d) (hended : d.script.ended = true) :
    d.script = .raise ("Schedule work changed while scanning namespace " ++ ns) := by
  obtain ⟨now, db, -, hr⟩ := id h
  have hends := Run.endsBy (P := fun op => op = .finishScheduleWorkScan ns args)
    (E := DataForge.Builds.overtaken ns)
    (fun _ op hop => by rw [hop]; exact endsBy_scan p ns args) hr rfl
  obtain ⟨c', hc', hop'⟩ := (stepped hs).op_eq hc
  cases hc'.symm.trans hd
  have hopd := hop'.trans hop
  rcases (stepped hs).endsBy (fun e he heq => hends e he (heq.trans hopd)) hd hended with
    ⟨e, next, he, -, hcommit⟩ | ⟨-, error, hraise, herror⟩
  · -- a commit would have found the generation
    cases hc.symm.trans he
    exact absurd (h.scans.commits he hcommit trivial ns args hop).generation hgone
  · rw [hraise, herror]

/-- Finishing a scan is a compare-and-set. -/
theorem finish_scan (hu : Reachable p u) (hr : Reaches p u s) (hf : Finishing u s i ns args)
    (hs : s.step (code p) (.run i) = some s') : CompareAndSet p u s s' i ns args := by
  have h := hu.trans hr
  obtain ⟨c, hc, hop⟩ := hf.call
  obtain ⟨hcaptured, hids⟩ := hf.captured.spec
  have hdeleted (ns' : String) (kind : RuntimeWorkKind) (id : ℕ)
      (hlive : s.db.work.Live ns' kind id) (hgone : ¬ s'.db.work.Live ns' kind id) :
      ns' = ns ∧ kind = .schedule ∧ id ∈ args.wakeIds := by
    rcases h.finishStep hs hc hop with hdb | hscan
    · rw [hdb] at hgone
      exact absurd hlive hgone
    · exact (hscan.wakes id).live hlive hgone
  constructor
  case deleted =>
    intro ns' kind id hlive hgone
    obtain ⟨hns, hkind, hid⟩ := hdeleted ns' kind id hlive hgone
    exact ⟨hns, hkind, hid, hids id hid⟩
  case published =>
    intro hne
    have hscan := (h.finishStep hs hc hop).resolve_left hne
    refine (hu.marker_or_lt hr ns).resolve_right fun hlt => ?_
    rw [← hcaptured, hscan.generation] at hlt
    exact Nat.lt_irrefl _ hlt
  case others =>
    intro key hkey
    rcases h.finishStep hs hc hop with hdb | hscan
    · rw [hdb]
    · exact hscan.markers key hkey
  case overtaken =>
    intro hgone
    refine ⟨?_, fun d hd hended => h.overtaken hs hc hop hgone hd hended⟩
    exact (h.finishStep hs hc hop).resolve_right fun hscan => hgone hscan.generation
  case stays =>
    intro id hlive hid
    have hlive' : s'.db.work.Live ns .schedule id := by
      by_contra hgone
      exact hid (hdeleted ns .schedule id hlive hgone).2.2
    refine ⟨listed_of_live hlive', fun v hv hack => ?_⟩
    have hrow := (h.step hs).live_or_acknowledges hv hlive'
    exact listed_of_live (hrow.resolve_right hack)

end Runs

/-- A two-letter namespace of a crowd, with a suffix. -/
def crowdChars (k : ℕ) : List Char :=
  [Char.ofNat (97 + k / 10), Char.ofNat (97 + k % 10), '-', 'n', 's']

def crowdName (k : ℕ) : String := String.ofList (crowdChars k)

/-- The wakes of `default` and of a hundred other namespaces. -/
def crowdWake (k : ℕ) : Wake := ⟨if k = 0 then "default" else crowdName k, .schedule, k, false⟩

def crowdDb : Db Tables :=
  { sampleDb with
    work := ⟨(List.range 101).foldl (fun t k => t.put k (some (crowdWake k))) .empty, .empty⟩ }

theorem crowdDb_wakes (k : ℕ) :
    crowdDb.work.wakes.get k = if k < 101 then some (crowdWake k) else none := by
  have hwakes (n : ℕ) : ((List.range n).foldl (fun (t : Table ℕ Wake) k =>
      t.put k (some (crowdWake k))) .empty).get k = if k < n then some (crowdWake k) else none := by
    induction n with
    | zero => rfl
    | succ n ih =>
      rw [List.range_succ, List.foldl_append, List.foldl_cons, List.foldl_nil, Table.get_put, ih]
      by_cases hk : k = n
      · simp [hk]
      · simp [hk, show k < n + 1 ↔ k < n by omega]
  exact hwakes 101

theorem crowdDb_fresh : Fresh crowdDb := fun _ => ⟨rfl, rfl, rfl, rfl⟩

/-- A scan of `default` has captured its wake and is about to commit; a schedule that was created
in the meantime has left another one. -/
def crowdActions : List (Action Op) :=
  Action.spawn
      (.createSchedule "default" { id := "s", datasourceId := "d", now := 101, wakeId := 101 })
    :: List.replicate 4 (.run 0) ++
      Action.spawn (.finishScheduleWorkScan "default" ⟨0, [0], 101⟩) :: List.replicate 6 (.run 1)

/-- What the commit leaves of the queue. -/
def crowded (s : BuildSystem) : Bool :=
  s.now = 101 &&
    (s.db.work.markers.get ("default", .schedule)).any (fun m => m.pending && m.updatedAt = 101) &&
      s.db.work.markers.rows.all (fun m => m.1.1 = "default") &&
        (List.range 100).all fun k => s.db.work.wakes.get (k + 1) = some (crowdWake (k + 1))

/-- Whether the operation finishes this scan. -/
def isScan (ns : String) (generation : ℕ) (wakeIds : List ℕ) : Op → Bool
  | .finishScheduleWorkScan ns' args =>
    ns' = ns && args.generation = generation && args.wakeIds = wakeIds
  | _ => false

set_option maxRecDepth 100000 in
theorem crowd_replay : (System.replay (code samplePlatform) ⟨101, crowdDb, []⟩ crowdActions).any
    (fun s => (s.calls[1]?).any (fun c => isScan "default" 0 [0] c.op) &&
      (s.db.work.wakes.get 101).any (·.live "default" .schedule) &&
      (s.step (code samplePlatform) (.run 1)).any crowded) = true := by
  decide +kernel

theorem isScan_spec {ns : String} {generation : ℕ} {wakeIds : List ℕ} {op : Op}
    (h : isScan ns generation wakeIds op = true) :
    ∃ args, op = .finishScheduleWorkScan ns args ∧ args.generation = generation ∧
      args.wakeIds = wakeIds := by
  cases op with
  | finishScheduleWorkScan ns' args =>
    simp only [isScan, Bool.and_eq_true, decide_eq_true_eq] at h
    exact ⟨args, by rw [h.1.1], h.1.2, h.2⟩
  | _ => cases h

/-- In a crowd `default` is not listed. -/
theorem crowded_spec {s : BuildSystem} (h : crowded s = true) :
    "default" ∉ (s.db.work.listDueScheduleNamespaces s.now).map Prod.fst := by
  simp only [crowded, Bool.and_eq_true, Option.any_eq_true, List.all_eq_true,
    decide_eq_true_eq] at h
  obtain ⟨⟨⟨hnow, m, hm, hpending, hupdated⟩, hmarkers⟩, hwakes⟩ := h
  rw [hnow]
  have hlive (k : ℕ) : (crowdWake (k + 1)).live (crowdName (k + 1)) .schedule = true := by
    simp [crowdWake, Wake.live]
  have hother (k : ℕ) : crowdName (k + 1) ≠ "default" := by
    intro heq
    have hlength := congrArg String.length heq
    rw [crowdName, String.length_ofList] at hlength
    cases hlength
  have hnone (k : ℕ) : s.db.work.markers.get (crowdName (k + 1), .schedule) = none :=
    (Table.get_eq_none_iff _ _).mpr fun row hrow => hother k (hmarkers _ hrow)
  have hturn : s.db.work.scheduleOrder 101 "default" = 101 := by
    rw [Work.scheduleOrder, hm]
    simp [Marker.candidate, hpending, hupdated]
  refine not_listed 101 ((List.range 100).map fun k => crowdName (k + 1)) ?_ ?_ ?_ ?_
  · have hread : ((List.range 100).map fun k => crowdChars (k + 1)).map
        (fun cs => (cs.take 2).foldl (fun n c => 10 * n + (c.toNat - 97)) 0) =
        (List.range 100).map Nat.succ := by decide +kernel
    have hchars : ((List.range 100).map fun k => crowdChars (k + 1)).Nodup := by
      apply List.Nodup.of_map
      rw [hread]
      exact List.nodup_range.map Nat.succ_injective
    rw [show (fun k => crowdName (k + 1)) = String.ofList ∘ fun k => crowdChars (k + 1) from rfl,
      ← List.map_map]
    exact hchars.map fun _ _ h => String.ofList_injective h
  · simp
  · intro a ha
    obtain ⟨k, hk, rfl⟩ := List.mem_map.mp ha
    exact due_of_live 101 ⟨_, hwakes k hk, hlive k⟩
  · intro a ha
    obtain ⟨k, hk, rfl⟩ := List.mem_map.mp ha
    have hlt := List.mem_range.mp hk
    have hle := scheduleOrder_le 101 (hnone k) (hwakes k hk) (hlive k)
    rw [hturn]
    refine Nat.lt_of_le_of_lt hle ?_
    change k + 1 < 101
    omega

/-- The run of the crowd, at the commit of the scan. -/
theorem crowd_run : ∃ s s' args, Reaches samplePlatform ⟨101, crowdDb, []⟩ s ∧
    s.step (code samplePlatform) (.run 1) = some s' ∧
    Finishing ⟨101, crowdDb, []⟩ s 1 "default" args ∧ s.db.work.Live "default" .schedule 101 ∧
    101 ∉ args.wakeIds ∧ crowded s' = true := by
  obtain ⟨s, hs, htest⟩ := (Option.any_eq_true _ _).mp crowd_replay
  simp only [Bool.and_eq_true, Option.any_eq_true] at htest
  obtain ⟨⟨⟨c, hc, hscan⟩, w, hw, hlive⟩, s', hs', hcrowded⟩ := htest
  obtain ⟨args, hop, hgeneration, hids⟩ := isScan_spec hscan
  have hcaptured : Captured ⟨101, crowdDb, []⟩ "default" args := by
    have hdue : crowdDb.work.Live "default" .schedule 0 := ⟨crowdWake 0, crowdDb_wakes 0, rfl⟩
    have hlisted := listed_of_due 101 (due_of_live 101 hdue) (Nat.lt_succ_self _)
    rw [show crowdDb.work.generation "default" .schedule = 0 from rfl,
      show crowdDb.work.captured "default" .schedule = [0] by decide +kernel] at hlisted
    rw [Captured, hgeneration, hids]
    exact ⟨_, hlisted⟩
  refine ⟨s, s', args, .of_replay hs, hs', ⟨hcaptured, Nat.zero_le _, c, hc, hop⟩, ⟨w, hw, hlive⟩,
    ?_, hcrowded⟩
  rw [hids]
  decide

theorem crowd_reachable : Reachable samplePlatform ⟨101, crowdDb, []⟩ :=
  ⟨101, crowdDb, crowdDb_fresh, .refl _⟩

/-- The scan of the crowd commits as a compare-and-set. -/
theorem finish_scan_crowd : ∃ s s' args, s.step (code samplePlatform) (.run 1) = some s' ∧
    Finishing ⟨101, crowdDb, []⟩ s 1 "default" args ∧
    CompareAndSet samplePlatform ⟨101, crowdDb, []⟩ s s' 1 "default" args := by
  obtain ⟨s, s', args, hr, hs, hf, -⟩ := crowd_run
  exact ⟨s, s', args, hs, hf, finish_scan crowd_reachable hr hf hs⟩

/-- The listing is bounded: a hundred other namespaces come before one with a newer wake. -/
theorem crowd_not_listed : ¬ ∀ (p : Platform) (u s s' : BuildSystem) (i : ℕ) (ns : String)
    (args : FinishScanArgs) (id : ℕ), Reachable p u → Reaches p u s → Finishing u s i ns args →
    s.step (code p) (.run i) = some s' → s.db.work.Live ns .schedule id →
    ¬ u.db.work.Live ns .schedule id →
    ns ∈ (s'.db.work.listDueScheduleNamespaces s'.now).map Prod.fst := by
  intro hall
  obtain ⟨s, s', args, hr, hs, hf, hlive, -, hcrowded⟩ := crowd_run
  have hnew : ¬ crowdDb.work.Live "default" .schedule 101 := by
    rintro ⟨w, hw, -⟩
    rw [crowdDb_wakes, if_neg (Nat.lt_irrefl 101)] at hw
    cases hw
  exact crowded_spec hcrowded
    (hall samplePlatform _ s s' 1 "default" args 101 crowd_reachable hr hf hs hlive hnew)

end DataForge.Builds
