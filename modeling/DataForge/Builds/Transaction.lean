import DataForge.Builds.Protocol

/-!
# Builds and schedules: open transactions

What a transaction has staged over the committed state, row by row (`Over`) and across rows
(`Mine`). Both survive interference. A unit of work, such as a run with its job and their wake,
is followed row by row from the transaction it starts in, and joins what was staged before once
it is complete.
-/

namespace DataForge.Builds

open ReadCommitted DataForge.Runtime

/-- What call `i` of `op` may do to one resource up to the time `limit`. -/
def Cell (p : Platform) (i : ℕ) (op : Op) (h : BuildLocks) (limit : ℕ)
    (r : Resource TableRow) (a b : Db Tables) : Prop :=
  match r with
  | .tenant ns (.job id) => JobStep p op limit ns (jobAt a ns id) (jobAt b ns id)
  | .tenant ns (.run id) => RunStep i op h ns (runAt a ns id) (runAt b ns id)
  | .tenant ns (.schedule id) => ScheduleStep p op ns id (scheduleAt a ns id) (scheduleAt b ns id)
  | .tenant ns (.datasource id) => (b.tenants ns).datasources.get id =
      (a.tenants ns).datasources.get id ∨ ∃ args, op = .startBuild ns args
  | .tenant ns (.event key) => eventAt b ns key = eventAt a ns key ∨ Granted h (runs.row ns key.1)
  | .wake id => a.work.wakes.get id = none ∨ b.work.wakes.get id = a.work.wakes.get id
  | .marker key => b.work.markers.get key = a.work.markers.get key
  | _ => True

section Cells

variable {p : Platform} {i : ℕ} {op : Op} {h h' : BuildLocks}
  {limit limit' : ℕ} {r : Resource TableRow} {a b c : Db Tables}

theorem Cell.refl (p : Platform) (i : ℕ) (op : Op) (h : BuildLocks)
    (limit : ℕ) (r : Resource TableRow) (a : Db Tables) : Cell p i op h limit r a a := by
  rcases r with ⟨ns, id | id | key | id | id | id⟩ | key | id | key
  · exact Relation.ReflTransGen.refl
  · exact Relation.ReflTransGen.refl
  · exact Or.inl rfl
  · trivial
  · exact Relation.ReflTransGen.refl
  · exact Or.inl rfl
  · trivial
  · exact Or.inr rfl
  · exact Eq.refl _

theorem Cell.trans (hab : Cell p i op h limit r a b) (hbc : Cell p i op h limit r b c) :
    Cell p i op h limit r a c := by
  rcases r with ⟨ns, id | id | key | id | id | id⟩ | key | id | key
  · exact Relation.ReflTransGen.trans hab hbc
  · exact Relation.ReflTransGen.trans hab hbc
  · rcases hab with hab | hab
    · exact hbc.imp_left fun hbc => hbc.trans hab
    · exact Or.inr hab
  · trivial
  · exact Relation.ReflTransGen.trans hab hbc
  · rcases hab with hab | hab
    · exact hbc.imp_left fun hbc => hbc.trans hab
    · exact Or.inr hab
  · trivial
  · rcases hab with hab | hab
    · exact Or.inl hab
    · rcases hbc with hbc | hbc
      · exact Or.inl (hab.symm.trans hbc)
      · exact Or.inr (hbc.trans hab)
  · exact Eq.trans hbc hab

theorem Cell.mono (hh : h ⊆ h') (hl : limit ≤ limit') (hc : Cell p i op h limit r a b) :
    Cell p i op h' limit' r a b := by
  rcases r with ⟨ns, id | id | key | id | id | id⟩ | key | id | key
  · exact JobStep.mono hl hc
  · exact RunStep.mono hh hc
  · exact hc.imp_right fun ⟨since, hm⟩ => ⟨since, hh hm⟩
  all_goals exact hc

theorem Cell.congr {a' b' : Db Tables} (ha : Storage.same (Write TableWrite) r a' a)
    (hb : Storage.same (Write TableWrite) r b' b) (hc : Cell p i op h limit r a b) :
    Cell p i op h limit r a' b' := by
  rcases r with ⟨ns, id | id | key | id | id | id⟩ | key | id | key
  · have ha' : jobAt a' ns id = jobAt a ns id := ha
    have hb' : jobAt b' ns id = jobAt b ns id := hb
    simp only [Cell, ha', hb'] at hc ⊢
    exact hc
  · have ha' : runAt a' ns id = runAt a ns id := ha
    have hb' : runAt b' ns id = runAt b ns id := hb
    simp only [Cell, ha', hb'] at hc ⊢
    exact hc
  · have ha' : eventAt a' ns key = eventAt a ns key := ha
    have hb' : eventAt b' ns key = eventAt b ns key := hb
    simp only [Cell, ha', hb'] at hc ⊢
    exact hc
  · trivial
  · have ha' : scheduleAt a' ns id = scheduleAt a ns id := ha
    have hb' : scheduleAt b' ns id = scheduleAt b ns id := hb
    simp only [Cell, ha', hb'] at hc ⊢
    exact hc
  · have ha' : (a'.tenants ns).datasources.get id = (a.tenants ns).datasources.get id := ha
    have hb' : (b'.tenants ns).datasources.get id = (b.tenants ns).datasources.get id := hb
    simp only [Cell, ha', hb'] at hc ⊢
    exact hc
  · trivial
  · have ha' : a'.work.wakes.get id = a.work.wakes.get id := ha
    have hb' : b'.work.wakes.get id = b.work.wakes.get id := hb
    simp only [Cell, ha', hb'] at hc ⊢
    exact hc
  · have ha' : a'.work.markers.get key = a.work.markers.get key := ha
    have hb' : b'.work.markers.get key = b.work.markers.get key := hb
    simp only [Cell, ha', hb'] at hc ⊢
    exact hc

end Cells

/-- Transaction `t` continues `t₀`, and what it adds is allowed row by row. -/
structure Over (p : Platform) (i : ℕ) (op : Op) (t0 t : BuildTxn) (w : BuildWorld) :
    Prop where
  guarded : t.Guarded
  held : t0.held ⊆ t.held
  writes : t0.writes <+: t.writes
  cells : ∀ r, Cell p i op t.held w.now r (view t0.writes w.db) (view t.writes w.db)

section Over

variable {p : Platform} {renews : Prop} {i : ℕ} {op : Op} {t0 t1 t : BuildTxn}
  {w w' : BuildWorld} {e : BuildEnv} {ns id : String}

theorem Over.refl (hg : t.Guarded) : Over p i op t t w :=
  ⟨hg, List.Subset.refl _, List.prefix_refl _, fun r => Cell.refl p i op _ _ r _⟩

theorem Over.trans (h : Over p i op t0 t1 w) (h' : Over p i op t1 t w) : Over p i op t0 t w :=
  ⟨h'.guarded, fun _ hk => h'.held (h.held hk), h.writes.trans h'.writes,
    fun r => ((h.cells r).mono h'.held (Nat.le_refl _)).trans (h'.cells r)⟩

/-- A resource a transaction has written is held, and seen alike in two worlds between which
nothing but interference happens; one it has not written is seen as it is committed. -/
theorem guarded_cases (hg : t.Guarded) (hw : t0.writes <+: t.writes)
    (hr : (protocol p renews).Rely t.held w w') (r : Resource TableRow) :
    (Storage.same (Write TableWrite) r w'.db w.db ∧
      Storage.same (Write TableWrite) r (view t0.writes w'.db) (view t0.writes w.db) ∧
      Storage.same (Write TableWrite) r (view t.writes w'.db) (view t.writes w.db)) ∨
    ∀ db : Db Tables, Storage.same (Write TableWrite) r (view t0.writes db) db ∧
      Storage.same (Write TableWrite) r (view t.writes db) db := by
  by_cases hv : ∃ v ∈ t.writes, Storage.target v = r
  · obtain ⟨v, hv, rfl⟩ := hv
    obtain ⟨k, hk, hres, -⟩ := hg v hv
    have hsame := hr.same hk
    rw [hres] at hsame
    exact Or.inl ⟨hsame, view_same t0.writes hsame, view_same t.writes hsame⟩
  · have hne : ∀ v ∈ t.writes, Storage.target v ≠ r := fun v hm he => hv ⟨v, hm, he⟩
    exact Or.inr fun db => ⟨view_same_of_ne db fun v hm => hne v (hw.subset hm),
      view_same_of_ne db hne⟩

theorem Over.rely (h : Over p i op t0 t w) (hr : (protocol p renews).Rely t.held w w') :
    Over p i op t0 t w' := by
  refine ⟨h.guarded, h.held, h.writes, fun r => ?_⟩
  rcases guarded_cases h.guarded h.writes hr r with ⟨-, h0, h1⟩ | hfree
  · exact ((h.cells r).mono (List.Subset.refl _) hr.now_le).congr h0 h1
  · exact (Cell.refl p i op _ _ r w'.db).congr (hfree w'.db).1 (hfree w'.db).2

theorem Over.lock (h : Over p i op t0 t w) (e : BuildEnv) (rows : List (Resource TableRow))
    (mode : Mode) : Over p i op t0 (t.after e (lockRows rows mode)) w := by
  have hw : (t.after e (lockRows rows mode)).writes = t.writes := List.append_nil _
  refine ⟨h.guarded.after _ _, fun _ hk => t.held_subset_after _ _ (h.held hk), ?_, fun r => ?_⟩
  · rw [hw]
    exact h.writes
  · rw [hw]
    exact (h.cells r).mono (t.held_subset_after _ _) (Nat.le_refl _)

theorem Over.query (h : Over p i op t0 t w) (began : Option ℕ) :
    Over p i op t0 ⟨t.held, t.writes, began⟩ w := ⟨h.guarded, h.held, h.writes, h.cells⟩

theorem Over.write (h : Over p i op t0 t w) (e : BuildEnv) (v : Write TableWrite)
    (hc : Cell p i op (t.after e ⟨[], [v]⟩).held w.now (Storage.target v) (view t.writes w.db)
      ((view t.writes w.db).write v)) : Over p i op t0 (t.after e ⟨[], [v]⟩) w := by
  have hv : view (t.after e ⟨[], [v]⟩).writes w.db = (view t.writes w.db).write v :=
    view_append _ _ _
  refine ⟨h.guarded.after _ _, fun _ hk => t.held_subset_after _ _ (h.held hk),
    h.writes.trans (List.prefix_append _ _), fun r => ?_⟩
  have hold := (h.cells r).mono (t.held_subset_after e ⟨[], [v]⟩) (Nat.le_refl _)
  rw [hv]
  by_cases hr : Storage.target v = r
  · subst hr
    exact hold.trans hc
  · exact hold.congr ((Storage.same_equiv r).refl _) (Storage.same_apply _ hr)

end Over

section Joint

variable {p : Platform} {i : ℕ} {op : Op} {h : BuildLocks} {limit : ℕ}
  {a b c a' b' : Db Tables} {ns : String} {kind : RuntimeWorkKind}

theorem Agrees.of_status {status : BuildJobStatus} {r r' : BuildRun} (hs : r'.status = r.status)
    (ha : Agrees status r) : Agrees status r' := by
  unfold Agrees terminalOutcome at *
  rw [hs]
  cases hr : r.status <;> simp_all

theorem cells_run (hc : ∀ r, Cell p i op h limit r a b) {id : String} {r : BuildRun}
    (hr : runAt a ns id = some r) : ∃ r', runAt b ns id = some r' ∧ Descends r r' := by
  have hs : RunStep i op h ns (runAt a ns id) (runAt b ns id) := hc (.tenant ns (.run id))
  rw [hr] at hs
  exact hs.descends

private theorem cells_job (hc : ∀ r, Cell p i op h limit r a b) {id : String} {j : BuildJob}
    (hj : jobAt a ns id = some j) : ∃ j', jobAt b ns id = some j' ∧ j'.buildId = j.buildId ∧
      (j.status.isTerminal = true → j' = j) := by
  have hs : JobStep p op limit ns (jobAt a ns id) (jobAt b ns id) := hc (.tenant ns (.job id))
  rw [hj] at hs
  obtain ⟨j', hj', hid⟩ := hs.stays
  refine ⟨j', hj', hid, fun ht => ?_⟩
  have hsame := hs.terminal ht
  rw [hj'] at hsame
  exact Option.some.inj hsame

theorem cells_issued (hc : ∀ r, Cell p i op h limit r a b) {id : ℕ}
    (hid : a.work.wakes.get id ≠ none) : b.work.wakes.get id ≠ none := by
  rcases hc (.wake id) with hnone | hsame
  · exact absurd hnone hid
  · rwa [hsame]

theorem cells_live (hc : ∀ r, Cell p i op h limit r a b) {id : ℕ} (hl : a.work.Live ns kind id) :
    b.work.Live ns kind id := by
  obtain ⟨u, hu, hul⟩ := hl
  rcases hc (.wake id) with hnone | hsame
  · rw [hnone] at hu
    cases hu
  · exact ⟨u, hsame.trans hu, hul⟩

theorem NewWake.before (hn : NewWake b c ns kind) (hc : ∀ r, Cell p i op h limit r a b) :
    NewWake a c ns kind := by
  obtain ⟨id, hid, hl⟩ := hn
  exact ⟨id, by_contra fun ha => cells_issued hc ha hid, hl⟩

theorem NewWake.later (hn : NewWake a b ns kind) (hc : ∀ r, Cell p i op h limit r b c) :
    NewWake a c ns kind := by
  obtain ⟨id, hid, hl⟩ := hn
  exact ⟨id, hid, cells_live hc hl⟩

theorem Logged.of_same {id : String} (hn : nextSequence b ns id = nextSequence a ns id)
    (he : ∀ n, eventAt b ns (id, n) = eventAt a ns (id, n)) : Logged ns id a b where
  kept n e h := (he n).trans h
  added n h := by
    rw [he n, h, hn]
    exact ⟨fun hne => absurd rfl hne, fun hlt => by omega⟩
  terminal n e status h h' := by
    rw [he n, h] at h'
    cases h'

theorem Logged.of_rows {id : String} (hr : runAt b ns id = runAt a ns id)
    (he : ∀ n, eventAt b ns (id, n) = eventAt a ns (id, n)) : Logged ns id a b :=
  .of_same (by unfold nextSequence; rw [hr]) he

theorem cells_sequence (hc : ∀ r, Cell p i op h limit r a b) (ns id : String) :
    nextSequence a ns id ≤ nextSequence b ns id := by
  have hs : RunStep i op h ns (runAt a ns id) (runAt b ns id) := hc (.tenant ns (.run id))
  unfold nextSequence
  cases ha : runAt a ns id with
  | some x =>
    obtain ⟨y, hy, hd⟩ := cells_run hc ha
    rw [hy]
    exact hd.sequence
  | none =>
    cases hb : runAt b ns id with
    | none => exact Nat.le_refl _
    | some y =>
      rw [ha, hb] at hs
      obtain ⟨r, hnew, hd⟩ := hs.staged
      exact hnew.sequence.ge.trans hd.sequence

/-- What is logged in two parts of a transaction. -/
theorem Logged.trans {id : String} (hab : ∀ r, Cell p i op h limit r a b)
    (hbc : ∀ r, Cell p i op h limit r b c) (h1 : Logged ns id a b) (h2 : Logged ns id b c) :
    Logged ns id a c where
  kept n e he := h2.kept n e (h1.kept n e he)
  added n ha := by
    have hle := cells_sequence hab ns id
    have hle' := cells_sequence hbc ns id
    have hadd := h1.added n ha
    cases hb : eventAt b ns (id, n) with
    | none =>
      rw [hb] at hadd
      have hout : ¬(nextSequence a ns id ≤ n ∧ n < nextSequence b ns id) :=
        fun hin => hadd.mpr hin rfl
      rw [h2.added n hb]
      omega
    | some e =>
      rw [hb] at hadd
      have hin := hadd.mp (Option.some_ne_none e)
      rw [h2.kept n e hb]
      exact ⟨fun _ => by omega, fun _ => Option.some_ne_none e⟩
  terminal n e status ha hc hterm := by
    cases hb : eventAt b ns (id, n) with
    | none => exact h2.terminal n e status hb hc hterm
    | some e' =>
      rw [h2.kept n e' hb] at hc
      cases hc
      obtain ⟨r, hr, hst⟩ := h1.terminal n _ status ha hb hterm
      obtain ⟨r', hr', hd⟩ := cells_run hbc hr
      exact ⟨r', hr', (hd.status (by rw [hst]; exact isTerminal_of_event hterm)).trans hst⟩

theorem Joint.refl (op : Op) (a : Db Tables) : Joint op a a where
  owned ns id j hx hj := by rw [hx] at hj; cases hj
  woken ns id hx hj := absurd hx hj
  settled ns id x j hx hn hj ht := by
    rw [hx] at hj
    cases hj
    rw [hn] at ht
    cases ht
  alarmed ns id x r hx hn hs hr ht := by
    rw [hx] at hr
    cases hr
    rw [hn] at ht
    cases ht
  edited ns id hop hne := absurd rfl hne
  logged ns id := .of_same rfl fun _ => rfl
  released ns id s x hs hx := Or.inl ⟨s, hs, hx⟩

/-- Units of work of one transaction follow each other. -/
theorem Joint.trans (hab : ∀ r, Cell p i op h limit r a b) (hbc : ∀ r, Cell p i op h limit r b c)
    (h1 : Joint op a b) (h2 : Joint op b c) : Joint op a c where
  owned ns id j hx hj := by
    cases hy : jobAt b ns id with
    | none => exact h2.owned ns id j hy hj
    | some y =>
      obtain ⟨j', hj', hid, -⟩ := cells_job hbc hy
      rw [hj] at hj'
      cases hj'
      obtain ⟨r, hr⟩ := Option.ne_none_iff_exists'.mp (h1.owned ns id y hx hy)
      obtain ⟨r', hr', -⟩ := cells_run hbc hr
      rw [hid, hr']
      exact Option.some_ne_none _
  woken ns id hx hj := by
    by_cases hy : jobAt b ns id = none
    · exact (h2.woken ns id hy hj).before hab
    · exact (h1.woken ns id hx hy).later hbc
  settled ns id x j hx hn hj ht := by
    obtain ⟨y, hy, -, -⟩ := cells_job hab hx
    cases hyt : y.status.isTerminal with
    | false => exact h2.settled ns id y j hy hyt hj ht
    | true =>
      -- the job settled in the first part, and its run with it
      obtain ⟨j', hj', -, hsame⟩ := cells_job hbc hy
      rw [hj, hsame hyt] at hj'
      cases hj'
      obtain ⟨r, hr, hrt, hagree⟩ := h1.settled ns id x _ hx hn hy hyt
      obtain ⟨r', hr', hd⟩ := cells_run hbc hr
      have hst := hd.status hrt
      refine ⟨r', hr', by rw [hst]; exact hrt, ?_⟩
      rcases hagree with hagree | ⟨hop, hcase⟩
      · exact Or.inl (hagree.of_status hst)
      · exact Or.inr ⟨hop, by rw [hst]; exact hcase⟩
  alarmed ns id x r hx hn hs hr ht := by
    obtain ⟨y, hy, hd⟩ := cells_run hab hx
    cases hyt : y.status.isTerminal with
    | false =>
      have hwake := h2.alarmed ns id y r hy hyt (by rw [hd.scheduleId]; exact hs) hr ht
      rw [hd.ns] at hwake
      exact hwake.before hab
    | true => exact (h1.alarmed ns id x y hx hn hs hy hyt).later hbc
  edited ns id hop hne := by
    by_cases hy : scheduleAt b ns id = scheduleAt a ns id
    · exact (h2.edited ns id hop (hy ▸ hne)).before hab
    · exact (h1.edited ns id hop hy).later hbc
  logged ns id := (h1.logged ns id).trans hab hbc (h2.logged ns id)
  released ns id s x hs hx := by
    rcases h2.released ns id s x hs hx with ⟨s1, hs1, hx1⟩ | hnew
    · rcases h1.released ns id s1 x hs1 hx1 with hold | ⟨hop, r, hr, ht, hid, htrig⟩
      · exact Or.inl hold
      · obtain ⟨r', hr', hd⟩ := cells_run hbc hr
        have hstep : ScheduleStep p op ns id (scheduleAt b ns id) (scheduleAt c ns id) :=
          hbc (.tenant ns (.schedule id))
        rw [hs1, hs] at hstep
        refine Or.inr ⟨hop, r', hr', by rwa [hd.status ht], hd.scheduleId.trans hid, ?_⟩
        rw [(hstep.reconciled hop).2.1, hd.createdAt]
        exact htrig
    · exact Or.inr hnew

/-- The run and the log of a build are the same in two states. -/
def SameLog (ns id : String) (a b : Db Tables) : Prop :=
  runAt a ns id = runAt b ns id ∧ ∀ n, eventAt a ns (id, n) = eventAt b ns (id, n)

theorem Logged.congr {id : String} (ha : SameLog ns id a' a) (hb : SameLog ns id b' b)
    (hl : Logged ns id a b) : Logged ns id a' b' where
  kept n e h := (hb.2 n).trans (hl.kept n e ((ha.2 n).symm.trans h))
  added n h := by
    have hadd := hl.added n ((ha.2 n).symm.trans h)
    unfold nextSequence at hadd ⊢
    rw [ha.1, hb.1, hb.2 n]
    exact hadd
  terminal n e status h h' hterm := by
    rw [hb.1]
    exact hl.terminal n e status ((ha.2 n).symm.trans h) ((hb.2 n).symm.trans h') hterm

theorem SameLog.logged {id : String} (h : SameLog ns id b a) : Logged ns id a b :=
  .of_rows h.1 h.2

/-- Two states in which a transaction has written the same rows; the others agree with what is
committed. -/
structure Rebased (a b a' b' : Db Tables) : Prop where
  cases : ∀ r, (Storage.same (Write TableWrite) r a' a ∧ Storage.same (Write TableWrite) r b' b) ∨
    (Storage.same (Write TableWrite) r b a ∧ Storage.same (Write TableWrite) r b' a')
  run : ∀ ns id r, runAt b ns id = some r → ∃ r', runAt b' ns id = some r' ∧ Descends r r'
  log : ∀ ns id, (SameLog ns id a' a ∧ SameLog ns id b' b) ∨ SameLog ns id b' a'

private theorem Rebased.newWake (hr : Rebased a b a' b') (hn : NewWake a b ns kind) :
    NewWake a' b' ns kind := by
  obtain ⟨id, hid, u, hu, hl⟩ := hn
  rcases hr.cases (.wake id) with ⟨ha, hb⟩ | ⟨hb, -⟩
  · exact ⟨id, Eq.trans ha hid, u, Eq.trans hb hu, hl⟩
  · rw [show b.work.wakes.get id = a.work.wakes.get id from hb, hid] at hu
    cases hu

/-- What was staged jointly stays so under interference. -/
theorem Joint.rebase (hr : Rebased a b a' b') (hj : Joint op a b) : Joint op a' b' where
  owned ns id j hx hy := by
    rcases hr.cases (.tenant ns (.job id)) with ⟨ha, hb⟩ | ⟨-, hb⟩
    · have hown := hj.owned ns id j (Eq.trans (Eq.symm ha) hx) (Eq.trans (Eq.symm hb) hy)
      obtain ⟨r, hr'⟩ := Option.ne_none_iff_exists'.mp hown
      obtain ⟨r', hr', -⟩ := hr.run ns j.buildId r hr'
      rw [hr']
      exact Option.some_ne_none _
    · rw [show jobAt b' ns id = jobAt a' ns id from hb, hx] at hy
      cases hy
  woken ns id hx hy := by
    rcases hr.cases (.tenant ns (.job id)) with ⟨ha, hb⟩ | ⟨-, hb⟩
    · refine hr.newWake (hj.woken ns id (Eq.trans (Eq.symm ha) hx) ?_)
      rwa [show jobAt b' ns id = jobAt b ns id from hb] at hy
    · exact absurd (Eq.trans hb hx) hy
  settled ns id x j hx hn hy ht := by
    rcases hr.cases (.tenant ns (.job id)) with ⟨ha, hb⟩ | ⟨-, hb⟩
    · obtain ⟨r, hrun, hrt, hagree⟩ :=
        hj.settled ns id x j (Eq.trans (Eq.symm ha) hx) hn (Eq.trans (Eq.symm hb) hy) ht
      obtain ⟨r', hr', hd⟩ := hr.run ns j.buildId r hrun
      have hst := hd.status hrt
      refine ⟨r', hr', by rw [hst]; exact hrt, ?_⟩
      rcases hagree with hagree | ⟨hop, hcase⟩
      · exact Or.inl (hagree.of_status hst)
      · exact Or.inr ⟨hop, by rw [hst]; exact hcase⟩
    · rw [show jobAt b' ns id = jobAt a' ns id from hb, hx] at hy
      cases hy
      rw [hn] at ht
      cases ht
  alarmed ns id x r hx hn hs hy ht := by
    rcases hr.cases (.tenant ns (.run id)) with ⟨ha, hb⟩ | ⟨-, hb⟩
    · exact hr.newWake
        (hj.alarmed ns id x r (Eq.trans (Eq.symm ha) hx) hn hs (Eq.trans (Eq.symm hb) hy) ht)
    · rw [show runAt b' ns id = runAt a' ns id from hb, hx] at hy
      cases hy
      rw [hn] at ht
      cases ht
  edited ns id hop hne := by
    rcases hr.cases (.tenant ns (.schedule id)) with ⟨ha, hb⟩ | ⟨-, hb⟩
    · refine hr.newWake (hj.edited ns id hop fun he => hne ?_)
      exact Eq.trans hb (Eq.trans he (Eq.symm ha))
    · exact absurd hb hne
  logged ns id := by
    rcases hr.log ns id with ⟨ha, hb⟩ | hsame
    · exact (hj.logged ns id).congr ha hb
    · exact hsame.logged
  released ns id s x hs hx := by
    rcases hr.cases (.tenant ns (.schedule id)) with ⟨ha, hb⟩ | ⟨-, hb⟩
    · rcases hj.released ns id s x (Eq.trans (Eq.symm hb) hs) hx with
        ⟨s0, hs0, hx0⟩ | ⟨hop, r, hrun, ht, hid, htrig⟩
      · exact Or.inl ⟨s0, Eq.trans ha hs0, hx0⟩
      · obtain ⟨r', hr', hd⟩ := hr.run ns x r hrun
        exact Or.inr ⟨hop, r', hr', by rwa [hd.status ht], hd.scheduleId.trans hid,
          by rwa [hd.createdAt]⟩
    · exact Or.inl ⟨s, Eq.trans (Eq.symm hb) hs, hx⟩

end Joint

/-- A transaction of `op` whose writes so far are complete units of work. -/
structure Mine (p : Platform) (i : ℕ) (op : Op) (t : BuildTxn) (w : BuildWorld) :
    Prop where
  within : Over p i op {} t w
  joint : Joint op w.db (view t.writes w.db)

section Mine

variable {p : Platform} {renews : Prop} {i : ℕ} {op : Op} {t t' : BuildTxn}
  {w w' : BuildWorld} {e : BuildEnv} {ns id : String}

theorem Mine.of_nil (h : t.writes = []) : Mine p i op t w := by
  refine ⟨⟨fun v hv => ?_, List.nil_subset _, List.nil_prefix, fun r => ?_⟩, ?_⟩
  · rw [h] at hv
    cases hv
  · rw [h]
    exact Cell.refl p i op _ _ r _
  · rw [h]
    exact Joint.refl op w.db

theorem run_rely {h : BuildLocks} {r : BuildRun}
    (hr : (protocol p renews).Rely h w w') (hx : runAt w.db ns id = some r) :
    ∃ r', runAt w'.db ns id = some r' ∧ Descends r r' := by
  refine hr.stable (S := fun v : BuildWorld =>
    ∃ r', runAt v.db ns id = some r' ∧ Descends r r') (fun _ _ _ hs => hs) ?_ ⟨r, hx, .refl r⟩
  rintro v db j op' t' hc ⟨r', hr', hd⟩
  obtain ⟨r'', hr'', hd'⟩ := hc.act.run_descends hr'
  exact ⟨r'', hr'', hd.trans hd'⟩

theorem run_view_rely {r : BuildRun} (hg : t.Guarded) (hr : (protocol p renews).Rely t.held w w')
    (hx : runAt (view t.writes w.db) ns id = some r) :
    ∃ r', runAt (view t.writes w'.db) ns id = some r' ∧ Descends r r' := by
  rcases guarded_cases hg (List.prefix_refl _) hr (.tenant ns (.run id)) with ⟨-, -, hb⟩ | hfree
  · exact ⟨r, Eq.trans hb hx, .refl r⟩
  · obtain ⟨r', hr', hd⟩ := run_rely hr (Eq.trans (Eq.symm (hfree w.db).2) hx)
    exact ⟨r', Eq.trans (hfree w'.db).2 hr', hd⟩

theorem sameLog_rely {h : BuildLocks} {k : Lock (Resource TableRow)}
    (hr : (protocol p renews).Rely h w w') (hk : k ∈ h) (hres : k.res = runs.row ns id) :
    SameLog ns id w'.db w.db := by
  refine hr.stable (S := fun v : BuildWorld => SameLog ns id v.db w.db)
    (fun _ _ _ hs => hs) ?_ ⟨rfl, fun _ => rfl⟩
  intro v db j op' t' hc hs
  have hsame := hc.same hk
  rw [hres] at hsame
  have hrun : runAt db ns id = runAt v.db ns id := hsame
  have hlog := hc.act.joint.logged ns id
  refine ⟨hrun.trans hs.1, fun n => Eq.trans ?_ (hs.2 n)⟩
  cases hv : eventAt v.db ns (id, n) with
  | some e => exact hlog.kept n e hv
  | none =>
    by_contra hne
    have hin := (hlog.added n hv).mp hne
    unfold nextSequence at hin
    rw [hrun] at hin
    omega

theorem Mine.rely (hm : Mine p i op t w) (hr : (protocol p renews).Rely t.held w w') :
    Mine p i op t w' := by
  have hg := hm.within.guarded
  have ho := hm.within.rely hr
  refine ⟨ho, hm.joint.rebase ⟨fun r => ?_, fun ns id r hx => run_view_rely hg hr hx,
    fun ns id => ?_⟩⟩
  · rcases guarded_cases hg (List.prefix_refl _) hr r with ⟨h0, -, h1⟩ | hfree
    · exact Or.inl ⟨h0, h1⟩
    · exact Or.inr ⟨(hfree w.db).2, (hfree w'.db).2⟩
  · by_cases hheld : ∃ k ∈ t.held, k.res = runs.row ns id
    · obtain ⟨k, hk, hres⟩ := hheld
      have hlog := sameLog_rely hr hk hres
      have hrow := hr.same hk
      rw [hres] at hrow
      exact Or.inl ⟨hlog, view_same t.writes hrow, fun n =>
        view_same (r := Resource.tenant ns (TableRow.event (id, n))) t.writes (hlog.2 n)⟩
    · -- a run that is not held is not written, and neither are its events
      have hfree : ∀ v ∈ t.writes, Storage.target v ≠ runs.row ns id := fun v hv he => by
        obtain ⟨k, hk, hres, -⟩ := hg v hv
        exact hheld ⟨k, hk, hres.trans he⟩
      have hsame := view_same_of_ne w'.db hfree
      refine Or.inr ⟨hsame, fun n => ?_⟩
      rcases ho.cells (.tenant ns (.event (id, n))) with hsame | ⟨since, hgrant⟩
      · exact hsame
      · exact absurd ⟨_, hgrant, rfl⟩ hheld

theorem Mine.unit (hm : Mine p i op t w) (ho : Over p i op t t' w)
    (hj : Joint op (view t.writes w.db) (view t'.writes w.db)) : Mine p i op t' w :=
  ⟨hm.within.trans ho, Joint.trans (fun r => (hm.within.cells r).mono ho.held (Nat.le_refl _))
    ho.cells hm.joint hj⟩

theorem Mine.lock (hm : Mine p i op t w) (e : BuildEnv) (rows : List (Resource TableRow))
    (mode : Mode) : Mine p i op (t.after e (lockRows rows mode)) w := by
  have hw : (t.after e (lockRows rows mode)).writes = t.writes := List.append_nil _
  exact ⟨hm.within.lock e rows mode, by rw [hw]; exact hm.joint⟩

theorem Mine.query (hm : Mine p i op t w) (began : Option ℕ) :
    Mine p i op ⟨t.held, t.writes, began⟩ w := ⟨hm.within.query began, hm.joint⟩

end Mine

section Views

variable {db : Db Tables} {v : Write TableWrite} {ns ns' id id' : String}

theorem jobAt_write_of_ne (hv : Storage.target v ≠ Resource.tenant ns (TableRow.job id)) :
    jobAt (db.write v) ns id = jobAt db ns id := Storage.same_apply db hv

theorem runAt_write_of_ne (hv : Storage.target v ≠ Resource.tenant ns (TableRow.run id)) :
    runAt (db.write v) ns id = runAt db ns id := Storage.same_apply db hv

theorem scheduleAt_write_of_ne
    (hv : Storage.target v ≠ Resource.tenant ns (TableRow.schedule id)) :
    scheduleAt (db.write v) ns id = scheduleAt db ns id := Storage.same_apply db hv

@[simp] theorem jobAt_job (row : Option BuildJob) :
    jobAt (db.write (.tenant ns (TableWrite.job id row))) ns id = row := by
  simp [jobAt, Db.write, Storage.apply, Tables.write]

@[simp] theorem runAt_run (row : Option BuildRun) :
    runAt (db.write (.tenant ns (TableWrite.run id row))) ns id = row := by
  simp [runAt, Db.write, Storage.apply, Tables.write]

@[simp] theorem scheduleAt_schedule (row : Option Schedule) :
    scheduleAt (db.write (.tenant ns (TableWrite.schedule id row))) ns id = row := by
  simp [scheduleAt, Db.write, Storage.apply, Tables.write]

theorem jobAt_job_of_ne (row : Option BuildJob) (hne : (ns', id') ≠ (ns, id)) :
    jobAt (db.write (.tenant ns (TableWrite.job id row))) ns' id' = jobAt db ns' id' :=
  jobAt_write_of_ne fun he => hne (by cases he; rfl)

theorem runAt_run_of_ne (row : Option BuildRun) (hne : (ns', id') ≠ (ns, id)) :
    runAt (db.write (.tenant ns (TableWrite.run id row))) ns' id' = runAt db ns' id' :=
  runAt_write_of_ne fun he => hne (by cases he; rfl)

theorem scheduleAt_schedule_of_ne (row : Option Schedule) (hne : (ns', id') ≠ (ns, id)) :
    scheduleAt (db.write (.tenant ns (TableWrite.schedule id row))) ns' id' =
      scheduleAt db ns' id' :=
  scheduleAt_write_of_ne fun he => hne (by cases he; rfl)

@[simp] theorem jobAt_run (row : Option BuildRun) :
    jobAt (db.write (.tenant ns (TableWrite.run id row))) ns' id' = jobAt db ns' id' :=
  jobAt_write_of_ne fun he => by cases he

@[simp] theorem jobAt_event (key : String × ℕ) (row : Option BuildEventRow) :
    jobAt (db.write (.tenant ns (TableWrite.event key row))) ns' id' = jobAt db ns' id' :=
  jobAt_write_of_ne fun he => by cases he

@[simp] theorem jobAt_schedule (row : Option Schedule) :
    jobAt (db.write (.tenant ns (TableWrite.schedule id row))) ns' id' = jobAt db ns' id' :=
  jobAt_write_of_ne fun he => by cases he

@[simp] theorem jobAt_outbox (row : Option OutboxEvent) :
    jobAt (db.write (.tenant ns (TableWrite.outbox id row))) ns' id' = jobAt db ns' id' :=
  jobAt_write_of_ne fun he => by cases he

@[simp] theorem jobAt_wake (wake : ℕ) (row : Option Wake) :
    jobAt (db.write (.wake wake row : Write TableWrite)) ns' id' = jobAt db ns' id' := rfl

@[simp] theorem runAt_job (row : Option BuildJob) :
    runAt (db.write (.tenant ns (TableWrite.job id row))) ns' id' = runAt db ns' id' :=
  runAt_write_of_ne fun he => by cases he

@[simp] theorem runAt_event (key : String × ℕ) (row : Option BuildEventRow) :
    runAt (db.write (.tenant ns (TableWrite.event key row))) ns' id' = runAt db ns' id' :=
  runAt_write_of_ne fun he => by cases he

@[simp] theorem runAt_schedule (row : Option Schedule) :
    runAt (db.write (.tenant ns (TableWrite.schedule id row))) ns' id' = runAt db ns' id' :=
  runAt_write_of_ne fun he => by cases he

@[simp] theorem runAt_outbox (row : Option OutboxEvent) :
    runAt (db.write (.tenant ns (TableWrite.outbox id row))) ns' id' = runAt db ns' id' :=
  runAt_write_of_ne fun he => by cases he

@[simp] theorem runAt_wake (wake : ℕ) (row : Option Wake) :
    runAt (db.write (.wake wake row : Write TableWrite)) ns' id' = runAt db ns' id' := rfl

@[simp] theorem scheduleAt_job (row : Option BuildJob) :
    scheduleAt (db.write (.tenant ns (TableWrite.job id row))) ns' id' = scheduleAt db ns' id' :=
  scheduleAt_write_of_ne fun he => by cases he

@[simp] theorem scheduleAt_run (row : Option BuildRun) :
    scheduleAt (db.write (.tenant ns (TableWrite.run id row))) ns' id' = scheduleAt db ns' id' :=
  scheduleAt_write_of_ne fun he => by cases he

@[simp] theorem scheduleAt_event (key : String × ℕ) (row : Option BuildEventRow) :
    scheduleAt (db.write (.tenant ns (TableWrite.event key row))) ns' id' =
      scheduleAt db ns' id' :=
  scheduleAt_write_of_ne fun he => by cases he

@[simp] theorem scheduleAt_wake (wake : ℕ) (row : Option Wake) :
    scheduleAt (db.write (.wake wake row : Write TableWrite)) ns' id' =
      scheduleAt db ns' id' := rfl

@[simp] theorem scheduleAt_outbox (row : Option OutboxEvent) :
    scheduleAt (db.write (.tenant ns (TableWrite.outbox id row))) ns' id' =
      scheduleAt db ns' id' :=
  scheduleAt_write_of_ne fun he => by cases he

theorem eventAt_write_of_ne {key : String × ℕ}
    (hv : Storage.target v ≠ Resource.tenant ns (TableRow.event key)) :
    eventAt (db.write v) ns key = eventAt db ns key := Storage.same_apply db hv

@[simp] theorem eventAt_event (key : String × ℕ) (row : Option BuildEventRow) :
    eventAt (db.write (.tenant ns (TableWrite.event key row))) ns key = row := by
  simp [eventAt, Db.write, Storage.apply, Tables.write]

theorem eventAt_event_of_ne {key key' : String × ℕ} (row : Option BuildEventRow)
    (hne : (ns', key') ≠ (ns, key)) :
    eventAt (db.write (.tenant ns (TableWrite.event key row))) ns' key' = eventAt db ns' key' :=
  eventAt_write_of_ne fun he => hne (by cases he; rfl)

@[simp] theorem eventAt_job (row : Option BuildJob) (key : String × ℕ) :
    eventAt (db.write (.tenant ns (TableWrite.job id row))) ns' key = eventAt db ns' key :=
  eventAt_write_of_ne fun he => by cases he

@[simp] theorem eventAt_run (row : Option BuildRun) (key : String × ℕ) :
    eventAt (db.write (.tenant ns (TableWrite.run id row))) ns' key = eventAt db ns' key :=
  eventAt_write_of_ne fun he => by cases he

@[simp] theorem eventAt_schedule (row : Option Schedule) (key : String × ℕ) :
    eventAt (db.write (.tenant ns (TableWrite.schedule id row))) ns' key = eventAt db ns' key :=
  eventAt_write_of_ne fun he => by cases he

@[simp] theorem eventAt_outbox (row : Option OutboxEvent) (key : String × ℕ) :
    eventAt (db.write (.tenant ns (TableWrite.outbox id row))) ns' key = eventAt db ns' key :=
  eventAt_write_of_ne fun he => by cases he

@[simp] theorem eventAt_wake (wake : ℕ) (row : Option Wake) (key : String × ℕ) :
    eventAt (db.write (.wake wake row : Write TableWrite)) ns' key = eventAt db ns' key := rfl

@[simp] theorem wakes_tenant (u : TableWrite) :
    (db.write (.tenant ns u)).work = db.work := rfl

@[simp] theorem wake_wake (wake : ℕ) (row : Option Wake) :
    (db.write (.wake wake row : Write TableWrite)).work.wakes.get wake = row := by
  simp [Db.write]

end Views

@[simp] theorem writes_lockRows (t : BuildTxn) (e : BuildEnv) (rows : List (Resource TableRow))
    (mode : Mode) : (t.after e (lockRows rows mode)).writes = t.writes := List.append_nil _

theorem view_write (t : BuildTxn) (e : BuildEnv) (v : Write TableWrite) (db : Db Tables) :
    view (t.after e ⟨[], [v]⟩).writes db = (view t.writes db).write v := view_append _ _ _

theorem NewWake.of_write {db db' : Db Tables} {wake : ℕ} (ns : String) (kind : RuntimeWorkKind)
    (now : ℕ) (hnone : db.work.wakes.get wake = none) :
    NewWake db (db'.write (.wake wake (some ⟨ns, kind, now, false⟩) : Write TableWrite)) ns kind :=
  ⟨wake, hnone, _, wake_wake wake _, by simp [Wake.live]⟩

section Writing

variable {p : Platform} {i : ℕ} {op : Op} {t0 t : BuildTxn} {w : BuildWorld}
  {ns id : String}

theorem Over.job (h : Over p i op t0 t w) (e : BuildEnv) {row : BuildJob}
    (hc : JobChange p op w.now ns (jobAt (view t.writes w.db) ns id) (some row)) :
    Over p i op t0 (t.after e ⟨[], [.tenant ns (.job id (some row))]⟩) w := by
  refine h.write e _ ?_
  change JobStep p op w.now ns _ (jobAt _ ns id)
  rw [jobAt_job]
  exact .single hc

theorem Over.run (h : Over p i op t0 t w) (e : BuildEnv) {row : BuildRun}
    (hc : RunChange i op t.held ns (runAt (view t.writes w.db) ns id) (some row)) :
    Over p i op t0 (t.after e ⟨[], [.tenant ns (.run id (some row))]⟩) w := by
  refine h.write e _ (Cell.mono (t.held_subset_after _ _) (Nat.le_refl w.now) ?_)
  change RunStep i op t.held ns _ (runAt _ ns id)
  rw [runAt_run]
  exact .single hc

theorem Over.schedule (h : Over p i op t0 t w) (e : BuildEnv) {row : Schedule}
    (hc : ScheduleChange p op ns id (scheduleAt (view t.writes w.db) ns id) (some row)) :
    Over p i op t0 (t.after e ⟨[], [.tenant ns (.schedule id (some row))]⟩) w := by
  refine h.write e _ ?_
  change ScheduleStep p op ns id _ (scheduleAt _ ns id)
  rw [scheduleAt_schedule]
  exact .single hc

theorem Over.event (h : Over p i op t0 t w) (e : BuildEnv) {key : String × ℕ}
    (row : Option BuildEventRow) (hrun : Granted t.held (runs.row ns key.1)) :
    Over p i op t0 (t.after e ⟨[], [.tenant ns (.event key row)]⟩) w := by
  obtain ⟨since, hm⟩ := hrun
  exact h.write e _ (Or.inr ⟨since, t.held_subset_after _ _ hm⟩)

theorem Over.outbox (h : Over p i op t0 t w) (e : BuildEnv) (ns id : String)
    (row : Option OutboxEvent) :
    Over p i op t0 (t.after e ⟨[], [.tenant ns (.outbox id row)]⟩) w := h.write e _ trivial

theorem Over.wake (h : Over p i op t0 t w) (e : BuildEnv) {wake : ℕ} (row : Wake)
    (hnone : (view t.writes w.db).work.wakes.get wake = none) :
    Over p i op t0 (t.after e ⟨[], [.wake wake (some row)]⟩) w := h.write e _ (Or.inl hnone)

end Writing

section Units

variable {op : Op} {b c : Db Tables}

/-- A unit of work on one job and one run. -/
theorem Joint.rows (ns jobId runId : String)
    (hjob : ∀ ns' id, (ns', id) ≠ (ns, jobId) → jobAt c ns' id = jobAt b ns' id)
    (hrun : ∀ ns' id, (ns', id) ≠ (ns, runId) → runAt c ns' id = runAt b ns' id)
    (hschedule : ∀ ns' id, scheduleAt c ns' id = scheduleAt b ns' id)
    (hnew : jobAt b ns jobId = none → ∀ j, jobAt c ns jobId = some j →
      runAt c ns j.buildId ≠ none ∧ NewWake b c ns .build)
    (hsettled : ∀ x j, jobAt b ns jobId = some x → x.status.isTerminal = false →
      jobAt c ns jobId = some j → j.status.isTerminal = true →
      ∃ r, runAt c ns j.buildId = some r ∧ r.status.isTerminal = true ∧ (Agrees j.status r ∨
        (op.exhausts ns ∧ (r.status = .completed ∨ r.status = .cancelled))))
    (halarm : ∀ x r, runAt b ns runId = some x → x.status.isTerminal = false →
      x.scheduleId ≠ none → runAt c ns runId = some r → r.status.isTerminal = true →
      NewWake b c x.ns .schedule)
    (hlog : ∀ ns' id, Logged ns' id b c) : Joint op b c where
  owned ns' id j hx hj := by
    by_cases hid : (ns', id) = (ns, jobId)
    · cases hid
      exact (hnew hx j hj).1
    · rw [hjob ns' id hid, hx] at hj
      cases hj
  woken ns' id hx hj := by
    by_cases hid : (ns', id) = (ns, jobId)
    · cases hid
      obtain ⟨j, hj⟩ := Option.ne_none_iff_exists'.mp hj
      exact (hnew hx j hj).2
    · exact absurd ((hjob ns' id hid).trans hx) hj
  settled ns' id x j hx hn hj ht := by
    by_cases hid : (ns', id) = (ns, jobId)
    · cases hid
      exact hsettled x j hx hn hj ht
    · rw [hjob ns' id hid, hx] at hj
      cases hj
      rw [hn] at ht
      cases ht
  alarmed ns' id x r hx hn hs hr ht := by
    by_cases hid : (ns', id) = (ns, runId)
    · cases hid
      exact halarm x r hx hn hs hr ht
    · rw [hrun ns' id hid, hx] at hr
      cases hr
      rw [hn] at ht
      cases ht
  edited ns' id hop hne := absurd (hschedule ns' id) hne
  logged := hlog
  released ns' id s x hs hx := Or.inl ⟨s, (hschedule ns' id).symm.trans hs, hx⟩

/-- A unit of work on one schedule. -/
theorem Joint.schedule (ns id : String) (hjob : ∀ ns' id, jobAt c ns' id = jobAt b ns' id)
    (hrun : ∀ ns' id, runAt c ns' id = runAt b ns' id)
    (hevent : ∀ ns' key, eventAt c ns' key = eventAt b ns' key)
    (hschedule : ∀ ns' id', (ns', id') ≠ (ns, id) → scheduleAt c ns' id' = scheduleAt b ns' id')
    (hedit : op.edits ns → NewWake b c ns .schedule)
    (hreleased : ∀ s x, scheduleAt c ns id = some s → s.releasedBy = some x →
      (∃ s0, scheduleAt b ns id = some s0 ∧ s0.releasedBy = some x) ∨
        (op.reconciles ns x ∧ ∃ r, runAt c ns x = some r ∧ r.status.isTerminal = true ∧
          r.scheduleId = some id ∧ s.lastTriggeredAt.all (· ≤ r.createdAt) = true)) :
    Joint op b c where
  owned ns' id' j hx hj := by rw [hjob, hx] at hj; cases hj
  woken ns' id' hx hj := absurd ((hjob ns' id').trans hx) hj
  settled ns' id' x j hx hn hj ht := by
    rw [hjob, hx] at hj
    cases hj
    rw [hn] at ht
    cases ht
  alarmed ns' id' x r hx hn hs hr ht := by
    rw [hrun, hx] at hr
    cases hr
    rw [hn] at ht
    cases ht
  edited ns' id' hop hne := by
    by_cases hid : (ns', id') = (ns, id)
    · cases hid
      exact hedit hop
    · exact absurd (hschedule ns' id' hid) hne
  logged ns' id' := .of_rows (hrun ns' id') fun n => hevent ns' (id', n)
  released ns' id' s x hs hx := by
    by_cases hid : (ns', id') = (ns, id)
    · cases hid
      exact hreleased s x hs hx
    · exact Or.inl ⟨s, (hschedule ns' id' hid).symm.trans hs, hx⟩

end Units

section Statements

variable {α β : Type} {p : Platform} {renews : Prop} {i : ℕ} {op : Op} {t : BuildTxn}
  {w : BuildWorld} {Q : β → BuildTxn → BuildWorld → Prop}

/-- `UPDATE … WHERE`: nothing, or one written row. -/
theorem wp_update {R : Rows α} {ns id : String} {cond : BuildEnv → α → Bool}
    {f : BuildEnv → α → α} {k : Option α → BuildScript β}
    (hnone : ∀ w' e, (protocol p renews).Rely t.held w w' → Inv w' →
      (protocol p renews).Sees i t w' e → (R.get ns id e).filter (cond e) = none →
      (protocol p renews).wp i op Q (k none) ⟨t.held, t.writes, some e.began⟩ w')
    (hsome : ∀ w' e a, (protocol p renews).Rely t.held w w' → Inv w' →
      (protocol p renews).Sees i t w' e → R.get ns id e = some a → cond e a = true →
      (protocol p renews).wp i op Q (k (some (f e a)))
        (t.after e ⟨[], [.tenant ns (R.put id (some (f e a)))]⟩) w') :
    (protocol p renews).wp i op Q (R.update ns id cond f >>= k) t w := by
  apply Protocol.wp_statement
  intro w' e hr hi hs
  cases hf : (R.get ns id e).filter (cond e) with
  | none =>
    have h := hnone w' e hr hi hs hf
    rwa [← Txn.after_query] at h
  | some a =>
    obtain ⟨hget, hc⟩ := Option.filter_eq_some_iff.mp hf
    exact hsome w' e a hr hi hs hget hc

theorem wp_selectForUpdate {R : Rows α} {ns id : String} {cond : BuildEnv → α → Bool}
    {k : Option α → BuildScript β}
    (hnone : ∀ w' e, (protocol p renews).Rely t.held w w' → Inv w' →
      (protocol p renews).Sees i t w' e → (R.get ns id e).filter (cond e) = none →
      (protocol p renews).wp i op Q (k none) (t.after e (lockRows [] .exclusive)) w')
    (hsome : ∀ w' e a, (protocol p renews).Rely t.held w w' → Inv w' →
      (protocol p renews).Sees i t w' e → R.get ns id e = some a → cond e a = true →
      (protocol p renews).wp i op Q (k (some a))
        (t.after e (lockRows [R.row ns id] .exclusive)) w') :
    (protocol p renews).wp i op Q (R.selectForUpdate ns id cond >>= k) t w := by
  apply Protocol.wp_statement
  intro w' e hr hi hs
  cases hf : (R.get ns id e).filter (cond e) with
  | none => exact hnone w' e hr hi hs hf
  | some a =>
    obtain ⟨hget, hc⟩ := Option.filter_eq_some_iff.mp hf
    exact hsome w' e a hr hi hs hget hc

theorem wp_insert {R : Rows α} {ns id : String} {conflict : Table String α → Bool}
    {a : BuildEnv → α} {k : Unit → BuildScript β}
    (h : ∀ w' e, (protocol p renews).Rely t.held w w' → Inv w' →
      (protocol p renews).Sees i t w' e → R.get ns id e = none →
      (protocol p renews).wp i op Q (k ())
        (t.after e ⟨[], [.tenant ns (R.put id (some (a e)))]⟩) w') :
    (protocol p renews).wp i op Q (R.insert ns id conflict a >>= k) t w := by
  apply Protocol.wp_exec
  intro w' e hr hi hs
  by_cases hc : ((R.get ns id e).isSome || conflict (R.table (e.db.tenants ns))) = true
  · simp only [hc, if_true]
    trivial
  · have hnone : R.get ns id e = none := by
      cases hg : R.get ns id e with
      | none => rfl
      | some a => simp [hg] at hc
    simp only [if_neg hc]
    exact h w' e hr hi hs hnone

theorem wp_appendWake {ns : String} {kind : RuntimeWorkKind} {id : ℕ} {k : ℕ → BuildScript β}
    (h : ∀ w' e, (protocol p renews).Rely t.held w w' → Inv w' →
      (protocol p renews).Sees i t w' e → e.db.work.wakes.get id = none →
      (protocol p renews).wp i op Q (k id)
        (t.after e ⟨[], [.wake id (some ⟨ns, kind, e.now, false⟩)]⟩) w') :
    (protocol p renews).wp i op Q (appendWake ns kind id >>= k) t w := by
  apply Protocol.wp_exec
  intro w' e hr hi hs
  cases hw : e.db.work.wakes.get id with
  | none =>
    simp only [hw]
    exact h w' e hr hi hs hw
  | some u =>
    simp only [hw]
    trivial

theorem granted_lockRows (t : BuildTxn) (e : BuildEnv) {rows : List (Resource TableRow)}
    {r : Resource TableRow} (hr : r ∈ rows) :
    (⟨r, .exclusive, e.now⟩ : Lock (Resource TableRow)) ∈
      (t.after e (lockRows rows .exclusive)).held :=
  Txn.lock_mem_after (n := (r, Mode.exclusive)) t e
    (List.mem_append_left _ (List.mem_map.mpr ⟨r, hr, rfl⟩))

theorem granted_write (t : BuildTxn) (e : BuildEnv) (v : Write TableWrite) :
    (⟨Storage.target v, .exclusive, e.now⟩ : Lock (Resource TableRow)) ∈
      (t.after e ⟨[], [v]⟩).held :=
  Txn.lock_mem_after (n := (Storage.target v, Mode.exclusive)) t e List.mem_cons_self

end Statements

theorem Mine.act {p : Platform} {renews : Prop} {i : ℕ} {op : Op} {t : BuildTxn}
    {w : BuildWorld} (hm : Mine p i op t w)
    (hen : ∀ ns args, op = .enqueueScheduleRun ns args →
      ∃ s, Enqueued ns args s w.db (view t.writes w.db)) :
    Act p renews i op t.held w (view t.writes w.db) where
  job ns id := hm.within.cells (.tenant ns (.job id))
  run ns id := hm.within.cells (.tenant ns (.run id))
  schedule ns id := hm.within.cells (.tenant ns (.schedule id))
  datasource ns id := hm.within.cells (.tenant ns (.datasource id))
  joint := hm.joint
  enqueued := hen
  issued _ hid := cells_issued hm.within.cells hid
  still ns kind _ _ :=
    ⟨hm.within.cells (.marker (ns, kind)), fun _ hl => cells_live hm.within.cells hl⟩
  refreshed _ ns _ := Or.inl
    ⟨hm.within.cells (.marker (ns, .build)), fun _ hl => cells_live hm.within.cells hl⟩

end DataForge.Builds
