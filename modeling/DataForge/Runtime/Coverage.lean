import DataForge.Runtime.Work
import Mathlib.Data.ENat.Basic

/-!
# No lost wake

The projection of `runtime_work_service.py` seen as an alarm clock: a queue row has a
deadline, the earliest time at which it is claimable, and a namespace has an alarm, the
earliest time at which `list_pending_namespaces` returns it. A queue is covered when the
alarm is no later than any deadline. Producers and consumers keep it covered; a consumer may
move the alarm only through `refresh_pending_work`, whose verification is `wp_refresh`.
-/

namespace DataForge.Runtime

open ReadCommitted

/-- When a marker with these columns is due. -/
def alarmOf (pending : Bool) (dueAt : Option ℕ) : ℕ∞ :=
  if pending then 0 else dueAt.elim ⊤ (fun d => (d : ℕ∞))

namespace Work

/-- A wake of this queue that has not been acknowledged. -/
def Live (work : Work) (ns : String) (kind : RuntimeWorkKind) (id : ℕ) : Prop :=
  ∃ w, work.wakes.get id = some w ∧ w.live ns kind = true

/-- The earliest time at which the namespace is listed. -/
def alarm (work : Work) (ns : String) (kind : RuntimeWorkKind) : ℕ∞ :=
  if work.liveIds ns kind = [] then
    (work.markers.get (ns, kind)).elim ⊤ (fun m => alarmOf m.pending m.dueAt)
  else 0

variable {work : Work}

theorem mem_liveIds {ns : String} {kind : RuntimeWorkKind} {id : ℕ} :
    id ∈ work.liveIds ns kind ↔ work.Live ns kind id := by
  rw [liveIds, List.mem_insertionSort, List.mem_map]
  constructor
  · rintro ⟨⟨k, w⟩, hm, rfl⟩
    obtain ⟨hr, hl⟩ := List.mem_filter.mp hm
    exact ⟨w, (Table.mem_rows_iff _ _ _).mp hr, hl⟩
  · rintro ⟨w, hw, hl⟩
    exact ⟨(id, w), List.mem_filter.mpr ⟨(Table.mem_rows_iff _ _ _).mpr hw, hl⟩, rfl⟩

theorem mem_captured {ns : String} {kind : RuntimeWorkKind} {id : ℕ}
    (h : id ∈ work.captured ns kind) : work.Live ns kind id :=
  mem_liveIds.mp (List.mem_of_mem_take h)

theorem alarm_le_of_live {ns : String} {kind : RuntimeWorkKind} {id : ℕ} (h : work.Live ns kind id)
    (d : ℕ∞) : work.alarm ns kind ≤ d := by
  have hne : work.liveIds ns kind ≠ [] := List.ne_nil_of_mem (mem_liveIds.mpr h)
  rw [alarm, if_neg hne]
  exact zero_le

theorem alarm_le_iff {ns : String} {kind : RuntimeWorkKind} {d : ℕ} :
    work.alarm ns kind ≤ d ↔ (∃ id, work.Live ns kind id) ∨
      ∃ m, work.markers.get (ns, kind) = some m ∧ alarmOf m.pending m.dueAt ≤ d := by
  constructor
  · intro h
    rw [alarm] at h
    split at h
    · cases hm : work.markers.get (ns, kind) with
      | none => simp [hm] at h
      | some m => exact Or.inr ⟨m, rfl, by simpa [hm] using h⟩
    · next hne =>
      obtain ⟨id, hid⟩ := List.exists_mem_of_ne_nil _ hne
      exact Or.inl ⟨id, mem_liveIds.mp hid⟩
  · rintro (⟨id, hid⟩ | ⟨m, hm, hd⟩)
    · exact alarm_le_of_live hid d
    · rw [alarm]
      split
      · rw [hm]; exact hd
      · exact zero_le

theorem alarm_le_marker {ns : String} {kind : RuntimeWorkKind} {m : Marker}
    (h : work.markers.get (ns, kind) = some m) :
    work.alarm ns kind ≤ alarmOf m.pending m.dueAt := by
  rw [alarm]
  split
  · rw [h]; exact le_refl _
  · exact zero_le

private theorem candidate_iff {now : ℕ} {m : Marker} :
    (Marker.candidate now m).isSome ↔ alarmOf m.pending m.dueAt ≤ now := by
  rw [Marker.candidate, alarmOf]
  cases m.pending with
  | true => simp
  | false => cases hd : m.dueAt <;> simp [Option.filter, apply_ite]

/-- A namespace is listed exactly when the alarm of one of the kinds has gone off. -/
theorem mem_listPendingNamespaces {kinds : List RuntimeWorkKind} {now : ℕ} {ns : String} :
    ns ∈ work.listPendingNamespaces kinds now ↔
      ∃ kind ∈ kinds, work.alarm ns kind ≤ now := by
  rw [listPendingNamespaces, List.mem_insertionSort, List.mem_dedup, pendingWork, List.map_append,
    List.mem_append]
  constructor
  · rintro (h | h)
    · obtain ⟨⟨n, p⟩, hp, rfl⟩ := List.mem_map.mp h
      obtain ⟨⟨⟨n', kind⟩, m⟩, hm, he⟩ := List.mem_filterMap.mp hp
      split at he
      · next hk =>
        obtain ⟨p', hp', he⟩ := Option.map_eq_some_iff.mp he
        cases he
        refine ⟨kind, hk, alarm_le_iff.mpr (Or.inr ⟨m, (Table.mem_rows_iff _ _ _).mp hm, ?_⟩)⟩
        exact candidate_iff.mp (by rw [hp']; rfl)
      · cases he
    · obtain ⟨⟨n, p⟩, hp, rfl⟩ := List.mem_map.mp h
      obtain ⟨⟨id, w⟩, hm, he⟩ := List.mem_filterMap.mp hp
      split at he
      · next hk =>
        cases he
        have hlive : w.live w.ns w.kind = true := by simpa [Wake.live] using hk.2
        have hid : work.Live w.ns w.kind id := ⟨w, (Table.mem_rows_iff _ _ _).mp hm, hlive⟩
        exact ⟨w.kind, hk.1, alarm_le_of_live hid _⟩
      · cases he
  · rintro ⟨kind, hk, ha⟩
    rcases alarm_le_iff.mp ha with ⟨id, w, hw, hl⟩ | ⟨m, hm, hd⟩
    · right
      obtain ⟨⟨rfl, rfl⟩, hack⟩ : (w.ns = ns ∧ w.kind = kind) ∧ w.acknowledged = false := by
        simpa [Wake.live] using hl
      refine List.mem_map.mpr ⟨(w.ns, w.createdAt), List.mem_filterMap.mpr ⟨(id, w), ?_, ?_⟩, rfl⟩
      · exact (Table.mem_rows_iff _ _ _).mpr hw
      · simp [hk, hack]
    · left
      obtain ⟨p, hp⟩ := Option.isSome_iff_exists.mp (candidate_iff.mpr hd)
      refine List.mem_map.mpr ⟨(ns, p), List.mem_filterMap.mpr ⟨((ns, kind), m), ?_, ?_⟩, rfl⟩
      · exact (Table.mem_rows_iff _ _ _).mpr hm
      · simp [hk, hp]

end Work

variable {τ W ρ : Type} [Storage τ W ρ]

/-- A durable queue in a tenant schema: its rows with their deadlines, and the two queries
`refresh_pending_work` is called with, which cover every row at the time they are evaluated. -/
structure Queue (τ W ρ : Type) [Storage τ W ρ] where
  Row : Type
  resource : Row → ρ
  deadline : τ → Row → ℕ∞
  pending : ℕ → τ → Bool
  due : ℕ → τ → Option ℕ
  deadline_same {a b : τ} {row : Row} : Storage.same W (resource row) a b →
    deadline a row = deadline b row
  snapshot_le (now : ℕ) (db : τ) (row : Row) :
    alarmOf (pending now db) (due now db) ≤ deadline db row

variable (q : Queue τ W ρ) (ns : String) (kind : RuntimeWorkKind)

/-- The alarm is no later than any deadline. -/
def Covered (db : Db τ) : Prop :=
  ∀ row, db.work.alarm ns kind ≤ q.deadline (db.tenants ns) row

/-- A commit that leaves the projection alone: a deadline moves forward only with a new wake. -/
structure Quiet (a b : Db τ) : Prop where
  marker : b.work.markers.get (ns, kind) = a.work.markers.get (ns, kind)
  live : ∀ id, a.work.Live ns kind id → b.work.Live ns kind id
  deadline : ∀ row, q.deadline (a.tenants ns) row ≤ q.deadline (b.tenants ns) row ∨
    ∃ id, a.work.wakes.get id = none ∧ b.work.Live ns kind id

/-- A commit of a refreshed projection. -/
structure Refreshed (a b : Db τ) : Prop where
  generation : a.work.generation ns kind < b.work.generation ns kind
  covered : Covered q ns kind b

variable {q ns kind}

theorem Quiet.covered {a b : Db τ} (h : Quiet q ns kind a b) (hc : Covered q ns kind a) :
    Covered q ns kind b := by
  intro row
  rcases h.deadline row with hd | ⟨id, -, hid⟩
  · have ha := hc row
    cases hdl : q.deadline (b.tenants ns) row with
    | top => exact le_top
    | coe d =>
      rw [hdl] at hd
      rcases Work.alarm_le_iff.mp (ha.trans hd) with ⟨id, hid⟩ | ⟨m, hm, hmd⟩
      · exact Work.alarm_le_of_live (h.live id hid) _
      · exact Work.alarm_le_iff.mpr (Or.inr ⟨m, h.marker.trans hm, hmd⟩)
  · exact Work.alarm_le_of_live hid _

section Refresh

variable {Op : Type} {P : Protocol Op (Db τ) (Write W) (Resource ρ)}

/-- What the refreshers of a queue rely on: ids are never reissued, and (under the condition
`C` on callers) every commit is quiet or refreshes. -/
structure Keeps (P : Protocol Op (Db τ) (Write W) (Resource ρ)) (q : Queue τ W ρ)
    (kind : RuntimeWorkKind) (C : Prop) : Prop where
  issued {h w db i op t} : P.Commits h w db i op t → ∀ id, w.db.work.wakes.get id ≠ none →
    db.work.wakes.get id ≠ none
  step {h w db i op t} : C → P.Commits h w db i op t → ∀ ns,
    Quiet q ns kind w.db db ∨ Refreshed q ns kind w.db db

/-- What a refresher knows between its snapshot and its commit: unless the marker has moved,
every row is covered by the snapshot `a` or by a wake it has not captured. -/
structure Watch (q : Queue τ W ρ) (ns : String) (kind : RuntimeWorkKind) (gen : ℕ)
    (a : ℕ∞) (ids : List ℕ) (writes : List (Write W)) (w : World (Db τ)) : Prop where
  le : gen ≤ w.db.work.generation ns kind
  issued : ∀ id ∈ ids, w.db.work.wakes.get id ≠ none
  covers : w.db.work.generation ns kind = gen → ∀ row,
    a ≤ q.deadline ((view writes w.db).tenants ns) row ∨ ∃ id ∉ ids, w.db.work.Live ns kind id

variable {C : Prop} {t : Txn (Write W) (Resource ρ)} {w w' : World (Db τ)}

variable {ids : List ℕ}

private theorem issued_rely {h : List (Lock (Resource ρ))} (hk : Keeps P q kind C)
    (hr : P.Rely h w w') (hi : ∀ id ∈ ids, w.db.work.wakes.get id ≠ none) :
    ∀ id ∈ ids, w'.db.work.wakes.get id ≠ none :=
  hr.stable (S := fun v : World (Db τ) => ∀ id ∈ ids, v.db.work.wakes.get id ≠ none)
    (fun _ _ _ hi => hi) (fun _ _ _ _ _ hc hi id hid => hk.issued hc id (hi id hid)) hi

/-- What a refresher knows is stable: a quiet commit either leaves a row's deadline no
earlier or adds a wake with a new id, and any other commit moves the marker. -/
theorem Watch.rely {gen : ℕ} {a : ℕ∞} (hC : C) (hk : Keeps P q kind C) (hg : t.Guarded)
    (hr : P.Rely t.held w w') (h : Watch q ns kind gen a ids t.writes w) :
    Watch q ns kind gen a ids t.writes w' := by
  refine hr.stable (S := Watch q ns kind gen a ids t.writes)
    (fun _ _ _ h => ⟨h.le, h.issued, h.covers⟩) ?_ h
  intro v db i op t' hc hw
  have hissued : ∀ id ∈ ids, db.work.wakes.get id ≠ none := fun id hid =>
    hk.issued hc id (hw.issued id hid)
  rcases hk.step hC hc ns with hq | hf
  · have hgen : db.work.generation ns kind = v.db.work.generation ns kind := by
      rw [Work.generation, Work.generation, hq.marker]
    refine ⟨hgen ▸ hw.le, hissued, fun he row => ?_⟩
    have hold := hw.covers (hgen ▸ he) row
    by_cases hm : ∃ u ∈ t.writes, Storage.target u = Resource.tenant ns (q.resource row)
    · -- the refresher has written this row, hence holds it
      obtain ⟨u, hu, htarget⟩ := hm
      obtain ⟨k, hk', hres, -⟩ := hg u hu
      have hsame := hc.same hk'
      rw [hres, htarget] at hsame
      have hview : Storage.same W (q.resource row) ((view t.writes db).tenants ns)
          ((view t.writes v.db).tenants ns) := view_same t.writes hsame
      rw [q.deadline_same hview]
      exact hold.imp_right fun ⟨id, hid, hl⟩ => ⟨id, hid, hq.live id hl⟩
    · have hne : ∀ u ∈ t.writes, Storage.target u ≠ Resource.tenant ns (q.resource row) :=
        fun u hu he => hm ⟨u, hu, he⟩
      have hv : q.deadline ((view t.writes v.db).tenants ns) row =
          q.deadline (v.db.tenants ns) row := q.deadline_same (view_same_of_ne v.db hne)
      have hv' : q.deadline ((view t.writes db).tenants ns) row =
          q.deadline (db.tenants ns) row := q.deadline_same (view_same_of_ne db hne)
      rw [hv] at hold
      rw [hv']
      rcases hold with hle | ⟨id, hid, hl⟩
      · rcases hq.deadline row with hd | ⟨id, hnone, hl⟩
        · exact Or.inl (hle.trans hd)
        · exact Or.inr ⟨id, fun hid => hw.issued id hid hnone, hl⟩
      · exact Or.inr ⟨id, hid, hq.live id hl⟩
  · refine ⟨hw.le.trans hf.generation.le, hissued, fun he => ?_⟩
    have hlt := hf.generation
    have hle := hw.le
    rw [he] at hlt
    exact absurd hle (Nat.not_le.mpr hlt)

/-- What a refreshed transaction does to the work tables if it commits over `db`, where
`base` is what it would have committed without refreshing. -/
structure Projects (q : Queue τ W ρ) (ns : String) (kind : RuntimeWorkKind) (C : Prop)
    (db base db' : Db τ) : Prop where
  tenants : db'.tenants = base.tenants
  issued : ∀ id, db.work.wakes.get id ≠ none → db'.work.wakes.get id ≠ none
  other : ∀ key, key ≠ (ns, kind) → db'.work.markers.get key = db.work.markers.get key ∧
    ∀ id, db.work.Live key.1 key.2 id → db'.work.Live key.1 key.2 id
  staged : ∀ key, key ≠ (ns, kind) → ∀ id, base.work.Live key.1 key.2 id →
    db'.work.Live key.1 key.2 id
  own : (db'.work.markers.get (ns, kind) = db.work.markers.get (ns, kind) ∧
      ∀ id, db.work.Live ns kind id → db'.work.Live ns kind id) ∨
    (C → Refreshed q ns kind db db')

/-- What a transaction may have written before it refreshes a kind of work: tenant rows, and
wakes of other kinds under ids that were not issued. -/
structure Aside (kind : RuntimeWorkKind) (writes : List (Write W)) (db : Db τ) : Prop where
  forms : ∀ v ∈ writes, (∃ ns u, v = .tenant ns u) ∨
    ∃ id row, v = .wake id (some row) ∧ row.kind ≠ kind
  unissued : ∀ id row, Write.wake id row ∈ writes → db.work.wakes.get id = none

variable {writes : List (Write W)} {db : Db τ}

omit [Storage τ W ρ] in
private theorem Aside.markers [Storage τ W ρ] (h : Aside kind writes db) :
    (view writes db).work.markers = db.work.markers := by
  have key (vs : List (Write W)) (d : Db τ) (hvs : ∀ v ∈ vs, (∃ ns u, v = .tenant ns u) ∨
      ∃ id row, v = .wake id (some row) ∧ row.kind ≠ kind) :
      (view vs d).work.markers = d.work.markers := by
    induction vs generalizing d with
    | nil => rfl
    | cons v vs ih =>
      refine (ih _ fun u hu => hvs u (List.mem_cons_of_mem _ hu)).trans ?_
      rcases hvs v List.mem_cons_self with ⟨ns, u, rfl⟩ | ⟨id, row, rfl, -⟩ <;> rfl
  exact key writes db h.forms

private theorem Aside.wake (h : Aside kind writes db) {id : ℕ} {u : Wake}
    (hu : (view writes db).work.wakes.get id = some u) (hk : u.kind = kind) :
    db.work.wakes.get id = some u := by
  have key (vs : List (Write W)) (d : Db τ) (hvs : ∀ v ∈ vs, (∃ ns u, v = .tenant ns u) ∨
      ∃ id row, v = .wake id (some row) ∧ row.kind ≠ kind)
      (hv : (view vs d).work.wakes.get id = some u) : d.work.wakes.get id = some u := by
    induction vs generalizing d with
    | nil => exact hv
    | cons v vs ih =>
      have hd := ih _ (fun x hx => hvs x (List.mem_cons_of_mem _ hx)) hv
      rcases hvs v List.mem_cons_self with ⟨ns, x, rfl⟩ | ⟨j, row, rfl, hrow⟩
      · exact hd
      · have hput : (d.work.wakes.put j (some row)).get id = some u := hd
        rw [Table.get_put] at hput
        split at hput
        · cases hput
          exact absurd hk hrow
        · exact hput
  exact key writes db h.forms hu

private theorem Aside.keeps (h : Aside kind writes db) {id : ℕ} (hid : db.work.wakes.get id ≠ none)
    :
    (view writes db).work.wakes.get id = db.work.wakes.get id := by
  refine view_same_of_ne (W := Write W) (r := Resource.wake id) db fun v hv he => hid ?_
  rcases h.forms v hv with ⟨ns, u, rfl⟩ | ⟨j, row, rfl, -⟩
  · cases he
  · injection he with he
    subst he
    exact h.unissued _ _ hv

private theorem Aside.generation (h : Aside kind writes db) (ns : String) :
    (view writes db).work.generation ns kind = db.work.generation ns kind := by
  rw [Work.generation, Work.generation, h.markers]

theorem Aside.rely (hg : t.Guarded) (hr : P.Rely t.held w w') (h : Aside kind t.writes w.db) :
    Aside kind t.writes w'.db := by
  refine ⟨h.forms, fun id row hm => ?_⟩
  obtain ⟨k, hk, hres, -⟩ := hg _ hm
  have hsame := hr.same hk
  rw [hres] at hsame
  exact Eq.trans hsame (h.unissued id row hm)

omit [Storage τ W ρ] in
theorem mem_acknowledge {work : Work} {v : Write W} (h : v ∈ acknowledge work ns kind ids) :
    ∃ id u, v = .wake id (some { u with acknowledged := true }) ∧
      id ∈ ids ∧ work.wakes.get id = some u ∧ u.live ns kind = true := by
  obtain ⟨id, hid, hv⟩ := List.mem_filterMap.mp h
  obtain ⟨u, hu, hv⟩ := Option.bind_eq_some_iff.mp hv
  split at hv
  · next hl => exact ⟨id, u, (Option.some.inj hv).symm, hid, hu, hl⟩
  · cases hv

private theorem view_wakes_tenants (vs : List (Write W)) (db : Db τ)
    (h : ∀ v ∈ vs, ∃ id row, v = .wake id row) :
    (view vs db).tenants = db.tenants ∧ (view vs db).work.markers = db.work.markers := by
  induction vs generalizing db with
  | nil => exact ⟨rfl, rfl⟩
  | cons v vs ih =>
    obtain ⟨id, row, rfl⟩ := h v List.mem_cons_self
    exact ih _ (fun u hu => h u (List.mem_cons_of_mem _ hu))

theorem view_work {ws : List (Write W)} (db : Db τ)
    (hw : ∀ v ∈ ws, (∃ id row, v = .wake id (some row)) ∨ ∃ key row, v = .marker key row) :
    (view ws db).tenants = db.tenants ∧
      ∀ id, db.work.wakes.get id ≠ none → (view ws db).work.wakes.get id ≠ none := by
  induction ws generalizing db with
  | nil => exact ⟨rfl, fun _ h => h⟩
  | cons v vs ih =>
    have ih' := ih (db.write v) (fun x hx => hw x (List.mem_cons_of_mem _ hx))
    rcases hw v List.mem_cons_self with ⟨id', row, rfl⟩ | ⟨key, row, rfl⟩
    · refine ⟨ih'.1, fun id hid => ih'.2 id ?_⟩
      simp only [Db.write, Table.get_put]
      split
      · exact Option.some_ne_none _
      · exact hid
    · exact ih'

/-- A wake row after the acknowledging `DELETE`: acknowledged, if it was captured and live. -/
theorem view_acknowledge (ns : String) (kind : RuntimeWorkKind) (work : Work)
    (ids : List ℕ) (db : Db τ) (id : ℕ) :
    (∃ u, id ∈ ids ∧ work.wakes.get id = some u ∧ u.live ns kind = true ∧
      (view (acknowledge (W := W) work ns kind ids) db).work.wakes.get id =
        some { u with acknowledged := true }) ∨
    (¬(id ∈ ids ∧ work.Live ns kind id) ∧
      (view (acknowledge (W := W) work ns kind ids) db).work.wakes.get id =
        db.work.wakes.get id) := by
  by_cases hid : id ∈ ids ∧ work.Live ns kind id
  · obtain ⟨hm, u, hu, hl⟩ := hid
    refine Or.inl ⟨u, hm, hu, hl, ?_⟩
    -- the last write to `id` decides, and all writes to `id` are this one
    have key (vs : List (Write W)) (d : Db τ)
        (hvs : ∀ v ∈ vs, ∃ j x, v = .wake j (some { x with acknowledged := true }) ∧
          work.wakes.get j = some x)
        (hin : Write.wake id (some { u with acknowledged := true }) ∈ vs ∨
          d.work.wakes.get id = some { u with acknowledged := true }) :
        (view vs d).work.wakes.get id = some { u with acknowledged := true } := by
      induction vs generalizing d with
      | nil => exact hin.resolve_left (List.not_mem_nil)
      | cons v vs ih =>
        refine ih _ (fun x hx => hvs x (List.mem_cons_of_mem _ hx)) ?_
        obtain ⟨j, x, rfl, hx⟩ := hvs v List.mem_cons_self
        by_cases hj : id = j
        · subst hj
          rw [hu, Option.some.injEq] at hx
          subst hx
          exact Or.inr (by simp [Storage.apply, Db.write])
        · rcases hin with hin | hin
          · rcases List.mem_cons.mp hin with he | hin
            · injection he with h1 h2
              exact absurd h1 hj
            · exact Or.inl hin
          · exact Or.inr (by simpa [Storage.apply, Db.write, hj] using hin)
    refine key _ db (fun v hv => ?_) (Or.inl ?_)
    · obtain ⟨j, x, rfl, -, hx, -⟩ := mem_acknowledge hv
      exact ⟨j, x, rfl, hx⟩
    · exact List.mem_filterMap.mpr ⟨id, hm, by simp [hu, hl]⟩
  · refine Or.inr ⟨hid, ?_⟩
    refine view_same_of_ne (W := Write W) (r := Resource.wake id) db (fun v hv he => hid ?_)
    obtain ⟨j, x, rfl, hj, hx, hl⟩ := mem_acknowledge hv
    injection he with he
    subst he
    exact ⟨hj, x, hx, hl⟩

private theorem alarmOf_refreshed (gen : ℕ) (pending : Bool) (dueAt : Option ℕ) (now : ℕ) :
    alarmOf (refreshedMarker gen pending dueAt now).pending
      (refreshedMarker gen pending dueAt now).dueAt = alarmOf pending dueAt := by
  cases pending <;> rfl

private theorem projects_acknowledged {gen now : ℕ} {pending : Bool} {dueAt : Option ℕ}
    {work : Work} (hwork : Aside kind t.writes w.db) (hgen : C → w.db.work.generation ns kind = gen)
    (hids : ∀ id u, id ∈ ids → work.wakes.get id = some u → u.live ns kind = true →
      w.db.work.wakes.get id = some u)
    (hwatch : C → Watch q ns kind gen (alarmOf pending dueAt) ids t.writes w) :
    Projects q ns kind C w.db (view t.writes w.db)
      (view (t.writes ++ [.marker (ns, kind) (some (refreshedMarker gen pending dueAt now))] ++
        acknowledge work ns kind ids) w.db) := by
  rw [view_append, view_append]
  set base := view t.writes w.db with hbase
  set marked := view (W := Write W)
    [.marker (ns, kind) (some (refreshedMarker gen pending dueAt now))] base with hmarked
  have hmt : marked.tenants = base.tenants := rfl
  have hmw : marked.work.wakes = base.work.wakes := rfl
  have hmm (key : String × RuntimeWorkKind) : marked.work.markers.get key =
      if key = (ns, kind) then some (refreshedMarker gen pending dueAt now)
      else w.db.work.markers.get key := by
    have hput : marked.work.markers = base.work.markers.put (ns, kind)
      (some (refreshedMarker gen pending dueAt now)) := rfl
    rw [hput, Table.get_put, hbase, hwork.markers]
  obtain ⟨htenants, hmarkers⟩ := view_wakes_tenants (W := W)
    (acknowledge work ns kind ids) marked
    (fun v hv => by obtain ⟨id, u, rfl, -⟩ := mem_acknowledge hv; exact ⟨_, _, rfl⟩)
  set db' := view (acknowledge (W := W) work ns kind ids) marked with hdb'
  have hwake := view_acknowledge (τ := τ) (W := W) ns kind work ids marked
  rw [← hdb', hmw] at hwake
  -- a wake that is not both captured and of this queue is untouched
  have hkeep (key : String × RuntimeWorkKind) (id : ℕ) (hl : w.db.work.Live key.1 key.2 id)
      (hne : key = (ns, kind) → id ∉ ids) : db'.work.Live key.1 key.2 id := by
    rcases hwake id with ⟨u, hid, hu, hlive, -⟩ | ⟨-, hget⟩
    · exfalso
      obtain ⟨x, hx, hxl⟩ := hl
      rw [hids id u hid hu hlive, Option.some.injEq] at hx
      subst hx
      have hkey : key = (ns, kind) := by
        simp only [Wake.live, Bool.and_eq_true, decide_eq_true_eq] at hlive hxl
        exact Prod.ext (hxl.1.1.symm.trans hlive.1.1) (hxl.1.2.symm.trans hlive.1.2)
      exact hne hkey hid
    · obtain ⟨x, hx, hxl⟩ := hl
      have hkept := hwork.keeps (by rw [hx]; exact Option.some_ne_none _)
      exact ⟨x, (hget.trans hkept).trans hx, hxl⟩
  refine ⟨htenants.trans hmt, ?_, ?_, ?_, Or.inr fun hC => ⟨?_, ?_⟩⟩
  · intro id hid
    rcases hwake id with ⟨u, -, -, -, hget⟩ | ⟨-, hget⟩
    · rw [hget]; exact Option.some_ne_none _
    · rw [hget, hwork.keeps hid]; exact hid
  · intro key hkey
    refine ⟨?_, fun id hl => hkeep key id hl (fun he => absurd he hkey)⟩
    rw [hmarkers, hmm, if_neg hkey]
  · -- a captured wake is committed, and of this queue
    intro key hkey id hl
    rcases hwake id with ⟨u, hid, hu, hlive, -⟩ | ⟨-, hget⟩
    · exfalso
      obtain ⟨x, hx, hxl⟩ := hl
      have hcommitted := hids id u hid hu hlive
      rw [hwork.keeps (by rw [hcommitted]; exact Option.some_ne_none _), hcommitted] at hx
      cases hx
      simp only [Wake.live, Bool.and_eq_true, decide_eq_true_eq] at hlive hxl
      exact hkey (Prod.ext (hxl.1.1.symm.trans hlive.1.1) (hxl.1.2.symm.trans hlive.1.2))
    · obtain ⟨x, hx, hxl⟩ := hl
      exact ⟨x, hget.trans hx, hxl⟩
  · rw [hgen hC, Work.generation, hmarkers, hmm, if_pos rfl]
    exact Nat.lt_succ_self gen
  · intro row
    have hmark : db'.work.markers.get (ns, kind) =
        some (refreshedMarker gen pending dueAt now) := by rw [hmarkers, hmm, if_pos rfl]
    rcases (hwatch hC).covers (hgen hC) row with hle | ⟨id, hid, hl⟩
    · rw [htenants, hmt]
      exact ((Work.alarm_le_marker hmark).trans (alarmOf_refreshed _ _ _ _).le).trans hle
    · exact Work.alarm_le_of_live (hkeep (ns, kind) id hl (fun _ => hid)) _

private theorem projects_unchanged (hwork : Aside kind t.writes db) :
    Projects q ns kind C db (view t.writes db) (view t.writes db) := by
  have hlive (ns' : String) (kind' : RuntimeWorkKind) (id : ℕ) (hl : db.work.Live ns' kind' id) :
      (view t.writes db).work.Live ns' kind' id := by
    obtain ⟨u, hu, hul⟩ := hl
    exact ⟨u, (hwork.keeps (by rw [hu]; exact Option.some_ne_none _)).trans hu, hul⟩
  exact
    { tenants := rfl
      issued := fun id hid => by rw [hwork.keeps hid]; exact hid
      other := fun key _ => ⟨by rw [hwork.markers], hlive _ _⟩
      staged := fun _ _ _ hl => hl
      own := Or.inl ⟨by rw [hwork.markers], hlive _ _⟩ }

/-- `refresh_pending_work` at the end of a transaction that has so far written tenant rows and
wakes of other kinds only: whatever is committed meanwhile, its commit covers the queue or leaves
the marker and the wakes alone. -/
theorem wp_refresh {i : ℕ} {op : Op} {Q : Unit → Txn (Write W) (Resource ρ) → World (Db τ) → Prop}
    (hk : Keeps P q kind C) (hg : t.Guarded) (hwork : Aside kind t.writes w.db)
    (hQ : ∀ t' w', t'.Guarded → t.held ⊆ t'.held →
      P.Rely t.held w w' →
      (∀ w'', P.Rely t'.held w' w'' →
        Projects q ns kind C w''.db (view t.writes w''.db) (view t'.writes w''.db)) →
      Q () t' w') :
    P.wp i op Q (refreshPendingWork ns kind q.pending q.due) t w := by
  apply Protocol.wp_query
  intro w1 e1 hr1 hi1 hs1
  apply Protocol.wp_query
  intro w2 e2 hr2 hi2 hs2
  apply Protocol.wp_statement
  intro w3 e3 hr3 hi3 hs3
  replace hr2 : P.Rely t.held w1 w2 := hr2
  replace hr3 : P.Rely t.held w2 w3 := hr3
  have ha1 := hwork.rely hg hr1
  have ha2 := ha1.rely hg hr2
  have ha3 := ha2.rely hg hr3
  have hgen2 : e2.db.work.generation ns kind = w2.db.work.generation ns kind := by
    rw [hs2.db]
    exact ha2.generation ns
  set ids := e1.db.work.captured ns kind
  have hids1 : ∀ id ∈ ids, w1.db.work.wakes.get id ≠ none := by
    intro id hid
    obtain ⟨u, hu, hlive⟩ := Work.mem_captured hid
    rw [hs1.db] at hu
    simp only [Wake.live, Bool.and_eq_true, decide_eq_true_eq] at hlive
    rw [ha1.wake hu hlive.1.2]
    exact Option.some_ne_none _
  have hwatch : C → Watch q ns kind (e2.db.work.generation ns kind)
      (alarmOf (q.pending e2.now (e2.db.tenants ns)) (q.due e2.now (e2.db.tenants ns)))
      ids t.writes w3 := fun hC => by
    refine Watch.rely hC hk hg hr3 ⟨?_, issued_rely hk hr2 hids1, fun _ row => Or.inl ?_⟩
    · rw [hgen2]
    · have hsnap := q.snapshot_le e2.now (e2.db.tenants ns) row
      rwa [hs2.db] at hsnap ⊢
  have hrw : P.Rely t.held w w3 := (hr1.trans hr2).trans hr3
  set gen := e2.db.work.generation ns kind
  set t2 : Txn (Write W) (Resource ρ) := ⟨t.held, t.writes, some e2.began⟩ with ht2
  have hg2 : t2.Guarded := hg
  -- the statement holds the marker from here on, so it cannot move before the commit
  have hlock (f : List (Write W)) : (⟨.marker (ns, kind), .exclusive, e3.now⟩ : Lock (Resource ρ)) ∈
      (t2.after e3 ⟨[(.marker (ns, kind), .exclusive)], f⟩).held :=
    Txn.lock_mem_after (n := (Resource.marker (ns, kind), Mode.exclusive)) _ _
      (List.mem_append_left _ List.mem_cons_self)
  by_cases hcas : e3.db.work.markers.get (ns, kind) = none ∨ e3.db.work.generation ns kind = gen
  · have hgen3 : C → w3.db.work.generation ns kind = gen := fun hC => by
      rcases hcas with hnone | hgen
      · have hle := (hwatch hC).le
        rw [hs3.db] at hnone
        replace hnone := (congrArg (·.get (ns, kind)) ha3.markers).symm.trans hnone
        have hzero : w3.db.work.generation ns kind = 0 := by rw [Work.generation, hnone]; rfl
        omega
      · rw [hs3.db] at hgen
        exact (ha3.generation ns).symm.trans hgen
    simp only [hcas, if_true, decide_true, true_and]
    set t3 := t2.after e3 ⟨[(.marker (ns, kind), .exclusive)], [.marker (ns, kind)
      (some (refreshedMarker gen (q.pending e2.now (e2.db.tenants ns))
        (q.due e2.now (e2.db.tenants ns)) e3.now))]⟩ with ht3
    have hsub : t.held ⊆ t3.held := t2.held_subset_after _ _
    have hcommit (t' : Txn (Write W) (Resource ρ)) (work : Work) (w4 w' : World (Db τ))
        (hw' : t'.writes = t3.writes ++ acknowledge work ns kind ids) (hh : t3.held ⊆ t'.held)
        (hr4 : P.Rely t3.held w3 w4) (hr' : P.Rely t'.held w4 w')
        (hids : ∀ id u, id ∈ ids → work.wakes.get id = some u → u.live ns kind = true →
          w'.db.work.wakes.get id = some u) :
        Projects q ns kind C w'.db (view t.writes w'.db) (view t'.writes w'.db) := by
      have hr3' : P.Rely t3.held w3 w' := hr4.trans (hr'.mono hh)
      rw [hw']
      refine projects_acknowledged (ha3.rely hg (hr3'.mono hsub)) (fun hC => ?_) hids fun hC => ?_
      · have hsame : w'.db.work.markers.get (ns, kind) = w3.db.work.markers.get (ns, kind) :=
          hr3'.same (hlock _)
        rw [Work.generation, hsame]
        exact hgen3 hC
      · exact (hwatch hC).rely hC hk hg (hr3'.mono hsub)
    by_cases hempty : ids = []
    · simp only [hempty, ne_eq, not_true_eq_false, if_false]
      refine hQ _ _ (hg2.after _ _) hsub hrw (fun w' hr' => ?_)
      refine hcommit t3 e3.db.work w3 w' ?_ (List.Subset.refl _) .refl hr' ?_
      · rw [hempty]; exact (List.append_nil _).symm
      · intro id u hid
        rw [hempty] at hid
        cases hid
    · simp only [hempty, ne_eq, not_false_eq_true, if_true]
      apply Protocol.wp_exec
      intro w4 e4 hr4 hi4 hs4
      have hw4 : e4.db.work.wakes = (view t.writes w4.db).work.wakes := by
        have hview : e4.db = view t3.writes w4.db := hs4.db
        rw [hview, ht3, Txn.after, view_append]
        rfl
      refine hQ _ _ ((hg2.after _ _).after _ _) (fun k hk => t3.held_subset_after _ _ (hsub hk))
        (hrw.trans (hr4.mono hsub)) (fun w' hr' => ?_)
      refine hcommit _ e4.db.work w4 w' rfl (t3.held_subset_after _ _) hr4 hr' ?_
      intro id u hid hu hl
      have hmem : Write.wake id (some { u with acknowledged := true }) ∈
          acknowledge (W := W) e4.db.work ns kind ids :=
        List.mem_filterMap.mpr ⟨id, hid, by simp [hu, hl]⟩
      have hsame : w'.db.work.wakes.get id = w4.db.work.wakes.get id := by
        refine hr'.same (Txn.lock_mem_after (n := (Resource.wake id, Mode.exclusive)) _ _ ?_)
        exact List.mem_append_right _ (List.mem_map.mpr ⟨_, hmem, rfl⟩)
      rw [hw4] at hu
      simp only [Wake.live, Bool.and_eq_true, decide_eq_true_eq] at hl
      rw [hsame]
      exact (ha3.rely hg (hr4.mono hsub)).wake hu hl.1.2
  · simp only [hcas, if_false, decide_false, false_and, Bool.false_eq_true]
    refine hQ _ _ (hg2.after _ _) (t2.held_subset_after _ _) hrw (fun w' hr' => ?_)
    have hwrites : (t2.after e3 (⟨[(.marker (ns, kind), .exclusive)], []⟩ :
        Effect (Write W) (Resource ρ))).writes = t.writes := List.append_nil _
    rw [hwrites]
    exact projects_unchanged (ha3.rely hg (hr'.mono (t2.held_subset_after _ _)))

end Refresh
end DataForge.Runtime
