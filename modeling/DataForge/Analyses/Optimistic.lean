import DataForge.Analyses.Revisions
import Mathlib.Data.List.MinMax

/-!
# Optimistic editing

What mutations under `revisions.require` promise in every interleaving. The row lock is held from
the check of the revision to the commit, so that a commit finds the revision that was presented.
-/

namespace DataForge.Analyses

open ReadCommitted

variable {κ δ : Type}

/-- Two databases with the same analyses, versions and links. -/
structure SameData (a b : Tables κ δ) : Prop where
  analyses (id : String) : b.analyses.get id = a.analyses.get id
  versions (versionId : String) : b.versions.get versionId = a.versions.get versionId
  links (key : String × String) : b.links.get key = a.links.get key

/-- Two databases that agree on all other analyses. -/
structure SameOutside (id : String) (a b : Tables κ δ) : Prop where
  analyses (id' : String) : id' ≠ id → b.analyses.get id' = a.analyses.get id'
  versions (versionId : String) (w : AnalysisVersion κ δ) : w.analysisId ≠ id →
    (b.versions.get versionId = some w ↔ a.versions.get versionId = some w)
  links (key : String × String) : key.1 ≠ id → b.links.get key = a.links.get key

/-- What a committed mutation does to its analysis, whose row was `row`. -/
inductive Mutated (row : Analysis κ δ) (a b : Tables κ δ) : Mutation κ δ → Prop where
  | edit {op : Op κ δ} {h : op.edits = true} {v : View} {versionId : String}
      {edited : Analysis κ δ} {n : ℕ} (hafter : b.analyses.get op.analysisId = some edited)
      (hrevision : edited.revision = row.revision + 1) (hnew : a.versions.get versionId = none)
      (hversions : ∀ vid, b.versions.get vid = if vid = versionId then
        some ⟨op.analysisId, n, row.name, row.description, row.tabs⟩ else a.versions.get vid)
      (hnumber : ∀ vid w, a.versions.get vid = some w → w.analysisId = op.analysisId →
        w.snapshot.version < n) : Mutated row a b (.edit op h v versionId)
  | deleted {id : String} (hafter : b.analyses.get id = none)
      (hversions : ∀ vid w, b.versions.get vid = some w →
        a.versions.get vid = some w ∧ w.analysisId ≠ id) : Mutated row a b (.deleteAnalysis id)
  | versionDeleted {id : String} {version : ℕ} {versionId : String}
      (hafter : ∀ id', b.analyses.get id' = a.analyses.get id')
      (hversions : ∀ vid, b.versions.get vid =
        if vid = versionId then none else a.versions.get vid) :
      Mutated row a b (.deleteVersion id version)
  | versionRenamed {id : String} {version : ℕ} {name versionId : String}
      {w : AnalysisVersion κ δ} (hafter : ∀ id', b.analyses.get id' = a.analyses.get id')
      (hrow : a.versions.get versionId = some w)
      (hversions : ∀ vid, b.versions.get vid = if vid = versionId then
        some { w with snapshot := { w.snapshot with name } } else a.versions.get vid) :
      Mutated row a b (.renameVersion id version name)

/-- A lock on the row of an analysis. -/
def Locked (id : String) (held : List (Lock TableRow)) : Prop :=
  ∃ k ∈ held, k.res = .analysis id ∧ k.mode = .exclusive

/-- What a commit of a request may do. -/
def Act (request : Request κ δ) (held : List (Lock TableRow)) (a b : Tables κ δ) : Prop :=
  SameData a b ∨ (Locked request.mutation.analysisId held ∧ ∃ row,
    a.analyses.get request.mutation.analysisId = some row ∧
    validate row.revision request.mutation.analysisId request.ifMatch = .ok () ∧
    SameOutside request.mutation.analysisId a b ∧ Mutated row a b request.mutation)

/-- The protocol of mutations. -/
def protocol (κ δ : Type) : Protocol (Request κ δ) (Tables κ δ) (TableWrite κ δ) TableRow where
  visited _ _ _ := True
  calls _ := True
  inv _ := True
  act _ request held w db := Act request held w.db db
  cond _ _ _ := True
  inv_tick _ _ := trivial
  inv_act _ _ _ _ := trivial

section Rely

variable {id : String} {held : List (Lock TableRow)} {w w' : World (Tables κ δ)}

theorem Locked.ne {id' : String} {held' : List (Lock TableRow)} (h : Locked id held)
    (h' : Locked id' held') (hc : Compatible held held') : id' ≠ id := by
  rintro rfl
  obtain ⟨k, hk, hres, -⟩ := h
  obtain ⟨k', hk', hres', hm⟩ := h'
  exact hc.not_exclusive hk hk' hm (hres.trans hres'.symm)

theorem Locked.row_rely (h : Locked id held) (hr : (protocol κ δ).Rely held w w') :
    w'.db.analyses.get id = w.db.analyses.get id := by
  obtain ⟨k, hk, hres, -⟩ := h
  have hsame := hr.same hk
  rw [hres] at hsame
  exact hsame

theorem Locked.versions_rely (h : Locked id held) (hr : (protocol κ δ).Rely held w w')
    {versionId : String} {row : AnalysisVersion κ δ} (hid : row.analysisId = id) :
    w'.db.versions.get versionId = some row ↔ w.db.versions.get versionId = some row := by
  refine hr.stable (S := fun v : World (Tables κ δ) => v.db.versions.get versionId = some row ↔
    w.db.versions.get versionId = some row) (fun _ _ _ hv => hv) ?_ Iff.rfl
  intro v db i request t hc hv
  rcases hc.act with hsame | ⟨hlocked, -, -, -, hother, -⟩
  · rw [hsame.versions, hv]
  · have hne := h.ne hlocked hc.compatible
    rw [hother.versions versionId row (by rw [hid]; exact Ne.symm hne), hv]

end Rely

section Writes

variable {id : String} {db : Tables κ δ}

theorem sameData_view_locks (ws : List Locks.LockWrite) (db : Tables κ δ) :
    SameData db (view (ws.map TableWrite.lock) db) := by
  induction ws generalizing db with
  | nil => exact ⟨fun _ => rfl, fun _ => rfl, fun _ => rfl⟩
  | cons w ws ih =>
    have h := ih (db.write (.lock w))
    exact ⟨h.analyses, h.versions, h.links⟩

/-- A write of a link of an analysis. -/
def TableWrite.LinkOf (id : String) (w : TableWrite κ δ) : Prop :=
  ∃ key row, w = .link key row ∧ key.1 = id

theorem view_links {ws : List (TableWrite κ δ)} (h : ∀ w ∈ ws, w.LinkOf id) (db : Tables κ δ) :
    (view ws db).analyses = db.analyses ∧ (view ws db).versions = db.versions ∧
      ∀ key, key.1 ≠ id → (view ws db).links.get key = db.links.get key := by
  induction ws generalizing db with
  | nil => exact ⟨rfl, rfl, fun _ _ => rfl⟩
  | cons w ws ih =>
    obtain ⟨key, row, rfl, hkey⟩ := h _ List.mem_cons_self
    have hrest := ih (fun w hw => h w (List.mem_cons_of_mem _ hw)) (db.write (.link key row))
    refine ⟨hrest.1, hrest.2.1, fun key' hne => (hrest.2.2 key' hne).trans ?_⟩
    refine (Table.get_put _ _ _ _).trans (if_neg fun he => hne ?_)
    rw [he, hkey]

theorem view_deletions (keys : List String) (db : Tables κ δ) :
    (view (keys.map fun k => TableWrite.version k none) db).analyses = db.analyses ∧
      (view (keys.map fun k => TableWrite.version k none) db).links = db.links ∧
      ∀ versionId, (view (keys.map fun k => TableWrite.version k none) db).versions.get versionId =
        if versionId ∈ keys then none else db.versions.get versionId := by
  induction keys generalizing db with
  | nil => exact ⟨rfl, rfl, fun _ => rfl⟩
  | cons k keys ih =>
    obtain ⟨ha, hl, hv⟩ := ih (db.write (.version k none))
    refine ⟨ha, hl, fun versionId => (hv versionId).trans ?_⟩
    have hput : (db.write (.version k none)).versions.get versionId =
        if versionId = k then none else db.versions.get versionId := Table.get_put _ _ _ _
    rw [hput]
    by_cases hk : versionId = k <;> by_cases hm : versionId ∈ keys <;> simp [hk, hm]

end Writes

section Verified

variable {R : Rules κ δ} {i : ℕ} {request : Request κ δ} {id versionId : String}
  {row : Analysis κ δ} {t : Txn (TableWrite κ δ) TableRow} {w w' : World (Tables κ δ)}

/-- Nothing is asked of the replies. -/
def anyReply (_ : Reply) (_ : Txn (TableWrite κ δ) TableRow) (_ : World (Tables κ δ)) : Prop := True

/-- A transaction that holds the row of an analysis. -/
structure Holds (id : String) (row : Analysis κ δ) (t : Txn (TableWrite κ δ) TableRow)
    (w : World (Tables κ δ)) : Prop where
  locked : Locked id t.held
  row : w.db.analyses.get id = some row

theorem Holds.rely (h : Holds id row t w) (hr : (protocol κ δ).Rely t.held w w') :
    Holds id row t w' := ⟨h.locked, (h.locked.row_rely hr).trans h.row⟩

theorem Holds.after (h : Holds id row t w) (e : Env (Tables κ δ) TableRow)
    (f : Effect (TableWrite κ δ) TableRow) : Holds id row (t.after e f) w := by
  obtain ⟨k, hk, hres⟩ := h.locked
  exact ⟨⟨k, t.held_subset_after e f hk, hres⟩, h.row⟩

/-- A transaction that has staged a snapshot of the row and links of its analysis. -/
structure Snapshot (id versionId : String) (n : ℕ) (row : Analysis κ δ)
    (ls : List (TableWrite κ δ)) (t : Txn (TableWrite κ δ) TableRow) (w : World (Tables κ δ)) :
    Prop where
  holds : Holds id row t w
  staged : t.writes =
    .version versionId (some ⟨id, n, row.name, row.description, row.tabs⟩) :: ls
  links : ∀ x ∈ ls, x.LinkOf id
  fresh : w.db.versions.get versionId = none
  locked : ∃ k ∈ t.held, k.res = .version versionId
  number : ∀ vid x, w.db.versions.get vid = some x → x.analysisId = id → x.snapshot.version < n

theorem Snapshot.rely {n : ℕ} {ls : List (TableWrite κ δ)} (h : Snapshot id versionId n row ls t w)
    (hr : (protocol κ δ).Rely t.held w w') : Snapshot id versionId n row ls t w' where
  holds := h.holds.rely hr
  staged := h.staged
  links := h.links
  fresh := by
    obtain ⟨k, hk, hres⟩ := h.locked
    have hsame := hr.same hk
    rw [hres] at hsame
    exact Eq.trans hsame h.fresh
  locked := h.locked
  number vid x hx hid := h.number vid x ((h.holds.locked.versions_rely hr hid).mp hx) hid

theorem lt_nextVersion {db : Tables κ δ} {vid : String} {x : AnalysisVersion κ δ}
    (hx : db.versions.get vid = some x) : x.snapshot.version < db.nextVersion x.analysisId := by
  have hmem : x.snapshot.version ∈
      (db.versionsOf x.analysisId).map fun r => r.2.snapshot.version := by
    refine List.mem_map.mpr ⟨(vid, x), List.mem_filter.mpr ⟨?_, by simp⟩, rfl⟩
    exact (Table.mem_rows_iff _ _ _).mpr hx
  exact Nat.lt_succ_of_le (List.le_max_of_le' 0 hmem (Nat.le_refl _))

theorem wp_selectForUpdate {k : Option (Analysis κ δ) → EditScript κ δ Reply}
    (ht : t.writes = [])
    (hsome : ∀ row t' w', t'.writes = [] → (protocol κ δ).Rely t.held w w' →
      t.held ⊆ t'.held → Holds id row t' w' →
      (protocol κ δ).wp i request anyReply (k (some row)) t' w')
    (hnone : ∀ t' w', (protocol κ δ).Rely t.held w w' → w'.db.analyses.get id = none →
      (protocol κ δ).wp i request anyReply (k none) t' w') :
    (protocol κ δ).wp i request anyReply (selectForUpdate id >>= k) t w := by
  apply Protocol.wp_statement
  intro w' e hr _ hs
  have hdb : e.db = w'.db := by rw [hs.db, ht, view_nil]
  rw [hdb]
  cases hrow : w'.db.analyses.get id with
  | none => exact hnone _ w' hr hrow
  | some row =>
    refine hsome row _ w' (by simp [Txn.after, ht]) hr (t.held_subset_after e _) ⟨?_, hrow⟩
    exact ⟨_, t.lock_mem_after e (n := (.analysis id, .exclusive)) (by simp [Effect.needs]), rfl,
      rfl⟩

theorem ensures_ensureMutationLock (k : Locks.ResourceKey) (ownerId : Option String) :
    (Locks.ensureMutationLock k ownerId).Ensures (fun _ => True) (fun _ ws => ws = []) [] := by
  refine Script.ensures_query fun e => Script.ensures_query fun e => ?_
  cases e.db.get k with
  | none => rfl
  | some lock =>
    dsimp only
    split
    · exact fun e => ⟨trivial, rfl⟩
    · split
      · trivial
      · rfl

theorem wp_require {ifMatch ownerId : Option String} {k : Analysis κ δ → EditScript κ δ Reply}
    (hk : ∀ row t' w', t'.writes = [] → Holds id row t' w' →
      validate row.revision id ifMatch = .ok () →
      (protocol κ δ).wp i request anyReply (k row) t' w') :
    (protocol κ δ).wp i request anyReply (require id ifMatch ownerId >>= k) {} w := by
  rw [require, Script.bind_assoc]
  refine Protocol.wp_within (fun _ w ws _ => Or.inl (sameData_view_locks ws w.db))
    (ensures_ensureMutationLock _ _) rfl fun _ t1 w1 ht1 => ?_
  rw [Script.bind_assoc]
  refine wp_selectForUpdate ht1 (fun row t2 w2 ht2 _ _ hh => ?_) fun _ _ _ _ => trivial
  dsimp only
  cases hv : validate row.revision id ifMatch with
  | error detail => trivial
  | ok _ => exact hk row t2 w2 ht2 hh hv

theorem wp_createVersion {k : Unit → EditScript κ δ Reply} (ht : t.writes = [])
    (hh : Holds id row t w) (hk : ∀ n t' w', Snapshot id versionId n row [] t' w' →
      (protocol κ δ).wp i request anyReply (k ()) t' w') :
    (protocol κ δ).wp i request anyReply (createVersion id versionId row >>= k) t w := by
  rw [createVersion, Script.bind_assoc]
  have insert (t1 : Txn (TableWrite κ δ) TableRow) (w1 : World (Tables κ δ)) (ht1 : t1.writes = [])
      (hh1 : Holds id row t1 w1) : (protocol κ δ).wp i request anyReply ((Script.statement (fun e =>
        { locks := [(.version versionId, .exclusive)]
          writes := if (e.db.versions.get versionId).isNone then
            [.version versionId (some ⟨id, e.db.nextVersion id, row.name, row.description,
              row.tabs⟩)] else [] })
        (fun e => (e.db.versions.get versionId).isNone) >>= fun inserted =>
          if inserted then pure () else .raise "duplicate key value violates unique constraint")
            >>= k) t1 w1 := by
    rw [Script.bind_assoc]
    apply Protocol.wp_statement
    intro w2 e2 hr2 _ hs2
    have hdb : e2.db = w2.db := by rw [hs2.db, ht1, view_nil]
    rw [hdb]
    cases hrow : w2.db.versions.get versionId with
    | some x => trivial
    | none =>
      refine hk (w2.db.nextVersion id) _ w2 ⟨(hh1.rely hr2).after e2 _, ?_, nofun, hrow, ?_, ?_⟩
      · simp [Txn.after, ht1]
      · exact ⟨_, t1.lock_mem_after e2 (n := (.version versionId, .exclusive))
          (by simp [Effect.needs]), rfl⟩
      · rintro vid x hx rfl
        exact lt_nextVersion hx
  refine wp_selectForUpdate ht (fun row' t1 w1 ht1 hr1 hsub hh1 => ?_) fun t1 w1 hr1 hnone => ?_
  · refine insert t1 w1 ht1 ?_
    have hrow := (hh.rely hr1).row
    rw [hh1.row, Option.some.injEq] at hrow
    exact hrow ▸ hh1
  · have hrow := (hh.rely hr1).row
    rw [hnone] at hrow
    cases hrow

theorem edit_revision {op : Op κ δ} {v : View} {target : Option (Version κ δ)}
    {edited : Analysis κ δ} {links : Option (List String)}
    (h : op.edit R v row target = .ok (edited, links)) : edited.revision = row.revision + 1 := by
  cases op with
  | create => cases h
  | update id name description tabs =>
    cases tabs with
    | none => cases h; rfl
    | some tabs =>
      obtain ⟨⟨tabs', ids⟩, -, h⟩ := Effects.bind_ok.mp h
      cases h
      rfl
  | restore id version =>
    cases target with
    | none => cases h
    | some target =>
      obtain ⟨⟨tabs', ids⟩, -, h⟩ := Effects.bind_ok.mp h
      cases h
      rfl
  | _ =>
    obtain ⟨tabs', -, h⟩ := Effects.bind_ok.mp h
    cases h
    rfl

section Save

variable {op : Op κ δ} {edits : op.edits = true} {v : View} {n : ℕ} {edited : Analysis κ δ}
  {k : Unit → EditScript κ δ Reply} {ls : List (TableWrite κ δ)}

/-- Committing a snapshot, the links and the edited row. -/
theorem act_edit (hm : request.mutation = .edit op edits v versionId)
    (hrevision : edited.revision = row.revision + 1)
    (hvalid : validate row.revision op.analysisId request.ifMatch = .ok ())
    (h : Snapshot op.analysisId versionId n row ls t w) {held : List (Lock TableRow)}
    (hsub : t.held ⊆ held) : Act request held w.db
      (view (t.writes ++ [TableWrite.analysis op.analysisId (some edited)]) w.db) := by
  have hid : request.mutation.analysisId = op.analysisId := by rw [hm]; rfl
  obtain ⟨ha, hv, hl⟩ := view_links h.links (w.db.write (.version versionId
    (some ⟨op.analysisId, n, row.name, row.description, row.tabs⟩)))
  rw [h.staged, view_append]
  set db := view ls (w.db.write (.version versionId
    (some ⟨op.analysisId, n, row.name, row.description, row.tabs⟩))) with hdb
  have hanalyses (id' : String) : (db.write (.analysis op.analysisId (some edited))).analyses.get
      id' = if id' = op.analysisId then some edited else w.db.analyses.get id' := by
    refine (Table.get_put _ _ _ _).trans ?_
    rw [ha]
    rfl
  have hversions (vid : String) : (db.write (.analysis op.analysisId (some edited))).versions.get
      vid = if vid = versionId then some ⟨op.analysisId, n, row.name, row.description, row.tabs⟩
        else w.db.versions.get vid := by
    change db.versions.get vid = _
    rw [hv]
    exact Table.get_put _ _ _ _
  refine Or.inr ?_
  rw [hid, hm]
  obtain ⟨lock, hlock, hres⟩ := h.holds.locked
  refine ⟨⟨lock, hsub hlock, hres⟩, row, h.holds.row, hvalid, ⟨fun id' hne => ?_, ?_, hl⟩, ?_⟩
  · exact (hanalyses id').trans (if_neg hne)
  · intro vid x hx
    refine (iff_of_eq (congrArg (· = some x) (hversions vid))).trans ?_
    split
    · next hvid =>
      subst hvid
      rw [h.fresh]
      constructor
      · rintro ⟨⟩
        exact absurd rfl hx
      · nofun
    · exact Iff.rfl
  · exact .edit ((hanalyses _).trans (if_pos rfl)) hrevision h.fresh hversions h.number

theorem wp_saveAnalysis {links : Option (List String)}
    (hm : request.mutation = .edit op edits v versionId)
    (hrevision : edited.revision = row.revision + 1)
    (hvalid : validate row.revision op.analysisId request.ifMatch = .ok ())
    (h : Snapshot op.analysisId versionId n row [] t w)
    (hk : ∀ w', (protocol κ δ).wp i request anyReply (k ()) {} w') :
    (protocol κ δ).wp i request anyReply (saveAnalysis op.analysisId edited links >>= k) t w := by
  have save (ls : List (TableWrite κ δ)) (t1 : Txn (TableWrite κ δ) TableRow)
      (w1 : World (Tables κ δ)) (h1 : Snapshot op.analysisId versionId n row ls t1 w1) :
      (protocol κ δ).wp i request anyReply ((Script.statement
        (fun _ => { writes := [.analysis op.analysisId (some edited)] }) (fun _ => ()) >>= fun _ =>
          Script.commitNow) >>= k) t1 w1 := by
    rw [Script.bind_assoc]
    apply Protocol.wp_statement
    intro w2 e2 hr2 _ _
    apply Protocol.wp_commit
    intro w3 hr3 _ _
    have hsub := t1.held_subset_after e2
      (⟨[], [.analysis op.analysisId (some edited)]⟩ : Effect (TableWrite κ δ) TableRow)
    exact ⟨act_edit hm hrevision hvalid ((h1.rely hr2).rely (hr3.mono hsub)) hsub, hk _⟩
  cases links with
  | none => exact save [] t w h
  | some datasourceIds =>
    rw [saveAnalysis, Script.bind_assoc]
    apply Protocol.wp_statement
    intro w1 e1 hr1 _ _
    have h1 := h.rely hr1
    refine save _ _ w1 ⟨h1.holds.after e1 _, by rw [Txn.after, h.staged]; rfl, ?_, h1.fresh, ?_,
      h1.number⟩
    · intro x hx
      change x ∈ List.map _ _ ++ List.map _ _ at hx
      rcases List.mem_append.mp hx with hx | hx
      · obtain ⟨key, hkey, rfl⟩ := List.mem_map.mp hx
        exact ⟨key, none, rfl, of_decide_eq_true (List.mem_filter.mp hkey).2⟩
      · obtain ⟨d, -, rfl⟩ := List.mem_map.mp hx
        exact ⟨_, _, rfl, rfl⟩
    · obtain ⟨lock, hlock, hres⟩ := h.locked
      exact ⟨lock, t.held_subset_after e1 _ hlock, hres⟩

end Save

theorem wp_refresh {β : Type} {read : Tables κ δ → Option β} {reply : β → Reply} :
    (protocol κ δ).wp i request anyReply (refresh read reply) t w := by
  apply Protocol.wp_query
  intro w' e _ _ _
  cases read e.db <;> trivial

theorem wp_editAnalysis {op : Op κ δ} {edits : op.edits = true} {v : View}
    (hm : request.mutation = .edit op edits v versionId) (ht : t.writes = [])
    (hh : Holds op.analysisId row t w)
    (hvalid : validate row.revision op.analysisId request.ifMatch = .ok ()) :
    (protocol κ δ).wp i request anyReply (editAnalysis R op v versionId row) t w := by
  refine wp_createVersion ht hh fun n t1 w1 hsnap => ?_
  split
  · trivial
  · next edited links hedit =>
    refine wp_saveAnalysis hm (edit_revision hedit) hvalid hsnap fun w2 => ?_
    split
    · exact wp_refresh
    · trivial

theorem wp_restoreVersion {op : Op κ δ} {edits : op.edits = true} {v : View}
    (hm : request.mutation = .edit op edits v versionId) (ht : t.writes = [])
    (hh : Holds op.analysisId row t w)
    (hvalid : validate row.revision op.analysisId request.ifMatch = .ok ()) :
    (protocol κ δ).wp i request anyReply (restoreVersion R op v versionId) t w := by
  refine wp_selectForUpdate ht (fun row' t1 w1 ht1 hr1 _ hh1 => ?_) fun _ _ _ _ => trivial
  obtain rfl : row = row' := Option.some.inj ((hh.rely hr1).row.symm.trans hh1.row)
  apply Protocol.wp_query
  intro w2 e2 hr2 _ _
  have hh2 : Holds op.analysisId row ⟨t1.held, t1.writes, some e2.began⟩ w2 :=
    ⟨hh1.locked, (hh1.rely hr2).row⟩
  split
  · trivial
  · next edited links hedit =>
    refine wp_createVersion ht1 hh2 fun n t3 w3 hsnap => ?_
    exact wp_saveAnalysis hm (edit_revision hedit) hvalid hsnap fun w4 => wp_refresh

theorem mem_versionsOf {db : Tables κ δ} {r : String × AnalysisVersion κ δ} :
    r ∈ db.versionsOf id ↔ db.versions.get r.1 = some r.2 ∧ r.2.analysisId = id := by
  rw [Tables.versionsOf, List.mem_filter, decide_eq_true_eq]
  exact and_congr_left fun _ => Table.mem_rows_iff _ _ _

/-- Committing the deletion of an analysis with its links and versions. -/
theorem act_delete (hm : request.mutation = .deleteAnalysis id) (hh : Holds id row t w)
    (hvalid : validate row.revision id request.ifMatch = .ok ()) {ls : List (TableWrite κ δ)}
    {keys : List String} (hlinks : ∀ x ∈ ls, x.LinkOf id)
    (hkeys : ∀ vid, vid ∈ keys ↔ ∃ x, w.db.versions.get vid = some x ∧ x.analysisId = id)
    {held : List (Lock TableRow)} (hsub : t.held ⊆ held) : Act request held w.db
      (view (ls ++ (keys.map (fun k => TableWrite.version k none) ++
        [TableWrite.analysis id none])) w.db) := by
  have hid : request.mutation.analysisId = id := by rw [hm]; rfl
  obtain ⟨ha, hv, hl⟩ := view_links hlinks w.db
  obtain ⟨ha', hl', hv'⟩ := view_deletions keys (view ls w.db)
  rw [view_append, view_append]
  set db := view (keys.map fun k => TableWrite.version k none) (view ls w.db) with hdb
  have hanalyses (id' : String) : (db.write (.analysis id none)).analyses.get id' =
      if id' = id then none else w.db.analyses.get id' := by
    refine (Table.get_put _ _ _ _).trans ?_
    rw [ha', ha]
  have hversions (vid : String) : (db.write (.analysis id none)).versions.get vid =
      if vid ∈ keys then none else w.db.versions.get vid := by
    change db.versions.get vid = _
    rw [hv', hv]
  obtain ⟨lock, hlock, hres⟩ := hh.locked
  refine Or.inr ?_
  rw [hid, hm]
  refine ⟨⟨lock, hsub hlock, hres⟩, row, hh.row, hvalid, ⟨fun id' hne => ?_, ?_, ?_⟩, ?_⟩
  · exact (hanalyses id').trans (if_neg hne)
  · intro vid x hx
    refine (iff_of_eq (congrArg (· = some x) (hversions vid))).trans ?_
    split
    · next hmem =>
      obtain ⟨y, hy, hyid⟩ := (hkeys vid).mp hmem
      rw [hy]
      constructor
      · nofun
      · rintro ⟨⟩
        exact absurd hyid hx
    · exact Iff.rfl
  · intro key hne
    change db.links.get key = _
    rw [hl', hl key hne]
  · refine .deleted ((hanalyses id).trans (if_pos rfl)) fun vid x hx => ?_
    have hx' := (hversions vid).symm.trans hx
    split at hx'
    · cases hx'
    · next hmem => exact ⟨hx', fun hxid => hmem ((hkeys vid).mpr ⟨x, hx', hxid⟩)⟩

theorem wp_deleteAnalysis (hm : request.mutation = .deleteAnalysis id) (ht : t.writes = [])
    (hh : Holds id row t w) (hvalid : validate row.revision id request.ifMatch = .ok ()) :
    (protocol κ δ).wp i request anyReply (deleteAnalysis id) t w := by
  apply Protocol.wp_statement
  intro w1 e1 hr1 _ hs1
  set ls : List (TableWrite κ δ) := ((e1.db.links.rows.map Prod.fst).filter (·.1 = id)).map
    fun key => .link key none with hls
  have hlinks : ∀ x ∈ ls, x.LinkOf id := by
    intro x hx
    obtain ⟨key, hkey, rfl⟩ := List.mem_map.mp hx
    exact ⟨key, none, rfl, of_decide_eq_true (List.mem_filter.mp hkey).2⟩
  have hh1 := (hh.rely hr1).after e1 ⟨[], ls⟩
  apply Protocol.wp_statement
  intro w2 e2 hr2 _ hs2
  have hdb2 : e2.db = view ls w2.db := by rw [hs2.db, Txn.after, ht]; rfl
  have hh2 := hh1.rely hr2
  apply Protocol.wp_commit
  intro w3 hr3 _ _
  have hr3' := hr3.mono (Txn.held_subset_after _ _ _)
  have hh3 := hh2.rely hr3'
  refine ⟨?_, trivial⟩
  set keys := (e2.db.versionsOf id).map Prod.fst with hkeys
  have hmem (vid : String) : vid ∈ keys ↔
      ∃ x, w3.db.versions.get vid = some x ∧ x.analysisId = id := by
    rw [hkeys, hdb2, List.mem_map]
    constructor
    · rintro ⟨r, hr, rfl⟩
      obtain ⟨hget, hid⟩ := mem_versionsOf.mp hr
      rw [(view_links hlinks w2.db).2.1] at hget
      exact ⟨r.2, (hh2.locked.versions_rely hr3' hid).mpr hget, hid⟩
    · rintro ⟨x, hget, hid⟩
      refine ⟨(vid, x), mem_versionsOf.mpr ⟨?_, hid⟩, rfl⟩
      rw [(view_links hlinks w2.db).2.1]
      exact (hh2.locked.versions_rely hr3' hid).mp hget
  have hwrites := act_delete hm hh3 hvalid hlinks hmem (Txn.held_subset_after _ e2
    ⟨[], (e2.db.versionsOf id).map (fun r => TableWrite.version r.1 none) ++
      [TableWrite.analysis id none]⟩)
  rw [hkeys, List.map_map] at hwrites
  simp only [Txn.after, ht, List.nil_append] at hwrites ⊢
  exact hwrites

/-- Committing one version of an analysis. -/
theorem act_version {versionId : String} {target : AnalysisVersion κ δ}
    {after : Option (AnalysisVersion κ δ)} (hid : request.mutation.analysisId = id)
    (hh : Holds id row t w) (hvalid : validate row.revision id request.ifMatch = .ok ())
    (hrow : w.db.versions.get versionId = some target) (htarget : target.analysisId = id)
    (hafter : ∀ x, after = some x → x.analysisId = id) {held : List (Lock TableRow)}
    (hsub : t.held ⊆ held) (hm : ∀ b : Tables κ δ,
      (∀ id', b.analyses.get id' = w.db.analyses.get id') →
      (∀ vid, b.versions.get vid = if vid = versionId then after else w.db.versions.get vid) →
      Mutated row w.db b request.mutation) :
    Act request held w.db (view [TableWrite.version versionId after] w.db) := by
  have hversions (vid : String) : (w.db.write (.version versionId after)).versions.get vid =
      if vid = versionId then after else w.db.versions.get vid := Table.get_put _ _ _ _
  obtain ⟨lock, hlock, hres⟩ := hh.locked
  refine Or.inr ?_
  rw [hid]
  refine ⟨⟨lock, hsub hlock, hres⟩, row, hh.row, hvalid, ⟨fun _ _ => rfl, ?_, fun _ _ => rfl⟩, ?_⟩
  · intro vid x hx
    refine (iff_of_eq (congrArg (· = some x) (hversions vid))).trans ?_
    split
    · next hvid =>
      subst hvid
      rw [hrow]
      constructor
      · exact fun h => absurd (hafter x h) hx
      · rintro ⟨⟩
        exact absurd htarget hx
    · exact Iff.rfl
  · exact hm _ (fun _ => rfl) hversions

/-- A version that is found under the lock of its analysis is the one that is written. -/
theorem wp_getVersion {version : ℕ}
    {k : Option (String × AnalysisVersion κ δ) → EditScript κ δ Reply} (ht : t.writes = [])
    (hh : Holds id row t w) (hnone : ∀ t' w', (protocol κ δ).wp i request anyReply (k none) t' w')
    (hsome : ∀ versionId target t' w', t'.writes = [] → Holds id row t' w' →
      w'.db.versions.get versionId = some target → target.analysisId = id →
      (protocol κ δ).wp i request anyReply (k (some (versionId, target))) t' w') :
    (protocol κ δ).wp i request anyReply (getVersion id version >>= k) t w := by
  apply Protocol.wp_query
  intro w1 e1 hr1 _ hs1
  have hdb : e1.db = w1.db := by rw [hs1.db, ht, view_nil]
  rw [hdb]
  cases hfind : (w1.db.versionsOf id).find? (·.2.snapshot.version = version) with
  | none => exact hnone _ _
  | some found =>
    obtain ⟨versionId, target⟩ := found
    obtain ⟨hget, hid⟩ := mem_versionsOf.mp (List.mem_of_find?_eq_some hfind)
    exact hsome versionId target _ w1 ht ⟨hh.locked, (hh.rely hr1).row⟩ hget hid

/-- Writing and committing one version of a locked analysis. -/
theorem wp_writeVersion {versionId : String} {target : AnalysisVersion κ δ}
    {after : Option (AnalysisVersion κ δ)} {k : Unit → EditScript κ δ Reply}
    (hid : request.mutation.analysisId = id) (ht : t.writes = []) (hh : Holds id row t w)
    (hvalid : validate row.revision id request.ifMatch = .ok ())
    (hrow : w.db.versions.get versionId = some target) (htarget : target.analysisId = id)
    (hafter : ∀ x, after = some x → x.analysisId = id)
    (hm : ∀ a b : Tables κ δ, a.versions.get versionId = some target →
      (∀ id', b.analyses.get id' = a.analyses.get id') →
      (∀ vid, b.versions.get vid = if vid = versionId then after else a.versions.get vid) →
      Mutated row a b request.mutation)
    (hk : ∀ w', (protocol κ δ).wp i request anyReply (k ()) {} w') :
    (protocol κ δ).wp i request anyReply (Script.statement
      (fun _ => { writes := [.version versionId after] }) (fun _ => ()) >>= fun _ =>
        Script.commitNow >>= k) t w := by
  apply Protocol.wp_statement
  intro w1 e1 hr1 _ _
  apply Protocol.wp_commit
  intro w2 hr2 _ _
  have hsub := t.held_subset_after e1
    (⟨[], [.version versionId after]⟩ : Effect (TableWrite κ δ) TableRow)
  have hr := hr1.trans (hr2.mono hsub)
  have hrow2 := (hh.locked.versions_rely hr htarget).mpr hrow
  refine ⟨?_, hk _⟩
  have hwrites : (t.after e1 ⟨[], [TableWrite.version versionId after]⟩).writes =
      [.version versionId after] := by simp [Txn.after, ht]
  rw [hwrites]
  exact act_version hid (hh.rely hr) hvalid hrow2 htarget hafter hsub fun b => hm w2.db b hrow2

theorem wp_deleteVersion {version : ℕ} (hm : request.mutation = .deleteVersion id version)
    (ht : t.writes = []) (hh : Holds id row t w)
    (hvalid : validate row.revision id request.ifMatch = .ok ()) :
    (protocol κ δ).wp i request anyReply (deleteVersion id version) t w := by
  refine wp_getVersion ht hh (fun _ _ => trivial) fun versionId target t1 w1 ht1 hh1 hrow hid => ?_
  refine wp_writeVersion (by rw [hm]; rfl) ht1 hh1 hvalid hrow hid nofun
    (fun a b _ hanalyses hversions => ?_) fun _ => trivial
  rw [hm]
  exact .versionDeleted hanalyses hversions

theorem wp_renameVersion {version : ℕ} {name : String}
    (hm : request.mutation = .renameVersion id version name)
    (ht : t.writes = []) (hh : Holds id row t w)
    (hvalid : validate row.revision id request.ifMatch = .ok ()) :
    (protocol κ δ).wp i request anyReply (renameVersion id version name) t w := by
  refine wp_getVersion ht hh (fun _ _ => trivial) fun versionId target t1 w1 ht1 hh1 hrow hid => ?_
  refine wp_writeVersion (by rw [hm]; rfl) ht1 hh1 hvalid hrow hid ?_
    (fun a b hrow hanalyses hversions => ?_) fun _ => wp_refresh
  · rintro x ⟨⟩
    exact hid
  · rw [hm]
    exact .versionRenamed hanalyses hrow hversions

theorem verified (R : Rules κ δ) :
    Verified (protocol κ δ) (code R) fun _ _ => anyReply := by
  intro i request w _ _
  refine wp_require fun row t w ht hh hvalid => ?_
  obtain ⟨mutation, ifMatch, ownerId⟩ := request
  cases mutation with
  | edit op edits v versionId =>
    cases op with
    | create => cases edits
    | restore => exact wp_restoreVersion rfl ht hh hvalid
    | _ => exact wp_editAnalysis rfl ht hh hvalid
  | deleteAnalysis id => exact wp_deleteAnalysis rfl ht hh hvalid
  | deleteVersion id version => exact wp_deleteVersion rfl ht hh hvalid
  | renameVersion id version name => exact wp_renameVersion rfl ht hh hvalid

end Verified

section Settled

variable {R : Rules κ δ} {id versionId : String} {row : Analysis κ δ}

/-- What is left of a mutation that has committed: it returns, or reads its row again. -/
def Settled (q : EditScript κ δ Reply) : Prop :=
  (∃ reply, q = .done reply) ∨
    ∃ (β : Type) (read : Tables κ δ → Option β) (reply : β → Reply), q = refresh read reply

/-- A commit of locks, or the commit of a mutation. -/
def CommitsOnce (ws : List (TableWrite κ δ)) (next : EditScript κ δ Reply) : Prop :=
  (∃ locks : List Locks.LockWrite, ws = locks.map .lock) ∨ Settled next

theorem commits_refresh {β : Type} {read : Tables κ δ → Option β} {reply : β → Reply}
    (ws : List (TableWrite κ δ)) : (refresh read reply).Commits CommitsOnce ws := by
  refine Script.commits_statement fun row _ => ?_
  cases row <;> trivial

theorem commits_createVersion {k : Unit → EditScript κ δ Reply}
    (hk : ∀ ws, (k ()).Commits CommitsOnce ws) (ws : List (TableWrite κ δ)) :
    (createVersion id versionId row >>= k).Commits CommitsOnce ws := by
  rw [createVersion, Script.bind_assoc]
  refine Script.commits_statement fun _ ws => ?_
  rw [Script.bind_assoc]
  refine Script.commits_statement fun inserted ws => ?_
  cases inserted with
  | true => exact hk ws
  | false => trivial

theorem commits_saveAnalysis {edited : Analysis κ δ} {links : Option (List String)}
    {k : Unit → EditScript κ δ Reply} (hsettled : Settled (k ()))
    (hk : ∀ ws, (k ()).Commits CommitsOnce ws) (ws : List (TableWrite κ δ)) :
    (saveAnalysis id edited links >>= k).Commits CommitsOnce ws := by
  cases links with
  | none => exact fun _ => ⟨Or.inr hsettled, hk []⟩
  | some datasourceIds => exact fun _ _ => ⟨Or.inr hsettled, hk []⟩

theorem commits_editAnalysis {op : Op κ δ} {v : View} (ws : List (TableWrite κ δ)) :
    (editAnalysis R op v versionId row).Commits CommitsOnce ws := by
  refine commits_createVersion (fun ws => ?_) ws
  split
  · trivial
  · next edited links hedit =>
    split
    · exact commits_saveAnalysis (Or.inr ⟨_, _, _, rfl⟩) commits_refresh ws
    · exact commits_saveAnalysis (k := fun _ => pure (.saved (row.revision + 1)))
        (Or.inl ⟨_, rfl⟩) (fun _ => trivial) ws

theorem commits_restoreVersion {op : Op κ δ} {v : View} (ws : List (TableWrite κ δ)) :
    (restoreVersion R op v versionId).Commits CommitsOnce ws := by
  refine Script.commits_statement fun analysis ws => ?_
  cases analysis with
  | none => trivial
  | some analysis =>
    refine Script.commits_statement fun target ws => ?_
    split
    · trivial
    · next edited links hedit =>
      refine commits_createVersion (fun ws => ?_) ws
      exact commits_saveAnalysis (Or.inr ⟨_, _, _, rfl⟩) commits_refresh ws

theorem commits_operation (mutation : Mutation κ δ) (ws : List (TableWrite κ δ)) :
    (mutation.operation R row).Commits CommitsOnce ws := by
  cases mutation with
  | edit op edits v versionId =>
    cases op with
    | create => cases edits
    | restore => exact commits_restoreVersion ws
    | _ => exact commits_editAnalysis ws
  | deleteAnalysis id => exact fun _ _ => ⟨Or.inr (Or.inl ⟨_, rfl⟩), trivial⟩
  | deleteVersion id version =>
    refine Script.commits_statement fun found ws => ?_
    cases found with
    | none => trivial
    | some found => exact fun _ => ⟨Or.inr (Or.inl ⟨_, rfl⟩), trivial⟩
  | renameVersion id version name =>
    refine Script.commits_statement fun found ws => ?_
    cases found with
    | none => trivial
    | some found =>
      refine fun _ =>
        ⟨Or.inr (Or.inr ⟨_, fun db => db.versions.get found.1, fun _ => .done, rfl⟩), ?_⟩
      exact @commits_refresh κ δ _ (fun db => db.versions.get found.1) (fun _ => .done) []

theorem commits_code (i : ℕ) (request : Request κ δ) :
    (code R i request).Commits CommitsOnce [] := by
  rw [code, require, Script.bind_assoc]
  refine Script.commits_within (fun ws _ => Or.inl ⟨ws, rfl⟩) ⟨[], rfl⟩ fun _ ws => ?_
  rw [Script.bind_assoc]
  refine Script.commits_statement fun analysis ws => ?_
  cases analysis with
  | none => trivial
  | some row =>
    dsimp only
    cases validate row.revision request.mutation.analysisId request.ifMatch with
    | error detail => trivial
    | ok _ => exact commits_operation request.mutation ws

end Settled
end DataForge.Analyses
