import DataForge.Datasources.Publication

/-!
# What publications may commit

The steps that each operation may make of the row of a datasource and of cleanup intents, and that
the scripts make no others, whatever is committed between their statements.
-/

namespace DataForge.Datasources

open ReadCommitted

/-- What a commit of an operation may make of the row of a datasource. -/
inductive RowStep (op : Op) (id : String) : Option DataSource → Option DataSource → Prop where
  | same (row : Option DataSource) : RowStep op id row row
  | created {name sourceType : String} {description ownerId schemaInfo : Option String}
      {config : Config} {guard : Option Guard} (hop : op =
        .createDatasource id name description sourceType config ownerId schemaInfo guard) :
      RowStep op id none (some
        { name, description := normalizeDescription description, sourceType,
          config := config, schemaCache := schemaInfo, ownerId })
  | published {row : DataSource} {config : Config} {schemaInfo : Option String}
      {guard : Option Guard} (hop : op = .publishIngest id config row.revision schemaInfo guard)
      (hlive : row.isPendingDelete = false) : RowStep op id (some row)
        (some { row with config, revision := row.revision + 1, schemaCache := schemaInfo })
  | cached {row : DataSource} {schemaInfo : String} {guard : Option Guard}
      (hop : op = .publishSchemaCache id row.revision schemaInfo guard)
      (hlive : row.isPendingDelete = false) :
      RowStep op id (some row) (some { row with schemaCache := some schemaInfo })
  | updated {row updated : DataSource} {update : DataSourceUpdate}
      {resolved : Option ExcelSelection} {expectedRevision : Option ℕ}
      (hop : op = .updateDatasource id update resolved expectedRevision)
      (hupdate : row.applyUpdate update resolved = .ok (updated, true)) :
      RowStep op id (some row) (some { updated with revision := row.revision + 1 })
  | placed {placeholder : Placeholder} (hop : op = .createPlaceholder id placeholder) :
      RowStep op id none (some (placeholder.row id))
  | overwritten {row existing : DataSource} {placeholder : Placeholder}
      (hop : op = .createPlaceholder id placeholder) :
      RowStep op id (some row) (some (placeholder.overwrite existing row))
  | marked {row : DataSource} (hop : op = .requestDelete id) :
      RowStep op id (some row) (some { row with isPendingDelete := true, isHidden := true })
  | deleted {row : DataSource} {active : Bool}
      {cleanup : DataSource → Tables → List (String × Option OutboxEvent)}
      (hop : op = .finalizeDelete id active cleanup) (hpending : row.isPendingDelete = true) :
      RowStep op id (some row) none

/-- A cleanup intent is left alone or settled. -/
def EventStep (before after : Option OutboxEvent) : Prop :=
  after = before ∨ ∃ event settled, before = some event ∧ event.settle = some settled ∧
    after = some settled

/-- The operations that only settle cleanup intents. -/
def Op.settles : Op → Bool
  | .finalizeDelete .. => false
  | _ => true

/-- The datasource that an operation is about. -/
def Op.datasourceId : Op → String
  | .createDatasource id .. | .publishIngest id .. | .publishSchemaCache id ..
  | .updateDatasource id .. | .createPlaceholder id _ | .requestDelete id | .finalizeDelete id ..
  | .claim id _ => id

/-- What a commit of an operation may make of a row. -/
def StepOf (op : Op) : TableRow → Tables → Tables → Prop
  | .datasource id, a, b => RowStep op id (a.datasources.get id) (b.datasources.get id)
  | .event id, a, b => op.settles = true → EventStep (a.events.get id) (b.events.get id)
  | .claim _, _, _ => True
  | .lifecycle _, _, _ => True

/-- The claim under which an operation publishes. -/
def Op.guard : Op → Option Guard
  | .createDatasource _ _ _ _ _ _ _ guard | .publishIngest _ _ _ _ guard
  | .publishSchemaCache _ _ _ guard => guard
  | _ => none

/-- The claim is in the table, and the transaction has locked it before it ran out. -/
def Guard.Held (g : Guard) (held : List (Lock TableRow)) (db : Tables) : Prop :=
  ∃ claim, db.claims.get g.claimId = some claim ∧ claim.workerId = g.workerId ∧
    claim.claimToken = g.claimToken ∧ claim.leaseGeneration = g.leaseGeneration ∧
    ∃ k ∈ held, k.res = .claim g.claimId ∧ k.since < claim.leaseExpiresAt

/-- What a publication must have found, and made of its row, when it commits. -/
structure Publishes (op : Op) (held : List (Lock TableRow)) (a b : Tables) : Prop where
  claimed (g : Guard) : op.guard = some g → g.Held held a
  ingest (id : String) (config : Config) (n : ℕ) (schemaInfo : Option String)
    (guard : Option Guard) : op = .publishIngest id config n schemaInfo guard →
      ∃ row, a.datasources.get id = some row ∧ row.revision = n ∧
        row.isPendingDelete = false ∧ b.datasources.get id =
          some { row with config, revision := n + 1, schemaCache := schemaInfo }
  schema (id : String) (n : ℕ) (schemaInfo : String) (guard : Option Guard) :
    op = .publishSchemaCache id n schemaInfo guard →
      ∃ row, a.datasources.get id = some row ∧ row.revision = n ∧
        row.isPendingDelete = false ∧
        b.datasources.get id = some { row with schemaCache := some schemaInfo }

/-- The publication of an ingest. -/
def Op.ingests : Op → Bool
  | .publishIngest .. => true
  | _ => false

/-- Creations and publications. -/
def Op.publishes : Op → Bool
  | .createDatasource .. | .publishIngest .. | .publishSchemaCache .. => true
  | _ => false

/-- The operations that return the row of their datasource. -/
def Op.repliesRow : Op → Bool
  | .createDatasource .. | .publishIngest .. | .updateDatasource .. | .requestDelete .. => true
  | _ => false

theorem publishes_of_not_publishes {op : Op} {held : List (Lock TableRow)} {a b : Tables}
    (h : op.publishes = false) : Publishes op held a b := by
  refine ⟨fun g hguard => ?_, ?_, ?_⟩
  · cases op with
    | createDatasource => cases h
    | publishIngest => cases h
    | publishSchemaCache => cases h
    | _ => cases hguard
  · rintro id config n schemaInfo guard rfl
    cases h
  · rintro id n schemaInfo guard rfl
    cases h

/-- The protocol of publications. -/
def protocol : Protocol Op Tables TableWrite TableRow where
  visited _ _ _ := True
  calls _ := True
  inv _ := True
  act _ op held w db := (∀ r, StepOf op r w.db db) ∧ Publishes op held w.db db
  cond _ _ _ := True
  inv_tick _ _ := trivial
  inv_act _ _ _ _ := trivial

/-- What is returned is the row that is stored at that moment, or a mere success. -/
def Returned (_ : ℕ) (op : Op) (reply : Reply) (_ : Txn TableWrite TableRow) (w : World Tables) :
    Prop :=
  (∃ row, reply = .datasource row ∧ w.db.datasources.get op.datasourceId = some row) ∨
    op.repliesRow = false ∧ reply = .done

variable {event settled : OutboxEvent}

theorem settleReferenced_idem (h : event.settleReferenced = some settled) :
    settled.settleReferenced = some settled := by
  unfold OutboxEvent.settleReferenced at h
  split at h
  · cases h
    rfl
  · cases h

theorem settle_idem (h : event.settle = some settled) :
    settled.settle = some settled := by
  unfold OutboxEvent.settle at h
  split at h
  · next hkind =>
    have hidem := settleReferenced_idem h
    unfold OutboxEvent.settle
    rw [hidem]
    split <;> rfl
  · next hkind =>
    cases h
    exact if_neg hkind

theorem EventStep.settle {before : Option OutboxEvent} (h : EventStep before (some event))
    (hsettle : event.settle = some settled) :
    EventStep before (some settled) := by
  rcases h with h | ⟨event0, settled₀, hbefore, hsettle₀, h⟩
  · exact Or.inr ⟨event, settled, h.symm, hsettle, rfl⟩
  · cases h
    rw [settle_idem hsettle₀] at hsettle
    cases hsettle
    exact Or.inr ⟨event0, _, hbefore, hsettle₀, rfl⟩

theorem Tables.datasource_write (db : Tables) (id : String) (row : Option DataSource) :
    (db.write (.datasource id row)).datasources.get id = row :=
  (Table.get_put _ _ _ _).trans (if_pos rfl)

theorem Tables.event_write (db : Tables) (id : String) (row : Option OutboxEvent) :
    (db.write (.event id row)).events.get id = row :=
  (Table.get_put _ _ _ _).trans (if_pos rfl)

theorem stepOf_local (op : Op) :
    Protocol.Local TableWrite (fun (_ : List (Lock TableRow)) => StepOf op) where
  refl _ r db := by
    cases r with
    | datasource id => exact .same _
    | event id => exact fun _ => Or.inl rfl
    | claim id => trivial
    | lifecycle id => trivial
  mono _ h := h
  congr {_ r a a' b b'} ha hb h := by
    cases r with
    | datasource id =>
      change RowStep op id (a'.datasources.get id) (b'.datasources.get id)
      rw [show a'.datasources.get id = _ from ha, show b'.datasources.get id = _ from hb]
      exact h
    | event id =>
      change op.settles = true → EventStep (a'.events.get id) (b'.events.get id)
      rw [show a'.events.get id = _ from ha, show b'.events.get id = _ from hb]
      exact h
    | claim id => trivial
    | lifecycle id => trivial

/-- A transaction that has staged nothing but what its operation may commit. -/
structure Ready (op : Op) (t : Txn TableWrite TableRow) (w : World Tables) : Prop where
  guarded : t.Guarded
  staged : Protocol.Staged (fun _ => StepOf op) t w

/-- A transaction that has gone on. -/
structure Follows (t : Txn TableWrite TableRow) (w : World Tables) (t' : Txn TableWrite TableRow)
    (w' : World Tables) : Prop where
  rely : protocol.Rely t.held w w'
  held : t.held ⊆ t'.held

/-- A transaction that has gone on, and has written only cleanup intents meanwhile. -/
structure Extends (t : Txn TableWrite TableRow) (w : World Tables) (t' : Txn TableWrite TableRow)
    (w' : World Tables) : Prop extends Follows t w t' w' where
  writes : ∃ events : List (String × Option OutboxEvent),
    t'.writes = t.writes ++ events.map fun event => .event event.1 event.2

section Statements

variable {β : Type} {i : ℕ} {op : Op} {id : String} {t : Txn TableWrite TableRow}
  {w w' : World Tables} {Q : Reply → Txn TableWrite TableRow → World Tables → Prop}

theorem Ready.idle (ht : t.writes = []) : Ready op t w where
  guarded := by
    intro v hv
    rw [ht] at hv
    cases hv
  staged r := by
    rw [ht, view_nil]
    exact (stepOf_local op).refl t.held r w.db

theorem Ready.rely (h : Ready op t w) (hr : protocol.Rely t.held w w') : Ready op t w' :=
  ⟨h.guarded, h.staged.rely (stepOf_local op) h.guarded hr⟩

theorem Ready.write (h : Ready op t w) (e : Env Tables TableRow) {f : Effect TableWrite TableRow}
    (hw : ∀ v ∈ f.writes, StepOf op (Storage.target v) w.db (view f.writes (view t.writes w.db))) :
    Ready op (t.after e f) w :=
  ⟨h.guarded.after e f, h.staged.write (stepOf_local op) hw⟩

theorem Ready.lock (h : Ready op t w) (e : Env Tables TableRow) (locks : List (TableRow × Mode)) :
    Ready op (t.after e ⟨locks, []⟩) w :=
  ⟨h.guarded.after e _, h.staged.lock (stepOf_local op)⟩

theorem Follows.refl (t : Txn TableWrite TableRow) (w : World Tables) : Follows t w t w :=
  ⟨.refl, List.Subset.refl _⟩

theorem Follows.trans {t' t'' : Txn TableWrite TableRow} {w'' : World Tables}
    (h : Follows t w t' w') (h' : Follows t' w' t'' w'') : Follows t w t'' w'' :=
  ⟨h.rely.trans (h'.rely.mono h.held), List.Subset.trans h.held h'.held⟩

theorem Follows.after (hr : protocol.Rely t.held w w') (e : Env Tables TableRow)
    (f : Effect TableWrite TableRow) : Follows t w (t.after e f) w' :=
  ⟨hr, t.held_subset_after e f⟩

theorem Extends.refl (t : Txn TableWrite TableRow) (w : World Tables) : Extends t w t w :=
  ⟨.refl t w, [], (List.append_nil _).symm⟩

theorem Extends.trans {t' t'' : Txn TableWrite TableRow} {w'' : World Tables}
    (h : Extends t w t' w') (h' : Extends t' w' t'' w'') : Extends t w t'' w'' := by
  obtain ⟨events, hwrites⟩ := h.writes
  obtain ⟨events', hwrites'⟩ := h'.writes
  refine ⟨h.toFollows.trans h'.toFollows, events ++ events', ?_⟩
  rw [hwrites', hwrites, List.map_append, List.append_assoc]

theorem view_events (events : List (String × Option OutboxEvent)) (db : Tables) :
    (view (events.map fun event => TableWrite.event event.1 event.2) db).datasources =
      db.datasources := by
  induction events generalizing db with
  | nil => rfl
  | cons event events ih => exact ih (db.write (.event event.1 event.2))

/-- A transaction that holds the row of a datasource, with the row as it is committed and as it is
staged. -/
structure Kept (id : String) (before after : Option DataSource) (t : Txn TableWrite TableRow)
    (w : World Tables) : Prop where
  locked : ∃ k ∈ t.held, k.res = .datasource id
  before : w.db.datasources.get id = before
  after : (view t.writes w.db).datasources.get id = after

theorem Kept.extends {before after : Option DataSource} {t' : Txn TableWrite TableRow}
    (h : Kept id before after t w) (he : Extends t w t' w') : Kept id before after t' w' := by
  obtain ⟨lock, hlock, hres⟩ := h.locked
  have hsame : Storage.same TableWrite (TableRow.datasource id) w'.db w.db :=
    hres ▸ he.rely.same hlock
  obtain ⟨events, hwrites⟩ := he.writes
  refine ⟨⟨lock, he.held hlock, hres⟩, Eq.trans hsame h.before, ?_⟩
  rw [hwrites, view_append, view_events]
  exact Eq.trans (view_same t.writes hsame) h.after

/-- A transaction that has locked the claim of its guard, if there is one. -/
def Claimed (guard : Option Guard) (t : Txn TableWrite TableRow) (w : World Tables) : Prop :=
  ∀ g, guard = some g → g.Held t.held w.db

theorem Claimed.follows {guard : Option Guard} {t' : Txn TableWrite TableRow}
    (h : Claimed guard t w) (hf : Follows t w t' w') : Claimed guard t' w' := by
  intro g hg
  obtain ⟨claim, hclaim, hworker, htoken, hgeneration, k, hk, hres, hsince⟩ := h g hg
  have hsame : w'.db.claims.get g.claimId = w.db.claims.get g.claimId := by
    have hkept := hf.rely.same hk
    rw [hres] at hkept
    exact hkept
  exact ⟨claim, hsame.trans hclaim, hworker, htoken, hgeneration, k, hf.held hk, hres, hsince⟩

variable {k : Unit → DatasourceScript Reply}

theorem wp_commitReady (h : Ready op t w)
    (hp : ∀ w', protocol.Rely t.held w w' → Publishes op t.held w'.db (view t.writes w'.db))
    (hk : ∀ w', protocol.wp i op Q (k ()) {} w') :
    protocol.wp i op Q (Script.commitNow >>= k) t w := by
  apply Protocol.wp_commit
  intro w' hr _ _
  exact ⟨⟨fun r => (h.rely hr).staged r, hp w' hr⟩, hk _⟩

theorem wp_getDatasource {k : Option DataSource → DatasourceScript Reply} (ht : t.writes = [])
    (hk : ∀ t' w', t'.writes = [] → Follows t w t' w' →
      protocol.wp i op Q (k (w'.db.datasources.get id)) t' w') :
    protocol.wp i op Q (getDatasource id >>= k) t w := by
  apply Protocol.wp_query
  intro w' e hr _ hs
  rw [hs.db, ht, view_nil]
  exact hk _ w' rfl ⟨hr, List.Subset.refl _⟩

theorem wp_refresh : protocol.wp i op (Returned i op) (refresh op.datasourceId) {} w := by
  refine wp_getDatasource rfl fun t' w' _ _ => ?_
  cases hrow : w'.db.datasources.get op.datasourceId with
  | none => trivial
  | some row => exact Or.inl ⟨row, rfl, hrow⟩

theorem wp_publicationGuard {guard : Option Guard} (ht : t.writes = [])
    (hk : ∀ t' w', t'.writes = [] → Follows t w t' w' → Claimed guard t' w' →
      protocol.wp i op Q (k ()) t' w') :
    protocol.wp i op Q (publicationGuard guard >>= k) t w := by
  cases guard with
  | none => exact hk t w ht (.refl t w) nofun
  | some guard =>
    rw [publicationGuard, Script.bind_assoc]
    apply Protocol.wp_statement
    intro w' e hr _ hs
    by_cases hheld : guard.holds e = true
    · rw [if_pos hheld]
      refine hk _ w' (by simp [Txn.after, ht]) (.after hr e _) ?_
      rintro g ⟨⟩
      have hdb : e.db = w'.db := by rw [hs.db, ht, view_nil]
      obtain ⟨claim, hclaim, hholds⟩ := (Option.any_eq_true _ _).mp hheld
      rw [hdb] at hclaim
      simp only [Bool.and_eq_true, decide_eq_true_eq] at hholds
      obtain ⟨⟨⟨hworker, htoken⟩, hgeneration⟩, hlease⟩ := hholds
      exact ⟨claim, hclaim, hworker, htoken, hgeneration, _,
        t.lock_mem_after e (n := (.claim guard.claimId, .exclusive))
          (by simp [Effect.needs, hheld]), rfl, hlease⟩
    · rw [if_neg hheld]
      trivial

theorem wp_settleEvent (h : Ready op t w)
    (hk : ∀ t' w', Ready op t' w' → Extends t w t' w' → protocol.wp i op Q (k ()) t' w') :
    protocol.wp i op Q (settleEvent id >>= k) t w := by
  rw [settleEvent, Script.bind_assoc]
  apply Protocol.wp_statement
  intro w' e hr _ hs
  have hready := h.rely hr
  cases hrow : e.db.events.get id with
  | none =>
    exact hk _ w' (hready.lock e []) ⟨.after hr e _, [], rfl⟩
  | some event =>
    cases hsettle : event.settle with
    | none =>
      dsimp only
      rw [hsettle]
      trivial
    | some settled =>
      dsimp only
      rw [hsettle]
      refine hk _ w' (hready.write e ?_) ⟨.after hr e _, [(id, some settled)], ?_⟩
      · intro v hv
        rw [Option.bind_some, hsettle] at hv ⊢
        obtain rfl := List.mem_singleton.mp hv
        intro hop
        have hstep : EventStep (w'.db.events.get id) (some event) := by
          rw [← hrow, hs.db]
          exact hready.staged (.event id) hop
        change EventStep _ ((Tables.write _ (.event id (some settled))).events.get id)
        rw [Tables.event_write]
        exact hstep.settle hsettle
      · rw [Txn.after, Option.bind_some, hsettle]
        rfl

theorem wp_settleEvents {ids : List String} (h : Ready op t w)
    (hk : ∀ t' w', Ready op t' w' → Extends t w t' w' → protocol.wp i op Q (k ()) t' w') :
    protocol.wp i op Q (settleEvents ids >>= k) t w := by
  induction ids generalizing t w with
  | nil => exact hk t w h (.refl t w)
  | cons id ids ih =>
    rw [settleEvents, Script.bind_assoc]
    refine wp_settleEvent h fun t1 w1 h1 he1 => ih h1 fun t2 w2 h2 he2 => ?_
    exact hk t2 w2 h2 (he1.trans he2)

theorem wp_settlePublication {p : Platform} {config : Config} (h : Ready op t w)
    (hk : ∀ t' w', Ready op t' w' → Extends t w t' w' → protocol.wp i op Q (k ()) t' w') :
    protocol.wp i op Q (settlePublication p config >>= k) t w := by
  rw [settlePublication, Script.bind_assoc]
  refine wp_settleEvents h fun t1 w1 h1 he1 => ?_
  cases config.catalog with
  | none => exact hk t1 w1 h1 he1
  | some name =>
    dsimp only
    rw [Script.bind_assoc]
    apply Protocol.wp_statement
    intro w2 e hr _ _
    refine wp_settleEvents ((h1.rely hr).lock e []) fun t3 w3 h3 he3 => hk t3 w3 h3 ?_
    have he2 : Extends t1 w1 (t1.after e ⟨[], []⟩) w2 := ⟨.after hr e _, [], rfl⟩
    exact (he1.trans he2).trans he3

/-- A first write, of a datasource that may change so. -/
theorem Ready.put {row row' : Option DataSource} {locks : List (TableRow × Mode)}
    (ht : t.writes = []) (e : Env Tables TableRow) (hrow : w.db.datasources.get id = row)
    (h : RowStep op id row row') :
    Ready op (t.after e ⟨locks, [.datasource id row']⟩) w := by
  refine (Ready.idle ht).write e fun v hv => ?_
  obtain rfl := List.mem_singleton.mp hv
  rw [ht, view_nil]
  change RowStep op id _ ((Tables.write _ (.datasource id row')).datasources.get id)
  rw [Tables.datasource_write, hrow]
  exact h

/-- An `UPDATE` of a row, where nothing has been written before. -/
theorem wp_updateWhere {test : DataSource → Bool} {set : DataSource → DataSource}
    {k : Bool → DatasourceScript Reply} (ht : t.writes = [])
    (hset : ∀ w' row, protocol.Rely t.held w w' → w'.db.datasources.get id = some row →
      test row = true → RowStep op id (some row) (some (set row)))
    (hit : ∀ row t' w', Ready op t' w' → Follows t w t' w' → test row = true →
      Kept id (some row) (some (set row)) t' w' → protocol.wp i op Q (k true) t' w')
    (miss : ∀ t' w', t'.writes = [] → protocol.wp i op Q (k false) t' w') :
    protocol.wp i op Q (updateWhere id test set >>= k) t w := by
  apply Protocol.wp_statement
  intro w' e hr _ hs
  have hdb : e.db = w'.db := by rw [hs.db, ht, view_nil]
  rw [hdb]
  cases hrow : w'.db.datasources.get id with
  | none => exact miss _ w' (by simp [Txn.after, ht])
  | some row =>
    rw [Option.any_some, Option.filter_some]
    by_cases htest : test row = true
    · rw [htest, if_pos rfl]
      refine hit row _ w' (.put ht e hrow (hset w' row hr hrow htest)) (.after hr e _) htest
        ⟨⟨_, t.lock_mem_after e (n := (.datasource id, .exclusive))
          (by simp [Effect.needs, Storage.target, TableWrite.target]), rfl⟩, hrow, ?_⟩
      rw [Txn.after, ht]
      exact Tables.datasource_write _ _ _
    · rw [Bool.not_eq_true] at htest
      rw [htest]
      exact miss _ w' (by simp [Txn.after, ht])

theorem wp_insertDatasource {row : DataSource} {k : Bool → DatasourceScript Reply}
    (ht : t.writes = []) (hset : RowStep op id none (some row))
    (hit : ∀ t' w', Ready op t' w' → Follows t w t' w' → protocol.wp i op Q (k true) t' w')
    (miss : ∀ t' w', t'.writes = [] → protocol.wp i op Q (k false) t' w') :
    protocol.wp i op Q (insertDatasource id row >>= k) t w := by
  apply Protocol.wp_statement
  intro w' e hr _ hs
  have hdb : e.db = w'.db := by rw [hs.db, ht, view_nil]
  rw [hdb]
  cases hrow : w'.db.datasources.get id with
  | some row => exact miss _ w' (by simp [Txn.after, ht])
  | none => exact hit _ w' (.put ht e hrow hset) (.after hr e _)

/-- `SELECT … FOR UPDATE` keeps the row that it reads. -/
theorem wp_getDatasourceForUpdate {k : Option DataSource → DatasourceScript Reply}
    (ht : t.writes = [])
    (hsome : ∀ row t' w', t'.writes = [] → w'.db.datasources.get id = some row →
      (∀ w'', protocol.Rely t'.held w' w'' → w''.db.datasources.get id = some row) →
      protocol.wp i op Q (k (some row)) t' w')
    (hnone : ∀ t' w', protocol.wp i op Q (k none) t' w') :
    protocol.wp i op Q (getDatasourceForUpdate id >>= k) t w := by
  apply Protocol.wp_statement
  intro w' e _ _ hs
  have hdb : e.db = w'.db := by rw [hs.db, ht, view_nil]
  rw [hdb]
  cases hrow : w'.db.datasources.get id with
  | none => exact hnone _ w'
  | some row =>
    refine hsome row _ w' (by simp [Txn.after, ht]) hrow fun w'' hr => ?_
    have hlock := t.lock_mem_after e (f := ⟨[(TableRow.datasource id, Mode.exclusive)], []⟩)
      (n := (.datasource id, .exclusive)) (by simp [Effect.needs])
    have hsame : w''.db.datasources.get id = w'.db.datasources.get id := hr.same hlock
    rw [hsame, hrow]

end Statements

section Operations

variable {p : Platform} {i : ℕ} {op : Op} {id : String} {t : Txn TableWrite TableRow}
  {w : World Tables}

theorem wp_publish {config : Config} (h : Ready op t w)
    (hp : ∀ t' w', Extends t w t' w' → Publishes op t'.held w'.db (view t'.writes w'.db)) :
    protocol.wp i op (Returned i op) (do
      settlePublication p config
      Script.commitNow
      refresh op.datasourceId) t w := by
  refine wp_settlePublication h fun t1 w1 h1 he1 => wp_commitReady h1 (fun w2 hr => ?_)
    fun _ => wp_refresh
  exact hp t1 w2 (he1.trans ⟨⟨hr, List.Subset.refl _⟩, [], (List.append_nil _).symm⟩)

section Creation

variable {name sourceType : String} {description ownerId schemaInfo : Option String}
  {config : Config} {guard : Option Guard}

theorem Claimed.publishes {b : Tables} (h : Claimed guard t w) (hop : op =
      .createDatasource id name description sourceType config ownerId schemaInfo guard) :
    Publishes op t.held w.db b := by
  subst hop
  exact ⟨h, nofun, nofun⟩

theorem wp_replayedResponse {existing : DataSource} {again : Option Guard} (ht : t.writes = [])
    (hop : op = .createDatasource id name description sourceType config ownerId schemaInfo guard)
    (hclaimed : again = guard ∨ Claimed guard t w) :
    protocol.wp i op (Returned i op)
      (replayedResponse p id existing name sourceType ownerId again) t w := by
  obtain rfl : id = op.datasourceId := by rw [hop]; rfl
  unfold replayedResponse
  split
  · trivial
  · refine wp_publicationGuard ht fun t1 w1 ht1 hf1 hagain => wp_publish (Ready.idle ht1)
      fun t2 w2 he => Claimed.publishes (?_ : Claimed guard t2 w2) hop
    rcases hclaimed with rfl | hclaimed
    · exact hagain.follows he.toFollows
    · exact hclaimed.follows (hf1.trans he.toFollows)

theorem wp_createDatasource (hop : op =
      .createDatasource id name description sourceType config ownerId schemaInfo guard) :
    protocol.wp i op (Returned i op)
      (createDatasource p id name description sourceType config ownerId schemaInfo guard) {} w := by
  obtain rfl : id = op.datasourceId := by rw [hop]; rfl
  refine wp_publicationGuard rfl fun t1 w1 ht1 _ hclaimed => ?_
  split
  · trivial
  refine wp_getDatasource ht1 fun t2 w2 ht2 hf2 => ?_
  split
  · exact wp_replayedResponse ht2 hop (Or.inr (hclaimed.follows hf2))
  · refine wp_insertDatasource ht2 (.created hop) (fun t3 w3 h3 hf3 => ?_) fun t3 w3 ht3 => ?_
    · exact wp_publish h3 fun t4 w4 he =>
        ((hclaimed.follows hf2).follows (hf3.trans he.toFollows)).publishes hop
    · refine Protocol.wp_rollback fun w4 _ _ => wp_getDatasource rfl fun t5 w5 ht5 _ => ?_
      split
      · trivial
      · exact wp_replayedResponse ht5 hop (Or.inl rfl)

end Creation

theorem wp_publishIngest {config : Config} {expectedRevision : ℕ} {schemaInfo : Option String}
    {guard : Option Guard}
    (hop : op = .publishIngest id config expectedRevision schemaInfo guard) :
    protocol.wp i op (Returned i op)
      (publishIngest p id config expectedRevision schemaInfo guard) {} w := by
  obtain rfl : id = op.datasourceId := by rw [hop]; rfl
  refine wp_getDatasource rfl fun t1 w1 ht1 _ => ?_
  split
  · trivial
  refine wp_publicationGuard ht1 fun t2 w2 ht2 _ hclaimed => wp_updateWhere ht2
    (fun w' row _ _ htest => ?_) (fun row t3 w3 h3 hf3 htest hkept => ?_) fun t3 w3 _ => ?_
  · simp only [Bool.and_eq_true, decide_eq_true_eq, Bool.not_eq_true'] at htest
    obtain ⟨rfl, hlive⟩ := htest
    exact .published hop hlive
  · refine wp_publish h3 fun t4 w4 he => ?_
    have hkept4 := hkept.extends he
    have hclaimed₄ := hclaimed.follows (hf3.trans he.toFollows)
    simp only [Bool.and_eq_true, decide_eq_true_eq, Bool.not_eq_true'] at htest
    refine ⟨fun g hg => hclaimed₄ g ?_, fun id' config' n schemaInfo' guard' hop' => ?_,
      fun id' n schemaInfo' guard' hop' => ?_⟩
    · rw [hop] at hg
      exact hg
    · obtain rfl : op.datasourceId = id' := by rw [hop']; rfl
      cases hop.symm.trans hop'
      exact ⟨row, hkept4.before, htest.1, htest.2, hkept4.after⟩
    · cases hop.symm.trans hop'
  · exact Protocol.wp_rollback fun _ _ _ => trivial

theorem wp_publishSchemaCache {expectedRevision : ℕ} {schemaInfo : String} {guard : Option Guard}
    (hop : op = .publishSchemaCache id expectedRevision schemaInfo guard) :
    protocol.wp i op (Returned i op)
      (publishSchemaCache id expectedRevision schemaInfo guard) {} w := by
  refine wp_publicationGuard rfl fun t1 w1 ht1 _ hclaimed => wp_updateWhere ht1
    (fun w' row _ _ htest => ?_) (fun row t2 w2 h2 hf2 htest hkept => ?_) fun t2 w2 _ => ?_
  · simp only [Bool.and_eq_true, decide_eq_true_eq, Bool.not_eq_true'] at htest
    obtain ⟨rfl, hlive⟩ := htest
    exact .cached hop hlive
  · refine wp_commitReady h2 (fun w3 hr => ?_) fun _ => Or.inr ⟨by rw [hop]; rfl, rfl⟩
    have he : Extends t2 w2 t2 w3 := ⟨⟨hr, List.Subset.refl _⟩, [], (List.append_nil _).symm⟩
    have hkept3 := hkept.extends he
    have hclaimed₃ := hclaimed.follows (hf2.trans he.toFollows)
    simp only [Bool.and_eq_true, decide_eq_true_eq, Bool.not_eq_true'] at htest
    refine ⟨fun g hg => hclaimed₃ g ?_, fun id' config' n schemaInfo' guard' hop' => ?_,
      fun id' n schemaInfo' guard' hop' => ?_⟩
    · rw [hop] at hg
      exact hg
    · cases hop.symm.trans hop'
    · cases hop.symm.trans hop'
      exact ⟨row, hkept3.before, htest.1, htest.2, hkept3.after⟩
  · refine Protocol.wp_rollback fun w3 _ _ => wp_getDatasource rfl fun t4 w4 _ _ => ?_
    split
    · trivial
    · split <;> trivial

theorem wp_updateDatasource {update : DataSourceUpdate} {resolved : Option ExcelSelection}
    {expectedRevision : Option ℕ}
    (hop : op = .updateDatasource id update resolved expectedRevision) :
    protocol.wp i op (Returned i op)
      (updateDatasource p id update resolved expectedRevision) {} w := by
  obtain rfl : id = op.datasourceId := by rw [hop]; rfl
  have hother : op.publishes = false := by rw [hop]; rfl
  refine wp_getDatasourceForUpdate rfl (fun row t1 w1 ht1 _ hkept => ?_) fun _ _ => trivial
  dsimp only
  split
  · trivial
  split
  · trivial
  split
  · trivial
  next updated changed hupdate =>
    cases changed with
    | false =>
      exact wp_commitReady (Ready.idle ht1) (fun _ _ => publishes_of_not_publishes hother)
        fun _ => wp_refresh
    | true =>
      refine wp_updateWhere ht1 (fun w' row' hr hrow' _ => ?_)
        (fun _ t2 w2 h2 _ _ _ => wp_publish h2 fun _ _ _ => publishes_of_not_publishes hother)
        fun t2 w2 ht2 => wp_publish (Ready.idle ht2) fun _ _ _ => publishes_of_not_publishes hother
      obtain rfl : row = row' := Option.some.inj ((hkept w' hr).symm.trans hrow')
      exact .updated hop hupdate

theorem wp_createPlaceholder {placeholder : Placeholder}
    (hop : op = .createPlaceholder id placeholder) :
    protocol.wp i op (Returned i op) (createPlaceholder p id placeholder) {} w := by
  have hdone {t : Txn TableWrite TableRow} {w : World Tables} (h : Ready op t w) :
      protocol.wp i op (Returned i op) (do Script.commitNow; pure .done) t w :=
    wp_commitReady h (fun _ _ => publishes_of_not_publishes (by rw [hop]; rfl))
      fun _ => Or.inr ⟨by rw [hop]; rfl, rfl⟩
  unfold createPlaceholder
  split
  · trivial
  refine wp_getDatasource rfl fun t1 w1 ht1 _ => ?_
  split
  · next existing _ =>
    split
    · trivial
    split
    · exact wp_updateWhere ht1 (fun _ _ _ _ _ => .overwritten hop) (fun _ _ _ h _ _ _ => hdone h)
        fun _ _ _ => trivial
    · exact hdone (Ready.idle ht1)
  · exact wp_insertDatasource ht1 (.placed hop) (fun _ _ h _ => hdone h) fun _ _ _ => trivial

theorem wp_lockLifecycle {k : Unit → DatasourceScript Reply}
    {Q : Reply → Txn TableWrite TableRow → World Tables → Prop} (ht : t.writes = [])
    (hk : ∀ t' w', t'.writes = [] → protocol.wp i op Q (k ()) t' w') :
    protocol.wp i op Q (lockLifecycle id >>= k) t w := by
  apply Protocol.wp_statement
  intro w' e _ _ _
  exact hk _ w' (by simp [Txn.after, ht])

theorem wp_requestDelete (hop : op = .requestDelete id) :
    protocol.wp i op (Returned i op) (requestDelete id) {} w := by
  obtain rfl : id = op.datasourceId := by rw [hop]; rfl
  have hcommit {t : Txn TableWrite TableRow} {w : World Tables} (h : Ready op t w) :
      protocol.wp i op (Returned i op) (do Script.commitNow; refresh op.datasourceId) t w :=
    wp_commitReady h (fun _ _ => publishes_of_not_publishes (by rw [hop]; rfl)) fun _ => wp_refresh
  refine wp_lockLifecycle rfl fun t1 w1 ht1 => wp_getDatasource ht1 fun t2 w2 ht2 _ => ?_
  split
  · trivial
  · split
    · exact hcommit (Ready.idle ht2)
    · exact wp_updateWhere ht2 (fun _ _ _ _ _ => .marked hop) (fun _ _ _ h _ _ _ => hcommit h)
        fun _ _ _ => trivial

theorem wp_finalizeDelete {active : Bool}
    {cleanup : DataSource → Tables → List (String × Option OutboxEvent)}
    (hop : op = .finalizeDelete id active cleanup) :
    protocol.wp i op (Returned i op) (finalizeDelete id active cleanup) {} w := by
  have hdone (t : Txn TableWrite TableRow) (w : World Tables) : Returned i op .done t w :=
    Or.inr ⟨by rw [hop]; rfl, rfl⟩
  refine wp_lockLifecycle rfl fun t1 w1 ht1 => ?_
  refine wp_getDatasourceForUpdate ht1 (fun row t2 w2 ht2 _ hkept => ?_) hdone
  dsimp only
  split
  · exact hdone t2 w2
  next hpending =>
    rw [not_or, not_not] at hpending
    apply Protocol.wp_statement
    intro w3 e3 hr3 _ _
    have h3 : Ready op (t2.after e3
        ⟨[], (cleanup row e3.db).map fun intent => .event intent.1 intent.2⟩) w3 := by
      refine (Ready.idle ht2).write e3 fun v hv => ?_
      obtain ⟨intent, -, rfl⟩ := List.mem_map.mp hv
      intro hsettles
      rw [hop] at hsettles
      cases hsettles
    apply Protocol.wp_statement
    intro w4 e4 hr4 _ _
    have hrow := hkept w4 (hr3.trans (hr4.mono (t2.held_subset_after e3 _)))
    refine wp_commitReady ((h3.rely hr4).write e4 fun v hv => ?_)
      (fun _ _ => publishes_of_not_publishes (by rw [hop]; rfl)) (hdone _)
    obtain rfl := List.mem_singleton.mp hv
    change RowStep op id _ ((Tables.write _ (.datasource id none)).datasources.get id)
    rw [Tables.datasource_write, hrow]
    exact .deleted hop hpending.1

theorem verified (p : Platform) : Verified protocol (code p) Returned := by
  intro i op w _ _
  cases op with
  | createDatasource => exact wp_createDatasource rfl
  | publishIngest => exact wp_publishIngest rfl
  | publishSchemaCache => exact wp_publishSchemaCache rfl
  | updateDatasource => exact wp_updateDatasource rfl
  | createPlaceholder => exact wp_createPlaceholder rfl
  | requestDelete => exact wp_requestDelete rfl
  | finalizeDelete => exact wp_finalizeDelete rfl
  | claim id row =>
    apply Protocol.wp_statement
    intro w1 e1 _ _ _
    refine wp_commitReady ((Ready.idle rfl).write e1 fun v hv => ?_)
      (fun _ _ => publishes_of_not_publishes rfl) fun _ => Or.inr ⟨rfl, rfl⟩
    obtain rfl := List.mem_singleton.mp hv
    trivial

end Operations
end DataForge.Datasources
