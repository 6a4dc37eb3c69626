import DataForge.Outbox.Cleanup

/-!
# The runtime outbox: protocol

What a commit of each operation may do to an event and its receipts, and the rules by which the
scripts are shown to do no more, whatever other transactions commit between their statements: what
a transaction has staged so far is a sequence of allowed steps, and a row that it has locked stays
as it found it.
-/

namespace DataForge.Outbox

open ReadCommitted Relation

/-- The call acts under the claim that is current in the row of the event; a cleanup is authorized
and completed for an intent only. -/
def Op.Holds (p : Platform) (i : ℕ) (id : String) (row : RuntimeOutboxEvent) : Op → Prop
  | .dispatchPendingEvents _ _ => ∃ n generation, row.heldBy (p.uuid4 i n) generation = true
  | .finalizeExternalDelivery claim _ =>
    claim.eventId = id ∧ row.heldBy claim.claimToken claim.leaseGeneration = true
  | .recordExternalDeliveryPart claim _ =>
    claim.eventId = id ∧ row.heldBy claim.claimToken claim.leaseGeneration = true
  | .authorizeCleanup id' token generation | .completeCleanup id' token generation _ =>
    id' = id ∧ row.heldBy token generation = true ∧ ∃ intent, row.content = .cleanup intent
  | _ => False

/-- The events that an operation claims. -/
def Op.lane? : Op → Option Lane
  | .dispatchPendingEvents _ _ => some .runtime
  | .claimExternalDeliveries kind _ => some (.external kind)
  | .claimCleanups _ => some .cleanup
  | _ => none

/-- The operation writes the row of the datasource, and settles nothing. -/
def Op.Stages (id : String) : Op → Prop
  | .upsertOutputDatasource output => output.resultId = id
  | .startBuild _ placeholders _ => id ∈ placeholders.map Prod.fst
  | _ => False

/-- The row of a new event. -/
structure Fresh (p : Platform) (id : String) (row : RuntimeOutboxEvent) : Prop where
  status : row.status = .pending
  attempts : row.attempts = 0
  token : row.claimToken = none
  generation : row.leaseGeneration = 0
  lease : row.leaseExpiresAt = none
  intent : ∀ intent, row.content = .cleanup intent →
    intent.phase = .tracked ∧ p.eventId intent.url = id

/-- Who may own the storage of an intent after an operation. -/
inductive OwnerStep (op : Op) (before after : Intent) : Prop where
  | kept (hkind : after.ownerKind = before.ownerKind) (hid : after.ownerId = before.ownerId)
  | preflight (hop : ∃ resourceId path availableAt others,
        op = .registerPreflightSource after.ownerId resourceId path availableAt others)
      (hbefore : before.ownerKind = .upload) (hafter : after.ownerKind = .preflight)
  | source (hop : ∃ path others, op = .transferPreflightSource path after.ownerId others)
      (hbefore : before.ownerKind = .upload ∨ before.ownerKind = .preflight)
      (hafter : after.ownerKind = .source)
  | datasource (hop : op = .deleteDatasource after.ownerId) (hafter : after.ownerKind = .datasource)

/-- The intent is not yet authorized for deletion. -/
def StorageCleanupPhase.Open (phase : StorageCleanupPhase) : Prop :=
  phase = .tracked ∨ phase = .published

/-- What the transactions of call `i` may do, one write after the other, to an event with its
receipts, until the time `now`. -/
inductive CellStep (p : Platform) (i : ℕ) (op : Op) (now : ℕ) (id : String) :
    Cell → Cell → Prop where
  | enqueued {c : Cell} {row : RuntimeOutboxEvent} (hnone : c.event = none)
      (hrow : Fresh p id row) : CellStep p i op now id c { c with event := some row }
  | claimed {c : Cell} {row : RuntimeOutboxEvent} {lane : Lane} {began n : ℕ}
      (hrow : c.event = some row) (hop : op.lane? = some lane)
      (hlane : lane.covers row.content = true) (hbegan : began ≤ now)
      (hdue : row.due began = true) :
      CellStep p i op now id c
        { c with event := some (row.claimed p.settings (p.uuid4 i n) began) }
  | settled {c : Cell} {row : RuntimeOutboxEvent} {error : Option String} {record : Bool}
      {began : ℕ} (hrow : c.event = some row) (hheld : op.Holds p i id row) :
      CellStep p i op now id c
        ((settledRows p.settings record began id row c.receipt error).foldl
          (fun c v => c.write id v) c)
  | recorded {c : Cell} {row : RuntimeOutboxEvent} {claim : OutboxClaim} {partKey : String}
      {noted : ℕ} (hrow : c.event = some row)
      (hop : op = .recordExternalDeliveryPart claim partKey) (hid : claim.eventId = id)
      (hrecords : row.records claim noted = true) :
      CellStep p i op now id c
        ⟨some { row with
            leaseExpiresAt := some (noted + p.settings.runtimeOutboxClaimTtl), updatedAt := noted },
          c.receipt, addPart c.parts partKey noted⟩
  | bumped {c : Cell} {row : RuntimeOutboxEvent} {intent : Intent} {availableAt : ℕ}
      (hrow : c.event = some row) (hcontent : row.content = .cleanup intent) :
      CellStep p i op now id c { c with event := some { row with availableAt } }
  | rearmed {c : Cell} {row : RuntimeOutboxEvent} {intent intent' : Intent}
      {availableAt dispatchedAt : Option ℕ} {began : ℕ}
      (hrow : c.event = some row) (hcontent : row.content = .cleanup intent)
      (hopen : intent.phase.Open) (htracked : intent'.phase = .tracked)
      (hurl : intent'.url = intent.url) (howner : OwnerStep op intent intent') :
      CellStep p i op now id c
        { c with event := some { row.rearmed intent' availableAt began with dispatchedAt } }
  | referenced {c : Cell} {row row' : RuntimeOutboxEvent} {intent : Intent} {began : ℕ}
      (hrow : c.event = some row) (hcontent : row.content = .cleanup intent)
      (hsettle : row.settleReferenced intent began = some row')
      (hop : (∃ datasourceId ds, op = .publishDatasource datasourceId ds) ∨ op.Holds p i id row) :
      CellStep p i op now id c { c with event := some row' }
  | authorized {c : Cell} {row : RuntimeOutboxEvent} {intent : Intent} {token : String}
      {generation : ℕ} (hrow : c.event = some row) (hcontent : row.content = .cleanup intent)
      (hop : op = .authorizeCleanup id token generation)
      (hheld : row.heldBy token generation = true)
      (hphase : intent.phase = .tracked ∨ intent.phase = .authorized) :
      CellStep p i op now id c
        { c with event := some (row.inPhase intent .authorized) }
  | deleted {c : Cell} {row : RuntimeOutboxEvent} {intent : Intent} {token : String}
      {generation : ℕ} (hrow : c.event = some row) (hcontent : row.content = .cleanup intent)
      (hop : op = .completeCleanup id token generation none)
      (hheld : row.heldBy token generation = true) (hphase : intent.phase = .authorized) :
      CellStep p i op now id c
        { c with event := some (row.inPhase intent .deleted) }

/-- What the transactions of an operation may do to a datasource. -/
inductive DatasourceStep (op : Op) (id : String) :
    Option Datasources.DataSource → Option Datasources.DataSource → Prop where
  | same (row : Option Datasources.DataSource) : DatasourceStep op id row row
  | published {before : Option Datasources.DataSource} {row : Datasources.DataSource}
      (hop : op = .publishDatasource id row) : DatasourceStep op id before (some row)
  | staged {before : Option Datasources.DataSource} {row : Datasources.DataSource}
      (hop : op.Stages id) : DatasourceStep op id before (some row)
  | deleted {before : Option Datasources.DataSource} (hop : op = .deleteDatasource id) :
      DatasourceStep op id before none

/-- What the transactions of call `i` may do to a row until the time `now`. -/
def Moves (p : Platform) (i : ℕ) (op : Op) (now : ℕ) (_ : List (Lock TableRow)) :
    TableRow → Tables → Tables → Prop
  | .event id, a, b => ReflTransGen (CellStep p i op now id) (a.cell id) (b.cell id)
  | .datasource id, a, b => DatasourceStep op id (a.datasources.get id) (b.datasources.get id)
  | _, _, _ => True

/-- The paths of a configuration that a cleanup compares with its URL
(`storage_cleanup_service.py:594-600`). -/
def exactPaths (config : Datasources.Config) : List String :=
  [config.str? "metadata_path", config.str? "file_path", config.entry? "source" "metadata_path",
    config.entry? "source" "file_path"].filterMap id

/-- No datasource names the object. -/
def Unreferenced (db : Tables) (url : String) : Prop :=
  ∀ id row, db.datasources.get id = some row → url ∉ exactPaths row.config

/-- No datasource names the object, unless some call has not found its intent, or not settled it. -/
def Free (p : Platform) (missed : ℕ → String → Prop) (url : String) (db : Tables) : Prop :=
  (∃ j, missed j (p.eventId url)) ∨ Unreferenced db url

/-- An intent is stored under the identity of its URL. -/
def Keyed (p : Platform) (db : Tables) : Prop :=
  ∀ id row intent, db.events.get id = some row → row.content = .cleanup intent →
    p.eventId intent.url = id

/-- The paths that outputs come to name are those whose intents are not settled. -/
def Unsettled (p : Platform) (missed : ℕ → String → Prop) (op : Op) (w : World Tables)
    (db : Tables) : Prop :=
  ∀ id row, op.Stages id → db.datasources.get id = some row →
    w.db.datasources.get id ≠ some row →
      ∀ path ∈ exactPaths row.config, ∃ j, missed j (p.eventId path)

/-- What a commit of call `i` does. `missed i id` says that the call has looked for the intent
`id` and found none, or has come to name its object without a look. -/
structure Commit (p : Platform) (missed : ℕ → String → Prop) (i : ℕ) (op : Op)
    (held : List (Lock TableRow)) (w : World Tables) (db : Tables) : Prop where
  moves : ∀ r, Moves p i op w.now held r w.db db
  /-- A publication holds the intents of the paths that it names, and settles them. -/
  publishes : ∀ datasourceId ds, op = .publishDatasource datasourceId ds →
    db.datasources.get datasourceId ≠ w.db.datasources.get datasourceId →
    ∀ path ∈ exactPaths ds.config, missed i (p.eventId path) ∨
      ((∃ k ∈ held, k.res = .event (p.eventId path) ∧ k.mode = .exclusive) ∧
        ∀ row intent, db.events.get (p.eventId path) = some row → row.content = .cleanup intent →
          intent.phase = .published)
  stages : Unsettled p missed op w db
  /-- What is authorized for deletion is not referenced. -/
  authorizes : ∀ id token generation, op = .authorizeCleanup id token generation →
    ∀ row intent, db.events.get id = some row → row.content = .cleanup intent →
      intent.phase = .authorized → Free p missed intent.url w.db

/-- The effect of the lookup by which a publication settles an intent. -/
def settleEffect (id : String) (e : Env Tables TableRow) : Effect TableWrite TableRow where
  locks := (e.db.events.get id).toList.map fun _ => (.event id, .exclusive)
  writes := ((e.db.events.get id).bind fun row => row.content.intent?.bind fun intent =>
    row.settleReferenced intent e.began).toList.map (.event id)

/-- The lookups of a call that find no intent are among those `missed`. -/
def Missing (missed : ℕ → String → Prop) (i : ℕ)
    (effect : Env Tables TableRow → Effect TableWrite TableRow) (w : World Tables) : Prop :=
  ∀ id, effect = settleEffect id → w.db.events.get id = none → missed i id

/-! ## Cells under steps -/

section Steps

variable {p : Platform} {i : ℕ} {op : Op} {now now' : ℕ} {id : String} {c c' : Cell}

theorem CellStep.mono (hle : now ≤ now') (h : CellStep p i op now id c c') :
    CellStep p i op now' id c c' := by
  cases h with
  | enqueued hnone hrow => exact .enqueued hnone hrow
  | claimed hrow hop hlane hbegan hdue =>
    exact .claimed hrow hop hlane (Nat.le_trans hbegan hle) hdue
  | settled hrow hheld => exact .settled hrow hheld
  | recorded hrow hop hid hrecords => exact .recorded hrow hop hid hrecords
  | bumped hrow hcontent => exact .bumped hrow hcontent
  | rearmed hrow hcontent hopen htracked hurl howner =>
    exact .rearmed hrow hcontent hopen htracked hurl howner
  | referenced hrow hcontent hsettle hop => exact .referenced hrow hcontent hsettle hop
  | authorized hrow hcontent hop hheld hphase =>
    exact .authorized hrow hcontent hop hheld hphase
  | deleted hrow hcontent hop hheld hphase => exact .deleted hrow hcontent hop hheld hphase

theorem Moves.mono {held : List (Lock TableRow)} {r : TableRow} {a b : Tables}
    (hle : now ≤ now') (h : Moves p i op now held r a b) : Moves p i op now' held r a b := by
  cases r with
  | event id => exact ReflTransGen.mono (fun _ _ => CellStep.mono hle) _ _ h
  | request id => trivial
  | job id => trivial
  | datasource id => exact h

theorem Moves.refl (held : List (Lock TableRow)) (r : TableRow) (db : Tables) :
    Moves p i op now held r db db := by
  cases r with
  | event id => exact ReflTransGen.refl
  | request id => trivial
  | job id => trivial
  | datasource id => exact .same _

theorem Moves.trans {held : List (Lock TableRow)} {r : TableRow} {a b d : Tables}
    (h : Moves p i op now held r a b) (h' : Moves p i op now held r b d) :
    Moves p i op now held r a d := by
  cases r with
  | event id => exact ReflTransGen.trans h h'
  | request id => trivial
  | job id => trivial
  | datasource id =>
    change DatasourceStep op id _ _
    change DatasourceStep op id _ _ at h h'
    generalize b.datasources.get id = y at h h'
    generalize d.datasources.get id = z at h' ⊢
    cases h' with
    | same => exact h
    | published hop => exact .published hop
    | staged hop => exact .staged hop
    | deleted hop => exact .deleted hop

theorem moves_local : Protocol.Local TableWrite (Moves p i op now) where
  refl := Moves.refl
  mono {_ _ r _ _} _ h := by cases r <;> exact h
  congr {held r a a' b b'} ha hb h := by
    cases r with
    | event id =>
      change ReflTransGen _ (a'.cell id) (b'.cell id)
      rw [show a'.cell id = a.cell id from ha, show b'.cell id = b.cell id from hb]
      exact h
    | request id => trivial
    | job id => trivial
    | datasource id =>
      change DatasourceStep op id (a'.datasources.get id) (b'.datasources.get id)
      rw [show a'.datasources.get id = _ from ha, show b'.datasources.get id = _ from hb]
      exact h

end Steps

theorem cell_view (ws : List TableWrite) (db : Tables) (id : String) :
    (view ws db).cell id = ws.foldl (fun c v => c.write id v) (db.cell id) := by
  induction ws generalizing db with
  | nil => rfl
  | cons v ws ih =>
    change (view ws (db.write v)).cell id = _
    rw [ih, Tables.cell_write]
    rfl

theorem foldl_write_of_ne {ws : List TableWrite} {c : Cell} {id : String}
    (h : ∀ v ∈ ws, v.target ≠ .event id) : ws.foldl (fun c v => c.write id v) c = c := by
  induction ws generalizing c with
  | nil => rfl
  | cons v ws ih =>
    rw [List.foldl_cons, Cell.write_of_ne (h v List.mem_cons_self)]
    exact ih fun u hu => h u (List.mem_cons_of_mem v hu)

/-- When each of some groups writes a cell of its own, a cell is what its group makes of it. -/
theorem foldl_flatMap {α : Type} {l : List α} (key : α → String) {f : α → List TableWrite}
    (hnodup : (l.map key).Nodup) (hf : ∀ x ∈ l, ∀ v ∈ f x, v.target = .event (key x)) {x : α}
    (hx : x ∈ l) (c : Cell) :
    (l.flatMap f).foldl (fun c v => c.write (key x) v) c =
      (f x).foldl (fun c v => c.write (key x) v) c := by
  induction l generalizing c with
  | nil => cases hx
  | cons y l ih =>
    rw [List.map_cons, List.nodup_cons] at hnodup
    rw [List.flatMap_cons, List.foldl_append]
    have hne {y z : α} (h : key y ≠ key z) (v : TableWrite) (hv : v.target = .event (key y)) :
        v.target ≠ .event (key z) := fun he => h (TableRow.event.inj (hv.symm.trans he))
    rcases List.mem_cons.mp hx with rfl | hx
    · apply foldl_write_of_ne
      intro v hv
      obtain ⟨z, hz, hv⟩ := List.mem_flatMap.mp hv
      refine hne (fun he => hnodup.1 ?_) v (hf z (List.mem_cons_of_mem _ hz) v hv)
      exact List.mem_map.mpr ⟨z, hz, he⟩
    · rw [foldl_write_of_ne (c := c)]
      · exact ih hnodup.2 (fun z hz => hf z (List.mem_cons_of_mem _ hz)) hx c
      · intro v hv
        refine hne (fun he => hnodup.1 ?_) v (hf y List.mem_cons_self v hv)
        exact List.mem_map.mpr ⟨x, hx, he.symm⟩

/-! ## The protocol -/

/-- The cell of a settled event. -/
theorem settled_cell (s : Settings) (record : Bool) (began : ℕ) (id : String)
    (row : RuntimeOutboxEvent) (error : Option String) (c : Cell) :
    ∃ receipt, (settledRows s record began id row c.receipt error).foldl
      (fun c v => c.write id v) c = ⟨some (row.settled s error began), receipt,
        if error.isNone && row.content.external? = some .telegram then [] else c.parts⟩ ∧
      (c.receipt.isSome = true → receipt = c.receipt) := by
  unfold settledRows
  rw [List.foldl_append, List.foldl_append]
  cases hk : row.content.external? with
  | none =>
    refine ⟨c.receipt, ?_, fun _ => rfl⟩
    simp [Cell.write]
  | some kind =>
    dsimp only
    have hparts (d : Cell) : List.foldl (fun c v => c.write id v) d
        (if (error.isNone && decide (some kind = some DeliveryKind.telegram)) = true then
          [TableWrite.parts id none] else []) =
        { d with parts := if (error.isNone && decide (some kind = some DeliveryKind.telegram)) =
            true then [] else d.parts } := by
      split
      · simp [Cell.write]
      · rfl
    by_cases hr : (record && error.isNone && c.receipt.isNone) = true
    · refine ⟨some ⟨kind, began⟩, ?_, fun hs => ?_⟩
      · rw [if_pos hr, hparts]
        simp [Cell.write]
      · simp only [Bool.and_eq_true, Option.isNone_iff_eq_none] at hr
        rw [hr.2] at hs
        cases hs
    · refine ⟨c.receipt, ?_, fun _ => rfl⟩
      rw [if_neg hr, hparts]
      simp [Cell.write]

@[simp] theorem settled_content (row : RuntimeOutboxEvent) (s : Settings) (error : Option String)
    (now : ℕ) : (row.settled s error now).content = row.content := by
  unfold RuntimeOutboxEvent.settled
  cases error with
  | none => rfl
  | some text => dsimp only; split <;> rfl

@[simp] theorem settled_generation (row : RuntimeOutboxEvent) (s : Settings)
    (error : Option String) (now : ℕ) :
    (row.settled s error now).leaseGeneration = row.leaseGeneration := by
  unfold RuntimeOutboxEvent.settled
  cases error with
  | none => rfl
  | some text => dsimp only; split <;> rfl

theorem settleReferenced_eq {row row' : RuntimeOutboxEvent} {intent : Intent} {now : ℕ}
    (h : row.settleReferenced intent now = some row') :
    intent.phase.Open ∧ row' = { row with
      content := .cleanup { intent with phase := .published }
      status := .dispatched
      claimToken := none
      leaseExpiresAt := none
      dispatchedAt := some now
      updatedAt := now } := by
  unfold RuntimeOutboxEvent.settleReferenced at h
  split at h
  · next hopen => exact ⟨hopen, (Option.some.inj h).symm⟩
  · cases h

/-- The intent of a cell is stored under the identity of its URL. -/
def KeyedCell (p : Platform) (id : String) (c : Cell) : Prop :=
  ∀ row intent, c.event = some row → row.content = .cleanup intent → p.eventId intent.url = id

section Inv

variable {p : Platform} {i : ℕ} {op : Op} {now : ℕ} {id : String} {c c' : Cell}

/-- The URL of an intent never changes. -/
theorem CellStep.keyed (h : CellStep p i op now id c c') (hc : KeyedCell p id c) :
    KeyedCell p id c' := by
  have same {d : Cell} {row row' : RuntimeOutboxEvent} (hd : d.event = some row')
      (hrow : c.event = some row) (hcontent : row'.content = row.content) : KeyedCell p id d := by
    intro row1 intent₁ h1 h2
    rw [hd, Option.some.injEq] at h1
    subst h1
    exact hc row intent₁ hrow (hcontent ▸ h2)
  have set {d : Cell} {row row' : RuntimeOutboxEvent} {intent intent' : Intent}
      (hd : d.event = some row') (hcontent' : row'.content = .cleanup intent')
      (hrow : c.event = some row) (hcontent : row.content = .cleanup intent)
      (hurl : intent'.url = intent.url) : KeyedCell p id d := by
    intro row1 intent₁ h1 h2
    rw [hd, Option.some.injEq] at h1
    subst h1
    rw [hcontent'] at h2
    cases h2
    rw [hurl]
    exact hc row intent hrow hcontent
  cases h with
  | enqueued hnone hrow =>
    intro row1 intent₁ h1 h2
    cases h1
    exact (hrow.intent intent₁ h2).2
  | claimed hrow => exact same rfl hrow rfl
  | @settled row error record began hrow hheld =>
    obtain ⟨receipt, hcell, -⟩ := settled_cell p.settings record began id row error c
    rw [hcell]
    exact same rfl hrow (settled_content ..)
  | recorded hrow => exact same rfl hrow rfl
  | bumped hrow hcontent => exact same rfl hrow rfl
  | rearmed hrow hcontent hopen htracked hurl howner => exact set rfl rfl hrow hcontent hurl
  | referenced hrow hcontent hsettle hop =>
    obtain ⟨-, rfl⟩ := settleReferenced_eq hsettle
    exact set rfl rfl hrow hcontent rfl
  | authorized hrow hcontent => exact set rfl rfl hrow hcontent rfl
  | deleted hrow hcontent => exact set rfl rfl hrow hcontent rfl

/-- The induction rule for the steps of a commit. -/
theorem steps_preserve {S : Cell → Prop}
    (step : ∀ c c', CellStep p i op now id c c' → S c → S c')
    (h : ReflTransGen (CellStep p i op now id) c c') (hc : S c) : S c' := by
  induction h with
  | refl => exact hc
  | tail _ hs ih => exact step _ _ hs ih

theorem Commit.keyed {missed : ℕ → String → Prop} {held : List (Lock TableRow)}
    {w : World Tables} {db : Tables} (h : Commit p missed i op held w db)
    (hw : Keyed p w.db) : Keyed p db := by
  intro id row intent hrow hcontent
  refine steps_preserve (S := KeyedCell p id) (fun c c' hs hc => hs.keyed hc)
    (h.moves (.event id)) (fun row intent h1 h2 => hw id row intent h1 h2) row intent hrow hcontent

end Inv

/-- The protocol of the outbox. -/
def protocol (p : Platform) (missed : ℕ → String → Prop) :
    Protocol Op Tables TableWrite TableRow where
  visited := Missing missed
  calls _ := True
  inv w := Keyed p w.db
  act := Commit p missed
  cond := Unsettled p missed
  inv_tick h _ := h
  inv_act _ hw _ h := Commit.keyed h hw

/-! ## Transactions in progress -/

/-- A transaction in progress: what it has staged are allowed steps. -/
structure Running (p : Platform) (i : ℕ) (op : Op) (t : Txn TableWrite TableRow)
    (w : World Tables) : Prop where
  guarded : t.Guarded
  began : ∀ b, t.began = some b → b ≤ w.now
  staged : Protocol.Staged (Moves p i op w.now) t w

/-- The transaction has locked an event, which is `c` in its view. -/
def At (id : String) (c : Cell) (t : Txn TableWrite TableRow) (w : World Tables) : Prop :=
  (∃ k ∈ t.held, k.res = .event id ∧ k.mode = .exclusive) ∧ (view t.writes w.db).cell id = c

section Transactions

variable {p : Platform} {missed : ℕ → String → Prop} {i : ℕ} {op : Op}
  {t : Txn TableWrite TableRow} {w w' : World Tables} {e : Env Tables TableRow} {id : String}
  {c : Cell}

theorem Running.start : Running p i op {} w where
  guarded := Txn.guarded_empty
  began _ h := by cases h
  staged := Protocol.Staged.empty moves_local w

theorem Running.rely (hr : (protocol p missed).Rely t.held w w') (h : Running p i op t w) :
    Running p i op t w' where
  guarded := h.guarded
  began b hb := Nat.le_trans (h.began b hb) hr.now_le
  staged r := Moves.mono hr.now_le (h.staged.rely moves_local h.guarded hr r)

theorem Running.began_le (h : Running p i op t w) (hs : (protocol p missed).Sees i t w e) :
    e.began ≤ w.now := by
  rw [hs.began]
  cases hb : t.began with
  | none => exact Nat.le_refl _
  | some b => exact h.began b hb

theorem Running.query (h : Running p i op t w) (hs : (protocol p missed).Sees i t w e) :
    Running p i op ⟨t.held, t.writes, some e.began⟩ w where
  guarded := h.guarded
  began b hb := by
    cases hb
    exact h.began_le hs
  staged := h.staged

variable {f : Effect TableWrite TableRow}

theorem Running.write (h : Running p i op t w) (hs : (protocol p missed).Sees i t w e)
    (hstep : ∀ r, (∃ v ∈ f.writes, v.target = r) →
      Moves p i op w.now [] r e.db (view f.writes e.db)) : Running p i op (t.after e f) w where
  guarded := h.guarded.after e f
  began b hb := by
    cases hb
    exact h.began_le hs
  staged := by
    refine h.staged.write moves_local fun v hv => ?_
    have hnext := hstep v.target ⟨v, hv, rfl⟩
    rw [hs.db] at hnext
    refine Moves.trans (b := view t.writes w.db) ?_ ?_
    · exact moves_local.mono (t.held_subset_after e f) (h.staged v.target)
    · exact moves_local.mono (List.nil_subset _) hnext

theorem At.rely (hr : (protocol p missed).Rely t.held w w') (h : At id c t w) :
    At id c t w' := by
  obtain ⟨⟨k, hk, hres, hmode⟩, hc⟩ := h
  refine ⟨⟨k, hk, hres, hmode⟩, ?_⟩
  have hsame := view_same (W := TableWrite) (r := .event id) t.writes (hres ▸ hr.same hk)
  exact Eq.trans hsame hc

theorem at_after (hs : (protocol p missed).Sees i t w e) (hlock : (.event id, .exclusive) ∈ f.needs)
    (hc : (view f.writes e.db).cell id = c) :
    At id c (t.after e f) w := by
  refine ⟨⟨_, t.lock_mem_after e hlock, rfl, rfl⟩, ?_⟩
  rw [show (t.after e f).writes = t.writes ++ f.writes from rfl, view_append, ← hs.db]
  exact hc

theorem At.keep (h : At id c t w) (hf : ∀ v ∈ f.writes, v.target ≠ .event id) :
    At id c (t.after e f) w := by
  obtain ⟨⟨k, hk, hres, hmode⟩, hc⟩ := h
  refine ⟨⟨k, t.held_subset_after e f hk, hres, hmode⟩, ?_⟩
  rw [show (t.after e f).writes = t.writes ++ f.writes from rfl, view_append, cell_view,
    foldl_write_of_ne hf, hc]

end Transactions

/-! ## Statements -/

section Statements

variable {p : Platform} {missed : ℕ → String → Prop} {i : ℕ} {op : Op} {α β : Type}
  {Q : α → Txn TableWrite TableRow → World Tables → Prop} {t : Txn TableWrite TableRow}
  {w : World Tables}

variable {result : Env Tables TableRow → β} {k : β → OutboxScript α}

theorem wp_write {effect : Env Tables TableRow → Effect TableWrite TableRow}
    (ht : Running p i op t w)
    (hstep : ∀ (w' : World Tables) (e : Env Tables TableRow), e.began ≤ w'.now →
      ∀ r, (∃ v ∈ (effect e).writes, v.target = r) →
        Moves p i op w'.now [] r e.db (view (effect e).writes e.db))
    (h : ∀ w' e, (protocol p missed).Rely t.held w w' → (protocol p missed).Sees i t w' e →
      Running p i op (t.after e (effect e)) w' →
      (protocol p missed).wp i op Q (k (result e)) (t.after e (effect e)) w') :
    (protocol p missed).wp i op Q (Script.statement effect result >>= k) t w := by
  apply Protocol.wp_statement
  intro w' e hr _ hs
  have ht' := ht.rely hr
  exact h w' e hr hs (ht'.write hs (hstep w' e (ht'.began_le hs)))

theorem wp_look (ht : Running p i op t w)
    (h : ∀ w' e, (protocol p missed).Rely t.held w w' → (protocol p missed).Sees i t w' e →
      Running p i op ⟨t.held, t.writes, some e.began⟩ w' →
      (protocol p missed).wp i op Q (k (result e)) ⟨t.held, t.writes, some e.began⟩ w') :
    (protocol p missed).wp i op Q (Script.query result >>= k) t w := by
  apply Protocol.wp_query
  intro w' e hr _ hs
  exact h w' e hr hs ((ht.rely hr).query hs)

theorem wp_locks {locks : Env Tables TableRow → List (TableRow × Mode)} (ht : Running p i op t w)
    (h : ∀ w' e, (protocol p missed).Rely t.held w w' → (protocol p missed).Sees i t w' e →
      Running p i op (t.after e { locks := locks e }) w' →
      (protocol p missed).wp i op Q (k (result e)) (t.after e { locks := locks e }) w') :
    (protocol p missed).wp i op Q
      (Script.statement (fun e => { locks := locks e }) result >>= k) t w :=
  wp_write ht (fun _ _ _ _ hv => by obtain ⟨v, hv, -⟩ := hv; cases hv) h

/-- The operation neither publishes a datasource nor authorizes a cleanup. -/
structure Op.Plain (op : Op) : Prop where
  publish : ∀ id row, op ≠ .publishDatasource id row
  authorize : ∀ id token generation, op ≠ .authorizeCleanup id token generation

theorem wp_commit {k : Unit → OutboxScript α} (hop : op.Plain) (ht : Running p i op t w)
    (h : ∀ w', (protocol p missed).Rely t.held w w' →
      (protocol p missed).wp i op Q (k ()) {} ⟨w'.now, view t.writes w'.db⟩) :
    (protocol p missed).wp i op Q (Script.commitNow >>= k) t w := by
  apply Protocol.wp_commit
  intro w' hr _ hstages
  refine ⟨⟨fun r => ?_, ?_, hstages, ?_⟩, h w' hr⟩
  · exact moves_local.mono (List.nil_subset _) ((ht.rely hr).staged r)
  · exact fun _ _ he => absurd he (hop.publish _ _)
  · exact fun _ _ _ he => absurd he (hop.authorize _ _ _)

theorem wp_rollback {k : Unit → OutboxScript α}
    (h : ∀ w', (protocol p missed).wp i op Q (k ()) {} w') :
    (protocol p missed).wp i op Q (Script.rollbackNow >>= k) t w :=
  Protocol.wp_rollback fun w' _ _ => h w'

end Statements
end DataForge.Outbox
