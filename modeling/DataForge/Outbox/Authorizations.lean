import DataForge.Outbox.Deliveries

/-!
# The runtime outbox: publications, outputs and authorized cleanups meet the protocol

A publication writes a datasource, and in the same transaction locks and settles the intents of
the paths that its configuration names. What the functions that lock an intent do to it, and that
the object of a cleanup is still not referenced when its authorization is committed: a publication
that names the object would have to lock the intent.
-/

namespace DataForge.Outbox

open ReadCommitted Relation

variable {p : Platform} {missed : ℕ → String → Prop} {i : ℕ} {op : Op} {α : Type}
  {Q : α → Txn TableWrite TableRow → World Tables → Prop} {t : Txn TableWrite TableRow}
  {w : World Tables} {id : String}

/-- An intent in the cell is published. -/
def Cell.Published (c : Cell) : Prop :=
  ∀ row intent, c.event = some row → row.content = .cleanup intent → intent.phase = .published

/-- The call has looked for the intent and found none, or it has locked and settled it. -/
def Settled (missed : ℕ → String → Prop) (i : ℕ) (id : String) (t : Txn TableWrite TableRow)
    (w : World Tables) : Prop :=
  missed i id ∨ ∃ c, At id c t w ∧ c.Published

theorem Settled.rely {w' : World Tables} (hr : (protocol p missed).Rely t.held w w')
    (h : Settled missed i id t w) : Settled missed i id t w' := by
  rcases h with h | ⟨c, hat, hc⟩
  · exact Or.inl h
  · exact Or.inr ⟨c, hat.rely hr, hc⟩

/-- What a settlement does to the row that it finds. -/
def settles (now : ℕ) (row : RuntimeOutboxEvent) : Option RuntimeOutboxEvent :=
  row.content.intent?.bind fun intent => row.settleReferenced intent now

theorem settles_eq {now : ℕ} {row row' : RuntimeOutboxEvent} (h : settles now row = some row') :
    ∃ intent, row.content = .cleanup intent ∧ intent.phase.Open ∧
      row.settleReferenced intent now = some row' ∧
      row'.content = .cleanup { intent with phase := .published } := by
  obtain ⟨intent, hintent, hsettle⟩ := Option.bind_eq_some_iff.mp h
  obtain ⟨hopen, hrow'⟩ := settleReferenced_eq hsettle
  exact ⟨intent, content_of_intent hintent, hopen, hsettle, by rw [hrow']⟩

variable {c : Cell}

theorem Cell.Published.settles {id : String} (hc : c.Published) (id' : String) (now : ℕ)
    (found : Option RuntimeOutboxEvent) :
    Cell.Published (((found.bind (settles now)).toList.map (TableWrite.event id')).foldl
      (fun c v => c.write id v) c) := by
  cases h : found.bind (Outbox.settles now) with
  | none => exact hc
  | some row' =>
    obtain ⟨row, -, hsettles⟩ := Option.bind_eq_some_iff.mp h
    obtain ⟨intent, -, -, -, hcontent⟩ := settles_eq hsettles
    change Cell.Published (if id = id' then { c with event := some row' } else c)
    split
    · intro row1 intent₁ h1 h2
      cases h1
      rw [hcontent] at h2
      cases h2
      rfl
    · exact hc

variable {db : Tables}

theorem events_none {ws : List TableWrite} {id : String} (h : (view ws db).events.get id = none) :
    db.events.get id = none := by
  induction ws generalizing db with
  | nil => exact h
  | cons v ws ih =>
    have hnone : (db.write v).events.get id = none := ih h
    cases v with
    | event id' row =>
      rw [Tables.write, Table.get_put] at hnone
      split at hnone
      · cases hnone
      · exact hnone
    | _ => exact hnone

theorem wp_traced {β : Type} {effect : Env Tables TableRow → Effect TableWrite TableRow}
    {result : Env Tables TableRow → β} {k : β → OutboxScript α}
    (h : ∀ w' e, (protocol p missed).Rely t.held w w' → Missing missed i effect w' →
      (protocol p missed).Sees i t w' e →
      (protocol p missed).wp i op Q (k (result e)) (t.after e (effect e)) w') :
    (protocol p missed).wp i op Q (Script.statement effect result >>= k) t w :=
  fun w' _ hr _ hvisited => h w' _ hr hvisited ⟨⟨_, hvisited⟩, rfl, rfl, rfl⟩

variable {k : Unit → OutboxScript α}

theorem wp_settleIntent {done : List String}
    (hop : ∃ datasourceId ds, op = .publishDatasource datasourceId ds) (ht : Running p i op t w)
    (hdone : ∀ id' ∈ done, Settled missed i id' t w)
    (h : ∀ t' w', Running p i op t' w' → (∀ id' ∈ id :: done, Settled missed i id' t' w') →
      (protocol p missed).wp i op Q (k ()) t' w') :
    (protocol p missed).wp i op Q (settleIntent id >>= k) t w := by
  unfold settleIntent modifyEvent
  rw [Script.bind_assoc]
  apply wp_traced
  intro w' e hr hmissing hs
  have ht' := ht.rely hr
  have hrun : Running p i op (t.after e (settleEffect id e)) w' := by
    apply ht'.write hs
    rintro r ⟨v, hv, rfl⟩
    obtain ⟨row', hrow', rfl⟩ := List.mem_map.mp hv
    rw [Option.mem_toList] at hrow'
    obtain ⟨row, hrow, hsettles⟩ := Option.bind_eq_some_iff.mp hrow'
    obtain ⟨intent, hcontent, -, hsettle, -⟩ := settles_eq hsettles
    change ReflTransGen _ _ _
    rw [settleEffect, cell_of_change, hrow']
    exact ReflTransGen.single (.referenced hrow hcontent hsettle (Or.inl hop))
  have hkeep : ∀ id' ∈ done, Settled missed i id' (t.after e (settleEffect id e)) w' := by
    intro id' hid'
    rcases (hdone id' hid').rely hr with hmissed | ⟨c, hat, hc⟩
    · exact Or.inl hmissed
    · obtain ⟨⟨k, hk, hres, hmode⟩, hcell⟩ := hat
      refine Or.inr ⟨_, ⟨⟨k, t.held_subset_after _ _ hk, hres, hmode⟩, rfl⟩, ?_⟩
      change Cell.Published ((view (t.writes ++ _) w'.db).cell id')
      rw [view_append, cell_view, hcell]
      exact hc.settles id _ _
  have hfound (hsettled : Settled missed i id (t.after e (settleEffect id e)) w') :
      (protocol p missed).wp i op Q (k ()) (t.after e (settleEffect id e)) w' := by
    refine h _ _ hrun fun id' hid' => ?_
    rcases List.mem_cons.mp hid' with rfl | hid'
    · exact hsettled
    · exact hkeep id' hid'
  have hlock {row : RuntimeOutboxEvent} (hrow : e.db.events.get id = some row) :
      At id { e.db.cell id with event := some ((settles e.began row).getD row) }
        (t.after e (settleEffect id e)) w' := by
    apply at_after hs
    · simp [settleEffect, Effect.needs, hrow]
    · rw [settleEffect, cell_of_change, hrow]
      change Cell.mk ((settles _ row).or ((Tables.events _).get id)) _ _ = _
      rw [hrow]
      cases settles e.began row <;> rfl
  split
  · next hnone =>
    apply hfound
    cases hrow : e.db.events.get id with
    | none => exact Or.inl (hmissing id rfl (events_none (hs.db ▸ hrow)))
    | some row =>
      rw [hrow, Option.bind_some] at hnone
      refine Or.inr ⟨_, hlock hrow, fun row1 intent₁ h1 h2 => ?_⟩
      rw [settles, hnone] at h1
      cases h1
      have hcontent : row.content = .cleanup intent₁ := h2
      rw [hcontent] at hnone
      cases hnone
  · next intent hsome =>
    split
    · next hopen =>
      apply hfound
      obtain ⟨row, hrow, hintent⟩ := Option.bind_eq_some_iff.mp hsome
      refine Or.inr ⟨_, hlock hrow, fun row1 intent₁ h1 h2 => ?_⟩
      rw [settles, hintent, Option.bind_some, RuntimeOutboxEvent.settleReferenced,
        if_pos hopen] at h1
      cases h1
      cases h2
      rfl
    · trivial

/-- By induction on the intents. -/
theorem wp_settleIntents {ids : List String} (done : List String)
    (hop : ∃ datasourceId ds, op = .publishDatasource datasourceId ds) (ht : Running p i op t w)
    (hdone : ∀ id' ∈ done, Settled missed i id' t w) (h : ∀ t' w', Running p i op t' w' →
      (∀ id', id' ∈ ids ∨ id' ∈ done → Settled missed i id' t' w') →
      (protocol p missed).wp i op Q (k ()) t' w') :
    (protocol p missed).wp i op Q (settleIntents ids >>= k) t w := by
  induction ids generalizing t w done with
  | nil =>
    refine h _ _ ht fun id' hid' => ?_
    rcases hid' with hid' | hid'
    · cases hid'
    · exact hdone id' hid'
  | cons id rest ih =>
    rw [settleIntents, Script.bind_assoc]
    apply wp_settleIntent hop ht hdone
    intro t1 w1 ht1 hdone1
    apply ih _ ht1 hdone1
    intro t2 w2 ht2 hdone2
    refine h _ _ ht2 fun id' hid' => hdone2 id' ?_
    rw [List.mem_cons] at hid' ⊢
    rcases hid' with (rfl | hid') | hid'
    · exact Or.inr (Or.inl rfl)
    · exact Or.inl hid'
    · exact Or.inr (Or.inr hid')

theorem wp_settlePublication {config : Datasources.Config}
    (hop : ∃ datasourceId ds, op = .publishDatasource datasourceId ds) (ht : Running p i op t w)
    (h : ∀ t' w', Running p i op t' w' →
      (∀ path ∈ config.paths, Settled missed i (p.eventId path) t' w') →
      (protocol p missed).wp i op Q (k ()) t' w') :
    (protocol p missed).wp i op Q (settlePublication p config >>= k) t w := by
  unfold settlePublication
  rw [Script.bind_assoc]
  apply wp_settleIntents [] hop ht (fun _ h => by cases h)
  intro t1 w1 ht1 hdone
  have hpaths : ∀ id' ∈ config.paths.map p.eventId, Settled missed i id' t1 w1 :=
    fun id' hid' => hdone id' (Or.inl hid')
  split
  · exact h _ _ ht1 fun path hpath => hpaths _ (List.mem_map_of_mem hpath)
  · rw [Script.bind_assoc]
    apply wp_look ht1
    intro w2 e hr _ ht2
    refine wp_settleIntents _ hop ht2 (fun id' hid' => ?_) fun t3 w3 ht3 hdone3 =>
      h _ _ ht3 fun path hpath => hdone3 _ (Or.inr (List.mem_map_of_mem hpath))
    rcases (hpaths id' hid').rely hr with hmissed | ⟨c, hat, hc⟩
    · exact Or.inl hmissed
    · exact Or.inr ⟨c, hat, hc⟩

theorem mem_paths_of_exact {config : Datasources.Config} {path : String}
    (h : path ∈ exactPaths config) : path ∈ config.paths := by
  unfold exactPaths at h
  unfold Datasources.Config.paths
  simp only [List.mem_filterMap, List.mem_insertionSort, List.mem_dedup, List.mem_cons,
    List.not_mem_nil, or_false, id] at h ⊢
  obtain ⟨found, hfound, rfl⟩ := h
  refine ⟨_, ?_, rfl⟩
  rcases hfound with h | h | h | h
  · exact Or.inl h
  · exact Or.inr (Or.inl h)
  · exact Or.inr (Or.inr (Or.inr (Or.inl h)))
  · exact Or.inr (Or.inr (Or.inl h))

variable {row : Datasources.DataSource} {datasourceId : String}

theorem wp_publishDatasource :
    (protocol p missed).wp i (.publishDatasource datasourceId row)
      (Returned p i (.publishDatasource datasourceId row)) (publishDatasource p datasourceId row)
      {} w := by
  apply wp_write .start
  · rintro w' e _ r ⟨v, hv, rfl⟩
    rw [List.mem_singleton.mp hv]
    change DatasourceStep _ _ _ ((e.db.datasources.put datasourceId (some row)).get datasourceId)
    rw [Table.get_put, if_pos rfl]
    exact .published rfl
  · intro w1 e _ _ ht1
    apply wp_settlePublication ⟨_, _, rfl⟩ ht1
    intro t2 w2 ht2 hsettled
    apply Protocol.wp_commit
    intro w3 hr _ hstages
    refine ⟨⟨fun r => ?_, ?_, hstages, ?_⟩, returned_done _ _ _ _ rfl⟩
    · exact moves_local.mono (List.nil_subset _) ((ht2.rely hr).staged r)
    · rintro _ ds ⟨⟩ _ path hpath
      rcases (hsettled path (mem_paths_of_exact hpath)).rely hr with hmissed | ⟨c, hat, hc⟩
      · exact Or.inl hmissed
      · refine Or.inr ⟨hat.1, fun row intent hrow hcontent => hc row intent ?_ hcontent⟩
        rw [← hat.2]
        exact hrow
    · rintro _ _ _ ⟨⟩

/-! ## Outputs -/

theorem staged_moves {now : ℕ} {held : List (Lock TableRow)} (hop : op.Stages datasourceId) :
    Moves p i op now held (.datasource datasourceId) db
      (db.write (.datasource datasourceId (some row))) := by
  change DatasourceStep _ _ _ ((db.datasources.put datasourceId (some row)).get datasourceId)
  rw [Table.get_put, if_pos rfl]
  exact .staged hop

theorem wp_insertDatasource (hop : op.Stages datasourceId) (ht : Running p i op t w)
    (h : ∀ t' w', Running p i op t' w' → (protocol p missed).wp i op Q (k ()) t' w') :
    (protocol p missed).wp i op Q (insertDatasource datasourceId row >>= k) t w := by
  unfold insertDatasource
  rw [Script.bind_assoc]
  apply wp_write ht
  · rintro w' e _ r ⟨v, hv, rfl⟩
    dsimp only at hv ⊢
    split at hv
    · next hnone =>
      rw [if_pos hnone, List.mem_singleton.mp hv]
      exact staged_moves hop
    · cases hv
  · intro w' e _ _ ht'
    generalize (e.db.datasources.get datasourceId).isNone = inserted at ht'
    cases inserted with
    | true => exact h _ _ ht'
    | false => trivial

theorem wp_updateDatasource {set : Datasources.DataSource → Datasources.DataSource}
    (hop : op.Stages datasourceId) (ht : Running p i op t w)
    (h : ∀ t' w', Running p i op t' w' → (protocol p missed).wp i op Q (k ()) t' w') :
    (protocol p missed).wp i op Q (updateDatasource datasourceId set >>= k) t w := by
  unfold updateDatasource
  rw [Script.bind_assoc]
  apply wp_write ht
  · rintro w' e _ r ⟨v, hv, rfl⟩
    dsimp only at hv ⊢
    cases hrow : e.db.datasources.get datasourceId with
    | none =>
      rw [hrow] at hv
      cases hv
    | some row =>
      rw [hrow] at hv
      rw [List.mem_singleton.mp hv]
      exact staged_moves hop
  · intro w' e _ _ ht'
    split
    · exact h _ _ ht'
    · trivial

/-- By induction on the deliveries. -/
theorem wp_enqueueDeliveries {payloads : List Payload} {n : ℕ} (ht : Running p i op t w)
    (h : ∀ t' w', Running p i op t' w' → (protocol p missed).wp i op Q (k ()) t' w') :
    (protocol p missed).wp i op Q (enqueueDeliveries p i n payloads >>= k) t w := by
  induction payloads generalizing n t w with
  | nil => exact h _ _ ht
  | cons payload rest ih =>
    rw [enqueueDeliveries]
    split
    · trivial
    · rw [Script.bind_assoc]
      apply wp_insertEvent ht
      · exact fun began => ⟨rfl, rfl, rfl, rfl, rfl, fun _ hintent => by cases hintent⟩
      · intro inserted t' w' ht' _
        split
        · exact ih ht'
        · trivial

theorem wp_stageOutputDatasource {output : Output} (hop : op.Stages output.resultId)
    (ht : Running p i op t w)
    (h : ∀ t' w', Running p i op t' w' → (protocol p missed).wp i op Q (k ()) t' w') :
    (protocol p missed).wp i op Q (stageOutputDatasource p i output >>= k) t w := by
  have hstage {t : Txn TableWrite TableRow} {w : World Tables} (ht : Running p i op t w) :
      (protocol p missed).wp i op Q (stageOutput p i output >>= k) t w := by
    unfold stageOutput
    rw [Script.bind_assoc]
    apply wp_locks ht
    intro w' e _ _ ht'
    split
    · rw [Script.bind_assoc]
      exact wp_insertDatasource hop ht' fun _ _ ht2 => wp_enqueueDeliveries ht2 h
    · rw [Script.bind_assoc]
      exact wp_updateDatasource hop ht' fun _ _ ht2 => wp_enqueueDeliveries ht2 h
  unfold stageOutputDatasource
  split
  · exact hstage ht
  · rw [Script.bind_assoc]
    unfold lockActiveJobClaim
    apply wp_locks ht
    intro w' e _ _ ht'
    split
    · exact hstage ht'
    · trivial

theorem wp_createPlaceholderOutputDatasource {placeholder : Datasources.Placeholder}
    (hop : op.Stages datasourceId) (ht : Running p i op t w)
    (h : ∀ t' w', Running p i op t' w' → (protocol p missed).wp i op Q (k ()) t' w') :
    (protocol p missed).wp i op Q
      (createPlaceholderOutputDatasource p datasourceId placeholder >>= k) t w := by
  unfold createPlaceholderOutputDatasource
  split
  · trivial
  · rw [Script.bind_assoc]
    apply wp_look ht
    intro w' e _ _ ht'
    split
    · split
      · trivial
      · split
        · exact wp_updateDatasource hop ht' h
        · exact h _ _ ht'
    · exact wp_insertDatasource hop ht' h

/-- By induction on the outputs. -/
theorem wp_createPlaceholders {placeholders : List (String × Datasources.Placeholder)}
    (hop : ∀ placeholder ∈ placeholders, op.Stages placeholder.1) (ht : Running p i op t w)
    (h : ∀ t' w', Running p i op t' w' → (protocol p missed).wp i op Q (k ()) t' w') :
    (protocol p missed).wp i op Q (createPlaceholders p placeholders >>= k) t w := by
  induction placeholders generalizing t w with
  | nil => exact h _ _ ht
  | cons placeholder rest ih =>
    rw [createPlaceholders, Script.bind_assoc]
    refine wp_createPlaceholderOutputDatasource (hop placeholder List.mem_cons_self) ht ?_
    exact fun _ _ ht' => ih (fun x hx => hop x (List.mem_cons_of_mem _ hx)) ht'

/-- By induction on the datasources. -/
theorem wp_requireActiveDatasources {ids : List String} (ht : Running p i op t w)
    (h : ∀ t' w', Running p i op t' w' → (protocol p missed).wp i op Q (k ()) t' w') :
    (protocol p missed).wp i op Q (requireActiveDatasources ids >>= k) t w := by
  induction ids generalizing t w with
  | nil => exact h _ _ ht
  | cons id rest ih =>
    rw [requireActiveDatasources, Script.bind_assoc]
    apply wp_look ht
    intro w' e _ _ ht'
    split
    · exact ih ht'
    · trivial

/-! ## Sources -/

variable {intent : Intent}

theorem wp_lockOwner {k : Option Owner → OutboxScript α} (ht : Running p i op t w)
    (h : ∀ owner t' w', Running p i op t' w' → (protocol p missed).wp i op Q (k owner) t' w') :
    (protocol p missed).wp i op Q (lockOwner intent >>= k) t w := by
  unfold lockOwner
  cases intent.ownerKind with
  | upload => exact h _ _ _ ht
  | _ => exact wp_locks ht fun w' e _ _ ht' => h _ _ _ ht'

theorem wp_lockSourceIntent {sourcePath : String}
    {k : Option (Intent × RuntimeOutboxEvent × Option Owner) → OutboxScript α}
    (ht : Running p i op t w)
    (h : ∀ found t' w', Running p i op t' w' →
      (∀ intent row owner, found = some (intent, row, owner) → row.content = .cleanup intent ∧
        intent.phase.Open ∧ ∃ c, At (p.eventId sourcePath) c t' w' ∧ c.event = some row) →
      (protocol p missed).wp i op Q (k found) t' w') :
    (protocol p missed).wp i op Q (lockSourceIntent p sourcePath >>= k) t w := by
  unfold lockSourceIntent
  rw [Script.bind_assoc]
  apply wp_look ht
  intro w1 e _ _ ht1
  split
  · exact h _ _ _ ht1 fun _ _ _ he => by cases he
  · next intent _ =>
    rw [Script.bind_assoc]
    apply wp_lockOwner ht1
    intro owner t2 w2 ht2
    rw [Script.bind_assoc]
    apply wp_lockEvent ht2
    intro found t3 w3 ht3 hfound
    cases found with
    | none => trivial
    | some row =>
      dsimp only
      split
      · trivial
      split
      · trivial
      split
      · trivial
      next hintent hphase _ =>
      refine h _ _ _ ht3 fun _ _ _ he => ?_
      cases he
      refine ⟨content_of_intent (not_not.mp hintent), ?_, hfound row rfl⟩
      by_contra hclosed
      exact hphase ⟨fun h => hclosed (Or.inl h), fun h => hclosed (Or.inr h)⟩

theorem wp_handOver {sourcePath requestId : String} {row : RuntimeOutboxEvent}
    (hop : ∃ path others, op = .transferPreflightSource path requestId others)
    (hkind : intent.ownerKind = .upload ∨ intent.ownerKind = .preflight)
    (htracked : intent.phase = .tracked) (hcontent : row.content = .cleanup intent)
    (ht : Running p i op t w) (hat : At (p.eventId sourcePath) c t w) (hrow : c.event = some row)
    (h : ∀ t' w', Running p i op t' w' → (protocol p missed).wp i op Q (k ()) t' w') :
    (protocol p missed).wp i op Q (handOver p sourcePath requestId intent row >>= k) t w := by
  apply wp_flush ht hat
  · intro began v hv
    rw [List.mem_singleton.mp hv]
    rfl
  · intro now began _
    have hstep : CellStep p i op now (p.eventId sourcePath) c
        { c with event := some (row.rearmed (intent.handedTo requestId) none began) } :=
      rearm_step hrow hcontent (Or.inl htracked) htracked rfl (.source hop hkind rfl)
    simpa [Cell.write] using ReflTransGen.single hstep
  · exact fun t1 w1 ht1 _ => h _ _ ht1

theorem wp_transferPreflightSource {sourcePath requestId : String}
    (hop : ∃ path others, op = .transferPreflightSource path requestId others)
    (ht : Running p i op t w)
    (h : ∀ t' w', Running p i op t' w' → (protocol p missed).wp i op Q (k ()) t' w') :
    (protocol p missed).wp i op Q (transferPreflightSource p sourcePath requestId >>= k) t w := by
  unfold transferPreflightSource
  rw [Script.bind_assoc]
  apply wp_lockSourceIntent ht
  intro found t1 w1 ht1 hfound
  cases found with
  | none =>
    dsimp only
    split
    · rw [Script.bind_assoc]
      exact wp_enqueue ht1 fun _ _ _ ht2 => h _ _ ht2
    · exact h _ _ ht1
  | some found =>
    obtain ⟨intent, row, owner⟩ := found
    obtain ⟨hcontent, hopen, c, hat, hrow⟩ := hfound intent row owner rfl
    dsimp only
    split
    · exact h _ _ ht1
    next hphase =>
    have htracked : intent.phase = .tracked := hopen.resolve_right hphase
    split
    · exact h _ _ ht1
    split
    · next hupload =>
      exact wp_handOver hop (Or.inl hupload) htracked hcontent ht1 hat hrow h
    split
    · trivial
    next hpreflight =>
    split
    · next request =>
      split
      · rw [Script.bind_assoc]
        apply wp_write ht1
        · rintro w' e _ r ⟨v, hv, rfl⟩
          rw [List.mem_singleton.mp hv]
          trivial
        · intro w2 e hr _ ht2
          refine wp_handOver hop (Or.inr (not_not.mp hpreflight)) htracked hcontent ht2
            ((hat.rely hr).keep fun v hv => ?_) hrow h
          rw [List.mem_singleton.mp hv]
          rintro ⟨⟩
      · trivial
    · trivial

/-! ## Authorizations -/

variable {url : String}

/-- What no publication comes to name stays free. -/
theorem Free.moves {held : List (Lock TableRow)} {j : ℕ} (hc : Commit p missed j op held w db)
    (hnames : ∀ datasourceId ds, op = .publishDatasource datasourceId ds →
      db.datasources.get datasourceId ≠ w.db.datasources.get datasourceId →
      url ∈ exactPaths ds.config → missed j (p.eventId url)) (h : Free p missed url w.db) :
    Free p missed url db := by
  by_cases hmissed : ∃ j, missed j (p.eventId url)
  · exact Or.inl hmissed
  replace h := h.resolve_left hmissed
  by_cases hpublished : ∃ datasourceId ds, op = .publishDatasource datasourceId ds ∧
      db.datasources.get datasourceId ≠ w.db.datasources.get datasourceId ∧
      url ∈ exactPaths ds.config
  · obtain ⟨datasourceId, ds, hop, hchange, hurl⟩ := hpublished
    exact Or.inl ⟨j, hnames datasourceId ds hop hchange hurl⟩
  · refine Or.inr fun datasourceId ds hds hurl => ?_
    by_cases hchange : db.datasources.get datasourceId = w.db.datasources.get datasourceId
    · exact h datasourceId ds (hchange ▸ hds) hurl
    · have hmove : DatasourceStep op datasourceId _ _ := hc.moves (.datasource datasourceId)
      rw [hds] at hmove
      generalize hbefore : w.db.datasources.get datasourceId = before at hmove
      cases hmove with
      | same => exact hchange (hds.trans hbefore.symm)
      | published hop => exact hpublished ⟨datasourceId, ds, hop, hchange, hurl⟩
      | staged hop =>
        exact hmissed (hc.stages datasourceId ds hop hds (fun he => hchange (hds.trans he.symm)) url
          hurl)

theorem Free.commit {held held' : List (Lock TableRow)} {j : ℕ} {op' : Op} {k : Lock TableRow}
    (hc : Commit p missed j op' held' w db) (hcompatible : Compatible held held') (hk : k ∈ held)
    (hres : k.res = .event (p.eventId url)) (h : Free p missed url w.db) :
    Free p missed url db := by
  refine h.moves hc fun datasourceId ds hop hchange hurl => ?_
  rcases hc.publishes datasourceId ds hop hchange url hurl with hmissed | ⟨⟨k', hk', hres', hx⟩, -⟩
  · exact hmissed
  · exact absurd (hres.trans hres'.symm) (hcompatible.not_exclusive hk hk' hx)

theorem Free.rely {w' : World Tables} (hr : (protocol p missed).Rely t.held w w')
    (hat : At (p.eventId url) c t w) (h : Free p missed url w.db) : Free p missed url w'.db := by
  obtain ⟨⟨k, hk, hres, -⟩, -⟩ := hat
  refine hr.stable (S := fun v => Free p missed url v.db) (fun _ _ _ h => h) ?_ h
  exact fun v db j op' t' hc h => Free.commit hc.act hc.compatible hk hres h

theorem references_of_exact (h : intent.url ∈ exactPaths row.config) :
    references row intent = true := by
  unfold references
  rw [Bool.or_eq_true, Bool.or_eq_true]
  refine Or.inl (Or.inl (List.any_eq_true.mpr ⟨intent.url, ?_, decide_eq_true rfl⟩))
  exact h

theorem Running.keyed (h : Running p i op t w) (hw : Keyed p w.db) :
    KeyedCell p id ((view t.writes w.db).cell id) :=
  steps_preserve (S := KeyedCell p id) (fun _ _ hs hc => hs.keyed hc) (h.staged (.event id))
    fun row intent h1 h2 => hw id row intent h1 h2

variable {generation : ℕ} {token : String}

theorem wp_settleAndCommit {row : RuntimeOutboxEvent} (hheld : row.heldBy token generation = true)
    (hcontent : row.content = .cleanup intent)
    (ht : Running p i (.authorizeCleanup id token generation) t w) (hat : At id c t w)
    (hrow : c.event = some row) :
    (protocol p missed).wp i (.authorizeCleanup id token generation)
      (Returned p i (.authorizeCleanup id token generation)) (settleAndCommit id row intent)
      t w := by
  apply wp_flush ht hat
  · intro began v hv
    obtain ⟨row', -, rfl⟩ := List.mem_map.mp hv
    rfl
  · intro now began _
    cases hsettle : row.settleReferenced intent began with
    | none => exact ReflTransGen.refl
    | some row' =>
      have hstep : CellStep p i (.authorizeCleanup id token generation) now id c
          { c with event := some row' } :=
        .referenced hrow hcontent hsettle (Or.inr ⟨rfl, hheld, intent, hcontent⟩)
      simpa [Cell.write] using ReflTransGen.single hstep
  · rintro t1 w1 ht1 ⟨began, hat1⟩
    split
    · trivial
    · next hsettled =>
      apply Protocol.wp_commit
      intro w2 hr _ hstages
      refine ⟨⟨fun r => ?_, ?_, hstages, ?_⟩, returned_done _ _ _ _ rfl⟩
      · exact moves_local.mono (List.nil_subset _) ((ht1.rely hr).staged r)
      · rintro _ _ ⟨⟩
      · rintro _ _ _ ⟨⟩ row1 intent₁ h1 h2 h3
        have hevent : (Tables.cell _ id).event = some row1 := h1
        rw [(hat1.rely hr).2] at hevent
        unfold RuntimeOutboxEvent.settleReferenced at hevent hsettled
        split at hsettled
        · next hopen =>
          rw [if_pos hopen] at hevent
          simp only [Option.toList_some, List.map_cons, List.map_nil, List.foldl_cons,
            List.foldl_nil, Cell.write, if_pos, Option.some.injEq] at hevent
          rw [← hevent] at h2
          cases h2
          cases h3
        · exact absurd rfl hsettled

theorem Running.datasource {token datasourceId : String}
    (h : Running p i (.authorizeCleanup id token generation) t w) :
    (view t.writes w.db).datasources.get datasourceId = w.db.datasources.get datasourceId := by
  have hmove : DatasourceStep (.authorizeCleanup id token generation) datasourceId
    (w.db.datasources.get datasourceId) _ := h.staged (.datasource datasourceId)
  generalize (view t.writes w.db).datasources.get datasourceId = after at hmove ⊢
  cases hmove with
  | same => rfl
  | published hop => cases hop
  | staged hop => cases hop
  | deleted hop => cases hop

/-- The write of an authorization, and its commit. -/
theorem wp_authorizeNow {row : RuntimeOutboxEvent} {requests : List TableWrite}
    (hrequests : ∀ v ∈ requests, ∃ requestId row, v = .request requestId row)
    (hheld : row.heldBy token generation = true) (hcontent : row.content = .cleanup intent)
    (hphase : intent.phase = .tracked ∨ intent.phase = .authorized)
    (hfree : Free p missed intent.url w.db)
    (ht : Running p i (.authorizeCleanup (p.eventId intent.url) token generation) t w)
    (hat : At (p.eventId intent.url) c t w) (hrow : c.event = some row) :
    (protocol p missed).wp i (.authorizeCleanup (p.eventId intent.url) token generation)
      (Returned p i (.authorizeCleanup (p.eventId intent.url) token generation)) (do
        Script.statement (fun _ => { writes := requests ++
            [.event (p.eventId intent.url) (row.inPhase intent .authorized)] }) (fun _ => ())
        Script.commitNow
        pure (.flag true)) t w := by
  have hcell : (requests ++ [TableWrite.event (p.eventId intent.url)
      (row.inPhase intent .authorized)]).foldl (fun c v => c.write (p.eventId intent.url) v) c =
      { c with event := some (row.inPhase intent .authorized) } := by
    have hother : requests.foldl (fun c v => c.write (p.eventId intent.url) v) c = c := by
      apply foldl_write_of_ne
      intro v hv
      obtain ⟨requestId, row, rfl⟩ := hrequests v hv
      rintro ⟨⟩
    rw [List.foldl_append, hother]
    simp [Cell.write]
  apply Protocol.wp_statement
  intro w1 e hr _ hs
  have ht1 := ht.rely hr
  have hat1 := hat.rely hr
  have hrun := ht1.write (f := { writes := requests ++
    [TableWrite.event (p.eventId intent.url) (row.inPhase intent .authorized)] }) hs ?_
  · apply Protocol.wp_commit
    intro w2 hr2 _ hstages
    have hat2 : At (p.eventId intent.url) { c with event := some (row.inPhase intent .authorized) }
        (t.after e { writes := requests ++ [TableWrite.event (p.eventId intent.url)
          (row.inPhase intent .authorized)] }) w1 := by
      obtain ⟨⟨k, hk, hres, hmode⟩, hview⟩ := hat1
      refine ⟨⟨k, t.held_subset_after _ _ hk, hres, hmode⟩, ?_⟩
      change (view (t.writes ++ _) w1.db).cell _ = _
      rw [view_append, cell_view, hview, hcell]
    refine ⟨⟨fun r => ?_, ?_, hstages, ?_⟩, returned_done _ _ _ _ rfl⟩
    · exact moves_local.mono (List.nil_subset _) ((hrun.rely hr2).staged r)
    · rintro _ _ ⟨⟩
    · rintro _ _ _ ⟨⟩ row1 intent₁ h1 h2 _
      have hevent : (Tables.cell _ (p.eventId intent.url)).event = some row1 := h1
      rw [(hat2.rely hr2).2] at hevent
      cases hevent
      cases h2
      exact (hfree.rely hr hat).rely hr2 hat2
  · rintro r ⟨v, hv, rfl⟩
    rcases List.mem_append.mp hv with hv | hv
    · obtain ⟨requestId, row, rfl⟩ := hrequests v hv
      trivial
    · rw [List.mem_singleton.mp hv]
      change ReflTransGen _ _ _
      rw [cell_view, show e.db.cell _ = c from hs.db ▸ hat1.2, hcell]
      exact ReflTransGen.single (.authorized hrow hcontent rfl hheld hphase)

/-- The reference check reads what the publications have committed so far; from then on the lock
of the intent keeps the others out. -/
theorem wp_authorizeLocked {row : RuntimeOutboxEvent} {owned : Bool}
    (hheld : row.heldBy token generation = true) (hcontent : row.content = .cleanup intent)
    (hphase : intent.phase = .tracked ∨ intent.phase = .authorized)
    (ht : Running p i (.authorizeCleanup id token generation) t w) (hat : At id c t w)
    (hrow : c.event = some row) :
    (protocol p missed).wp i (.authorizeCleanup id token generation)
      (Returned p i (.authorizeCleanup id token generation))
      (authorizeLocked p id row intent owned) t w := by
  unfold authorizeLocked hasReference
  apply Protocol.wp_query
  intro w1 e hr hkeyed hs
  have ht1 := (ht.rely hr).query hs
  have hat1 : At id c ⟨t.held, t.writes, some e.began⟩ w1 := hat.rely hr
  have hid : p.eventId intent.url = id := by
    refine ht1.keyed hkeyed row intent ?_ hcontent
    rw [hat1.2, hrow]
  subst hid
  split
  · exact wp_settleAndCommit hheld hcontent ht1 hat1 hrow
  next hnone =>
  have hfree1 : Free p missed intent.url w1.db := by
    refine Or.inr fun datasourceId ds hds hurl => hnone (List.any_eq_true.mpr ?_)
    refine ⟨(datasourceId, ds), (Table.mem_rows_iff ..).mpr ?_, references_of_exact hurl⟩
    rw [hs.db, (ht.rely hr).datasource]
    exact hds
  apply wp_look ht1
  intro w2 e2 hr2 _ ht2
  have hat2 : At (p.eventId intent.url) c ⟨t.held, t.writes, some e2.began⟩ w2 := hat1.rely hr2
  have hfree2 := hfree1.rely hr2 hat1
  split
  · exact returned_done _ _ _ _ rfl
  apply wp_look ht2
  intro w3 e3 hr3 _ ht3
  have hat3 : At (p.eventId intent.url) c ⟨t.held, t.writes, some e3.began⟩ w3 := hat2.rely hr3
  have hfree3 := hfree2.rely hr3 hat2
  split
  · exact returned_done _ _ _ _ rfl
  refine wp_authorizeNow (fun v hv => ?_) hheld hcontent hphase hfree3 ht3 hat3 hrow
  split at hv
  · rw [List.mem_singleton.mp hv]
    exact ⟨_, _, rfl⟩
  · cases hv

theorem wp_authorizeCleanup :
    (protocol p missed).wp i (.authorizeCleanup id token generation)
      (Returned p i (.authorizeCleanup id token generation))
      (authorizeCleanup p id token generation) {} w := by
  have hflag (t : Txn TableWrite TableRow) (w : World Tables) :
      Returned p i (.authorizeCleanup id token generation) (.flag false) t w :=
    returned_done _ _ _ _ rfl
  apply wp_look .start
  intro w1 e _ _ ht1
  split
  · exact hflag _ _
  next snapshot _ =>
  apply wp_lockOwner ht1
  intro owner t2 w2 ht2
  apply wp_lockEvent ht2
  intro found t3 w3 ht3 hfound
  apply wp_look ht3
  intro w4 e' hr _ ht4
  split
  · exact hflag _ _
  next row hrow =>
  obtain ⟨hfound', hauthorizes⟩ := Option.filter_eq_some_iff.mp hrow
  obtain ⟨c, hat, hevent⟩ := hfound row hfound'
  have hat' : At id c ⟨t3.held, t3.writes, some e'.began⟩ w4 := hat.rely hr
  simp only [RuntimeOutboxEvent.authorizes, Bool.and_eq_true, Bool.or_eq_true,
    decide_eq_true_eq] at hauthorizes
  obtain ⟨⟨⟨hheld, hintent⟩, hphase⟩, -⟩ := hauthorizes
  have hcontent := content_of_intent hintent
  split
  · exact hflag _ _
  · exact wp_settleAndCommit hheld hcontent ht4 hat' hevent
  · exact wp_authorizeLocked hheld hcontent hphase ht4 hat' hevent

theorem wp_completeCleanup {error : Option String} :
    (protocol p missed).wp i (.completeCleanup id token generation error)
      (Returned p i (.completeCleanup id token generation error))
      (completeCleanup p id token generation error) {} w := by
  have hflag (b : Bool) (t : Txn TableWrite TableRow) (w : World Tables) :
      Returned p i (.completeCleanup id token generation error) (.flag b) t w :=
    returned_done _ _ _ _ rfl
  have hfinalize {content : Content} {t : Txn TableWrite TableRow} {w : World Tables} {c : Cell}
      {row : RuntimeOutboxEvent} {intent : Intent}
      (ht : Running p i (.completeCleanup id token generation error) t w) (hat : At id c t w)
      (hrow : c.event = some row) (hcontent : row.content = .cleanup intent) :
      (protocol p missed).wp i (.completeCleanup id token generation error)
        (Returned p i (.completeCleanup id token generation error)) (do
          let outcome ← finalizeClaims p
            [({ eventId := id, claimToken := token, leaseGeneration := generation,
                content := content }, error)] false
          Script.commitNow
          pure (.flag (outcome.1 = 1))) t w := by
    apply wp_finalizeClaims (Op.plain rfl) ht
    · intro w' hr o ho row' hrow' hheld
      rw [List.mem_singleton.mp ho] at hrow' hheld ⊢
      have hevent : (Tables.cell _ id).event = some row' := hrow'
      rw [(hat.rely hr).2, hrow] at hevent
      cases hevent
      exact ⟨rfl, hheld, intent, hcontent⟩
    · exact fun outcome t1 w1 ht1 => wp_commit (Op.plain rfl) ht1 fun w2 _ => hflag _ _ _
  apply wp_lockEvent .start
  intro found t1 w1 ht1 hfound
  cases found with
  | none => exact hflag _ _ _
  | some row =>
    obtain ⟨c, hat, hrow⟩ := hfound row rfl
    dsimp only
    split
    · exact hflag _ _ _
    next intent hintent =>
    split
    · exact hflag _ _ _
    next hheld =>
    rw [Bool.not_eq_true, Bool.not_eq_false'] at hheld
    split
    · trivial
    next hauthorized =>
    split
    · next hnone =>
      have hphase : intent.phase = .authorized := by
        by_contra hphase
        exact hauthorized ⟨hnone, hphase⟩
      obtain rfl : error = none := Option.isNone_iff_eq_none.mp hnone
      apply wp_flush ht1 hat
      · intro began v hv
        rw [List.mem_singleton.mp hv]
        rfl
      · intro now began _
        have hstep : CellStep p i (.completeCleanup id token generation none) now id c
            { c with event := some (row.inPhase intent .deleted) } :=
          .deleted hrow (content_of_intent hintent) rfl hheld hphase
        simpa [Cell.write] using ReflTransGen.single hstep
      · rintro t2 w2 ht2 ⟨began, hat2⟩
        have hdeleted : (row.inPhase intent .deleted).content = .cleanup _ := rfl
        exact hfinalize ht2 hat2 (by simp [Cell.write]) hdeleted
    · exact hfinalize ht1 hat hrow (content_of_intent hintent)

/-! ## All operations -/

/-- Every operation meets the protocol. -/
theorem verified (p : Platform) (missed : ℕ → String → Prop) :
    Verified (protocol p missed) (code p) (Returned p) := by
  intro i op w _ _
  cases op with
  | enqueueRuntimeEvent payload => exact wp_enqueueRuntimeEvent
  | enqueueNotificationDelivery payload => exact wp_enqueueNotificationDelivery
  | dispatchPendingEvents limit fault => exact wp_dispatchPendingEvents
  | claimExternalDeliveries kind limit => exact wp_claimExternalDeliveries
  | finalizeExternalDelivery claim error => exact wp_finalizeExternalDelivery
  | recordExternalDeliveryPart claim partKey => exact wp_recordExternalDeliveryPart
  | claimCleanups limit => exact wp_claimCleanups
  | registerUploadSource uploadId sourcePath => exact wp_registerUploadSource
  | renewUploadSource uploadId sourcePath => exact wp_rearmUpload rfl rfl
  | releaseUploadSourceForCleanup uploadId sourcePath => exact wp_rearmUpload rfl rfl
  | registerPreflightSource preflightId resourceId sourcePath availableAt others =>
    exact wp_inTransaction (Op.plain rfl)
      (fun k hk => wp_registerPreflightSource ⟨_, _, _, _, rfl⟩ .start hk)
      fun w' => returned_done _ _ _ _ rfl
  | validateSourceEnqueue sourcePath others =>
    refine wp_inTransaction (Op.plain rfl) (fun k hk => ?_) fun w' => returned_done _ _ _ _ rfl
    rw [Script.bind_assoc]
    exact wp_lockSourceIntent .start fun _ _ _ ht _ => hk _ _ ht
  | transferPreflightSource sourcePath requestId others =>
    exact wp_inTransaction (Op.plain rfl)
      (fun k hk => wp_transferPreflightSource ⟨_, _, rfl⟩ .start hk)
      fun w' => returned_done _ _ _ _ rfl
  | registerStage args => exact wp_registerStage
  | publishDatasource id row => exact wp_publishDatasource
  | upsertOutputDatasource output =>
    exact wp_inTransaction (Op.plain rfl) (fun k hk => wp_stageOutputDatasource rfl .start hk)
      fun w' => returned_done _ _ _ _ rfl
  | startBuild datasourceIds placeholders others =>
    refine wp_inTransaction (Op.plain rfl) (fun k hk => ?_) fun w' => returned_done _ _ _ _ rfl
    unfold startBuild
    rw [Script.bind_assoc]
    refine wp_requireActiveDatasources .start fun _ _ ht => wp_createPlaceholders ?_ ht hk
    exact fun placeholder hplaceholder => List.mem_map_of_mem hplaceholder
  | deleteDatasource id => exact wp_deleteDatasource
  | authorizeCleanup id token generation => exact wp_authorizeCleanup
  | completeCleanup id token generation error => exact wp_completeCleanup
  | otherWork writes =>
    exact wp_inTransaction (Op.plain rfl) (fun k hk => hk _ _ .start)
      fun w' => returned_done _ _ _ _ rfl

end DataForge.Outbox
