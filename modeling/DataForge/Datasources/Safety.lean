import DataForge.Datasources.Protocol

/-!
# Runs of publications

Publications, updates and deletions of datasources in any interleaving: revisions count on, a
publication of an overtaken revision changes nothing, and a replayed creation finds its row.
-/

namespace DataForge.Datasources

open ReadCommitted

/-- What is left of a call that has committed: it returns, or reads its row again. -/
def Settled (q : DatasourceScript Reply) : Prop :=
  (∃ reply, q = .done reply) ∨ ∃ id, q = refresh id

/-- A call commits once, at its end. -/
def CommitsOnce (_ : List TableWrite) (next : DatasourceScript Reply) : Prop := Settled next

section Commits

variable {p : Platform} {id : String} {config : Config} {guard : Option Guard}
  {k : Unit → DatasourceScript Reply}

theorem commits_refresh (ws : List TableWrite) : (refresh id).Commits CommitsOnce ws := by
  refine Script.commits_statement fun row _ => ?_
  cases row <;> trivial

theorem commits_publicationGuard (hk : ∀ ws, (k ()).Commits CommitsOnce ws)
    (ws : List TableWrite) : (publicationGuard guard >>= k).Commits CommitsOnce ws := by
  cases guard with
  | none => exact hk ws
  | some guard =>
    rw [publicationGuard, Script.bind_assoc]
    refine Script.commits_statement fun held ws => ?_
    cases held with
    | true => exact hk ws
    | false => trivial

theorem commits_settleEvents {ids : List String} (hk : ∀ ws, (k ()).Commits CommitsOnce ws)
    (ws : List TableWrite) : (settleEvents ids >>= k).Commits CommitsOnce ws := by
  induction ids generalizing ws with
  | nil => exact hk ws
  | cons id ids ih =>
    rw [settleEvents, Script.bind_assoc, settleEvent, Script.bind_assoc]
    refine Script.commits_statement fun found ws => ?_
    cases found with
    | none => exact ih ws
    | some event =>
      dsimp only
      split
      · trivial
      · exact ih ws

theorem commits_publish (ws : List TableWrite) : Script.Commits CommitsOnce (do
      settlePublication p config
      Script.commitNow
      refresh id) ws := by
  have hend (ws : List TableWrite) : (Script.commitNow >>= fun _ => refresh id).Commits
      CommitsOnce ws := ⟨Or.inr ⟨id, rfl⟩, @commits_refresh id []⟩
  rw [settlePublication, Script.bind_assoc]
  refine commits_settleEvents (fun ws => ?_) ws
  cases config.catalog with
  | none => exact hend ws
  | some name =>
    dsimp only
    rw [Script.bind_assoc]
    exact Script.commits_statement fun intents ws => commits_settleEvents hend ws

theorem commits_replayedResponse {existing : DataSource} {name sourceType : String}
    {ownerId : Option String} (ws : List TableWrite) :
    (replayedResponse p id existing name sourceType ownerId guard).Commits CommitsOnce ws := by
  unfold replayedResponse
  split
  · trivial
  · exact commits_publicationGuard commits_publish ws

theorem commits_createDatasource {name sourceType : String} {description ownerId schemaInfo}
    (ws : List TableWrite) : (createDatasource p id name description sourceType config ownerId
      schemaInfo guard).Commits CommitsOnce ws := by
  refine commits_publicationGuard (fun ws => ?_) ws
  split
  · trivial
  refine Script.commits_statement fun found ws => ?_
  cases found with
  | some existing => exact commits_replayedResponse ws
  | none =>
    refine Script.commits_statement fun inserted ws => ?_
    cases inserted with
    | true => exact commits_publish ws
    | false =>
      refine Script.commits_statement fun found ws => ?_
      cases found with
      | none => trivial
      | some existing => exact commits_replayedResponse ws

theorem commits_publishIngest {expectedRevision : ℕ} {schemaInfo : Option String}
    (ws : List TableWrite) :
    (publishIngest p id config expectedRevision schemaInfo guard).Commits CommitsOnce ws := by
  refine Script.commits_statement fun found ws => ?_
  cases found with
  | none => trivial
  | some existing =>
    refine commits_publicationGuard (fun ws => Script.commits_statement fun published ws => ?_) ws
    cases published with
    | true => exact commits_publish ws
    | false => trivial

theorem commits_publishSchemaCache {expectedRevision : ℕ} {schemaInfo : String}
    (ws : List TableWrite) :
    (publishSchemaCache id expectedRevision schemaInfo guard).Commits CommitsOnce ws := by
  refine commits_publicationGuard (fun ws => Script.commits_statement fun published ws => ?_) ws
  cases published with
  | true => exact ⟨Or.inl ⟨_, rfl⟩, trivial⟩
  | false =>
    refine Script.commits_statement fun found ws => ?_
    cases found with
    | none => trivial
    | some row =>
      dsimp only
      split <;> trivial

theorem commits_updateDatasource {update : DataSourceUpdate} {resolved : Option ExcelSelection}
    {expectedRevision : Option ℕ} (ws : List TableWrite) :
    (updateDatasource p id update resolved expectedRevision).Commits CommitsOnce ws := by
  refine Script.commits_statement fun found ws => ?_
  cases found with
  | none => trivial
  | some row =>
    dsimp only
    split
    · trivial
    split
    · trivial
    split
    · trivial
    next updated changed hupdate =>
      cases changed with
      | false => exact ⟨Or.inr ⟨id, rfl⟩, @commits_refresh id []⟩
      | true => exact Script.commits_statement fun _ ws => commits_publish ws

theorem commits_createPlaceholder {placeholder : Placeholder} (ws : List TableWrite) :
    (createPlaceholder p id placeholder).Commits CommitsOnce ws := by
  unfold createPlaceholder
  split
  · trivial
  refine Script.commits_statement fun found ws => ?_
  cases found with
  | some existing =>
    dsimp only
    split
    · trivial
    split
    · refine Script.commits_statement fun updated ws => ?_
      cases updated with
      | true => exact ⟨Or.inl ⟨_, rfl⟩, trivial⟩
      | false => trivial
    · exact ⟨Or.inl ⟨_, rfl⟩, trivial⟩
  | none =>
    refine Script.commits_statement fun inserted ws => ?_
    cases inserted with
    | true => exact ⟨Or.inl ⟨_, rfl⟩, trivial⟩
    | false => trivial

theorem commits_requestDelete (ws : List TableWrite) :
    (requestDelete id).Commits CommitsOnce ws := by
  refine Script.commits_statement fun _ ws => Script.commits_statement fun found ws => ?_
  cases found with
  | none => trivial
  | some existing =>
    dsimp only
    split
    · exact ⟨Or.inr ⟨id, rfl⟩, @commits_refresh id []⟩
    · refine Script.commits_statement fun marked ws => ?_
      cases marked with
      | true => exact ⟨Or.inr ⟨id, rfl⟩, @commits_refresh id []⟩
      | false => trivial

theorem commits_finalizeDelete {active : Bool}
    {cleanup : DataSource → Tables → List (String × Option OutboxEvent)} (ws : List TableWrite) :
    (finalizeDelete id active cleanup).Commits CommitsOnce ws := by
  refine Script.commits_statement fun _ ws => Script.commits_statement fun found ws => ?_
  cases found with
  | none => trivial
  | some row =>
    dsimp only
    split
    · trivial
    · exact fun _ _ => ⟨Or.inl ⟨_, rfl⟩, trivial⟩

theorem commits_code (i : ℕ) (op : Op) : (code p i op).Commits CommitsOnce [] := by
  cases op with
  | createDatasource => exact commits_createDatasource []
  | publishIngest => exact commits_publishIngest []
  | publishSchemaCache => exact commits_publishSchemaCache []
  | updateDatasource => exact commits_updateDatasource []
  | createPlaceholder => exact commits_createPlaceholder []
  | requestDelete => exact commits_requestDelete []
  | finalizeDelete => exact commits_finalizeDelete []
  | claim => exact fun _ => ⟨Or.inl ⟨_, rfl⟩, trivial⟩

end Commits

section CommitsFirst

variable {p : Platform} {id : String} {config : Config} {guard : Option Guard}
  {k : Unit → DatasourceScript Reply}

theorem commitsFirst_publicationGuard (hk : (k ()).CommitsFirst) :
    (publicationGuard guard >>= k).CommitsFirst := by
  cases guard with
  | none => exact hk
  | some guard =>
    rw [publicationGuard, Script.bind_assoc]
    refine Script.commitsFirst_statement fun held => ?_
    cases held with
    | true => exact hk
    | false => trivial

theorem commitsFirst_settleEvents {ids : List String} (hk : (k ()).CommitsFirst) :
    (settleEvents ids >>= k).CommitsFirst := by
  induction ids with
  | nil => exact hk
  | cons id ids ih =>
    rw [settleEvents, Script.bind_assoc, settleEvent, Script.bind_assoc]
    refine Script.commitsFirst_statement fun found => ?_
    cases found with
    | none => exact ih
    | some event =>
      dsimp only
      split
      · trivial
      · exact ih

theorem commitsFirst_publish : Script.CommitsFirst (do
    settlePublication p config
    Script.commitNow
    refresh id) := by
  rw [settlePublication, Script.bind_assoc]
  refine commitsFirst_settleEvents ?_
  cases config.catalog with
  | none => trivial
  | some name =>
    dsimp only
    rw [Script.bind_assoc]
    exact Script.commitsFirst_statement fun intents => commitsFirst_settleEvents trivial

theorem commitsFirst_replayedResponse {existing : DataSource} {name sourceType : String}
    {ownerId : Option String} :
    (replayedResponse p id existing name sourceType ownerId guard).CommitsFirst := by
  unfold replayedResponse
  split
  · trivial
  · exact commitsFirst_publicationGuard commitsFirst_publish

theorem commitsFirst_createDatasource {name sourceType : String}
    {description ownerId schemaInfo : Option String} :
    (createDatasource p id name description sourceType config ownerId schemaInfo
      guard).CommitsFirst := by
  refine commitsFirst_publicationGuard ?_
  split
  · trivial
  refine Script.commitsFirst_statement fun found => ?_
  cases found with
  | some existing => exact commitsFirst_replayedResponse
  | none =>
    refine Script.commitsFirst_statement fun inserted => ?_
    cases inserted with
    | true => exact commitsFirst_publish
    | false =>
      refine Script.commitsFirst_rollback (Script.commitsFirst_statement fun found => ?_)
      cases found with
      | none => trivial
      | some existing => exact commitsFirst_replayedResponse

theorem commitsFirst_code {op : Op} (h : op.publishes = true) (i : ℕ) :
    (code p i op).CommitsFirst := by
  cases op with
  | createDatasource => exact commitsFirst_createDatasource
  | publishIngest =>
    refine Script.commitsFirst_statement fun found => ?_
    cases found with
    | none => trivial
    | some existing =>
      refine commitsFirst_publicationGuard (Script.commitsFirst_statement fun published => ?_)
      cases published with
      | true => exact commitsFirst_publish
      | false => trivial
  | publishSchemaCache =>
    refine commitsFirst_publicationGuard (Script.commitsFirst_statement fun published => ?_)
    cases published with
    | true => trivial
    | false =>
      refine Script.commitsFirst_rollback (Script.commitsFirst_statement fun found => ?_)
      cases found with
      | none => trivial
      | some row =>
        dsimp only
        split <;> trivial
  | _ => cases h

end CommitsFirst

/-- What a call has met. -/
abbrev Seen := Script.Seen Tables TableWrite TableRow

/-- The call has seen or left a row of the datasource. -/
def Shows (id : String) : Seen → Prop
  | .saw e => (e.db.datasources.get id).isSome
  | .committed writes => ∃ row, ∀ db, (view writes db).datasources.get id = some row

/-- A publication of the configuration settles this event: it is of one of the paths, or has been
listed as an intent of the table. -/
def Settles (p : Platform) (config : Config) (past : List Seen) (eventId : String) : Prop :=
  eventId ∈ config.paths.map p.eventId ∨ ∃ ns table e, config.catalog = some (ns, table) ∧
    Script.Seen.saw e ∈ past ∧ eventId ∈ e.db.catalogIntents ns table

/-- The configuration is that of the creation, or of a row of the datasource that it has seen. -/
def Publishing (id : String) (config : Config) (past : List Seen) (published : Config) : Prop :=
  published = config ∨ ∃ e row, Script.Seen.saw e ∈ past ∧
    e.db.datasources.get id = some row ∧ row.config = published

/-- What `settle_publication` raises (`storage_cleanup_service.py:390`). -/
def authorizedDetail : String := "Storage cleanup was already authorized for this path"

/-- Why a creation fails, with what it has met by then, the latest first. -/
inductive CreateFails (p : Platform) (id name sourceType : String) (ownerId : Option String)
    (config : Config) (guard : Option Guard) : String → List Seen → Prop where
  | unclaimed {g : Guard} {e : Env Tables TableRow} {past : List Seen} (hguard : guard = some g)
      (hlost : g.holds e = false) :
      CreateFails p id name sourceType ownerId config guard g.failure (.saw e :: past)
  | unsupported {past : List Seen} (htype : sourceType ∉ sourceTypes) :
      CreateFails p id name sourceType ownerId config guard
        ("Unsupported DataSourceType: '" ++ sourceType ++ "'") past
  | inUse {existing : DataSource} {e : Env Tables TableRow} {past : List Seen}
      (hrow : e.db.datasources.get id = some existing) (hother : existing.name ≠ name ∨
        existing.sourceType ≠ sourceType ∨ existing.ownerId ≠ ownerId) :
      CreateFails p id name sourceType ownerId config guard
        ("Datasource publication ID " ++ id ++ " is already in use") (.saw e :: past)
  | authorized {published : Config} {eventId : String} {event : OutboxEvent}
      {e : Env Tables TableRow} {past : List Seen}
      (hpublishing : Publishing id config past published)
      (hsettles : Settles p published past eventId) (hevent : e.db.events.get eventId = some event)
      (hsettle : event.settle = none) :
      CreateFails p id name sourceType ownerId config guard authorizedDetail (.saw e :: past)
  | gone {error : String} {e : Env Tables TableRow} {past : List Seen}
      (hrow : e.db.datasources.get id = none) (hthere : ∃ x ∈ past, Shows id x) :
      CreateFails p id name sourceType ownerId config guard error (.saw e :: past)

section Raises

variable {p : Platform} {id name sourceType : String} {ownerId : Option String}
  {guard : Option Guard} {config : Config} {k : Unit → DatasourceScript Reply}
  {P : String → List Seen → Prop} {ws : List TableWrite} {past : List Seen}

/-- Cleanup intents that are staged. -/
def staged (events : List (String × Option OutboxEvent)) : List TableWrite :=
  events.map fun event => .event event.1 event.2

theorem raises_publicationGuard
    (hlost : ∀ g e, guard = some g → g.holds e = false → P g.failure (.saw e :: past))
    (hk : ∀ past', past ⊆ past' → (k ()).Raises P ws past') :
    (publicationGuard guard >>= k).Raises P ws past := by
  cases guard with
  | none => exact hk past (List.Subset.refl _)
  | some g =>
    rw [publicationGuard, Script.bind_assoc]
    refine Script.raises_statement fun e => ?_
    cases hheld : g.holds e with
    | true =>
      rw [List.append_nil, if_pos rfl]
      exact hk _ (List.subset_cons_self _ _)
    | false => exact hlost g e rfl hheld

theorem raises_settleEvents {ids : List String}
    (hauthorized : ∀ e past' id event, past ⊆ past' → id ∈ ids → e.db.events.get id = some event →
      event.settle = none → P authorizedDetail (.saw e :: past'))
    (hk : ∀ events past', past ⊆ past' → (k ()).Raises P (ws ++ staged events) past') :
    (settleEvents ids >>= k).Raises P ws past := by
  induction ids generalizing ws past with
  | nil => exact List.append_nil ws ▸ hk [] past (List.Subset.refl _)
  | cons id ids ih =>
    rw [settleEvents, Script.bind_assoc, settleEvent, Script.bind_assoc]
    refine Script.raises_statement fun e => ?_
    have hlater {past' : List Seen} (hsub : Script.Seen.saw e :: past ⊆ past') : past ⊆ past' :=
      List.Subset.trans (List.subset_cons_self _ _) hsub
    have hrest (event : Option OutboxEvent) : (settleEvents ids >>= k).Raises P
        (ws ++ event.toList.map fun event => TableWrite.event id (some event))
        (.saw e :: past) := by
      refine ih (fun e' past' id' event' hsub hid =>
        hauthorized e' past' id' event' (hlater hsub) (List.mem_cons_of_mem _ hid))
        fun events past' hsub => ?_
      have hwrites := hk (event.toList.map (fun event => (id, some event)) ++ events) past'
        (hlater hsub)
      rw [staged, List.map_append, List.map_map, ← List.append_assoc] at hwrites
      exact hwrites
    cases hfound : e.db.events.get id with
    | none => exact hrest none
    | some event =>
      cases hsettle : event.settle with
      | none =>
        dsimp only
        rw [hsettle]
        exact hauthorized e past id event (List.Subset.refl _) List.mem_cons_self hfound hsettle
      | some settled =>
        dsimp only
        rw [Option.bind_some, hsettle]
        exact hrest (some settled)

/-- Settle, commit and read back, when the row has been seen or is written. -/
theorem raises_publish
    (hauthorized : ∀ e past' eventId event, past ⊆ past' → Settles p config past' eventId →
      e.db.events.get eventId = some event → event.settle = none →
      P authorizedDetail (.saw e :: past'))
    (hgone : ∀ error e past', e.db.datasources.get id = none → (∃ x ∈ past', Shows id x) →
      P error (.saw e :: past'))
    (hshows : (∃ x ∈ past, Shows id x) ∨
      ∀ events, Shows id (.committed (ws ++ staged events))) :
    Script.Raises P (do
      settlePublication p config
      Script.commitNow
      refresh id) ws past := by
  have hend (events : List (String × Option OutboxEvent)) (past' : List Seen)
      (hsub : past ⊆ past') : (Script.commitNow >>= fun _ => refresh id).Raises P
        (ws ++ staged events) past' := by
    refine Script.raises_statement fun e => ?_
    cases hrow : e.db.datasources.get id with
    | some row => trivial
    | none =>
      refine hgone _ e _ hrow ?_
      rcases hshows with ⟨x, hx, hshow⟩ | hshows
      · exact ⟨x, List.mem_cons_of_mem _ (hsub hx), hshow⟩
      · exact ⟨_, List.mem_cons_self, hshows events⟩
  rw [settlePublication, Script.bind_assoc]
  refine raises_settleEvents (fun e past' eventId event hsub hid =>
    hauthorized e past' eventId event hsub (Or.inl hid)) fun events past' hsub => ?_
  cases hcatalog : config.catalog with
  | none => exact hend events past' hsub
  | some name =>
    dsimp only
    rw [Script.bind_assoc]
    refine Script.raises_statement fun e => ?_
    have hsub' : past ⊆ .saw e :: past' := List.Subset.trans hsub (List.subset_cons_self _ _)
    refine raises_settleEvents (fun e' past'' eventId event hsub'' hid =>
      hauthorized e' past'' eventId event (List.Subset.trans hsub' hsub'')
        (Or.inr ⟨name.1, name.2, e, hcatalog, hsub'' List.mem_cons_self, hid⟩))
      fun events' past'' hsub'' => ?_
    have hwrites : ws ++ staged events ++ [] ++ staged events' =
        ws ++ staged (events ++ events') := by
      rw [List.append_nil, List.append_assoc, staged, staged, staged, List.map_append]
    rw [hwrites]
    exact hend _ _ (List.Subset.trans hsub' hsub'')

/-- A replayed response of a row that the last statement has seen. -/
theorem raises_replayedResponse {existing : DataSource} {again : Option Guard}
    {e : Env Tables TableRow} (hrow : e.db.datasources.get id = some existing)
    (hagain : again = guard ∨ again = none) :
    (replayedResponse p id existing name sourceType ownerId again).Raises
      (CreateFails p id name sourceType ownerId config guard) ws (.saw e :: past) := by
  unfold replayedResponse
  split
  · next hother => exact .inUse hrow hother
  · have hseen {past' : List Seen} (hsub : Script.Seen.saw e :: past ⊆ past') :
        Publishing id config past' existing.config :=
      Or.inr ⟨e, existing, hsub List.mem_cons_self, hrow, rfl⟩
    refine raises_publicationGuard (fun g e hg hlost => ?_) fun past' hsub => raises_publish
      (fun e' past'' eventId event hsub' hsettles hevent hsettle =>
        .authorized (hseen (List.Subset.trans hsub hsub')) hsettles hevent hsettle)
      (fun error e' past'' hgone hthere => .gone hgone hthere)
      (Or.inl ⟨.saw e, hsub List.mem_cons_self, ?_⟩)
    · rcases hagain with rfl | rfl
      · exact .unclaimed hg hlost
      · cases hg
    · exact Option.isSome_iff_exists.mpr ⟨existing, hrow⟩

theorem raises_createDatasource {description schemaInfo : Option String} :
    (createDatasource p id name description sourceType config ownerId schemaInfo guard).Raises
      (CreateFails p id name sourceType ownerId config guard) [] [] := by
  refine raises_publicationGuard (fun g e hg hlost => .unclaimed hg hlost) fun past hsub => ?_
  split
  · next htype => exact .unsupported htype
  refine Script.raises_statement fun e => ?_
  cases hfound : e.db.datasources.get id with
  | some existing => exact raises_replayedResponse hfound (Or.inr rfl)
  | none =>
    refine Script.raises_statement fun e' => ?_
    cases hfree : e'.db.datasources.get id with
    | none =>
      refine raises_publish (fun e'' past' eventId event _ hsettles hevent hsettle =>
        .authorized (Or.inl rfl) hsettles hevent hsettle)
        (fun error e'' past' hgone hthere => .gone hgone hthere) (Or.inr fun events => ?_)
      refine ⟨newDatasource name description sourceType config ownerId schemaInfo, fun db => ?_⟩
      change (view (staged events) (db.write _)).datasources.get id = _
      rw [staged, view_events]
      exact Tables.datasource_write _ _ _
    | some other =>
      refine Script.raises_statement fun e'' => ?_
      cases hagain : e''.db.datasources.get id with
      | none => exact .gone hagain ⟨.saw e', List.mem_cons_self,
          Option.isSome_iff_exists.mpr ⟨other, hfree⟩⟩
      | some existing => exact raises_replayedResponse hagain (Or.inl rfl)

end Raises
end DataForge.Datasources
