import DataForge.Analyses.Service
import DataForge.Effects.Except
import DataForge.Locks.Service

/-!
# Mutations under a revision

The routes that change one analysis (`modules/analysis/routes.py`,
`modules/analysis_versions/routes.py`): `revisions.require` and then an operation of the
service, statement by statement in one session. What an operation reads of tables that it does
not lock is an arbitrary view.
-/

namespace DataForge.Analyses

open ReadCommitted Effects

variable {κ δ : Type}

/-- The requests that pass `revisions.require` before they run. -/
def Op.edits : Op κ δ → Bool
  | .create .. => false
  | _ => true

/-- The version that a restore looks up. -/
def Op.target (versions : List (Version κ δ)) : Op κ δ → Option (Version κ δ)
  | .restore _ version => versions.find? (·.version = version)
  | _ => none

/-- What an operation makes of the row that it has loaded, and the datasources to link. -/
def Op.edit (R : Rules κ δ) (v : View) (analysis : Analysis κ δ) (target : Option (Version κ δ)) :
    Op κ δ → Except Failure (Analysis κ δ × Option (List String))
  | .create id .. => .error (.notFound id)
  | .update id name description tabs =>
    let edited := { analysis with
      name := name.getD analysis.name
      description := description.or analysis.description
      revision := analysis.revision + 1 }
    match tabs with
    | none => .ok (edited, none)
    | some tabs => do
      let (tabs, datasourceIds) ← v.validateAnalysisPayload R (some id) tabs
      return ({ edited with tabs }, some datasourceIds)
  | .addStep _ tabId stepType config position dependsOn newId => do
    let tabs ← Analyses.addStep R (fun source => do let _ ← v.requireVisible source)
      analysis.tabs tabId stepType config position dependsOn newId
    return ({ analysis with tabs, revision := analysis.revision + 1 }, none)
  | .updateStep _ tabId stepId config stepType => do
    let tabs ← Analyses.updateStep R analysis.tabs tabId stepId config stepType
    return ({ analysis with tabs, revision := analysis.revision + 1 }, none)
  | .removeStep _ tabId stepId => do
    let tabs ← Analyses.removeStep analysis.tabs tabId stepId
    return ({ analysis with tabs, revision := analysis.revision + 1 }, none)
  | .deriveTab _ tabId name newTabId newStepId newResultId => do
    let tabs ← Analyses.deriveTab R analysis.tabs tabId name newTabId newStepId newResultId
    return ({ analysis with tabs, revision := analysis.revision + 1 }, none)
  | .duplicateTab _ tabId name newTabId newResultId newIds => do
    let tabs ← Analyses.duplicateTab R analysis.tabs tabId name newTabId newResultId newIds
    return ({ analysis with tabs, revision := analysis.revision + 1 }, none)
  | .restore id _ =>
    match target with
    | none => .error (.notFound id)
    | some target => do
      let (tabs, datasourceIds) ← v.validateAnalysisPayload R (some id) target.tabs
      return (⟨target.name, target.description, tabs, analysis.revision + 1⟩, some datasourceIds)

/-- Storing an edited row with its snapshot and its links. -/
def Db.saveEdit (db : Db κ δ) (analysisId : String) (analysis edited : Analysis κ δ)
    (links : Option (List String)) : Db κ δ :=
  let saved := (db.createVersion analysisId analysis).store analysisId edited
  match links with
  | none => saved
  | some datasourceIds => saved.replaceDatasourceLinks analysisId datasourceIds

/-- The transaction of a request that edits an analysis: load, edit, save. -/
theorem Op.apply_eq_edit (R : Rules κ δ) (v : View) (db : Db κ δ) (op : Op κ δ)
    (h : op.edits = true) : op.apply R v db = (do
      let analysis ← db.requireAnalysis op.analysisId
      let (edited, links) ← op.edit R v analysis (op.target (db.versions op.analysisId))
      return db.saveEdit op.analysisId analysis edited links) := by
  have load {β : Type} {id : String} {f g : Analysis κ δ → Except Failure β}
      (hfg : ∀ a, f a = g a) : (db.requireAnalysis id >>= f) = (db.requireAnalysis id >>= g) :=
    congrArg _ (funext hfg)
  have edit {α : Type} {x : Except Failure α} {f : α → Db κ δ}
      {g : α → Analysis κ δ × Option (List String)} {a : Analysis κ δ} {id : String}
      (hfg : ∀ y, f y = db.saveEdit id a (g y).1 (g y).2) :
      (x >>= fun y => pure (f y)) =
        ((x >>= fun y => pure (g y)) >>= fun r => pure (db.saveEdit id a r.1 r.2)) := by
    cases x with
    | error e => rfl
    | ok y => exact congrArg Except.ok (hfg y)
  cases op with
  | create => cases h
  | update id name description tabs =>
    refine load fun a => ?_
    cases tabs with
    | none => rfl
    | some tabs => exact edit fun y => rfl
  | addStep => exact load fun a => edit fun y => rfl
  | updateStep => exact load fun a => edit fun y => rfl
  | removeStep => exact load fun a => edit fun y => rfl
  | deriveTab => exact load fun a => edit fun y => rfl
  | duplicateTab => exact load fun a => edit fun y => rfl
  | restore id version =>
    refine load fun a => ?_
    simp only [Op.edit, Op.target, Op.analysisId]
    cases (db.versions id).find? fun w => decide (w.version = version) with
    | none => rfl
    | some target => exact edit fun y => rfl

/-- `AnalysisVersion` (`persistence/analysis_versions/models.py:10-20`). -/
structure AnalysisVersion (κ δ : Type) where
  analysisId : String
  snapshot : Version κ δ

/-- The tables that mutations of analyses touch. -/
structure Tables (κ δ : Type) where
  locks : Locks.LockTable
  analyses : Table String (Analysis κ δ)
  versions : Table String (AnalysisVersion κ δ)
  links : Table (String × String) Unit

/-- A row write. -/
inductive TableWrite (κ δ : Type) where
  | lock (w : Locks.LockWrite)
  | analysis (id : String) (row : Option (Analysis κ δ))
  | version (id : String) (row : Option (AnalysisVersion κ δ))
  | link (key : String × String) (row : Option Unit)

/-- The rows that can be locked. -/
inductive TableRow where
  | lock (k : Locks.ResourceKey)
  | analysis (id : String)
  | version (id : String)
  | link (key : String × String)
  deriving DecidableEq

/-- Perform one row write. -/
def Tables.write (db : Tables κ δ) : TableWrite κ δ → Tables κ δ
  | .lock w => { db with locks := db.locks.write w }
  | .analysis id row => { db with analyses := db.analyses.put id row }
  | .version id row => { db with versions := db.versions.put id row }
  | .link key row => { db with links := db.links.put key row }

/-- The row a write touches. -/
def TableWrite.target : TableWrite κ δ → TableRow
  | .lock w => .lock w.key
  | .analysis id _ => .analysis id
  | .version id _ => .version id
  | .link key _ => .link key

/-- Two databases agree on a row. -/
def Tables.Same (a b : Tables κ δ) : TableRow → Prop
  | .lock k => a.locks.get k = b.locks.get k
  | .analysis id => a.analyses.get id = b.analyses.get id
  | .version id => a.versions.get id = b.versions.get id
  | .link key => a.links.get key = b.links.get key

instance tablesStorage : Storage (Tables κ δ) (TableWrite κ δ) TableRow where
  apply w db := db.write w
  target := TableWrite.target
  same r a b := a.Same b r
  same_equiv r := by
    cases r <;> exact ⟨fun _ => rfl, Eq.symm, Eq.trans⟩
  same_apply {w r} db hne := by
    cases r <;> cases w <;> first
      | rfl
      | (refine (Table.get_put _ _ _ _).trans (if_neg fun he => hne ?_)
         rw [he]; rfl)
  apply_same {r a b} w h := by
    cases r <;> cases w <;> first
      | exact h
      | (refine (Table.get_put _ _ _ _).trans (Eq.trans ?_ (Table.get_put _ _ _ _).symm)
         rw [show _ = _ from h])
      | (refine (Locks.LockTable.get_write _ _ _).trans
           (Eq.trans ?_ (Locks.LockTable.get_write _ _ _).symm)
         rw [show _ = _ from h])

/-- What a mutation does once its revision has been checked. -/
inductive Mutation (κ δ : Type) where
  | edit (op : Op κ δ) (edits : op.edits = true) (v : View) (versionId : String)
  | deleteAnalysis (analysisId : String)
  | deleteVersion (analysisId : String) (version : ℕ)
  | renameVersion (analysisId : String) (version : ℕ) (name : String)

/-- The analysis that a mutation is about. -/
def Mutation.analysisId : Mutation κ δ → String
  | .edit op .. => op.analysisId
  | .deleteAnalysis id | .deleteVersion id _ | .renameVersion id .. => id

/-- A request with its `If-Match` header. -/
structure Request (κ δ : Type) where
  mutation : Mutation κ δ
  ifMatch : Option String
  ownerId : Option String := none

/-- What a request answers: the revision in its headers, if it sets them. -/
inductive Reply where
  | saved (revision : ℕ)
  | done
  deriving DecidableEq

abbrev EditScript (κ δ : Type) := Script (Tables κ δ) (TableWrite κ δ) TableRow

/-- `etag_for` (`revisions.py:31-32`). -/
def etagFor (analysisId : String) (revision : ℕ) : String :=
  "\"analysis-" ++ analysisId ++ "-" ++ Nat.repr revision ++ "\""

/-- `validate` (`revisions.py:59-65`). -/
def validate (currentRevision : ℕ) (analysisId : String) : Option String → Except String Unit
  | none => .error "If-Match analysis revision is required"
  | some ifMatch =>
    let normalized := Compute.strip ifMatch
    if normalized = Nat.repr currentRevision ∨ normalized = etagFor analysisId currentRevision then
      .ok ()
    else .error "Analysis version mismatch"

/-- `SELECT … FOR UPDATE` of the row of an analysis. -/
def selectForUpdate (id : String) : EditScript κ δ (Option (Analysis κ δ)) :=
  Script.statement
    (fun e => { locks := (e.db.analyses.get id).toList.map fun _ => (.analysis id, .exclusive) })
    (fun e => e.db.analyses.get id)

/-- `revisions.require` (`revisions.py:68-83`). -/
def require (id : String) (ifMatch ownerId : Option String) : EditScript κ δ (Analysis κ δ) := do
  let _ ← (Locks.ensureMutationLock ⟨"analysis", id⟩ ownerId).within Tables.locks TableWrite.lock
    TableRow.lock
  match ← selectForUpdate id with
  | none => .raise ("Analysis " ++ id ++ " not found")
  | some analysis =>
    match validate analysis.revision id ifMatch with
    | .error detail => .raise detail
    | .ok _ => pure analysis

/-- The versions of an analysis. -/
def Tables.versionsOf (db : Tables κ δ) (id : String) : List (String × AnalysisVersion κ δ) :=
  db.versions.rows.filter fun r => r.2.analysisId = id

/-- The subquery `coalesce(max(version), 0) + 1` (`analysis_versions/service.py:20`). -/
def Tables.nextVersion (db : Tables κ δ) (id : String) : ℕ :=
  ((db.versionsOf id).map fun r => r.2.snapshot.version).foldr max 0 + 1

/-- `create_version` (`analysis_versions/service.py:16-34`). -/
def createVersion (id versionId : String) (analysis : Analysis κ δ) : EditScript κ δ Unit := do
  let _ ← selectForUpdate id
  let inserted ← Script.statement (fun e =>
      { locks := [(.version versionId, .exclusive)]
        writes := if (e.db.versions.get versionId).isNone then
          [.version versionId (some ⟨id, e.db.nextVersion id, analysis.name, analysis.description,
            analysis.tabs⟩)] else [] })
    (fun e => (e.db.versions.get versionId).isNone)
  if inserted then pure () else .raise "duplicate key value violates unique constraint"

/-- `replace_datasource_links` (`service.py:291-293`). -/
def replaceDatasourceLinks (id : String) (datasourceIds : List String) : EditScript κ δ Unit :=
  Script.statement (fun e =>
      { writes := ((e.db.links.rows.map Prod.fst).filter (·.1 = id)).map (fun key => .link key none)
          ++ datasourceIds.dedup.map fun datasourceId => .link (id, datasourceId) (some ()) })
    (fun _ => ())

/-- The changes of the session and `session.commit()`. -/
def saveAnalysis (id : String) (edited : Analysis κ δ) (links : Option (List String)) :
    EditScript κ δ Unit := do
  match links with
  | none => pure ()
  | some datasourceIds => replaceDatasourceLinks id datasourceIds
  Script.statement (fun _ => { writes := [.analysis id (some edited)] }) (fun _ => ())
  Script.commitNow

/-- `session.refresh` after a commit: it raises when the row is gone. -/
def refresh {β : Type} (read : Tables κ δ → Option β) (reply : β → Reply) :
    EditScript κ δ Reply := do
  match ← Script.query fun e => read e.db with
  | none => .raise "Could not refresh instance"
  | some row => pure (reply row)

/-- The text of a failure. -/
def Failure.text : Failure → String
  | .valueError text | .cycle text => text
  | .notFound id => id ++ " not found"
  | .invalidConfig => "invalid step config"
  | .endless => ""

/-- The operations that refresh the row they have saved. -/
def Op.refreshes : Op κ δ → Bool
  | .addStep .. | .updateStep .. | .deriveTab .. | .duplicateTab .. => true
  | _ => false

/-- `update_analysis`, `add_step`, `update_step`, `remove_step`, `derive_tab` and `duplicate_tab`
(`service.py:730-755, 812-1077`): the snapshot is staged before the edit is checked. -/
def editAnalysis (R : Rules κ δ) (op : Op κ δ) (v : View) (versionId : String)
    (analysis : Analysis κ δ) : EditScript κ δ Reply := do
  createVersion op.analysisId versionId analysis
  match op.edit R v analysis none with
  | .error failure => .raise failure.text
  | .ok (edited, links) =>
    saveAnalysis op.analysisId edited links
    if op.refreshes then
      refresh (fun db => db.analyses.get op.analysisId) fun _ => .saved (analysis.revision + 1)
    else pure (.saved (analysis.revision + 1))

/-- `restore_version` (`analysis_versions/service.py:71-96`): the snapshot is staged last. -/
def restoreVersion (R : Rules κ δ) (op : Op κ δ) (v : View) (versionId : String) :
    EditScript κ δ Reply := do
  match ← selectForUpdate op.analysisId with
  | none => .raise ("Analysis " ++ op.analysisId ++ " not found")
  | some analysis =>
    let target ← Script.query fun e =>
      op.target ((e.db.versionsOf op.analysisId).map fun r => r.2.snapshot)
    match op.edit R v analysis target with
    | .error failure => .raise failure.text
    | .ok (edited, links) =>
      createVersion op.analysisId versionId analysis
      saveAnalysis op.analysisId edited links
      refresh (fun db => db.analyses.get op.analysisId) fun row => .saved row.revision

/-- `delete_analysis` (`service.py:784-809`); the versions go with the row (`ON DELETE CASCADE`). -/
def deleteAnalysis (id : String) : EditScript κ δ Reply := do
  Script.statement (fun e =>
      { writes :=
          ((e.db.links.rows.map Prod.fst).filter (·.1 = id)).map fun key => .link key none })
    (fun _ => ())
  Script.statement (fun e =>
      { writes := (e.db.versionsOf id).map (fun r => .version r.1 none) ++ [.analysis id none] })
    (fun _ => ())
  Script.commitNow
  pure .done

/-- `get_version` (`analysis_versions/service.py:44-50`), with the key of the row. -/
def getVersion (id : String) (version : ℕ) :
    EditScript κ δ (Option (String × AnalysisVersion κ δ)) :=
  Script.query fun e => (e.db.versionsOf id).find? (·.2.snapshot.version = version)

/-- `delete_version` (`analysis_versions/service.py:53-58`). -/
def deleteVersion (id : String) (version : ℕ) : EditScript κ δ Reply := do
  match ← getVersion id version with
  | none => .raise ("Analysis version not found")
  | some (versionId, _) =>
    Script.statement (fun _ => { writes := [.version versionId none] }) (fun _ => ())
    Script.commitNow
    pure .done

/-- `rename_version` (`analysis_versions/service.py:61-68`). -/
def renameVersion (id : String) (version : ℕ) (name : String) : EditScript κ δ Reply := do
  match ← getVersion id version with
  | none => .raise ("Analysis version not found")
  | some (versionId, target) =>
    let renamed : AnalysisVersion κ δ :=
      { target with snapshot := { target.snapshot with name } }
    Script.statement (fun _ => { writes := [.version versionId (some renamed)] }) (fun _ => ())
    Script.commitNow
    refresh (fun db => db.versions.get versionId) fun _ => .done

/-- A mutation after `require`. -/
def Mutation.operation (R : Rules κ δ) (analysis : Analysis κ δ) :
    Mutation κ δ → EditScript κ δ Reply
  | .edit (.restore id version) _ v versionId => restoreVersion R (.restore id version) v versionId
  | .edit op _ v versionId => editAnalysis R op v versionId analysis
  | .deleteAnalysis id => Analyses.deleteAnalysis id
  | .deleteVersion id version => Analyses.deleteVersion id version
  | .renameVersion id version name => Analyses.renameVersion id version name

/-- The script of a request. -/
def code (R : Rules κ δ) (_ : ℕ) (request : Request κ δ) : EditScript κ δ Reply := do
  let analysis ← require request.mutation.analysisId request.ifMatch request.ownerId
  request.mutation.operation R analysis

end DataForge.Analyses
