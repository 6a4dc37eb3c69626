import DataForge.Compute.Model
import Mathlib.Data.List.DropRight

/-!
# Identity of the engine of a command

The identity that the API stores on the queue row
(`backend_core/compute_requests_service.py:575-603`, in `Compute.Model`) next to the one under
which the worker admits and runs the command: `_compute_worker_identity_for_claimed`
(`worker/runtime/compute_request_runtime.py:1344-1386`) followed by `ProcessManager._key`
(`worker/runtime/compute_manager.py:939-948`).
-/

namespace DataForge.Compute

/-- `str.isspace` of one character. -/
def isSpace (c : Char) : Bool :=
  let n := c.toNat
  (9 ≤ n && n ≤ 13) || (28 ≤ n && n ≤ 32) || n == 0x85 || n == 0xa0 || n == 0x1680 ||
    (0x2000 ≤ n && n ≤ 0x200a) || n == 0x2028 || n == 0x2029 || n == 0x202f || n == 0x205f ||
    n == 0x3000

/-- `str.strip`. -/
def strip (s : String) : String :=
  String.ofList ((s.toList.dropWhile isSpace).rdropWhile isSpace)

/-- `_DATASOURCE_REQUEST_KINDS` (`compute_request_runtime.py:81-90`). -/
def ComputeRequestKind.isDatasource : ComputeRequestKind → Bool
  | .createFileDatasource | .createDatabaseDatasource | .createIcebergDatasource
  | .ingestDatasource | .datasourceSchema | .datasourceColumnStats | .compareIcebergSnapshots
  | .datasourcePreflight => true
  | _ => false

/-- `WhichOneof('command')` of a command. -/
def CommandBody.field : CommandBody → String
  | .preview .. => "preview"
  | .schema _ => "schema"
  | .rowCount _ => "row_count"
  | .download _ => "download"
  | .export _ => "export"
  | .spawnEngine .. => "spawn_engine"
  | .configureEngine .. => "configure_engine"
  | .shutdownEngine .. => "shutdown_engine"
  | .datasource _ => "datasource"

/-- `command.datasource`; a field of another command reads as an empty message. -/
def CommandBody.datasource? : CommandBody → Option DatasourceCommand
  | .datasource c => c
  | _ => none

/-- `_compute_command_from_claimed` (`compute_request_runtime.py:1383-1387`). -/
def computeCommandFromClaimed (command : ComputeCommand) (field : String) :
    Except String CommandBody :=
  match command.command with
  | some body =>
    if body.field = field then .ok body
    else .error ("compute command envelope must contain " ++ field)
  | none => .error ("compute command envelope must contain " ++ field)

/-- `default_stateless_compute_worker_identity` (`compute_service.py:1036-1051`). -/
def defaultStatelessComputeWorkerIdentity (analysisId : String) :
    Except String ComputeWorkerIdentity :=
  if analysisId = "" then
    .error "Malformed compute request: analysis_pipeline.analysis_id is required"
  else .ok ⟨.analysisInteractive, .shared, analysisId⟩

/-- `_STATELESS_COMMAND_FIELDS` (`compute_request_runtime.py:1336-1341`). -/
def statelessCommandField : ComputeRequestKind → Option String
  | .schema => some "schema"
  | .rowCount => some "row_count"
  | .download => some "download"
  | .export => some "export"
  | _ => none

/-- `_stateless_compute_worker_identity_for_command`. -/
def statelessComputeWorkerIdentityForCommand (body : CommandBody) :
    Except String ComputeWorkerIdentity :=
  defaultStatelessComputeWorkerIdentity
    ((body.interactive.map fun c => c.analysisPipeline.analysisId).getD "")

/-- The `engine_identity` field of a command. -/
def CommandBody.engineIdentity : CommandBody → Option ComputeWorkerIdentity
  | .preview identity _ => identity
  | .spawnEngine identity _ | .configureEngine identity _ | .shutdownEngine identity _ =>
    some identity
  | _ => none

/-- The resource that a datasource command runs under. -/
def DatasourceCommand.resourceId (requestId : String) : DatasourceCommand → String
  | .createFile .. | .createDatabase .. | .createIceberg .. => requestId
  | .preflight c => c.preflightId
  | c => c.datasourceId

/-- `_compute_worker_identity_for_claimed` (`compute_request_runtime.py:1349-1380`). -/
def computeWorkerIdentityForClaimed (kind : ComputeRequestKind) (command : ComputeCommand)
    (requestId : String) : Except String (Option ComputeWorkerIdentity) :=
  if kind.isDatasource then
    match command.command.bind CommandBody.datasource? with
    | none => .error "datasource compute command is missing its operation"
    | some c => .ok (some (datasourceComputeWorkerIdentity (c.resourceId requestId)))
  else
    match kind with
    | .shutdownEngine => .ok none
    | .spawnEngine =>
      (computeCommandFromClaimed command "spawn_engine").map CommandBody.engineIdentity
    | .configureEngine =>
      (computeCommandFromClaimed command "configure_engine").map CommandBody.engineIdentity
    | .preview => do
      let preview ← computeCommandFromClaimed command "preview"
      match preview.engineIdentity with
      | some identity => return some identity
      | none => some <$> statelessComputeWorkerIdentityForCommand preview
    | kind =>
      match statelessCommandField kind with
      | none => .ok none
      | some field => do
        let body ← computeCommandFromClaimed command field
        some <$> statelessComputeWorkerIdentityForCommand body

/-- `ProcessManager._key` (`compute_manager.py:939-948`), without the namespace. -/
def identityKey (identity : ComputeWorkerIdentity) : Except String ComputeWorkerIdentity :=
  let resourceId := strip identity.resourceId
  if resourceId = "" then .error "engine identity resource_id is required"
  else .ok { identity with resourceId }

/-- The identity under which the worker admits and runs a claimed command, if it runs it. -/
def executionIdentity (kind : ComputeRequestKind) (command : ComputeCommand)
    (requestId : String) : Option ComputeWorkerIdentity :=
  match computeWorkerIdentityForClaimed kind command requestId with
  | .ok (some identity) => (identityKey identity).toOption
  | _ => none

/-- The command that `command_from_payload` builds for a kind
(`domain/compute_requests/models.py:447-476`). -/
def ComputeRequestKind.fits (kind : ComputeRequestKind) : CommandBody → Bool
  | .preview .. => kind = .preview
  | .schema _ => kind = .schema
  | .rowCount _ => kind = .rowCount
  | .download _ => kind = .download
  | .export _ => kind = .export
  | .spawnEngine .. => kind = .spawnEngine
  | .configureEngine .. => kind = .configureEngine
  | .shutdownEngine .. => kind = .shutdownEngine
  | .datasource _ => kind.isDatasource

/-! ## Where the two identities agree -/

/-- A resource id that `_key` accepts and leaves as it is. -/
def Settled (resourceId : String) : Prop := resourceId ≠ "" ∧ strip resourceId = resourceId

instance (s : String) : Decidable (Settled s) := inferInstanceAs (Decidable (_ ∧ _))

/-- The ids that a command names have no surrounding white space, are not empty where the API
does not look, and an interactive command names its analysis in the pipeline if at all. -/
def CommandBody.NamesSettled (requestId : String) : CommandBody → Prop
  | .spawnEngine identity _ | .configureEngine identity _ | .shutdownEngine identity _
  | .preview (some identity) _ => Settled identity.resourceId
  | .preview none c | .schema c | .rowCount c | .download c | .export c =>
    Settled c.analysisPipeline.analysisId ∨ c.analysisPipeline.analysisId = "" ∧ c.analysisId = ""
  | .datasource none => True
  | .datasource (some (.createFile ..)) | .datasource (some (.createDatabase ..))
  | .datasource (some (.createIceberg ..)) => Settled requestId
  | .datasource (some (.preflight c)) => Settled c.preflightId
  | .datasource (some c) => c.datasourceId = "" ∨ Settled c.datasourceId

@[simp] theorem strip_empty : strip "" = "" := by decide

theorem identityKey_eq_iff (i : ComputeWorkerIdentity) :
    some i = (identityKey i).toOption ↔ Settled i.resourceId := by
  obtain ⟨scope, policy, s⟩ := i
  unfold identityKey Settled
  dsimp only
  split
  case isTrue h =>
    simp only [Except.toOption, reduceCtorEq, ne_eq, false_iff, not_and]
    intro hs hstrip
    exact hs (hstrip ▸ h)
  case isFalse h =>
    simp only [Except.toOption, Option.some.injEq, ComputeWorkerIdentity.mk.injEq, true_and]
    constructor
    · intro hs
      exact ⟨fun he => h (hs ▸ he), hs.symm⟩
    · rintro ⟨-, hs⟩
      exact hs.symm

theorem identityKey_empty (scope : ComputeWorkerScope) (policy : ComputeWorkerReusePolicy) :
    (identityKey ⟨scope, policy, ""⟩).toOption = none := by
  simp [identityKey, Except.toOption]

private theorem interactive_agrees {kind : ComputeRequestKind} {command : ComputeCommand}
    {requestId : String} (c : InteractiveCommand)
    (hqueue : computeWorkerIdentityForCommand command requestId =
      let analysisId := if c.analysisPipeline.analysisId = "" then c.analysisId
        else c.analysisPipeline.analysisId
      if analysisId = "" then none else some ⟨.analysisInteractive, .shared, analysisId⟩)
    (hclaimed : computeWorkerIdentityForClaimed kind command requestId =
      some <$> defaultStatelessComputeWorkerIdentity c.analysisPipeline.analysisId) :
    computeWorkerIdentityForCommand command requestId =
      executionIdentity kind command requestId ↔
    (Settled c.analysisPipeline.analysisId ∨
      c.analysisPipeline.analysisId = "" ∧ c.analysisId = "") := by
  unfold executionIdentity
  rw [hqueue, hclaimed]
  unfold defaultStatelessComputeWorkerIdentity
  by_cases hp : c.analysisPipeline.analysisId = ""
  · have hns : ¬ Settled "" := fun h => h.1 rfl
    by_cases ha : c.analysisId = "" <;> simp [hp, ha, hns]
  · simp only [hp, if_false, false_and, or_false]
    exact identityKey_eq_iff _

private theorem datasource_agrees {kind : ComputeRequestKind} (hk : kind.isDatasource = true)
    (revisions : List InputRevision) (c : DatasourceCommand) (requestId : String) :
    computeWorkerIdentityForCommand ⟨revisions, some (.datasource (some c))⟩ requestId =
      executionIdentity kind ⟨revisions, some (.datasource (some c))⟩ requestId ↔
    (CommandBody.datasource (some c)).NamesSettled requestId := by
  have hx : executionIdentity kind ⟨revisions, some (.datasource (some c))⟩ requestId =
      (identityKey (datasourceComputeWorkerIdentity (c.resourceId requestId))).toOption := by
    simp [executionIdentity, computeWorkerIdentityForClaimed, hk, CommandBody.datasource?]
  rw [hx]
  have hdirect : ∀ id : String, (if id = "" then none
        else some (datasourceComputeWorkerIdentity id)) =
      (identityKey (datasourceComputeWorkerIdentity id)).toOption ↔ id = "" ∨ Settled id := by
    intro id
    by_cases hid : id = ""
    · subst hid
      simp [datasourceComputeWorkerIdentity, identityKey_empty]
    · simp only [hid, if_false, false_or]
      exact identityKey_eq_iff _
  cases c with
  | createFile | createDatabase | createIceberg => exact identityKey_eq_iff _
  | preflight c => exact identityKey_eq_iff _
  | ingest | schema | columnStats | compareIcebergSnapshots => exact hdirect _

private theorem body_agrees (kind : ComputeRequestKind) (revisions : List InputRevision)
    (body : CommandBody) (requestId : String) (hfits : kind.fits body = true)
    (hkind : kind ≠ .shutdownEngine) :
    computeWorkerIdentityForCommand ⟨revisions, some body⟩ requestId =
      executionIdentity kind ⟨revisions, some body⟩ requestId ↔ body.NamesSettled requestId := by
  cases body with
  | datasource c =>
    cases c with
    | none =>
      have hk : kind.isDatasource = true := hfits
      simp [computeWorkerIdentityForCommand, CommandBody.interactive, executionIdentity,
        computeWorkerIdentityForClaimed, hk, CommandBody.datasource?, CommandBody.NamesSettled]
    | some c => exact datasource_agrees hfits revisions c requestId
  | shutdownEngine => exact absurd (of_decide_eq_true hfits) hkind
  | spawnEngine identity =>
    cases of_decide_eq_true hfits
    exact identityKey_eq_iff identity
  | configureEngine identity =>
    cases of_decide_eq_true hfits
    exact identityKey_eq_iff identity
  | preview identity c =>
    cases of_decide_eq_true hfits
    cases identity with
    | some identity => exact identityKey_eq_iff identity
    | none => exact interactive_agrees c rfl rfl
  | _ c =>
    cases of_decide_eq_true hfits
    exact interactive_agrees c rfl rfl

/-- Queue identity and execution identity. For every command but a shutdown, of the kind it is
queued under, the API and the worker derive the same identity, or none, exactly when the ids
that the command names are settled. -/
theorem queue_identity_agrees_iff (kind : ComputeRequestKind) (command : ComputeCommand)
    (requestId : String) (hfits : ∀ body ∈ command.command, kind.fits body = true)
    (hkind : kind ≠ .shutdownEngine) :
    computeWorkerIdentityForCommand command requestId =
      executionIdentity kind command requestId ↔
    ∀ body ∈ command.command, body.NamesSettled requestId := by
  obtain ⟨revisions, body⟩ := command
  cases body with
  | none =>
    have hx : executionIdentity kind ⟨revisions, none⟩ requestId = none := by
      cases kind <;> rfl
    simp [hx, computeWorkerIdentityForCommand]
  | some body => simpa using body_agrees kind revisions body requestId (by simpa using hfits) hkind

/-- A schema command that names its analysis in the pipeline and on itself. -/
def schemaCommand (pipelineId analysisId : String) : ComputeCommand :=
  ⟨[], some (.schema ⟨analysisId, ⟨pipelineId, []⟩, ""⟩)⟩

/-- The identity of a schema command with a plain analysis id. -/
theorem queue_identity_agrees_iff_schema :
    computeWorkerIdentityForCommand (schemaCommand "a" "") "r" =
      executionIdentity .schema (schemaCommand "a" "") "r" := by
  rw [queue_identity_agrees_iff .schema (schemaCommand "a" "") "r" (by simp [schemaCommand,
    ComputeRequestKind.fits]) (by decide)]
  rintro body ⟨⟩
  exact Or.inl (by decide +kernel)

/-- With a blank before the analysis id the row holds another identity than the engine runs
under; with the analysis id on the command only, the row holds one and the worker none. -/
theorem queue_identity_differs :
    computeWorkerIdentityForCommand (schemaCommand " a" "") "r" ≠
      executionIdentity .schema (schemaCommand " a" "") "r" ∧
    computeWorkerIdentityForCommand (schemaCommand "" "a") "r" ≠
      executionIdentity .schema (schemaCommand "" "a") "r" := by
  decide +kernel

end DataForge.Compute
