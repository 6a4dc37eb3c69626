import DataForge.Datasources.Model
import DataForge.Storage.Catalog

/-!
# The runtime outbox: tables, claims and deliveries

The outbox rows of one namespace with their delivery receipts
(`src/packages/backend/backend_core/persistence/runtime_events/models.py`), the storage cleanup
intents among them, and the rows that own the storage of an intent; and
`src/packages/backend/backend_core/runtime_outbox_service.py` as transaction scripts, statement by
statement. A claim carries the token and the lease generation that fence what is done under it. The
wakes that announce new work are appended by the same transactions; `DataForge.Runtime.Work` has
them.
-/

namespace DataForge.Outbox

open ReadCommitted Documents

/-- `RuntimeOutboxStatus` (`runtime_events/models.py:9-14`). -/
inductive RuntimeOutboxStatus where
  | pending
  | dispatching
  | dispatched
  | failed
  | poisoned
  deriving DecidableEq, Repr

/-- `RuntimePayloadKind` (`domain/runtime/events.py:9-15`). -/
inductive RuntimePayloadKind where
  | build
  | engine
  | job
  | computeRequest
  | computeResponse
  | datasourceDelete
  deriving DecidableEq, Repr

/-- The token of a kind. -/
def RuntimePayloadKind.token : RuntimePayloadKind → String
  | .build => "build"
  | .engine => "engine"
  | .job => "job"
  | .computeRequest => "compute_request"
  | .computeResponse => "compute_response"
  | .datasourceDelete => "datasource_delete"

/-- `DeliveryKind` (`notification_delivery.py:12-14`). -/
inductive DeliveryKind where
  | email
  | telegram
  deriving DecidableEq, Repr

/-- The value of a kind. -/
def DeliveryKind.token : DeliveryKind → String
  | .email => "email_delivery"
  | .telegram => "telegram_delivery"

/-- `StorageCleanupPhase` (`storage_cleanup_service.py:32-36`). -/
inductive StorageCleanupPhase where
  | tracked
  | published
  | authorized
  | deleted
  deriving DecidableEq, Repr

/-- `StorageCleanupOwner` (`storage_cleanup_service.py:39-45`). -/
inductive StorageCleanupOwner where
  | upload
  | preflight
  | source
  | datasource
  | compute
  | build
  deriving DecidableEq, Repr

/-- The claim under which a compute request or a build stages storage. -/
structure OwnerClaim where
  ownerToken : String
  ownerGeneration : ℕ
  workerId : String
  deriving DecidableEq, Repr

/-- The payload of a storage cleanup event. -/
structure Intent where
  url : String
  phase : StorageCleanupPhase
  resourceId : String
  ownerKind : StorageCleanupOwner
  ownerId : String
  isPrefix : Bool
  claim : Option OwnerClaim := none
  catalog : Option Storage.CatalogIdentity := none
  deriving DecidableEq, Repr

/-- The payload of a notification. -/
abbrev Payload := Fields Rat

/-- `kind` and `payload_json`: an event of each kind has the payload of its kind. -/
inductive Content where
  | runtime (kind : RuntimePayloadKind) (payload : Payload)
  | external (kind : DeliveryKind) (payload : Payload)
  | cleanup (intent : Intent)

/-- The kind is in `EXTERNAL_DELIVERY_KINDS` (`notification_delivery.py:17`). -/
def Content.external? : Content → Option DeliveryKind
  | .external kind _ => some kind
  | _ => none

/-- The intent of a storage cleanup. -/
def Content.intent? : Content → Option Intent
  | .cleanup intent => some intent
  | _ => none

/-- The kind is in `_ISOLATED_DELIVERY_KINDS` (`runtime_outbox_service.py:63`). -/
def Content.isolated : Content → Bool
  | .runtime _ _ => false
  | _ => true

/-- `payload_json` of a notification. -/
def Content.payload : Content → Payload
  | .runtime _ payload => payload
  | .external _ payload => payload
  | .cleanup _ => []

/-- `RuntimeOutboxEvent` (`runtime_events/models.py:17-52`); times are microseconds. -/
structure RuntimeOutboxEvent where
  content : Content
  status : RuntimeOutboxStatus
  attempts : ℕ := 0
  claimToken : Option String := none
  leaseGeneration : ℕ := 0
  leaseExpiresAt : Option ℕ := none
  lastError : Option String := none
  availableAt : ℕ
  createdAt : ℕ
  updatedAt : ℕ
  dispatchedAt : Option ℕ := none
  catalogNamespace : Option String := none
  catalogTable : Option String := none
  catalogFamilyPrefix : Option String := none

/-- `NotificationDeliveryReceipt` (`runtime_events/models.py:55-60`). -/
structure DeliveryReceipt where
  kind : DeliveryKind
  deliveredAt : ℕ
  deriving DecidableEq, Repr

/-- `NotificationDeliveryPartReceipt` (`runtime_events/models.py:63-72`). -/
structure PartReceipt where
  partKey : String
  deliveredAt : ℕ
  deriving DecidableEq, Repr

/-- The columns of a compute request that a cleanup reads. -/
structure ComputeRequest where
  status : Compute.ComputeRequestStatus
  computeWorkerResourceId : String
  artifactPath : Option String := none
  artifactName : Option String := none
  artifactContentType : Option String := none
  leaseOwner : Option String := none
  claimToken : Option String := none
  leaseGeneration : ℕ := 0
  leaseExpiresAt : Option ℕ := none
  deriving DecidableEq, Repr

/-- The columns of a build job that a cleanup reads. -/
structure BuildJob where
  buildId : String
  /-- `status == BUILD_JOB_STATUS_RUNNING`. -/
  running : Bool
  leaseOwner : Option String := none
  claimToken : Option String := none
  leaseGeneration : ℕ := 0
  leaseExpiresAt : Option ℕ := none
  deriving DecidableEq, Repr

/-- The tables; the part receipts are listed by event. -/
structure Tables where
  events : Table String RuntimeOutboxEvent
  receipts : Table String DeliveryReceipt
  parts : Table String (List PartReceipt)
  requests : Table String ComputeRequest
  jobs : Table String BuildJob
  datasources : Table String Datasources.DataSource

/-- A row write. -/
inductive TableWrite where
  | event (id : String) (row : RuntimeOutboxEvent)
  | receipt (id : String) (row : DeliveryReceipt)
  | parts (id : String) (rows : Option (List PartReceipt))
  | request (id : String) (row : Option ComputeRequest)
  | job (id : String) (row : Option BuildJob)
  | datasource (id : String) (row : Option Datasources.DataSource)

/-- The rows that can be locked. The receipts of an event refer to it: they are written under
the lock of its row. -/
inductive TableRow where
  | event (id : String)
  | request (id : String)
  | job (id : String)
  | datasource (id : String)
  deriving DecidableEq

/-- Perform one row write. -/
def Tables.write (db : Tables) : TableWrite → Tables
  | .event id row => { db with events := db.events.put id (some row) }
  | .receipt id row => { db with receipts := db.receipts.put id (some row) }
  | .parts id rows => { db with parts := db.parts.put id rows }
  | .request id row => { db with requests := db.requests.put id row }
  | .job id row => { db with jobs := db.jobs.put id row }
  | .datasource id row => { db with datasources := db.datasources.put id row }

/-- The row a write touches. -/
def TableWrite.target : TableWrite → TableRow
  | .event id _ => .event id
  | .receipt id _ => .event id
  | .parts id _ => .event id
  | .request id _ => .request id
  | .job id _ => .job id
  | .datasource id _ => .datasource id

/-- An event with its receipts. -/
structure Cell where
  event : Option RuntimeOutboxEvent
  receipt : Option DeliveryReceipt
  parts : List PartReceipt

/-- The event under an id, with its receipts. -/
def Tables.cell (db : Tables) (id : String) : Cell :=
  ⟨db.events.get id, db.receipts.get id, (db.parts.get id).getD []⟩

/-- Two databases agree on a row. -/
def Tables.Same (a b : Tables) : TableRow → Prop
  | .event id => a.cell id = b.cell id
  | .request id => a.requests.get id = b.requests.get id
  | .job id => a.jobs.get id = b.jobs.get id
  | .datasource id => a.datasources.get id = b.datasources.get id

/-- What a write leaves in a cell. -/
def Cell.write (c : Cell) (id : String) : TableWrite → Cell
  | .event id' row => if id = id' then { c with event := some row } else c
  | .receipt id' row => if id = id' then { c with receipt := some row } else c
  | .parts id' rows => if id = id' then { c with parts := rows.getD [] } else c
  | _ => c

@[simp] theorem Tables.cell_write (db : Tables) (w : TableWrite) (id : String) :
    (db.write w).cell id = (db.cell id).write id w := by
  cases w with
  | parts id' rows =>
    simp only [Tables.write, Tables.cell, Cell.write, Table.get_put]
    split <;> rfl
  | _ =>
    simp only [Tables.write, Tables.cell, Cell.write, Table.get_put]
    try (split <;> rfl)

theorem Cell.write_of_ne {c : Cell} {id : String} {w : TableWrite}
    (h : w.target ≠ .event id) : c.write id w = c := by
  cases w with
  | event id' row => exact if_neg fun he => h (congrArg TableRow.event he.symm)
  | receipt id' row => exact if_neg fun he => h (congrArg TableRow.event he.symm)
  | parts id' rows => exact if_neg fun he => h (congrArg TableRow.event he.symm)
  | _ => rfl

instance outboxStorage : Storage Tables TableWrite TableRow where
  apply w db := db.write w
  target := TableWrite.target
  same r a b := a.Same b r
  same_equiv r := by cases r <;> exact ⟨fun _ => rfl, Eq.symm, Eq.trans⟩
  same_apply {w r} db hne := by
    cases r with
    | event id => exact (db.cell_write w id).trans (Cell.write_of_ne hne)
    | _ =>
      cases w <;> first
        | rfl
        | (refine (Table.get_put _ _ _ _).trans (if_neg fun he => hne ?_)
           rw [he]; rfl)
  apply_same {r a b} w h := by
    cases r with
    | event id =>
      change (a.write w).cell id = (b.write w).cell id
      rw [Tables.cell_write, Tables.cell_write, show a.cell id = b.cell id from h]
    | _ =>
      cases w <;> first
        | exact h
        | (refine (Table.get_put _ _ _ _).trans (Eq.trans ?_ (Table.get_put _ _ _ _).symm)
           rw [show _ = _ from h])

/-- `OutboxClaim` (`runtime_outbox_service.py:66-74`). -/
structure OutboxClaim where
  eventId : String
  claimToken : String
  leaseGeneration : ℕ
  content : Content
  alreadyDelivered : Bool := false
  completedParts : List String := []

/-- What a call returns. -/
inductive Reply where
  | done
  | count (n : ℕ)
  | flag (b : Bool)
  | claims (claims : List OutboxClaim)

abbrev OutboxScript := Script Tables TableWrite TableRow

/-! ## Claims and deliveries -/

/-- The settings of the outbox (`config.py:117-119`); times are microseconds. -/
structure Settings where
  runtimeOutboxRetry : ℕ := 5000000
  runtimeOutboxClaimTtl : ℕ := 30000000
  runtimeOutboxMaxAttempts : ℕ := 10

/-- What the services take from outside: the `n`-th `uuid4` of call `i` and the check of UUIDs, the
namespace and its `uuid5` of a URL, and the queries of `_source_in_use` over other tables. -/
structure Platform where
  uuid4 : ℕ → ℕ → String
  isUuid : String → Bool
  ns : String
  eventId : String → String
  databaseUrl : String
  settings : Settings := {}
  sourceInUse : Tables → String → String → Bool

/-- `_SENSITIVE_ERROR_FIELDS` (lines 25-38). -/
def sensitiveErrorFields : List String :=
  ["password", "smtp_password", "telegram_bot_token", "openrouter_api_key", "openai_api_key",
    "kaggle_api_key", "api_key", "authorization", "bot_token", "token"]

/-- `redact_secrets_in_text` (`notification_delivery.py:28-32`). -/
def redactSecretsInText (message : String) (secrets : List String) : String :=
  secrets.foldl (fun text secret =>
    if secret = "" then text else text.replace secret "[REDACTED]") message

/-- `_redact_payload_secrets` (lines 77-79). -/
def redactPayloadSecrets (message : String) (payload : Payload) : String :=
  redactSecretsInText message (payload.filterMap fun entry =>
    match entry.2 with
    | .str value => if entry.1 ∈ sensitiveErrorFields ∧ value ≠ "" then some value else none
    | _ => none)

/-- `database_now` (`claiming.py:34-46`): the timestamp of the transaction. -/
def databaseNow : OutboxScript ℕ := Script.query Env.began

/-- `database_now(wall_clock=True)`. -/
def wallClock : OutboxScript ℕ := Script.query Env.now

/-- `session.get(RuntimeOutboxEvent, id, with_for_update=True, populate_existing=True)`. -/
def lockEvent (id : String) : OutboxScript (Option RuntimeOutboxEvent) :=
  Script.statement
    (fun e => { locks := (e.db.events.get id).toList.map fun _ => (.event id, .exclusive) })
    (fun e => e.db.events.get id)

/-- A locked event, and what the session flushes of it: `change` has the timestamp of the
transaction and the row, and gives the new row, if there is one. -/
def modifyEvent (id : String) (change : ℕ → RuntimeOutboxEvent → Option RuntimeOutboxEvent) :
    OutboxScript (Option RuntimeOutboxEvent) :=
  Script.statement
    (fun e =>
      { locks := (e.db.events.get id).toList.map fun _ => (.event id, .exclusive)
        writes := ((e.db.events.get id).bind (change e.began)).toList.map (.event id) })
    (fun e => e.db.events.get id)

/-- What the session flushes of an event that it has locked; `rows` has the timestamp of the
transaction and the receipts of the event. -/
def flush (id : String) (rows : ℕ → Cell → List TableWrite) : OutboxScript Unit :=
  Script.statement (fun e => { writes := rows e.began (e.db.cell id) }) (fun _ => ())

/-- An `INSERT` of an event; whether it raises no `IntegrityError`. -/
def insertEvent (id : String) (row : ℕ → RuntimeOutboxEvent) : OutboxScript Bool :=
  Script.statement
    (fun e =>
      { locks := [(.event id, .exclusive)]
        writes := if (e.db.events.get id).isNone then [.event id (row e.began)] else [] })
    (fun e => (e.db.events.get id).isNone)

/-- The row of a new event (lines 84-93). -/
def newEvent (content : Content) (now : ℕ) : RuntimeOutboxEvent where
  content
  status := .pending
  availableAt := now
  createdAt := now
  updatedAt := now

/-- `_enqueue_event` (lines 82-99) and the commit of its caller. -/
def enqueueEvent (p : Platform) (i : ℕ) (content : Content) : OutboxScript Reply := do
  let _ ← databaseNow
  if ← insertEvent (p.uuid4 i 0) (newEvent content) then
    Script.commitNow
    pure .done
  else .raise "duplicate key value violates unique constraint"

/-- `RuntimePayloadKind.from_payload` (`domain/runtime/events.py:17-25`). -/
def RuntimePayloadKind.fromPayload (payload : Payload) : Option RuntimePayloadKind :=
  match payload.get? "kind" with
  | some (.str token) =>
    [RuntimePayloadKind.build, .engine, .job, .computeRequest, .computeResponse,
      .datasourceDelete].find? (·.token = token)
  | _ => none

/-- `enqueue_runtime_event` (lines 102-108). -/
def enqueueRuntimeEvent (p : Platform) (i : ℕ) (payload : Payload) : OutboxScript Reply :=
  match RuntimePayloadKind.fromPayload payload with
  | none => .raise "Unsupported runtime outbox payload kind"
  | some kind => enqueueEvent p i (.runtime kind payload)

/-- The kind of a notification delivery (lines 112-114). -/
def DeliveryKind.fromPayload (payload : Payload) : Option DeliveryKind :=
  match payload.get? "kind" with
  | some (.str token) => [DeliveryKind.email, .telegram].find? (·.token = token)
  | _ => none

/-- `enqueue_notification_delivery` (lines 111-115). -/
def enqueueNotificationDelivery (p : Platform) (i : ℕ) (payload : Payload) : OutboxScript Reply :=
  match DeliveryKind.fromPayload payload with
  | none => .raise "Unsupported notification delivery kind"
  | some kind => enqueueEvent p i (.external kind payload)

/-- The consumers of the outbox (line 311): runtime wakes, one kind of deliveries, or storage
cleanups. -/
inductive Lane where
  | runtime
  | external (kind : DeliveryKind)
  | cleanup
  deriving DecidableEq, Repr

/-- The kinds of events that a consumer claims. -/
def Lane.covers : Lane → Content → Bool
  | .runtime, .runtime _ _ => true
  | .external kind, .external kind' _ => kind = kind'
  | .cleanup, .cleanup _ => true
  | _, _ => false

/-- The event may be claimed (lines 301-307). -/
def RuntimeOutboxEvent.due (row : RuntimeOutboxEvent) (now : ℕ) : Bool :=
  (row.status = .pending || row.status = .failed ||
    (row.status = .dispatching && row.leaseExpiresAt.any (· ≤ now))) && row.availableAt ≤ now

/-- The order in which events are claimed (line 296). -/
def claimedBefore (a b : String × RuntimeOutboxEvent) : Prop :=
  a.2.availableAt < b.2.availableAt ∨ (a.2.availableAt = b.2.availableAt ∧
    (a.2.createdAt < b.2.createdAt ∨ (a.2.createdAt = b.2.createdAt ∧ a.1 ≤ b.1)))

instance decidableClaimedBefore : DecidableRel claimedBefore :=
  fun _ _ => inferInstanceAs (Decidable (_ ∨ _))

/-- The rows that `_claim_next_events` selects, less those that are locked (lines 298-313). -/
def nextEvents (e : Env Tables TableRow) (lane : Lane) (limit : ℕ) :
    List (String × RuntimeOutboxEvent) :=
  (((e.db.events.rows.filter fun r => lane.covers r.2.content && r.2.due e.began).insertionSort
    claimedBefore).filter fun r => e.free (.event r.1) .exclusive).take limit

/-- The row of a claimed event (lines 332-337). -/
def RuntimeOutboxEvent.claimed (row : RuntimeOutboxEvent) (s : Settings) (token : String)
    (now : ℕ) : RuntimeOutboxEvent :=
  { row with
    status := .dispatching
    claimToken := some token
    leaseGeneration := row.leaseGeneration + 1
    leaseExpiresAt := some (now + s.runtimeOutboxClaimTtl)
    attempts := row.attempts + 1
    updatedAt := now }

/-- The claim of an event, with its receipts (lines 338-350). -/
def outboxClaim (id : String) (row : RuntimeOutboxEvent) (token : String) (db : Tables) :
    OutboxClaim where
  eventId := id
  claimToken := token
  leaseGeneration := row.leaseGeneration + 1
  content := row.content
  alreadyDelivered := row.content.external?.isSome && (db.cell id).receipt.isSome
  completedParts :=
    if row.content.external? = some .telegram then (db.cell id).parts.map PartReceipt.partKey
    else []

/-- `_claim_next_events` (lines 289-353). The tokens of the call begin with number `drawn`. -/
def claimNextEvents (p : Platform) (i : ℕ) (lane : Lane) (limit drawn : ℕ) :
    OutboxScript (List OutboxClaim) :=
  if limit < 1 then pure []
  else do
    let _ ← databaseNow
    let claims ← Script.statement
      (fun e =>
        { writes := (nextEvents e lane limit).zipIdx.map fun r =>
            .event r.1.1 (r.1.2.claimed p.settings (p.uuid4 i (drawn + r.2)) e.began) })
      (fun e => (nextEvents e lane limit).zipIdx.map fun r =>
        outboxClaim r.1.1 r.1.2 (p.uuid4 i (drawn + r.2)) e.db)
    if claims.isEmpty then do
      Script.rollbackNow
      pure []
    else do
      Script.commitNow
      pure claims

/-- `error[:1000]`. -/
def truncated (error : String) : String := String.ofList (error.toList.take 1000)

/-- The failure is final (line 378). -/
def RuntimeOutboxEvent.exhausted (row : RuntimeOutboxEvent) (s : Settings) : Bool :=
  row.content.intent?.isNone && s.runtimeOutboxMaxAttempts ≤ row.attempts

/-- The row of a settled event (lines 384-391). -/
def RuntimeOutboxEvent.settled (row : RuntimeOutboxEvent) (s : Settings) (error : Option String)
    (now : ℕ) : RuntimeOutboxEvent :=
  let settledRow := { row with
    claimToken := none
    leaseExpiresAt := none
    lastError := error.map truncated
    updatedAt := now }
  match error with
  | none => { settledRow with status := .dispatched, availableAt := now, dispatchedAt := some now }
  | some _ =>
    if row.exhausted s then
      { settledRow with status := .poisoned, availableAt := now, dispatchedAt := none }
    else
      { settledRow with
        status := .failed
        availableAt := now + s.runtimeOutboxRetry
        dispatchedAt := none }

/-- The event is being dispatched under the claim (lines 368, 374). -/
def RuntimeOutboxEvent.heldBy (row : RuntimeOutboxEvent) (token : String) (generation : ℕ) : Bool :=
  row.status = .dispatching && row.claimToken = some token && row.leaseGeneration = generation

/-- A claim with its outcome: `none`, or the error. -/
abbrev Outcome := OutboxClaim × Option String

/-- `claims_by_id` (line 367): the last outcome of an event counts. -/
def outcomeOf (outcomes : List Outcome) (id : String) : Option Outcome :=
  outcomes.reverse.find? (·.1.eventId = id)

/-- The events that the outcomes settle, with their claims and errors (lines 367-375). -/
def settledBy (db : Tables) (outcomes : List Outcome) :
    List ((String × RuntimeOutboxEvent) × Option String) :=
  db.events.rows.filterMap fun r => (outcomeOf outcomes r.1).bind fun o =>
    if r.2.heldBy o.1.claimToken o.1.leaseGeneration then some (r, o.2) else none

/-- The rows that are flushed for a settled event (lines 378-392). -/
def settledRows (s : Settings) (record : Bool) (now : ℕ) (id : String) (row : RuntimeOutboxEvent)
    (receipt : Option DeliveryReceipt) (error : Option String) : List TableWrite :=
  (match row.content.external? with
    | some kind =>
      if record && error.isNone && receipt.isNone then [TableWrite.receipt id ⟨kind, now⟩] else []
    | none => []) ++
  (if error.isNone && row.content.external? = some .telegram then [TableWrite.parts id none]
    else []) ++
  [TableWrite.event id (row.settled s error now)]

/-- `_finalize_claims` (lines 356-400): how many events were settled, and how many delivered. It
waits for the rows that other transactions have locked. -/
def finalizeClaims (p : Platform) (outcomes : List Outcome) (record : Bool) :
    OutboxScript (ℕ × ℕ) :=
  if outcomes.isEmpty then pure (0, 0)
  else do
    let _ ← databaseNow
    let settled ← Script.statement
      (fun e =>
        { locks := (e.db.events.rows.filter fun r => (outcomeOf outcomes r.1).isSome &&
            r.2.status = .dispatching).map fun r => (.event r.1, .exclusive)
          writes := (settledBy e.db outcomes).flatMap fun r =>
            settledRows p.settings record e.began r.1.1 r.1.2 (e.db.cell r.1.1).receipt r.2 })
      (fun e => (settledBy e.db outcomes).map fun r => r.2.isNone)
    if settled.isEmpty then do
      Script.rollbackNow
      pure (0, 0)
    else do
      Script.commitNow
      pure (settled.length, settled.count true)

/-- The rounds of `_dispatch_postgres_runtime_events` (lines 187-208). `fault` tells in which
rounds the notifications raise, and with which text. -/
def dispatchRounds (p : Platform) (i limit : ℕ) (fault : ℕ → Option String) :
    ℕ → ℕ → ℕ → OutboxScript ℕ
  | 0, _, dispatched => pure dispatched
  | fuel + 1, processed, dispatched =>
    if limit ≤ processed then pure dispatched
    else do
      let claims ← claimNextEvents p i .runtime (limit - processed) processed
      if claims.isEmpty then pure dispatched
      else match fault processed with
        | none => do
          let outcome ← finalizeClaims p (claims.map fun claim => (claim, none)) false
          dispatchRounds p i limit fault fuel (processed + claims.length) (dispatched + outcome.2)
        | some text => do
          Script.rollbackNow
          let outcome ← finalizeClaims p (claims.map fun claim =>
            (claim, some (redactPayloadSecrets text claim.content.payload))) false
          dispatchRounds p i limit fault fuel (processed + claims.length) (dispatched + outcome.2)

/-- `dispatch_pending_events` (lines 163-184) on PostgreSQL. -/
def dispatchPendingEvents (p : Platform) (i limit : ℕ) (fault : ℕ → Option String) :
    OutboxScript Reply := do
  let dispatched ← dispatchRounds p i limit fault limit 0 0
  -- the marker of the namespace is refreshed and committed
  Script.commitNow
  pure (.count dispatched)

/-- `claim_external_deliveries` (lines 222-224). -/
def claimExternalDeliveries (p : Platform) (i : ℕ) (kind : DeliveryKind) (limit : ℕ) :
    OutboxScript Reply := do
  let claims ← claimNextEvents p i (.external kind) limit 0
  pure (.claims claims)

/-- `finalize_external_delivery` (lines 236-251). -/
def finalizeExternalDelivery (p : Platform) (claim : OutboxClaim) (error : Option String) :
    OutboxScript Reply := do
  let redacted := error.map fun text => redactPayloadSecrets text claim.content.payload
  let outcome ← finalizeClaims p [(claim, redacted)] (error.isNone && !claim.alreadyDelivered)
  if outcome.1 = 0 then pure (.flag false)
  else do
    Script.commitNow
    pure (.flag (outcome.1 = 1))

/-- The parts of an event with one more (lines 280-281). -/
def addPart (parts : List PartReceipt) (partKey : String) (now : ℕ) : List PartReceipt :=
  if parts.any (·.partKey = partKey) then parts else parts ++ [⟨partKey, now⟩]

/-- The claim may record a part at the time `now` (lines 267-275). -/
def RuntimeOutboxEvent.records (row : RuntimeOutboxEvent) (claim : OutboxClaim) (now : ℕ) : Bool :=
  row.content.external? = some .telegram &&
    row.heldBy claim.claimToken claim.leaseGeneration && row.leaseExpiresAt.any (now < ·)

/-- `record_external_delivery_part` (lines 254-286). -/
def recordExternalDeliveryPart (p : Platform) (claim : OutboxClaim) (partKey : String) :
    OutboxScript Reply :=
  if claim.content.external? ≠ some .telegram then
    .raise "Per-part progress is only supported for Telegram deliveries"
  else if partKey = "" ∨ 128 < partKey.length then
    .raise "Telegram delivery part key is invalid"
  else do
    let event ← lockEvent claim.eventId
    let now ← wallClock
    match event with
    | none => do
      Script.rollbackNow
      pure (.flag false)
    | some row =>
      if row.records claim now then do
        flush claim.eventId fun _ cell =>
          [.parts claim.eventId (some (addPart cell.parts partKey now)),
            .event claim.eventId { row with
              leaseExpiresAt := some (now + p.settings.runtimeOutboxClaimTtl)
              updatedAt := now }]
        Script.commitNow
        pure (.flag true)
      else do
        Script.rollbackNow
        pure (.flag false)

/-- Whether a post to the provider raises no exception, and whether the part is recorded then. -/
structure PartOutcome where
  posted : Bool
  recorded : Bool

/-- `_deliver_telegram` (`notification_delivery.py:84-114`): the parts for which the provider is
called, in order, and whether the delivery ends without an exception. A part that is completed is
skipped. -/
def deliverParts (completed : List String) (outcome : String → PartOutcome) :
    List String → List String × Bool
  | [] => ([], true)
  | part :: rest =>
    if part ∈ completed then deliverParts completed outcome rest
    else if !(outcome part).posted then ([part], false)
    else if !(outcome part).recorded then ([part], false)
    else
      let (posted, ended) := deliverParts completed outcome rest
      (part :: posted, ended)

end DataForge.Outbox
