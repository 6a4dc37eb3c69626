import DataForge.ReadCommitted.Table
import DataForge.ReadCommitted.Logic

/-!
# Edit locks: service

The lock table (`backend_core/persistence/locks/models.py`) and the operations of
`modules/locks/service.py` as transaction scripts, statement by statement. The clock is the
one of the system, in microseconds; `uuid4 i n` is the token that call `i` draws with `n`
attempts left after the current one.
-/

namespace DataForge.Locks

open ReadCommitted

/-- The primary key `(resource_type, resource_id)`. -/
structure ResourceKey where
  resourceType : String
  resourceId : String
  deriving DecidableEq, Repr

/-- A row of `resource_locks` (`persistence/locks/models.py:10-27`). -/
structure ResourceLock where
  ownerId : String
  lockToken : String
  acquiredAt : ℕ
  expiresAt : ℕ
  lastHeartbeat : ℕ
  deriving DecidableEq, Repr

/-- `is_expired` (`persistence/locks/models.py:17-19`). -/
def ResourceLock.isExpired (l : ResourceLock) (now : ℕ) : Bool := l.expiresAt ≤ now

/-- The table of locks. -/
structure LockTable where
  locks : Table ResourceKey ResourceLock

/-- A row write of the lock table. -/
structure LockWrite where
  key : ResourceKey
  row : Option ResourceLock

/-- The row stored under a key. -/
def LockTable.get (db : LockTable) (k : ResourceKey) : Option ResourceLock := db.locks.get k

/-- Perform one row write. -/
def LockTable.write (db : LockTable) (w : LockWrite) : LockTable := ⟨db.locks.put w.key w.row⟩

@[simp] theorem LockTable.get_write (db : LockTable) (w : LockWrite) (k : ResourceKey) :
    (db.write w).get k = if k = w.key then w.row else db.get k :=
  Table.get_put db.locks w.key k w.row

instance lockStorage : Storage LockTable LockWrite ResourceKey where
  apply w db := db.write w
  target := LockWrite.key
  same k a b := a.get k = b.get k
  same_equiv _ := ⟨fun _ => rfl, Eq.symm, Eq.trans⟩
  same_apply {w k} db hne := by rw [LockTable.get_write, if_neg (Ne.symm hne)]
  apply_same {k a b} w h := by rw [LockTable.get_write, LockTable.get_write, h]

/-- `LockStatusResponse` (`modules/locks/schemas.py`). -/
structure LockStatusResponse where
  resource : ResourceKey
  lock : ResourceLock
  isExpired : Bool
  deriving DecidableEq, Repr

/-- What the operations return. -/
inductive Reply where
  | status (lock : LockStatusResponse)
  | lookup (lock : Option LockStatusResponse) (cleaned : Bool)
  | released (released : Bool)
  | allowed
  deriving DecidableEq, Repr

/-- The operations (`modules/locks/service.py:36-229`). -/
inductive Op where
  | acquireLock (k : ResourceKey) (ownerId : String) (ttlSeconds : Option ℕ)
  | heartbeatLock (k : ResourceKey) (ownerId lockToken : String) (ttlSeconds : Option ℕ)
  | releaseLock (k : ResourceKey) (ownerId lockToken : String)
  | lookupLockStatus (k : ResourceKey)
  | ensureMutationLock (k : ResourceKey) (ownerId : Option String)
  deriving DecidableEq, Repr

abbrev LockScript := Script LockTable LockWrite ResourceKey

abbrev LockSystem := System Op LockTable LockWrite ResourceKey Reply

/-- What the service takes from outside: `uuid.uuid4` and `settings.lock_ttl_seconds`. -/
structure Platform where
  uuid4 : ℕ → ℕ → String
  lockTtlSeconds : ℕ := 30

/-- `_expires_at` (`service.py:17-19`); a TTL of 0 is no TTL. -/
def expiresAt (p : Platform) (now : ℕ) (ttlSeconds : Option ℕ) : ℕ :=
  now + (match ttlSeconds with
    | some (n + 1) => n + 1
    | _ => p.lockTtlSeconds) * 1000000

/-- `_status` (`service.py:22-33`). -/
def status (k : ResourceKey) (l : ResourceLock) (now : ℕ) : LockStatusResponse :=
  ⟨k, l, l.isExpired now⟩

/-- `f'{resource_type} {resource_id} …'`. -/
def message (k : ResourceKey) (text : String) : String :=
  k.resourceType ++ " " ++ k.resourceId ++ " " ++ text

/-- `_utcnow()`. -/
def utcNow : LockScript ℕ := Script.query Env.now

/-- `get_lock` (`service.py:36-37`) in a session that has not loaded the row, or has expired it. -/
def getLock (k : ResourceKey) : LockScript (Option ResourceLock) :=
  Script.query fun e => e.db.get k

/-- An `UPDATE` or `DELETE` of the row of `k` where `test` holds; whether `rowcount` is 1. -/
def writeWhere (k : ResourceKey) (test : ResourceLock → Bool)
    (set : ResourceLock → Option ResourceLock) : LockScript Bool :=
  Script.statement
    (fun e => { writes := ((e.db.get k).filter test).toList.map fun r => ⟨k, set r⟩ })
    (fun e => (e.db.get k).any test)

/-- An `INSERT`; whether it raises no `IntegrityError`. It waits for another transaction that
writes under its key. -/
def insertLock (k : ResourceKey) (row : ResourceLock) : LockScript Bool :=
  Script.statement (fun e =>
      { locks := [(k, .exclusive)]
        writes := if (e.db.get k).isNone then [⟨k, some row⟩] else [] })
    (fun e => (e.db.get k).isNone)

/-- `_delete_expired_lock` (`service.py:60-76`). -/
def deleteExpiredLock (k : ResourceKey) (now : ℕ) : LockScript Bool := do
  let deleted ← writeWhere k (fun r => r.isExpired now) (fun _ => none)
  Script.commitNow
  pure deleted

/-- `lookup_lock_status` (`service.py:40-53`). -/
def lookupLockStatus (k : ResourceKey) : LockScript Reply := do
  match ← getLock k with
  | none => pure (.lookup none false)
  | some lock =>
    let now ← utcNow
    if lock.isExpired now then
      if ← deleteExpiredLock k now then
        pure (.lookup none true)
      else
        match ← getLock k with
        | none => pure (.lookup none false)
        | some lock => pure (.lookup (some (status k lock now)) false)
    else pure (.lookup (some (status k lock now)) false)

/-- The read of the row that an acquire has committed (`service.py:107-108,132-135`); `absent`
follows when the row is gone. -/
def readBack (k : ResourceKey) (now : ℕ) (absent : LockScript Reply) : LockScript Reply := do
  match ← getLock k with
  | none => absent
  | some current => pure (.status (status k current now))

/-- The loop of `acquire_lock` (`service.py:87-143`) with `n` attempts left. -/
def acquireAttempts (p : Platform) (i : ℕ) (k : ResourceKey) (ownerId : String)
    (ttlSeconds : Option ℕ) : ℕ → LockScript Reply
  | 0 => do
    match ← getLock k with
    | none => .raise (message k "lock could not be acquired")
    | some current =>
      let now ← utcNow
      if current.ownerId = ownerId || current.isExpired now then
        .raise (message k "lock could not be acquired")
      else .raise (message k "is locked by another owner")
  | n + 1 => do
    let now ← utcNow
    let row : ResourceLock := ⟨ownerId, p.uuid4 i n, now, expiresAt p now ttlSeconds, now⟩
    match ← getLock k with
    | none =>
      if ← insertLock k row then
        Script.commitNow
        -- `session.refresh` raises when the row is gone
        readBack k now (.raise "Could not refresh instance")
      else
        Script.rollbackNow
        acquireAttempts p i k ownerId ttlSeconds n
    | some lock =>
      if lock.ownerId ≠ ownerId && !lock.isExpired now then
        .raise (message k "is locked by another owner")
      else if ← writeWhere k (fun r => r.ownerId = ownerId || r.isExpired now)
          (fun _ => some row) then
        Script.commitNow
        readBack k now (acquireAttempts p i k ownerId ttlSeconds n)
      else
        Script.rollbackNow
        acquireAttempts p i k ownerId ttlSeconds n

/-- `acquire_lock` (`service.py:79-143`). -/
def acquireLock (p : Platform) (i : ℕ) (k : ResourceKey) (ownerId : String)
    (ttlSeconds : Option ℕ) : LockScript Reply :=
  acquireAttempts p i k ownerId ttlSeconds 2

/-- `heartbeat_lock` (`service.py:146-184`). -/
def heartbeatLock (p : Platform) (k : ResourceKey) (ownerId lockToken : String)
    (ttlSeconds : Option ℕ) : LockScript Reply := do
  let now ← utcNow
  if ← writeWhere k
      (fun r => r.ownerId = ownerId && r.lockToken = lockToken && !r.isExpired now)
      (fun r => some { r with lastHeartbeat := now, expiresAt := expiresAt p now ttlSeconds }) then
    Script.commitNow
    match ← getLock k with
    | none => .raise (message k "lock is not active")
    | some lock => pure (.status (status k lock now))
  else
    Script.rollbackNow
    match ← getLock k with
    | none => .raise (message k "lock is not active")
    | some lock =>
      if lock.isExpired now then .raise (message k "lock is not active")
      else if lock.ownerId = ownerId then pure (.status (status k lock now))
      else .raise (message k "lock is owned by another owner")

/-- `release_lock` (`service.py:187-217`). -/
def releaseLock (k : ResourceKey) (ownerId lockToken : String) : LockScript Reply := do
  let now ← utcNow
  let released ← writeWhere k
    (fun r => r.ownerId = ownerId && r.lockToken = lockToken && !r.isExpired now) (fun _ => none)
  Script.commitNow
  if released then pure (.released true)
  else do
    let _ ← deleteExpiredLock k now
    pure (.released false)

/-- `ensure_mutation_lock` (`service.py:220-229`). -/
def ensureMutationLock (k : ResourceKey) (ownerId : Option String) : LockScript Reply := do
  let now ← utcNow
  match ← getLock k with
  | none => pure .allowed
  | some lock =>
    if lock.isExpired now then do
      let _ ← deleteExpiredLock k now
      pure .allowed
    else if ownerId ≠ some lock.ownerId then .raise (message k "is locked by another owner")
    else pure .allowed

/-- The script of an operation. -/
def code (p : Platform) (i : ℕ) : Op → LockScript Reply
  | .acquireLock k ownerId ttl => acquireLock p i k ownerId ttl
  | .heartbeatLock k ownerId token ttl => heartbeatLock p k ownerId token ttl
  | .releaseLock k ownerId token => releaseLock k ownerId token
  | .lookupLockStatus k => lookupLockStatus k
  | .ensureMutationLock k ownerId => ensureMutationLock k ownerId

end DataForge.Locks
