import DataForge.Locks.Service

/-!
# Edit locks: protocol

What a commit of each operation may do to the lock row of a resource, and that the
conditional writes of `modules/locks/service.py` do no more, whatever other calls commit
between a read and the write that follows it.
-/

namespace DataForge.Locks

open ReadCommitted

/-- The operations that clean up an expired lock. -/
def Op.cleans (k : ResourceKey) : Op → Bool
  | .releaseLock k' _ _ => k' = k
  | .lookupLockStatus k' => k' = k
  | .ensureMutationLock k' _ => k' = k
  | _ => false

/-- What a commit of call `i` at time `now` may do to the row of `k`. A lock is deleted by its
owner's current token, or because it had expired in `v`, where the call read the clock. -/
inductive LockStep (observed : ℕ → World LockTable → Prop) (i : ℕ) (op : Op) (k : ResourceKey)
    (now : ℕ) : Option ResourceLock → Option ResourceLock → Prop where
  | same (row : Option ResourceLock) : LockStep observed i op k now row row
  | acquired {before : Option ResourceLock} {l' : ResourceLock} {ttl : Option ℕ}
      (hop : op = .acquireLock k l'.ownerId ttl)
      (hfree : ∀ l, before = some l → l.ownerId = l'.ownerId ∨ l.expiresAt ≤ now) :
      LockStep observed i op k now before (some l')
  | renewed {l l' : ResourceLock} {ttl : Option ℕ}
      (hop : op = .heartbeatLock k l.ownerId l.lockToken ttl)
      (howner : l'.ownerId = l.ownerId) (htoken : l'.lockToken = l.lockToken) :
      LockStep observed i op k now (some l) (some l')
  | released {l : ResourceLock} (hop : op = .releaseLock k l.ownerId l.lockToken) :
      LockStep observed i op k now (some l) none
  | cleaned {l : ResourceLock} {v : World LockTable} (hop : op.cleans k = true)
      (hv : observed i v) (hexp : l.expiresAt ≤ v.now) (hnow : v.now ≤ now) :
      LockStep observed i op k now (some l) none

/-- The protocol of the lock table; `observed i` are the states in which call `i` reads. -/
def protocol (observed : ℕ → World LockTable → Prop) :
    Protocol Op LockTable LockWrite ResourceKey where
  visited i effect w := effect = (fun _ => {}) → observed i w
  calls _ := True
  inv _ := True
  act i op _ w db := ∀ k, LockStep observed i op k w.now (w.db.get k) (db.get k)
  cond _ _ _ := True
  inv_tick _ _ := trivial
  inv_act _ _ _ _ := trivial

/-- What an acquire returns is the row that is committed at that moment. -/
def Returned (_ : ℕ) (op : Op) (reply : Reply) (_ : Txn LockWrite ResourceKey)
    (w : World LockTable) : Prop :=
  ∀ k ownerId ttl, op = .acquireLock k ownerId ttl →
    ∃ l now, w.db.get k = some l ∧ reply = .status (status k l now)

/-- A transaction that is about to replace the row `before` of `k`, which it has locked. -/
structure Pending (k : ResourceKey) (before after : Option ResourceLock)
    (t : Txn LockWrite ResourceKey) (w : World LockTable) : Prop where
  writes : t.writes = [⟨k, after⟩]
  held : ∃ h ∈ t.held, h.res = k
  before : w.db.get k = before

section Statements

variable {observed : ℕ → World LockTable → Prop} {β : Type} {i : ℕ} {op : Op} {k : ResourceKey}
  {Q : Reply → Txn LockWrite ResourceKey → World LockTable → Prop}
  {t : Txn LockWrite ResourceKey} {w : World LockTable} {before after : Option ResourceLock}

theorem wp_utcNow {rest : ℕ → LockScript Reply} (ht : t.writes = [])
    (h : ∀ v t', t'.writes = [] → observed i v →
      (protocol observed).wp i op Q (rest v.now) t' v) :
    (protocol observed).wp i op Q (utcNow >>= rest) t w := by
  apply Protocol.wp_read
  intro w' e _ _ hv hs
  rw [hs.now]
  exact h w' ⟨t.held, t.writes, some e.began⟩ ht (hv rfl)

theorem wp_getLock {rest : Option ResourceLock → LockScript Reply} (ht : t.writes = [])
    (h : ∀ w' t', t'.writes = [] → w.now ≤ w'.now →
      (protocol observed).wp i op Q (rest (w'.db.get k)) t' w') :
    (protocol observed).wp i op Q (getLock k >>= rest) t w := by
  apply Protocol.wp_query
  intro w' e hr _ hs
  rw [hs.db, ht, view_nil]
  exact h w' _ rfl hr.now_le

variable {rest : Unit → LockScript Reply}

theorem wp_rollback (h : ∀ w', w.now ≤ w'.now → (protocol observed).wp i op Q (rest ()) {} w') :
    (protocol observed).wp i op Q (Script.rollbackNow >>= rest) t w :=
  Protocol.wp_rollback fun w' hr _ => h w' hr.now_le

theorem wp_commit (ht : t.writes = [])
    (h : ∀ w', w.now ≤ w'.now → (protocol observed).wp i op Q (rest ()) {} w') :
    (protocol observed).wp i op Q (Script.commitNow >>= rest) t w := by
  apply Protocol.wp_commit
  intro w' hr _ _
  rw [ht, view_nil]
  exact And.intro (fun k => .same _) (h w' hr.now_le)

theorem wp_commitPending (hp : Pending k before after t w)
    (hstep : ∀ now, w.now ≤ now → LockStep observed i op k now before after)
    (h : ∀ w', w.now ≤ w'.now → (protocol observed).wp i op Q (rest ()) {} w') :
    (protocol observed).wp i op Q (Script.commitNow >>= rest) t w := by
  apply Protocol.wp_commit
  intro w' hr _ _
  obtain ⟨lock, hmem, rfl⟩ := hp.held
  have hsame : w'.db.get lock.res = before := (hr.same hmem).trans hp.before
  rw [hp.writes]
  refine ⟨?_, h _ hr.now_le⟩
  intro k'
  change LockStep observed i op k' w'.now _ ((w'.db.write ⟨lock.res, after⟩).get k')
  rw [LockTable.get_write]
  split
  · next hk =>
    subst hk
    rw [hsame]
    exact hstep w'.now hr.now_le
  · exact .same _

theorem wp_writeWhere {test : ResourceLock → Bool} {set : ResourceLock → Option ResourceLock}
    {rest : Bool → LockScript Reply} (ht : t.writes = [])
    (hit : ∀ w' t' r, w.now ≤ w'.now → test r = true → Pending k (some r) (set r) t' w' →
      (protocol observed).wp i op Q (rest true) t' w')
    (miss : ∀ w' t', w.now ≤ w'.now → t'.writes = [] →
      (protocol observed).wp i op Q (rest false) t' w') :
    (protocol observed).wp i op Q (writeWhere k test set >>= rest) t w := by
  apply Protocol.wp_statement
  intro w' e hr _ hs
  have hdb : e.db = w'.db := by rw [hs.db, ht, view_nil]
  rw [hdb]
  by_cases hrow : ∃ r, w'.db.get k = some r ∧ test r = true
  · obtain ⟨r, hr', htest⟩ := hrow
    simp only [hr', Option.filter_some, htest, if_true, Option.any_some]
    refine hit w' _ r hr.now_le htest ⟨?_, ?_, hr'⟩
    · simp [Txn.after, ht]
    · exact ⟨_, t.lock_mem_after e (n := (k, .exclusive)) (by simp [Effect.needs, Storage.target]),
        rfl⟩
  · have hnone : (w'.db.get k).filter test = none := by
      rw [Option.filter_eq_none_iff]
      exact fun r hr' htest => hrow ⟨r, hr', htest⟩
    have hany : (w'.db.get k).any test = false := by
      rw [Bool.eq_false_iff]
      intro hany
      exact hrow ((Option.any_eq_true _ _).mp hany)
    rw [hnone, hany]
    exact miss w' _ hr.now_le (by simp [Txn.after, ht])

theorem wp_insertLock {row : ResourceLock} {rest : Bool → LockScript Reply} (ht : t.writes = [])
    (hit : ∀ w' t', w.now ≤ w'.now → Pending k none (some row) t' w' →
      (protocol observed).wp i op Q (rest true) t' w')
    (miss : ∀ w' t', w.now ≤ w'.now → (protocol observed).wp i op Q (rest false) t' w') :
    (protocol observed).wp i op Q (insertLock k row >>= rest) t w := by
  apply Protocol.wp_statement
  intro w' e hr _ hs
  have hdb : e.db = w'.db := by rw [hs.db, ht, view_nil]
  rw [hdb]
  cases hrow : w'.db.get k with
  | none =>
    refine hit w' _ hr.now_le ⟨by simp [Txn.after, ht], ?_, hrow⟩
    exact ⟨_, t.lock_mem_after e (n := (k, .exclusive)) (by simp [Effect.needs]), rfl⟩
  | some r => exact miss w' _ hr.now_le

theorem wp_deleteExpiredLock {v : World LockTable} {rest : Bool → LockScript Reply}
    (hop : op.cleans k = true) (hv : observed i v) (hnow : v.now ≤ w.now) (ht : t.writes = [])
    (h : ∀ b w', w.now ≤ w'.now → (protocol observed).wp i op Q (rest b) {} w') :
    (protocol observed).wp i op Q (deleteExpiredLock k v.now >>= rest) t w := by
  rw [deleteExpiredLock, Script.bind_assoc]
  apply wp_writeWhere ht
  · intro w1 t1 r h1 htest hp
    rw [Script.bind_assoc]
    refine wp_commitPending hp (fun now hle => ?_) fun w2 h2 => h true w2 (Nat.le_trans h1 h2)
    exact .cleaned hop hv (of_decide_eq_true htest) (Nat.le_trans hnow (Nat.le_trans h1 hle))
  · intro w1 t1 h1 ht1
    rw [Script.bind_assoc]
    exact wp_commit ht1 fun w2 h2 => h false w2 (Nat.le_trans h1 h2)

end Statements

section Operations

variable {observed : ℕ → World LockTable → Prop} {p : Platform} {i : ℕ} {k : ResourceKey}
  {ownerId token : String} {ttl : Option ℕ} {t : Txn LockWrite ResourceKey} {w : World LockTable}

theorem returned_of_ne {op : Op} {reply : Reply}
    (h : ∀ k ownerId ttl, op ≠ .acquireLock k ownerId ttl) : Returned i op reply t w :=
  fun k ownerId ttl hop => absurd hop (h k ownerId ttl)

theorem wp_readBack {now : ℕ} {absent : LockScript Reply} (ht : t.writes = [])
    (h : ∀ w' t', t'.writes = [] →
      (protocol observed).wp i (.acquireLock k ownerId ttl)
        (Returned i (.acquireLock k ownerId ttl)) absent t' w') :
    (protocol observed).wp i (.acquireLock k ownerId ttl) (Returned i (.acquireLock k ownerId ttl))
      (readBack k now absent) t w := by
  apply wp_getLock ht
  intro w' t' ht' _
  cases hrow : w'.db.get k with
  | none => exact h w' t' ht'
  | some current =>
    intro k' ownerId' ttl' hop
    cases hop
    exact ⟨current, now, hrow, rfl⟩

/-- By induction on the attempts that are left. -/
theorem wp_acquireAttempts (n : ℕ) (ht : t.writes = []) :
    (protocol observed).wp i (.acquireLock k ownerId ttl) (Returned i (.acquireLock k ownerId ttl))
      (acquireAttempts p i k ownerId ttl n) t w := by
  induction n generalizing t w with
  | zero =>
    apply wp_getLock ht
    intro w1 t1 ht1 _
    cases w1.db.get k with
    | none => trivial
    | some current =>
      apply wp_utcNow ht1
      intro v t2 _ _
      split <;> trivial
  | succ n ih =>
    apply wp_utcNow ht
    intro v t1 ht1 _
    apply wp_getLock ht1
    intro w1 t2 ht2 h1
    cases w1.db.get k with
    | none =>
      apply wp_insertLock ht2
      · intro w2 t3 h2 hp
        refine wp_commitPending hp (fun now _ => ?_) fun w3 _ => ?_
        · exact .acquired rfl fun l hl => by cases hl
        · exact wp_readBack rfl fun _ _ _ => trivial
      · intro w2 t3 _
        exact wp_rollback fun w3 _ => ih rfl
    | some lock =>
      dsimp only
      split
      · trivial
      · apply wp_writeWhere ht2
        · intro w2 t3 r h2 htest hp
          refine wp_commitPending hp (fun now hle => ?_) fun w3 _ => ?_
          · refine .acquired rfl fun l hl => ?_
            cases hl
            rw [Bool.or_eq_true, decide_eq_true_eq] at htest
            refine htest.imp id fun hexp => ?_
            have hle' : r.expiresAt ≤ v.now := of_decide_eq_true hexp
            omega
          · exact wp_readBack rfl fun _ _ ht4 => ih ht4
        · intro w2 t3 _ _
          exact wp_rollback fun w3 _ => ih rfl

theorem wp_heartbeatLock :
    (protocol observed).wp i (.heartbeatLock k ownerId token ttl)
      (Returned i (.heartbeatLock k ownerId token ttl)) (heartbeatLock p k ownerId token ttl)
      {} w := by
  have hQ (reply : Reply) (t : Txn LockWrite ResourceKey) (w : World LockTable) :
      Returned i (.heartbeatLock k ownerId token ttl) reply t w :=
    returned_of_ne fun _ _ _ => nofun
  apply wp_utcNow rfl
  intro v t1 ht1 _
  apply wp_writeWhere ht1
  · intro w1 t2 r _ htest hp
    simp only [Bool.and_eq_true, decide_eq_true_eq] at htest
    obtain ⟨⟨rfl, rfl⟩, -⟩ := htest
    refine wp_commitPending hp (fun now _ => .renewed rfl rfl rfl) fun w2 _ => ?_
    apply wp_getLock rfl
    intro w3 t3 _ _
    cases w3.db.get k with
    | none => trivial
    | some lock => exact hQ _ _ _
  · intro w1 t2 _ _
    refine wp_rollback fun w2 _ => wp_getLock rfl fun w3 t3 _ _ => ?_
    cases w3.db.get k with
    | none => trivial
    | some lock =>
      dsimp only
      split
      · trivial
      · split
        · exact hQ _ _ _
        · trivial

theorem wp_releaseLock :
    (protocol observed).wp i (.releaseLock k ownerId token)
      (Returned i (.releaseLock k ownerId token)) (releaseLock k ownerId token) {} w := by
  have hQ (reply : Reply) (t : Txn LockWrite ResourceKey) (w : World LockTable) :
      Returned i (.releaseLock k ownerId token) reply t w :=
    returned_of_ne fun _ _ _ => nofun
  apply wp_utcNow rfl
  intro v t1 ht1 hv
  apply wp_writeWhere ht1
  · intro w1 t2 r _ htest hp
    simp only [Bool.and_eq_true, decide_eq_true_eq] at htest
    obtain ⟨⟨rfl, rfl⟩, -⟩ := htest
    exact wp_commitPending hp (fun now _ => .released rfl) fun w2 _ => hQ _ _ _
  · intro w1 t2 h1 ht2
    refine wp_commit ht2 fun w2 h2 => ?_
    exact wp_deleteExpiredLock (decide_eq_true rfl) hv (Nat.le_trans h1 h2) rfl
      fun _ w3 _ => hQ _ _ _

theorem wp_lookupLockStatus :
    (protocol observed).wp i (.lookupLockStatus k) (Returned i (.lookupLockStatus k))
      (lookupLockStatus k) {} w := by
  have hQ (reply : Reply) (t : Txn LockWrite ResourceKey) (w : World LockTable) :
      Returned i (.lookupLockStatus k) reply t w := returned_of_ne fun _ _ _ => nofun
  apply wp_getLock rfl
  intro w1 t1 ht1 _
  cases w1.db.get k with
  | none => exact hQ _ _ _
  | some lock =>
    apply wp_utcNow ht1
    intro v t2 ht2 hv
    split
    · refine wp_deleteExpiredLock (decide_eq_true rfl) hv (Nat.le_refl _) ht2 fun b w2 _ => ?_
      cases b with
      | true => exact hQ _ _ _
      | false =>
        apply wp_getLock rfl
        intro w3 t3 _ _
        cases w3.db.get k with
        | none => exact hQ _ _ _
        | some lock => exact hQ _ _ _
    · exact hQ _ _ _

theorem wp_ensureMutationLock {ownerId : Option String} :
    (protocol observed).wp i (.ensureMutationLock k ownerId)
      (Returned i (.ensureMutationLock k ownerId)) (ensureMutationLock k ownerId) {} w := by
  have hQ (reply : Reply) (t : Txn LockWrite ResourceKey) (w : World LockTable) :
      Returned i (.ensureMutationLock k ownerId) reply t w := returned_of_ne fun _ _ _ => nofun
  apply wp_utcNow rfl
  intro v t1 ht1 hv
  apply wp_getLock ht1
  intro w1 t2 ht2 h1
  cases w1.db.get k with
  | none => exact hQ _ _ _
  | some lock =>
    dsimp only
    split
    · exact wp_deleteExpiredLock (decide_eq_true rfl) hv h1 ht2 fun _ w2 _ => hQ _ _ _
    · split
      · trivial
      · exact hQ _ _ _

theorem verified (observed : ℕ → World LockTable → Prop) (p : Platform) :
    Verified (protocol observed) (code p) Returned := by
  intro i op w _ _
  cases op with
  | acquireLock k ownerId ttl => exact wp_acquireAttempts 2 rfl
  | heartbeatLock k ownerId token ttl => exact wp_heartbeatLock
  | releaseLock k ownerId token => exact wp_releaseLock
  | lookupLockStatus k => exact wp_lookupLockStatus
  | ensureMutationLock k ownerId => exact wp_ensureMutationLock

end Operations
end DataForge.Locks
