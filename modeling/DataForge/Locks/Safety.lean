import DataForge.Locks.Protocol
import Mathlib.Tactic.Ring

/-!
# Edit locks: safety

What holds of every step of every interleaving of lock operations. The conditional writes keep
locks exclusive, fenced by owner and token, and safe from cleanups; an acquire reads its row
back after its commit without looking at the owner it finds.
-/

namespace DataForge.Locks

open ReadCommitted

/-- `s'` is reached from `s` by some interleaving. -/
def Reaches (p : Platform) (s s' : LockSystem) : Prop := Run (code p) (fun _ _ _ => True) s s'

/-- A state that some interleaving reaches from a table without calls. -/
def Reachable (p : Platform) (s : LockSystem) : Prop := ∃ now db, Reaches p ⟨now, db, []⟩ s

/-- On its way to `s`, call `i` reads the row or the clock in `u`. -/
structure ReadsIn (p : Platform) (i : ℕ) (u s : LockSystem) : Prop where
  reachable : Reachable p u
  reaches : Reaches p u s
  reads : ∃ op next t, u.calls[i]? = some ⟨op, .exec (fun _ => {}) next, t⟩

/-- What edit locks promise of a step. -/
structure Sound (p : Platform) (s : LockSystem) (a : Action Op) (s' : LockSystem) : Prop where
  unique : (s'.db.locks.rows.map Prod.fst).Nodup
  /-- An unexpired lock stays with its owner, unless the owner releases it. -/
  exclusive (k : ResourceKey) (l : ResourceLock) : s.db.get k = some l → s.now < l.expiresAt →
    (∃ l', s'.db.get k = some l' ∧ l'.ownerId = l.ownerId) ∨ ∃ i c, a = .run i ∧
      s.calls[i]? = some c ∧ c.op = .releaseLock k l.ownerId l.lockToken ∧ s'.db.get k = none
  /-- An acquire returns a lock that is held by its caller. -/
  acquired (i : ℕ) (c : Call Op LockTable LockWrite ResourceKey Reply) (k : ResourceKey)
    (ownerId : String) (ttl : Option ℕ) (reply : Reply) : a = .run i → s'.calls[i]? = some c →
    c.op = .acquireLock k ownerId ttl → c.script = .done reply →
      ∃ l now, s'.db.get k = some l ∧ l.ownerId = ownerId ∧ reply = .status (status k l now)
  /-- While a lock is unexpired, no acquire of another owner returns. -/
  excluded (i : ℕ) (c : Call Op LockTable LockWrite ResourceKey Reply) (k : ResourceKey)
    (ownerId : String) (ttl : Option ℕ) (reply : Reply) (l : ResourceLock) : a = .run i →
    s'.calls[i]? = some c → c.op = .acquireLock k ownerId ttl → c.script = .done reply →
    s.db.get k = some l → s.now < l.expiresAt → l.ownerId = ownerId
  /-- A heartbeat touches the lock of its owner and token only, and keeps both. -/
  heartbeat (i : ℕ) (c : Call Op LockTable LockWrite ResourceKey Reply) (k : ResourceKey)
    (ownerId token : String) (ttl : Option ℕ) : a = .run i → s.calls[i]? = some c →
    c.op = .heartbeatLock k ownerId token ttl → ∀ k', s'.db.get k' = s.db.get k' ∨
      (k' = k ∧ ∃ l l', s.db.get k = some l ∧ l.ownerId = ownerId ∧ l.lockToken = token ∧
        s'.db.get k = some l' ∧ l'.ownerId = ownerId ∧ l'.lockToken = token)
  /-- A release with another owner or token leaves an unexpired lock alone. -/
  release (i : ℕ) (c : Call Op LockTable LockWrite ResourceKey Reply) (k : ResourceKey)
    (ownerId token : String) : a = .run i → s.calls[i]? = some c →
    c.op = .releaseLock k ownerId token → ∀ k' l, s.db.get k' = some l → s.now < l.expiresAt →
      (k' = k → l.ownerId = ownerId → l.lockToken ≠ token) → s'.db.get k' = some l
  /-- A lock that is deleted, but not by its owner's token, had expired when the call read. -/
  cleanup (k : ResourceKey) (l : ResourceLock) : s.db.get k = some l → s'.db.get k = none →
    ∃ i c, a = .run i ∧ s.calls[i]? = some c ∧
      (c.op = .releaseLock k l.ownerId l.lockToken ∨
        (c.op.cleans k = true ∧ ∃ u, ReadsIn p i u s ∧ l.expiresAt ≤ u.now ∧ u.now ≤ s.now))

section Runs

variable {p : Platform} {s s' : LockSystem} {a : Action Op}

/-- The reads of call `i` on the way to `s`. -/
def observedIn (p : Platform) (s : LockSystem) (i : ℕ) (w : World LockTable) : Prop :=
  ∃ u, ReadsIn p i u s ∧ u.world = w

theorem Reachable.admits {u u' : LockSystem} (hu : Reachable p u) (hus : Reaches p u s) :
    (protocol (observedIn p s)).Admits u a u' where
  calls _ _ := trivial
  cond _ _ _ _ _ _ := trivial
  visited i c effect next _ hc hs heffect := by
    obtain ⟨op, script, t⟩ := c
    subst hs heffect
    exact ⟨u, ⟨hu, hus, op, next, t, hc⟩, rfl⟩

theorem Reachable.good (h : Reachable p s) : Good (protocol (observedIn p s)) Returned s := by
  obtain ⟨now, db, hrun⟩ := h
  refine (Good.start trivial).run (verified _ p) (hrun.along.mono fun u a u' hu => ?_)
  exact Reachable.admits ⟨now, db, hu.2.1⟩ hu.2.2

theorem Reachable.lockStep (h : Reachable p s) (hs : s.step (code p) a = some s') :
    s'.db = s.db ∨ ∃ i c, a = .run i ∧ s.calls[i]? = some c ∧
      ∀ k, LockStep (observedIn p s) i c.op k s.now (s.db.get k) (s'.db.get k) := by
  rcases h.good.changes hs (h.admits (.refl s)) with hdb | ⟨i, c, _, ha, hc, -, -, -, -, hact⟩
  · exact Or.inl hdb
  · exact Or.inr ⟨i, c, ha, hc, hact⟩

theorem Reachable.returned {i : ℕ} {c : Call Op LockTable LockWrite ResourceKey Reply}
    {reply : Reply} (h : Reachable p s) (hs : s.step (code p) (.run i) = some s')
    (hc : s'.calls[i]? = some c) (hd : c.script = .done reply) :
    ∃ t, Returned i c.op reply t s'.world :=
  h.good.returns hs (h.admits (.refl s)) hc hd

end Runs

section Acquire

variable {p : Platform} {i : ℕ} {k : ResourceKey} {ownerId : String} {ttl : Option ℕ}

/-- The induction rule for the attempts of an acquire. Each reads the clock and the row, writes
the row and reads it back; `r` is what a read adds to the measure of `S`, and a write adds 1. -/
theorem acquireAttempts_rule {S : ℕ → LockScript Reply → Prop} {r : ℕ}
    (mono : ∀ {n m q}, n ≤ m → S n q → S m q) (raise : ∀ e, S 0 (.raise e))
    (read : ∀ {β : Type} {n} (f : Env LockTable ResourceKey → β) rest,
      (∀ b, S n (rest b)) → S (n + r) (Script.query f >>= rest))
    (write : ∀ {n} effect (result : Env LockTable ResourceKey → Bool) rest,
      (∀ b, S n (rest b)) → S (n + 1) (Script.statement effect result >>= rest))
    (back : ∀ {n} now absent, S n absent → S (n + r) (.commit (readBack k now absent)))
    (rollback : ∀ {n q}, S n q → S n (.rollback q))
    (n : ℕ) : S (n * (3 * r + 1) + (r + r)) (acquireAttempts p i k ownerId ttl n) := by
  have raise' (n : ℕ) (e : String) : S n (.raise e) := mono (Nat.zero_le n) (raise e)
  induction n with
  | zero =>
    rw [Nat.zero_mul, Nat.zero_add]
    refine read _ _ fun row => ?_
    cases row with
    | none => exact raise' _ _
    | some current =>
      refine mono (Nat.le_of_eq (Nat.zero_add r)) (read _ _ fun now => ?_)
      split <;> exact raise' _ _
  | succ n ih =>
    have hsucc : (n + 1) * (3 * r + 1) + (r + r) = n * (3 * r + 1) + (r + r) + r + 1 + r + r := by
      ring
    rw [hsucc]
    refine read _ _ fun now => read _ _ fun row => ?_
    have hmore := rollback (mono (Nat.le_add_right _ r) ih)
    cases row with
    | none =>
      refine write _ _ _ fun inserted => ?_
      cases inserted with
      | true => exact back now _ (raise' _ _)
      | false => exact hmore
    | some lock =>
      dsimp only
      split
      · exact raise' _ _
      · refine write _ _ _ fun updated => ?_
        cases updated with
        | true => exact back now _ ih
        | false => exact hmore

theorem atMost_statements : (acquireLock p i k ownerId ttl).AtMost (fun _ => True) 10 := by
  refine acquireAttempts_rule (S := fun n q => q.AtMost (fun _ => True) n) (r := 1) .mono
    (fun _ => trivial) (fun _ _ => Script.atMost_statement) (fun _ _ _ => Script.atMost_statement)
    (fun now absent h => ?_) id 2
  change (readBack k now absent).AtMost _ _
  refine Script.atMost_statement fun row => ?_
  cases row with
  | none => exact h
  | some current => trivial

theorem atMost_writes : (acquireLock p i k ownerId ttl).AtMost (fun f => f.needs ≠ []) 2 := by
  have hread : ¬ ({} : Effect LockWrite ResourceKey).needs ≠ [] := fun h => h rfl
  refine acquireAttempts_rule (S := fun n q => q.AtMost (fun f => f.needs ≠ []) n) (r := 0) .mono
    (fun _ => trivial) (fun _ _ => Script.atMost_query hread)
    (fun _ _ _ => Script.atMost_statement) (fun now absent h => ?_) id 2
  change (readBack k now absent).AtMost _ _
  refine Script.atMost_query hread fun row => ?_
  cases row with
  | none => exact h
  | some current => trivial

/-- The read of a committed row in a new transaction. -/
def ReadingBack (k : ResourceKey) (q : LockScript Reply) (staged : List LockWrite) : Prop :=
  staged = [] ∧ ∃ now absent, q = readBack k now absent

theorem returnsAt_acquireLock (staged : List LockWrite) :
    (acquireLock p i k ownerId ttl).ReturnsAt (ReadingBack k) staged := by
  refine acquireAttempts_rule (S := fun _ q => ∀ ws, q.ReturnsAt (ReadingBack k) ws) (r := 0)
    (fun _ h => h) (fun _ _ => trivial) (fun _ _ h _ => Script.returnsAt_statement h)
    (fun _ _ _ h _ => Script.returnsAt_statement h) ?_ (fun h _ => h []) 2 staged
  intro _ now absent h _ e
  cases hrow : e.db.get k with
  | none =>
    refine Or.inr ?_
    simp only [hrow]
    exact h _
  | some current =>
    refine Or.inl ⟨?_, rfl, now, absent, rfl⟩
    simp only [hrow]
    rfl

end Acquire
/-- When an acquire reads back the row that it has committed, no other owner's lock has taken
its place. -/
def ReadsBackOwn (s : LockSystem) (a : Action Op) : Prop :=
  ∀ i c k ownerId ttl l, a = .run i → s.calls[i]? = some c → c.op = .acquireLock k ownerId ttl →
    ReadingBack k c.script c.txn.writes → s.db.get k = some l → l.ownerId = ownerId

section Steps

variable {p : Platform} {s s' : LockSystem} {a : Action Op}

variable {l : ResourceLock}

theorem Reachable.exclusive (h : Reachable p s) (hs : s.step (code p) a = some s') {k : ResourceKey}
    (hl : s.db.get k = some l) (hlive : s.now < l.expiresAt) :
    (∃ l', s'.db.get k = some l' ∧ l'.ownerId = l.ownerId) ∨ ∃ i c, a = .run i ∧
      s.calls[i]? = some c ∧ c.op = .releaseLock k l.ownerId l.lockToken ∧
        s'.db.get k = none := by
  rcases h.lockStep hs with hdb | ⟨i, c, ha, hc, hstep⟩
  · exact Or.inl ⟨l, by rw [hdb, hl], rfl⟩
  · have hk := hstep k
    rw [hl] at hk
    generalize hafter : s'.db.get k = after at hk
    cases hk with
    | same => exact Or.inl ⟨l, rfl, rfl⟩
    | acquired hop hfree =>
      rcases hfree l rfl with howner | hexp
      · exact Or.inl ⟨_, rfl, howner.symm⟩
      · omega
    | renewed hop howner htoken => exact Or.inl ⟨_, rfl, howner⟩
    | released hop => exact Or.inr ⟨i, c, ha, hc, hop, rfl⟩
    | cleaned hop hv hexp hnow => omega

variable {c : Call Op LockTable LockWrite ResourceKey Reply}

/-- A heartbeat touches the lock of its owner and token only, and keeps both. -/
theorem Reachable.heartbeat (h : Reachable p s) (hs : s.step (code p) a = some s') {i : ℕ}
    {k : ResourceKey} {ownerId token : String} {ttl : Option ℕ} (ha : a = .run i)
    (hc : s.calls[i]? = some c) (hop : c.op = .heartbeatLock k ownerId token ttl) (k' : ResourceKey)
    :
    s'.db.get k' = s.db.get k' ∨ (k' = k ∧ ∃ l l', s.db.get k = some l ∧ l.ownerId = ownerId ∧
      l.lockToken = token ∧ s'.db.get k = some l' ∧ l'.ownerId = ownerId ∧
        l'.lockToken = token) := by
  rcases h.lockStep hs with hdb | ⟨j, d, hj, hd, hstep⟩
  · exact Or.inl (by rw [hdb])
  · obtain rfl : i = j := Action.run.inj (ha.symm.trans hj)
    obtain rfl : c = d := Option.some.inj (hc.symm.trans hd)
    have hk := hstep k'
    rw [hop] at hk
    generalize hbefore : s.db.get k' = before at hk ⊢
    generalize hafter : s'.db.get k' = after at hk ⊢
    cases hk with
    | same => exact Or.inl rfl
    | acquired hop' => cases hop'
    | renewed hop' howner htoken =>
      cases hop'
      exact Or.inr ⟨rfl, _, _, hbefore, rfl, rfl, hafter, howner, htoken⟩
    | released hop' => cases hop'
    | cleaned hop' => cases hop'

theorem Reachable.release (h : Reachable p s) (hs : s.step (code p) a = some s') {i : ℕ}
    {k k' : ResourceKey} {ownerId token : String} (ha : a = .run i) (hc : s.calls[i]? = some c)
    (hop : c.op = .releaseLock k ownerId token) (hl : s.db.get k' = some l)
    (hlive : s.now < l.expiresAt) (hother : k' = k → l.ownerId = ownerId → l.lockToken ≠ token) :
    s'.db.get k' = some l := by
  rcases h.lockStep hs with hdb | ⟨j, d, hj, hd, hstep⟩
  · rw [hdb, hl]
  · obtain rfl : i = j := Action.run.inj (ha.symm.trans hj)
    obtain rfl : c = d := Option.some.inj (hc.symm.trans hd)
    have hk := hstep k'
    rw [hop, hl] at hk
    generalize hafter : s'.db.get k' = after at hk ⊢
    cases hk with
    | same => rfl
    | acquired hop' => cases hop'
    | renewed hop' => cases hop'
    | released hop' =>
      cases hop'
      exact absurd rfl (hother rfl rfl)
    | cleaned hop' hv hexp hnow => omega

theorem Reachable.cleanup (h : Reachable p s) (hs : s.step (code p) a = some s') {k : ResourceKey}
    (hl : s.db.get k = some l) (hgone : s'.db.get k = none) :
    ∃ i c, a = .run i ∧ s.calls[i]? = some c ∧
      (c.op = .releaseLock k l.ownerId l.lockToken ∨ (c.op.cleans k = true ∧
        ∃ u, ReadsIn p i u s ∧ l.expiresAt ≤ u.now ∧ u.now ≤ s.now)) := by
  rcases h.lockStep hs with hdb | ⟨i, c, ha, hc, hstep⟩
  · rw [hdb, hl] at hgone
    cases hgone
  · have hk := hstep k
    rw [hl, hgone] at hk
    refine ⟨i, c, ha, hc, ?_⟩
    cases hk with
    | released hop => exact Or.inl hop
    | cleaned hop hv hexp hnow =>
      obtain ⟨u, hu, rfl⟩ := hv
      exact Or.inr ⟨hop, u, hu, hexp, hnow⟩

theorem Reachable.returns_at (h : Reachable p s) {i : ℕ} {ownerId : String} {ttl : Option ℕ}
    {k : ResourceKey} {reply : Reply} (hs : s.step (code p) (.run i) = some s')
    (hc : s'.calls[i]? = some c) (hop : c.op = .acquireLock k ownerId ttl)
    (hd : c.script = .done reply) :
    s'.db = s.db ∧ ∃ d, s.calls[i]? = some d ∧ d.op = c.op ∧
      ReadingBack k d.script d.txn.writes := by
  obtain ⟨now, db, hrun⟩ := h
  refine (stepped hs).returnsAt (hrun.returnsAt (P := fun op => op = c.op) ?_ rfl) hc hd
  intro i op hop'
  rw [hop', hop]
  exact returnsAt_acquireLock []

theorem step_readBack {i : ℕ} {k : ResourceKey} (hs : s.step (code p) (.run i) = some s')
    (hc : s.calls[i]? = some c) (hback : ReadingBack k c.script c.txn.writes)
    (hl : s.db.get k = some l) : s'.db = s.db ∧ ∃ now c', s'.calls[i]? = some c' ∧
      c'.op = c.op ∧ c'.script = .done (.status (status k l now)) := by
  obtain ⟨op, script, t⟩ := c
  obtain ⟨hstaged, now, absent, rfl⟩ := hback
  cases stepped hs with
  | exec hc' hf =>
    cases hc.symm.trans hc'
    have hlt := (List.getElem?_eq_some_iff.mp hc).1
    have hview : view t.writes s.world.db = s.db := by rw [show t.writes = [] from hstaged]; rfl
    refine ⟨rfl, now, _, List.getElem?_set_self hlt, ?_⟩
    simp only [Txn.env, hview, hl]
    exact ⟨rfl, rfl⟩
  | commit hc' => cases hc.symm.trans hc'
  | rollback hc' => cases hc.symm.trans hc'

/-- Edit locks. Every step of every run keeps what edit locks promise exactly when no acquire
reads back a lock of another owner. An acquire ends after at most ten statements, at most two
of which write. -/
theorem edit_locks (p : Platform) :
    (∀ i k ownerId ttl, (code p i (.acquireLock k ownerId ttl)).AtMost (fun _ => True) 10 ∧
      (code p i (.acquireLock k ownerId ttl)).AtMost (fun f => f.needs ≠ []) 2) ∧
    ∀ s a s', Reachable p s → s.step (code p) a = some s' →
      (Sound p s a s' ↔ ReadsBackOwn s a) := by
  refine ⟨fun i k ownerId ttl => ⟨atMost_statements, atMost_writes⟩, ?_⟩
  intro s a s' h hs
  constructor
  · rintro hsound i c k ownerId ttl l rfl hc hop hback hl
    obtain ⟨hdb, now, c', hc', hop', hdone⟩ := step_readBack hs hc hback hl
    obtain ⟨l', now', hl', howner, -⟩ :=
      hsound.acquired i c' k ownerId ttl _ rfl hc' (hop'.trans hop) hdone
    rw [hdb, hl, Option.some.injEq] at hl'
    rw [hl', howner]
  · intro hown
    have hacquired {i c k ownerId ttl reply} (ha : a = .run i) (hc : s'.calls[i]? = some c)
        (hop : c.op = .acquireLock k ownerId ttl) (hd : c.script = .done reply) :
        s'.db = s.db ∧
          ∃ l now, s'.db.get k = some l ∧ l.ownerId = ownerId ∧
            reply = .status (status k l now) := by
      subst ha
      obtain ⟨hdb, d, hd', hop', hback⟩ := h.returns_at hs hc hop hd
      obtain ⟨t, hret⟩ := h.returned hs hc hd
      obtain ⟨l, now', hl, hreply⟩ := hret k ownerId ttl hop
      have howner := hown i d k ownerId ttl l rfl hd' (hop'.trans hop) hback (hdb ▸ hl)
      exact ⟨hdb, l, now', hl, howner, hreply⟩
    exact {
      unique := s'.db.locks.nodup
      exclusive := fun k l hl hlive => h.exclusive hs hl hlive
      acquired := fun i c k ownerId ttl reply ha hc hop hd => (hacquired ha hc hop hd).2
      excluded := by
        intro i c k ownerId ttl reply l ha hc hop hd hl _
        obtain ⟨hdb, l', now, hl', howner, -⟩ := hacquired ha hc hop hd
        rw [hdb, hl, Option.some.injEq] at hl'
        rw [hl', howner]
      heartbeat := fun i c k ownerId token ttl ha hc hop k' => h.heartbeat hs ha hc hop k'
      release := fun i c k ownerId token ha hc hop k' l hl hlive hother =>
        h.release hs ha hc hop hl hlive hother
      cleanup := fun k l hl hgone => h.cleanup hs hl hgone }

end Steps

def samplePlatform : Platform := { uuid4 := fun i n => "t" ++ toString i ++ toString n }

def sampleKey : ResourceKey := ⟨"analysis", "x"⟩

def sampleAcquire (ownerId : String) : Op := .acquireLock sampleKey ownerId none

/-- Owner `a` has committed its lock and is about to read it back. -/
def sampleCommitted : List (Action Op) := .spawn (sampleAcquire "a") :: List.replicate 4 (.run 0)

/-- Its lock expires, and owner `b` acquires it. -/
def sampleTakeover : List (Action Op) :=
  sampleCommitted ++ Action.tick 30000000 :: .spawn (sampleAcquire "b") :: List.replicate 5 (.run 1)

theorem Reachable.of_replay (p : Platform) (actions : List (Action Op)) (test : LockSystem → Bool)
    (h : (System.replay (code p) ⟨0, ⟨.empty⟩, []⟩ actions).any test = true) :
    ∃ s, Reachable p s ∧ test s = true := by
  obtain ⟨s, hs, htest⟩ := (Option.any_eq_true _ _).mp h
  exact ⟨s, ⟨0, ⟨.empty⟩, .of_replay hs⟩, htest⟩

/-- Owner `a` is handed the lock it has committed. -/
theorem edit_locks_acquire : ∃ s s', Reachable samplePlatform s ∧
    s.step (code samplePlatform) (.run 0) = some s' ∧ Sound samplePlatform s (.run 0) s' := by
  obtain ⟨s, hreach, htest⟩ := Reachable.of_replay samplePlatform sampleCommitted
    (fun s => s.calls[0]?.all (fun c => c.op = sampleAcquire "a") &&
      (s.db.get sampleKey).all (fun l => l.ownerId = "a") &&
      (s.step (code samplePlatform) (.run 0)).isSome) (by decide +kernel)
  simp only [Bool.and_eq_true, Option.isSome_iff_exists] at htest
  obtain ⟨⟨hop, howner⟩, s', hs⟩ := htest
  refine ⟨s, s', hreach, hs, ((edit_locks samplePlatform).2 s _ s' hreach hs).mpr ?_⟩
  rintro i c k ownerId ttl l ⟨⟩ hc hacquire - hl
  rw [hc, Option.all_some, decide_eq_true_eq, hacquire] at hop
  cases hop
  rw [hl, Option.all_some, decide_eq_true_eq] at howner
  exact howner

/-- The acquire of `a` returns the lock of `b`. -/
theorem acquire_returns_other_lock : ¬ ∀ (p : Platform) (s s' : LockSystem) (a : Action Op),
    Reachable p s → s.step (code p) a = some s' → Sound p s a s' := by
  intro hall
  obtain ⟨s, hreach, htest⟩ := Reachable.of_replay samplePlatform sampleTakeover
    (fun s => (s.step (code samplePlatform) (.run 0)).any fun s' =>
      s'.calls[0]?.any fun c => c.op = sampleAcquire "a" && match c.script with
        | .done (.status st) => st.lock.ownerId = "b"
        | _ => false) (by decide +kernel)
  obtain ⟨s', hs, htest⟩ := (Option.any_eq_true _ _).mp htest
  obtain ⟨c, hc, htest⟩ := (Option.any_eq_true _ _).mp htest
  rw [Bool.and_eq_true, decide_eq_true_eq] at htest
  obtain ⟨hop, hother⟩ := htest
  split at hother
  · next st hdone =>
    obtain ⟨l, now, -, howner, hreply⟩ := (hall _ s s' _ hreach hs).acquired 0 c sampleKey "a"
      none _ rfl hc hop hdone
    cases hreply
    rw [decide_eq_true_eq] at hother
    exact absurd (howner.symm.trans hother) (by decide)
  · cases hother

end DataForge.Locks
