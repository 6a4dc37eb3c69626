import DataForge.Coordinator.Model
import DataForge.ReadCommitted.Gated
import DataForge.Locks.Service

/-!
# The runtime coordinator: safety

Every commit of a fenced transaction happens under its own generation, whatever processes of
other generations, sessions that end and activations do between its statements. From it, what
holds in every run of every interleaving of processes that take the lease, lose it, activate
generations and run fenced and unfenced transactions over any tables.
-/

namespace DataForge.Coordinator

open ReadCommitted

section Fence

variable {σ W ρ : Type} [Storage σ W ρ]

/-- What a commit of an operation does. -/
def Acts (op : Op σ W ρ) (a b : Tables σ) : Prop :=
  match op with
  | .acquire session => b = a ∨ (a.owner = none ∧ b = { a with owner := some session })
  | .activateGeneration session =>
    a.owner = some session ∧ b = { a with generation := a.generation + 1 }
  | .endSession session => b = a ∨ (a.owner = some session ∧ b = { a with owner := none })
  | .transactions generation _ => b.generation = a.generation ∧ b.owner = a.owner ∧
    (b = a ∨ generation.all (· = a.generation) = true)

/-- The protocol of the coordinator. -/
def protocol : Protocol (Op σ W ρ) (Tables σ) (TableWrite W) (TableRow ρ) where
  visited _ _ _ := True
  calls _ := True
  inv _ := True
  act _ op _ w db := Acts op w.db db
  cond _ _ _ := True
  inv_tick _ _ := trivial
  inv_act _ _ _ _ := trivial

/-- What a call returns: an activation returns the generation that is committed. -/
def Returned (_ : ℕ) (_ : Op σ W ρ) (reply : Reply) (_ : Txn (TableWrite W) (TableRow ρ))
    (w : World (Tables σ)) : Prop :=
  ∀ n, reply = .generation n → w.db.generation = n

section Scripts

variable {i : ℕ} {w : World (Tables σ)} {session : ℕ}

theorem view_stored (ws : List W) (db : Tables σ) :
    view (ws.map TableWrite.store) db = { db with store := view ws db.store } := by
  induction ws generalizing db with
  | nil => rfl
  | cons v ws ih => exact ih _

theorem same_locked {held : List (Lock (TableRow ρ))} {w w' : World (Tables σ)} {r : TableRow ρ}
    {m : Mode} {since : ℕ} (hr : (protocol (W := W)).Rely held w w')
    (hlock : (⟨r, m, since⟩ : Lock (TableRow ρ)) ∈ held) : Tables.Same W w'.db w.db r :=
  hr.same hlock

theorem wp_acquire : (protocol (σ := σ) (W := W)).wp i (.acquire session)
    (Returned i (.acquire session)) (acquire session) {} w := by
  apply Protocol.wp_statement
  intro w1 e hr _ hs
  have hdb : e.db = w1.db := hs.db
  apply Protocol.wp_commit
  intro w2 hr2 _ _
  refine ⟨?_, fun n hn => by cases hn⟩
  dsimp only [Txn.after]
  by_cases hfree : e.db.owner = none ∧ e.free .owner .exclusive = true
  · rw [if_pos hfree] at hr2 ⊢
    have hsame : w2.db.owner = w1.db.owner := same_locked (r := .owner) hr2 (.head _)
    exact Or.inr ⟨hsame.trans (hdb ▸ hfree.1), rfl⟩
  · rw [if_neg hfree]
    exact Or.inl rfl

theorem wp_activateGeneration : (protocol (σ := σ) (W := W)).wp i (.activateGeneration session)
    (Returned i (.activateGeneration session)) (activateGeneration session) {} w := by
  apply Protocol.wp_statement
  intro w1 e hr _ hs
  have hdb : e.db = w1.db := hs.db
  dsimp only [Txn.after]
  by_cases howner : e.db.owner = some session
  · rw [if_pos howner, if_pos howner]
    apply Protocol.wp_commit
    intro w2 hr2 _ _
    have hsame : w2.db.owner = w1.db.owner := same_locked (r := .owner) hr2 (.head _)
    have hgeneration : w2.db.generation = w1.db.generation :=
      same_locked (r := .generation) hr2 (.tail _ (.head _))
    have hnext : e.db.generation + 1 = w2.db.generation + 1 := by rw [hdb, hgeneration]
    refine ⟨⟨hsame.trans (hdb ▸ howner), ?_⟩, ?_⟩
    · change { w2.db with generation := e.db.generation + 1 } = _
      rw [hnext]
    · rintro n ⟨⟩
      rfl
  · rw [if_neg howner, if_neg howner]
    trivial

theorem wp_endSession : (protocol (σ := σ) (W := W)).wp i (.endSession session)
    (Returned i (.endSession session)) (endSession session) {} w := by
  apply Protocol.wp_statement
  intro w1 e hr _ hs
  have hdb : e.db = w1.db := hs.db
  apply Protocol.wp_commit
  intro w2 hr2 _ _
  refine ⟨?_, fun n hn => by cases hn⟩
  dsimp only [Txn.after]
  by_cases howner : e.db.owner = some session
  · rw [if_pos howner] at hr2 ⊢
    have hsame : w2.db.owner = w1.db.owner := same_locked (r := .owner) hr2 (.head _)
    exact Or.inr ⟨hsame.trans (hdb ▸ howner), rfl⟩
  · rw [if_neg howner]
    exact Or.inl rfl

theorem acts_view {generation : Option ℕ} (body : Script σ W ρ Unit) (ws : List W)
    (db : Tables σ) (h : ws ≠ [] → generation.all (· = db.generation) = true) :
    Acts (.transactions generation body) db (view (ws.map TableWrite.store) db) := by
  rw [view_stored]
  refine ⟨rfl, rfl, ?_⟩
  cases ws with
  | nil => exact Or.inl rfl
  | cons v ws => exact Or.inr (h (List.cons_ne_nil v ws))

/-- Without a fence every commit is allowed; with one, those that the fence admits. -/
theorem wp_transactions {generation : Option ℕ} {body : Script σ W ρ Unit} :
    (protocol (σ := σ) (W := W)).wp i (.transactions generation body)
      (Returned i (.transactions generation body))
      (transactions body generation >>= fun _ => pure .done) {} w := by
  have hdone (t : Txn (TableWrite W) (TableRow ρ)) (w : World (Tables σ)) :
      Returned i (.transactions generation body) .done t w := fun n hn => by cases hn
  cases generation with
  | none =>
    rw [Protocol.wp_bind]
    apply Protocol.wp_part (π := stored) []
    · exact fun held w ws _ => acts_view body ws w.db fun _ => rfl
    · exact fun _ t w => hdone t w
    · rfl
  | some generation =>
    rw [Protocol.wp_bind]
    apply Protocol.wp_gated []
    · intro a b hab
      have hsame : a.generation = b.generation := hab
      change decide (a.generation = generation) = decide (b.generation = generation)
      rw [hsame]
    · intro held w ws _ hadmits
      refine acts_view body ws w.db fun hne => ?_
      have hfence : w.db.generation = generation := of_decide_eq_true (hadmits hne)
      exact decide_eq_true hfence.symm
    · exact fun _ t w => hdone t w
    · rfl
    · rfl

theorem verified : Verified (protocol (σ := σ) (W := W)) code Returned := by
  intro i op w _ _
  cases op with
  | acquire session => exact wp_acquire
  | activateGeneration session => exact wp_activateGeneration
  | endSession session => exact wp_endSession
  | transactions generation body => exact wp_transactions

end Scripts

end Fence

/-! ## Runs -/

variable {σ W ρ : Type}

abbrev CoordinatorSystem (σ W ρ : Type) :=
  System (Op σ W ρ) (Tables σ) (TableWrite W) (TableRow ρ) Reply

variable {op : Op σ W ρ}

theorem Acts.generation {a b : Tables σ} (h : Acts op a b) :
    b.generation = a.generation ∨ ∃ session, b.generation = a.generation + 1 ∧
      op = .activateGeneration session ∧ a.owner = some session := by
  cases op with
  | acquire session => rcases h with rfl | ⟨-, rfl⟩ <;> exact Or.inl rfl
  | activateGeneration session =>
    obtain ⟨howner, rfl⟩ := h
    exact Or.inr ⟨session, rfl, rfl, howner⟩
  | endSession session => rcases h with rfl | ⟨-, rfl⟩ <;> exact Or.inl rfl
  | transactions generation body => exact Or.inl h.1

theorem Acts.owner {a b : Tables σ} (h : Acts op a b) {session : ℕ}
    (howner : a.owner = some session) :
    b.owner = some session ∨ (b.owner = none ∧ op = .endSession session) := by
  cases op with
  | acquire session' =>
    rcases h with rfl | ⟨hfree, -⟩
    · exact Or.inl howner
    · rw [howner] at hfree
      cases hfree
  | activateGeneration session' =>
    obtain ⟨-, rfl⟩ := h
    exact Or.inl howner
  | endSession session' =>
    rcases h with rfl | ⟨howner', rfl⟩
    · exact Or.inl howner
    · rw [howner] at howner'
      cases howner'
      exact Or.inr ⟨rfl, rfl⟩
  | transactions generation body => exact Or.inl (h.2.1.trans howner)

theorem Acts.store {a b : Tables σ} (h : Acts op a b) :
    b.store = a.store ∨ ∃ generation body, op = .transactions generation body ∧
      ∀ g, generation = some g → a.generation = g ∧ b.generation = g := by
  cases op with
  | acquire session => rcases h with rfl | ⟨-, rfl⟩ <;> exact Or.inl rfl
  | activateGeneration session =>
    obtain ⟨-, rfl⟩ := h
    exact Or.inl rfl
  | endSession session => rcases h with rfl | ⟨-, rfl⟩ <;> exact Or.inl rfl
  | transactions generation body =>
    obtain ⟨hgeneration, -, rfl | hall⟩ := h
    · exact Or.inl rfl
    · refine Or.inr ⟨generation, body, rfl, ?_⟩
      rintro g rfl
      have hcurrent : g = a.generation := of_decide_eq_true hall
      exact ⟨hcurrent.symm, hgeneration.trans hcurrent.symm⟩

/-- What an activation has staged when it returns. -/
def Activated (reply : Reply) (ws : List (TableWrite W)) : Prop :=
  ∃ n, reply = .generation n ∧ ws = [TableWrite.generation n]

theorem returnsByCommit_activateGeneration (session : ℕ) :
    (activateGeneration session : CoordinatorScript σ W ρ Reply).ReturnsByCommit Activated [] := by
  apply Script.returnsByCommit_statement
  intro e
  by_cases howner : e.db.owner = some session
  · rw [if_pos howner, if_pos howner]
    exact Or.inl ⟨_, rfl, _, rfl, rfl⟩
  · rw [if_neg howner]
    trivial

theorem admits {u u' : CoordinatorSystem σ W ρ} : protocol.Admits u a u' where
  calls _ _ := trivial
  cond _ _ _ _ _ _ := trivial
  visited _ _ _ _ _ _ _ := trivial

/-- The generation that fences an operation. -/
def Op.fencedBy : Op σ W ρ → Option ℕ
  | .transactions generation _ => generation
  | _ => none

theorem Op.fencedBy_eq {generation : ℕ} (h : op.fencedBy = some generation) :
    ∃ body, op = .transactions (some generation) body := by
  cases op with
  | transactions g body =>
    rw [Op.fencedBy] at h
    exact ⟨body, by rw [h]⟩
  | _ => cases h

variable [DecidableEq ρ] [Storage σ W ρ]

/-- `s'` is reached from `s` by some interleaving. -/
def Reaches (s s' : CoordinatorSystem σ W ρ) : Prop := Run code (fun _ _ _ => True) s s'

/-- A state that some interleaving reaches from a database without calls. -/
def Reachable (s : CoordinatorSystem σ W ρ) : Prop := ∃ now db, Reaches ⟨now, db, []⟩ s

section Runs

variable {s s' : CoordinatorSystem σ W ρ} {a : Action (Op σ W ρ)}

theorem Reachable.trans (h : Reachable s) (hr : Reaches s s') : Reachable s' := by
  obtain ⟨now, db, hrun⟩ := h
  exact ⟨now, db, hrun.trans hr⟩

theorem Reaches.step (hs : s.step code a = some s') : Reaches s s' :=
  (Run.refl s).step hs trivial

theorem Reachable.good (h : Reachable s) : Good protocol Returned s := by
  obtain ⟨now, db, hrun⟩ := h
  exact (Good.start trivial).run verified (hrun.mono fun _ _ _ _ => admits)

theorem Reachable.commits (h : Reachable s) (hs : s.step code a = some s') :
    s'.db = s.db ∨ ∃ i c, a = .run i ∧ s.calls[i]? = some c ∧ Acts c.op s.db s'.db := by
  rcases h.good.changes hs admits with hdb | ⟨i, c, _, ha, hc, -, -, -, -, hact⟩
  · exact Or.inl hdb
  · exact Or.inr ⟨i, c, ha, hc, hact⟩

theorem Reachable.fenced (h : Reachable s) {i : ℕ} (hs : s.step code (.run i) = some s')
    {c : Call (Op σ W ρ) (Tables σ) (TableWrite W) (TableRow ρ) Reply} {generation : ℕ}
    {body : Script σ W ρ Unit} (hc : s.calls[i]? = some c)
    (hop : c.op = .transactions (some generation) body) :
    s'.db = s.db ∨ (s.db.generation = generation ∧ s'.db.generation = generation) := by
  rcases h.commits hs with hdb | ⟨j, d, ⟨⟩, hd, hacts⟩
  · exact Or.inl hdb
  · cases hc.symm.trans hd
    rw [hop] at hacts
    obtain ⟨hgeneration, -, hsame | hall⟩ := hacts
    · exact Or.inl hsame
    · have hcurrent : generation = s.db.generation := of_decide_eq_true hall
      exact Or.inr ⟨hcurrent.symm, hgeneration.trans hcurrent.symm⟩

theorem Reaches.generation_le (h : Reachable s) (hr : Reaches s s') :
    s.db.generation ≤ s'.db.generation := by
  induction hr with
  | refl => exact Nat.le_refl _
  | step hr hs _ ih =>
    rcases (h.trans hr).commits hs with hdb | ⟨i, c, -, -, hacts⟩
    · rw [hdb]
      exact ih
    · rcases hacts.generation with heq | ⟨-, heq, -⟩ <;> omega

end Runs

/-! ## Activations -/

/-- The step by which an activation returns a generation commits it, under the lease. -/
theorem Reachable.activated {s s' : CoordinatorSystem σ W ρ} (h : Reachable s) {i : ℕ}
    (hs : s.step code (.run i) = some s')
    {c : Call (Op σ W ρ) (Tables σ) (TableWrite W) (TableRow ρ) Reply} (hc : s'.calls[i]? = some c)
    {session n : ℕ} (hop : c.op = .activateGeneration session)
    (hdone : c.script = .done (.generation n)) :
    s.db.owner = some session ∧ s'.db = { s.db with generation := n } ∧
      n = s.db.generation + 1 := by
  have hgood := h.good
  obtain ⟨now, db, hrun⟩ := h
  have hcalls := hrun.returnsByCommit (P := fun op => op = c.op) (D := Activated)
    (fun j op hop' => by rw [hop', hop]; exact returnsByCommit_activateGeneration session) rfl
  obtain ⟨d, next, hd, hop', hscript, hdb, m, ⟨⟩, hws⟩ :=
    (stepped hs).returnsByCommit hcalls hc hdone
  have hacts : Acts d.op s.db (view d.txn.writes s.db) := hgood.commits hd hscript trivial
  rw [hop', hop, hws] at hacts
  rw [hws] at hdb
  obtain ⟨howner, hnext⟩ := hacts
  exact ⟨howner, hdb, congrArg Tables.generation hnext⟩

/-- Once a generation has been superseded, no transaction that is fenced by it changes anything,
whatever it had begun to do. -/
theorem superseded_transactions (s s' s'' : CoordinatorSystem σ W ρ) (h : Reachable s)
    (hr : Reaches s s') (i : ℕ) (hs : s'.step code (.run i) = some s'')
    (c : Call (Op σ W ρ) (Tables σ) (TableWrite W) (TableRow ρ) Reply) (hc : s'.calls[i]? = some c)
    (generation : ℕ) (body : Script σ W ρ Unit)
    (hop : c.op = .transactions (some generation) body) (hold : generation < s.db.generation) :
    s''.db = s'.db := by
  rcases (h.trans hr).fenced hs hc hop with hdb | ⟨hcurrent, -⟩
  · exact hdb
  · have hle := hr.generation_le h
    omega

/-- What the coordinator promises of a step. -/
structure Sound (s : CoordinatorSystem σ W ρ) (a : Action (Op σ W ρ))
    (s' : CoordinatorSystem σ W ρ) : Prop where
  /-- One session holds the lease until it ends. -/
  exclusive (session : ℕ) : s.db.owner = some session → s'.db.owner = some session ∨
    (s'.db.owner = none ∧ ∃ i c, a = .run i ∧ s.calls[i]? = some c ∧ c.op = .endSession session)
  /-- A new generation is activated by the holder of the lease. -/
  generation : s'.db.generation = s.db.generation ∨
    ∃ i c session, a = .run i ∧ s.calls[i]? = some c ∧ c.op = .activateGeneration session ∧
      s.db.owner = some session ∧ s'.db.generation = s.db.generation + 1
  /-- Whoever changes the other tables is not fenced, or is fenced by the current generation. -/
  store : s'.db.store = s.db.store ∨ ∃ i c generation body, a = .run i ∧ s.calls[i]? = some c ∧
    c.op = .transactions generation body ∧ ∀ g, generation = some g →
      s.db.generation = g ∧ s'.db.generation = g

theorem Reachable.sound {s s' : CoordinatorSystem σ W ρ} {a : Action (Op σ W ρ)}
    (h : Reachable s) (hs : s.step code a = some s') : Sound s a s' := by
  rcases h.commits hs with hdb | ⟨i, c, ha, hc, hacts⟩
  · rw [show s' = ⟨s'.now, s.db, s'.calls⟩ by rw [← hdb]]
    exact ⟨fun _ howner => Or.inl howner, Or.inl rfl, Or.inl rfl⟩
  · refine ⟨fun session howner => ?_, ?_, ?_⟩
    · rcases hacts.owner howner with hsame | ⟨hnone, hop⟩
      · exact Or.inl hsame
      · exact Or.inr ⟨hnone, i, c, ha, hc, hop⟩
    · rcases hacts.generation with hsame | ⟨session, hnext, hop, howner⟩
      · exact Or.inl hsame
      · exact Or.inr ⟨i, c, session, ha, hc, hop, howner, hnext⟩
    · rcases hacts.store with hsame | ⟨generation, body, hop, hcurrent⟩
      · exact Or.inl hsame
      · exact Or.inr ⟨i, c, generation, body, ha, hc, hop, hcurrent⟩

/-- Every step of every run keeps what the coordinator promises, and the generations that
activations return increase along every run. -/
theorem coordinator_generations (s s' : CoordinatorSystem σ W ρ) (a : Action (Op σ W ρ))
    (h : Reachable s) (hs : s.step code a = some s') :
    Sound s a s' ∧ ∀ i c session n, a = .run i → s'.calls[i]? = some c →
      c.op = .activateGeneration session → c.script = .done (.generation n) →
        s.db.owner = some session ∧ s'.db.generation = n ∧
        ∀ (u u' : CoordinatorSystem σ W ρ) j d session' m, Reaches s' u →
          u.step code (.run j) = some u' → u'.calls[j]? = some d →
            d.op = .activateGeneration session' → d.script = .done (.generation m) → n < m := by
  refine ⟨h.sound hs, ?_⟩
  rintro i c session n rfl hc hop hdone
  obtain ⟨howner, hdb, -⟩ := h.activated hs hc hop hdone
  have hn : s'.db.generation = n := by rw [hdb]
  refine ⟨howner, hn, fun u u' j d session' m hr hu hd hop' hdone' => ?_⟩
  have h' : Reachable s' := h.trans (.step hs)
  obtain ⟨-, -, hm⟩ := (h'.trans hr).activated hu hd hop' hdone'
  have hle := hr.generation_le h'
  omega

/-! ## Edit locks behind the fence -/

/-- The transactions of an acquire of an edit lock. -/
def sampleBody : Script Locks.LockTable Locks.LockWrite Locks.ResourceKey Unit := do
  let _ ← Locks.acquireLock { uuid4 := fun _ _ => "t" } 0 ⟨"analysis", "x"⟩ "a" none
  pure ()

abbrev SampleSystem := CoordinatorSystem Locks.LockTable Locks.LockWrite Locks.ResourceKey

def sampleStart : SampleSystem := ⟨0, ⟨0, none, ⟨.empty⟩⟩, []⟩

abbrev SampleAction := Action (Op Locks.LockTable Locks.LockWrite Locks.ResourceKey)

/-- A session takes the lease and is about to commit the activation of its generation. -/
def sampleActivation : List SampleAction :=
  [.spawn (.acquire 1), .run 0, .run 0, .spawn (.activateGeneration 1), .run 1]

/-- Under generation 1 a call commits an edit lock; then the lease is lost, and another session
takes it and activates generation 2. -/
def sampleTakeover : List SampleAction :=
  sampleActivation ++ .run 1 :: .spawn (.transactions (some 1) sampleBody) ::
    List.replicate 5 (.run 2) ++
  [.spawn (.endSession 1), .run 3, .run 3, .spawn (.acquire 2), .run 4, .run 4,
    .spawn (.activateGeneration 2), .run 5, .run 5]

theorem Reachable.of_replay (actions : List SampleAction) (test : SampleSystem → Bool)
    (h : (System.replay code sampleStart actions).any test = true) :
    ∃ s, Reachable s ∧ test s = true := by
  obtain ⟨s, hs, htest⟩ := (Option.any_eq_true _ _).mp h
  exact ⟨s, ⟨0, sampleStart.db, .of_replay hs⟩, htest⟩

/-- The call of generation 1 does not read its lock back. -/
theorem superseded_transactions_takeover : ∃ s s' : SampleSystem, Reachable s ∧
    s.step code (.run 2) = some s' ∧ s'.db = s.db := by
  obtain ⟨s, hreach, htest⟩ := Reachable.of_replay sampleTakeover
    (fun s => s.calls[2]?.any (fun c => c.op.fencedBy = some 1) && decide (1 < s.db.generation) &&
      (s.step code (.run 2)).isSome) (by decide +kernel)
  simp only [Bool.and_eq_true, Option.isSome_iff_exists, decide_eq_true_eq] at htest
  obtain ⟨⟨hop, hold⟩, s', hs⟩ := htest
  obtain ⟨c, hc, hop⟩ := (Option.any_eq_true _ _).mp hop
  obtain ⟨body, hop⟩ := Op.fencedBy_eq (of_decide_eq_true hop)
  exact ⟨s, s', hreach, hs, superseded_transactions s s s' hreach (.refl s) 2 hs c hc 1 body hop
    hold⟩

/-- The activation is committed under the lease of its session. -/
theorem coordinator_generations_activation : ∃ s s' : SampleSystem, Reachable s ∧
    s.step code (.run 1) = some s' ∧ Sound s (.run 1) s' := by
  obtain ⟨s, hreach, htest⟩ := Reachable.of_replay sampleActivation
    (fun s => (s.step code (.run 1)).isSome) (by decide +kernel)
  obtain ⟨s', hs⟩ := Option.isSome_iff_exists.mp htest
  exact ⟨s, s', hreach, hs, (coordinator_generations s s' _ hreach hs).1⟩

end DataForge.Coordinator
