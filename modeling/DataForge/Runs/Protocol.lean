import DataForge.Runs.Service

/-!
# Compute worker runs: protocol

What a commit of each operation may do to the row of a run, and that the scripts do no more,
whatever other calls commit between their statements.
-/

namespace DataForge.Runs

open Documents ReadCommitted

/-- What a commit of an operation may make of the row of a run. -/
inductive RowStep (p : Platform) (op : Op) (id : String) :
    Option ComputeWorkerRun → Option ComputeWorkerRun → Prop where
  | same (row : Option ComputeWorkerRun) : RowStep p op id row row
  | created {ns : String} {payload : ComputeWorkerRunPayload} {run : ComputeWorkerRun}
      (hop : op = .create ns payload) (hid : payload.id = id)
      (hrun : newRun p.validate ns payload = .ok run) : RowStep p op id none (some run)
  | updated {ns : String} {merge serializeResponse : Bool} {changes : ComputeWorkerRunChanges}
      {run run' : ComputeWorkerRun} (hop : op = .update ns id merge serializeResponse changes)
      (hrunning : run.status.isTerminal = false)
      (happly : applyChanges p.validate merge changes run = .ok run') :
      RowStep p op id (some run) (some run')
  | cancelled {ns : String} {cancelledBy : Option String} {changes : ComputeWorkerRunChanges}
      {run run' : ComputeWorkerRun} (hop : op = .cancel ns id cancelledBy)
      (hrunning : run.status.isTerminal = false)
      (happly : applyChanges p.validate false changes run = .ok run') :
      RowStep p op id (some run) (some run')

variable {row : ComputeWorkerRun}

theorem RowStep.isSome {p : Platform} {op : Op} {id : String} {after : Option ComputeWorkerRun}
    (h : RowStep p op id (some row) after) :
    ∃ row', after = some row' ∧ row'.ns = row.ns := by
  cases h with
  | same => exact ⟨row, rfl, rfl⟩
  | updated hop hrunning happly => exact ⟨_, rfl, (applyChanges_ok happly).1⟩
  | cancelled hop hrunning happly => exact ⟨_, rfl, (applyChanges_ok happly).1⟩

theorem RowStep.terminal {p : Platform} {op : Op} {id : String} {after : Option ComputeWorkerRun}
    (h : RowStep p op id (some row) after) (ht : row.status.isTerminal = true) :
    after = some row := by
  cases h with
  | same => rfl
  | updated hop hrunning happly => rw [hrunning] at ht; cases ht
  | cancelled hop hrunning happly => rw [hrunning] at ht; cases ht

/-- Ids that `uuid4` draws are no idempotency keys. -/
def Op.drawn (keys : String → Prop) : Op → Prop
  | .create _ payload =>
    match payload.idempotencyKey with
    | some key => keys key
    | none => ¬ keys payload.id
  | _ => True

theorem Op.drawn_of_some {keys : String → Prop} {key : String}
    {payload : ComputeWorkerRunPayload} (ns : String) (h : payload.idempotencyKey = some key) :
    (Op.create ns payload).drawn keys ↔ keys key := by
  simp only [Op.drawn, h]

theorem Op.drawn_of_none {keys : String → Prop} {payload : ComputeWorkerRunPayload} (ns : String)
    (h : payload.idempotencyKey = none) :
    (Op.create ns payload).drawn keys ↔ ¬ keys payload.id := by
  simp only [Op.drawn, h]

/-- A creation with a key that makes the row holds the lock of the key. -/
def HoldsKey (op : Op) (held : List (Lock RunResource)) (a b : RunTable) : Prop :=
  ∀ ns payload key, op = .create ns payload → payload.idempotencyKey = some key →
    a.get payload.id ≠ b.get payload.id →
      ∃ k ∈ held, k.res = .advisory (lockName ns key) ∧ k.mode = .exclusive

/-- The protocol of the runs; `observed i` are the states in which call `i` reads. -/
def protocol (p : Platform) (keys : String → Prop) (observed : ℕ → World RunTable → Prop) :
    Protocol Op RunTable RunWrite RunResource where
  visited i _ w := observed i w
  calls op := op.drawn keys
  inv _ := True
  act _ op held w db := (∀ id, RowStep p op id (w.db.get id) (db.get id)) ∧ HoldsKey op held w.db db
  cond _ _ _ := True
  inv_tick _ _ := trivial
  inv_act _ _ _ _ := trivial

/-- What a creation with a key replies to what it finds under the key: the row, if it is of the
same request, a new row, or an error because the row is of another request or an execution entry is
no valid one. -/
inductive CreateReply (p : Platform) (ns : String) (payload : ComputeWorkerRunPayload)
    (key : String) : Option ComputeWorkerRun → Except String Reply → Prop where
  | existing {row : ComputeWorkerRun} (hsame : payload.sameRequest ns row = true) :
      CreateReply p ns payload key (some row) ((serializeRun p.validate key row).map .response)
  | reused {row : ComputeWorkerRun} {e : String} (hdiffers : payload.sameRequest ns row = false) :
      CreateReply p ns payload key (some row) (.error e)
  | invalid {e : String} (hnew : newRun p.validate ns payload = .error e) :
      CreateReply p ns payload key none (.error e)
  | made {run : ComputeWorkerRun} (hnew : newRun p.validate ns payload = .ok run) :
      CreateReply p ns payload key none ((serializeRun p.validate key run).map .response)

variable {ns key : String}

theorem CreateReply.ok {p : Platform} {payload : ComputeWorkerRunPayload}
    {found : Option ComputeWorkerRun} {r : Reply} (h : CreateReply p ns payload key found (.ok r)) :
    ∃ response, r = .response response ∧ response.id = key ∧
      payload.sameRequest ns response.run = true ∧ (found = some response.run ∨ found = none) := by
  generalize hreply : Except.ok r = reply at h
  cases h with
  | @existing row hsame =>
    obtain ⟨response, hser, rfl⟩ := Effects.map_ok.mp hreply.symm
    obtain ⟨hid, rfl, -⟩ := serializeRun_ok hser
    exact ⟨response, rfl, hid, hsame, Or.inl rfl⟩
  | reused | invalid => cases hreply
  | made hnew =>
    obtain ⟨response, hser, rfl⟩ := Effects.map_ok.mp hreply.symm
    obtain ⟨hid, rfl, -⟩ := serializeRun_ok hser
    exact ⟨response, rfl, hid, sameRequest_newRun hnew, Or.inr rfl⟩

theorem CreateReply.error {p : Platform} {payload : ComputeWorkerRunPayload}
    {found : Option ComputeWorkerRun} {e : String}
    (h : CreateReply p ns payload key found (.error e)) :
    (∃ row, found = some row ∧
      (payload.sameRequest ns row = false ∨ serializeRun p.validate key row = .error e)) ∨
    newRun p.validate ns payload = .error e ∨
    ∃ run, newRun p.validate ns payload = .ok run ∧ serializeRun p.validate key run = .error e := by
  generalize hreply : Except.error e = reply at h
  cases h with
  | @existing row hsame => exact Or.inl ⟨row, rfl, Or.inr (Effects.map_error.mp hreply.symm)⟩
  | @reused row _ hdiffers => exact Or.inl ⟨row, rfl, Or.inl hdiffers⟩
  | invalid hnew =>
    cases hreply
    exact Or.inr (Or.inl hnew)
  | @made run hnew => exact Or.inr (Or.inr ⟨run, hnew, Effects.map_error.mp hreply.symm⟩)

theorem CreateReply.of_same {p : Platform} {payload : ComputeWorkerRunPayload}
    {reply : Except String Reply} (h : CreateReply p ns payload key (some row) reply)
    (hsame : payload.sameRequest ns row = true) :
    reply = (serializeRun p.validate key row).map .response := by
  cases h with
  | existing => rfl
  | reused hdiffers => rw [hsame] at hdiffers; cases hdiffers

/-- If the row is terminal in `v`, it gives an update a reason to fail with `e`. -/
def Refused (p : Platform) (ns id : String) (changes : ComputeWorkerRunChanges) (e : String)
    (v : World RunTable) : Prop :=
  ∀ row, v.db.get id = some row → row.status.isTerminal = true →
    row.ns ≠ ns ∨ changes.requestedStatus = .error e ∨ serializeRun p.validate id row = .error e

/-- What an update returns at the moment it ends. -/
def UpdateReturns (p : Platform) (observed : World RunTable → Prop) (ns id : String)
    (changes : ComputeWorkerRunChanges) (reply : Except String Reply) (w : World RunTable) : Prop :=
  (∀ r, reply = .ok r → ∃ row, w.db.get id = some row ∧
    (r.applied = true ↔ ∀ status, changes.status = some status → status = row.status.value) ∧
    ∀ response, r = .response response → response.run = row) ∧
  ∀ e, reply = .error e → ∃ v, observed v ∧ Refused p ns id changes e v

/-- What a creation with a key ends with: a reply to the row under the key as it found it. The row
is there at the end, and is the one shown where the creation made it. -/
def CreateReturns (p : Platform) (observed : World RunTable → Prop) (ns : String)
    (payload : ComputeWorkerRunPayload) (reply : Except String Reply) (w : World RunTable) : Prop :=
  ∃ v, observed v ∧ CreateReply p ns payload payload.id (v.db.get payload.id) reply ∧
    ∀ r, reply = .ok r → (w.db.get payload.id).isSome = true ∧
      (v.db.get payload.id = none →
        ∃ response, r = .response response ∧ w.db.get payload.id = some response.run)

/-- What a call ends with. -/
def Returned (p : Platform) (observed : ℕ → World RunTable → Prop) (i : ℕ) (op : Op)
    (reply : Except String Reply) (_ : Txn RunWrite RunResource) (w : World RunTable) : Prop :=
  match op with
  | .update ns id _ _ changes => UpdateReturns p (observed i) ns id changes reply w
  | .create ns payload =>
    payload.idempotencyKey.isSome = true → CreateReturns p (observed i) ns payload reply w
  | .cancel .. => True

/-- A transaction that is about to replace the row `before` of a run, which it has locked. -/
structure Pending (id : String) (before after : Option ComputeWorkerRun)
    (t : Txn RunWrite RunResource) (w : World RunTable) : Prop where
  writes : t.writes = [⟨id, after⟩]
  held : ∃ k ∈ t.held, k.res = .row id
  before : w.db.get id = before

/-- A transaction that has locked a row and has written nothing. -/
structure Locked (id : String) (run : ComputeWorkerRun) (t : Txn RunWrite RunResource)
    (w : World RunTable) : Prop where
  writes : t.writes = []
  held : ∃ k ∈ t.held, k.res = .row id
  row : w.db.get id = some run

section Statements

variable {p : Platform} {keys : String → Prop} {observed : ℕ → World RunTable → Prop} {β : Type}
  {i : ℕ} {op : Op} {ns id : String} {run : ComputeWorkerRun}
  {Q : Except String Reply → Txn RunWrite RunResource → World RunTable → Prop}
  {t : Txn RunWrite RunResource} {w : World RunTable} {before after : Option ComputeWorkerRun}

theorem Locked.rely {w' : World RunTable} (h : Locked id run t w)
    (hr : (protocol p keys observed).Rely t.held w w') : Locked id run t w' := by
  obtain ⟨k, hk, hres⟩ := h.held
  have hsame : Storage.same RunWrite (RunResource.row id) w'.db w.db := hres ▸ hr.same hk
  exact ⟨h.writes, ⟨k, hk, hres⟩, Eq.trans hsame h.row⟩

theorem wp_lockRun {rest : Option ComputeWorkerRun → RunScript (Except String Reply)}
    (ht : t.writes = [])
    (hsome : ∀ w' t' run, (protocol p keys observed).Rely t.held w w' → t.held ⊆ t'.held →
      observed i w' → Locked id run t' w' →
      (protocol p keys observed).wp i op Q (rest (some run)) t' w')
    (hnone : ∀ w' t', observed i w' → (∀ row, w'.db.get id = some row → row.ns ≠ ns) →
      (protocol p keys observed).wp i op Q (rest none) t' w') :
    (protocol p keys observed).wp i op Q (lockRun ns id >>= rest) t w := by
  apply Protocol.wp_statement
  intro w' e hr _ hs
  have hdb : e.db = w'.db := by rw [hs.db, ht, view_nil]
  obtain ⟨_, hseen⟩ := hs.visited
  rw [hdb]
  cases hrow : (w'.db.get id).filter (·.ns = ns) with
  | none =>
    refine hnone w' _ hseen fun row hget hns => ?_
    rw [hget, Option.filter_some_eq_none] at hrow
    exact hrow (decide_eq_true hns)
  | some run =>
    obtain ⟨hget, -⟩ := Option.filter_eq_some_iff.mp hrow
    refine hsome w' _ run hr (t.held_subset_after e _) hseen ⟨?_, ?_, hget⟩
    · simp [Txn.after, ht]
    · exact ⟨_, t.lock_mem_after e (n := (.row id, .exclusive)) (by simp [Effect.needs]), rfl⟩

theorem wp_utcNow {rest : ℕ → RunScript (Except String Reply)}
    (h : ∀ w' t' now, (protocol p keys observed).Rely t.held w w' → t'.held = t.held →
      t'.writes = t.writes → (protocol p keys observed).wp i op Q (rest now) t' w') :
    (protocol p keys observed).wp i op Q (utcNow >>= rest) t w := by
  apply Protocol.wp_query
  intro w' e hr _ _
  exact h w' _ e.now hr rfl rfl

theorem wp_writeRun {changed : ComputeWorkerRun} {rest : Unit → RunScript (Except String Reply)}
    (hl : Locked id run t w)
    (h : ∀ w' t', (protocol p keys observed).Rely t.held w w' →
      Pending id (some run) (some changed) t' w' →
      (protocol p keys observed).wp i op Q (rest ()) t' w') :
    (protocol p keys observed).wp i op Q (writeRun id changed >>= rest) t w := by
  apply Protocol.wp_statement
  intro w' e hr _ _
  have hl' := hl.rely hr
  obtain ⟨k, hk, hres⟩ := hl'.held
  refine h w' _ hr ⟨?_, ⟨k, t.held_subset_after e _ hk, hres⟩, hl'.row⟩
  rw [Txn.after, hl.writes]
  rfl

theorem wp_finish_error {e : String} (hQ : ∀ w', Q (.error e) {} w') :
    (protocol p keys observed).wp i op Q (finish (.error e)) t w :=
  Protocol.wp_rollback fun w' _ _ => hQ w'

theorem wp_finish_idle {r : Reply} (ht : t.writes = [])
    (hQ : ∀ w', (protocol p keys observed).Rely t.held w w' → Q (.ok r) {} w') :
    (protocol p keys observed).wp i op Q (finish (.ok r)) t w := by
  apply Protocol.wp_commit
  intro w' hr _ _
  rw [ht, view_nil]
  exact ⟨⟨fun id => .same _, fun _ _ _ _ _ hne => absurd rfl hne⟩, hQ w' hr⟩

/-- A commit of one row. Its lock has kept the row as the statement found it. -/
theorem wp_finish_pending {r : Reply} (hp : Pending id before after t w)
    (hstep : RowStep p op id before after)
    (hkey : ∀ ns payload key, op = .create ns payload → payload.idempotencyKey = some key →
      ∃ k ∈ t.held, k.res = .advisory (lockName ns key) ∧ k.mode = .exclusive)
    (hQ : ∀ w', w'.db.get id = after → Q (.ok r) {} w') :
    (protocol p keys observed).wp i op Q (finish (.ok r)) t w := by
  apply Protocol.wp_commit
  intro w' hr _ _
  obtain ⟨lock, hmem, hres⟩ := hp.held
  have hsame : Storage.same RunWrite (RunResource.row id) w'.db w.db := hres ▸ hr.same hmem
  have hbefore : w'.db.get id = before := Eq.trans hsame hp.before
  have hview : ∀ id', (view t.writes w'.db).get id' =
      if id' = id then after else w'.db.get id' := by
    intro id'
    rw [hp.writes]
    exact RunTable.get_write w'.db ⟨id, after⟩ id'
  refine ⟨⟨fun id' => ?_, fun ns payload key hop hk _ => hkey ns payload key hop hk⟩, hQ _ ?_⟩
  · rw [hview]
    split
    · next hid =>
      rw [hid, hbefore]
      exact hstep
    · exact .same _
  · rw [hview, if_pos rfl]

/-- `stage_update_compute_worker_run` before its transaction ends. -/
theorem wp_stageUpdate {merge serializeResponse : Bool} {changes : ComputeWorkerRunChanges}
    {rest : Except String Reply → RunScript (Except String Reply)} (ht : t.writes = [])
    (herror : ∀ v e w' t', observed i v → Refused p ns id changes e v →
      (protocol p keys observed).wp i op Q (rest (.error e)) t' w')
    (hterminal : ∀ w' t' run, observed i w' → Locked id run t' w' →
      (protocol p keys observed).wp i op Q
        (rest (terminalReply p serializeResponse changes id run)) t' w')
    (hchanged : ∀ v w' t' run changed, observed i v → (∀ e, Refused p ns id changes e v) →
      Pending id (some run) (some changed) t' w' → run.status.isTerminal = false →
      applyChanges p.validate merge changes run = .ok changed →
      (protocol p keys observed).wp i op Q
        (rest (updatedReply p serializeResponse id changed)) t' w') :
    (protocol p keys observed).wp i op Q
      (stageUpdateComputeWorkerRun p ns id merge serializeResponse changes >>= rest) t w := by
  rw [stageUpdateComputeWorkerRun, Script.bind_assoc]
  refine wp_lockRun ht (fun w1 t1 run hr hsub hseen hl => ?_) fun w1 t1 hseen hns => ?_
  · dsimp only
    by_cases hterm : run.status.isTerminal = true
    · rw [if_pos hterm]
      exact hterminal w1 t1 run hseen hl
    · rw [if_neg hterm]
      have hrunning : ∀ e, Refused p ns id changes e w1 := by
        intro e row hrow ht'
        cases hl.row.symm.trans hrow
        exact absurd ht' hterm
      cases happly : applyChanges p.validate merge changes run with
      | error e => exact herror w1 e w1 t1 hseen (hrunning e)
      | ok changed =>
        dsimp only
        rw [Script.bind_assoc]
        refine wp_writeRun hl fun w2 t2 _ hp => ?_
        exact hchanged w1 w2 t2 run changed hseen hrunning hp (Bool.not_eq_true _ ▸ hterm) happly
  · exact herror w1 _ w1 t1 hseen fun row hrow _ => Or.inl (hns row hrow)

end Statements

section Operations

variable {p : Platform} {keys : String → Prop} {observed : ℕ → World RunTable → Prop} {i : ℕ}
  {ns id : String} {w : World RunTable}

variable {changes : ComputeWorkerRunChanges} {serializeResponse : Bool} {run : ComputeWorkerRun}

/-- What a reply to an update of a terminal run reports. -/
theorem terminalReply_ok {r : Reply} (h : terminalReply p serializeResponse changes id run = .ok r)
    :
    (r.applied = true ↔ ∀ status, changes.status = some status → status = run.status.value) ∧
      ∀ response, r = .response response → response.run = run := by
  obtain ⟨requested, hreq, h⟩ := Effects.bind_ok.mp h
  have happlied : (!(requested.any (· ≠ run.status))) = true ↔
      ∀ status, changes.status = some status → status = run.status.value := by
    rw [requestedStatus_ok hreq]
    cases requested with
    | none => simp
    | some status =>
      simp only [Option.any_some, Option.map_some, Bool.not_eq_true', decide_eq_false_iff_not,
        not_not, Option.some.injEq]
      constructor
      · rintro rfl _ rfl
        rfl
      · intro hs
        have hv := hs _ rfl
        revert hv
        cases status <;> cases run.status <;> decide
  split at h
  · cases hser : serializeRun p.validate id run with
    | error e => rw [hser] at h; cases h
    | ok response =>
      rw [hser] at h
      cases h
      refine ⟨happlied, ?_⟩
      rintro _ ⟨⟩
      exact (serializeRun_ok hser).2.1
  · cases h
    refine ⟨happlied, ?_⟩
    rintro _ ⟨⟩

theorem terminalReply_error {e : String}
    (h : terminalReply p serializeResponse changes id run = .error e) :
    changes.requestedStatus = .error e ∨ serializeRun p.validate id run = .error e := by
  rw [terminalReply] at h
  cases hreq : changes.requestedStatus with
  | error e' =>
    rw [hreq] at h
    cases h
    exact Or.inl rfl
  | ok requested =>
    rw [hreq] at h
    change ite _ _ _ = _ at h
    split at h
    · cases hser : serializeRun p.validate id run with
      | error e' =>
        rw [hser] at h
        cases h
        exact Or.inr rfl
      | ok response => rw [hser] at h; cases h
    · cases h

theorem updatedReply_ok {r : Reply} (h : updatedReply p serializeResponse id run = .ok r) :
    r.applied = true ∧ ∀ response, r = .response response → response.run = run := by
  rw [updatedReply] at h
  split at h
  · cases hser : serializeRun p.validate id run with
    | error e => rw [hser] at h; cases h
    | ok response =>
      rw [hser] at h
      cases h
      refine ⟨(serializeRun_ok hser).2.2, ?_⟩
      rintro _ ⟨⟩
      exact (serializeRun_ok hser).2.1
  · cases h
    refine ⟨rfl, ?_⟩
    rintro _ ⟨⟩

theorem wp_update {merge serializeResponse : Bool} :
    (protocol p keys observed).wp i (.update ns id merge serializeResponse changes)
      (Returned p observed i (.update ns id merge serializeResponse changes))
      (committed (stageUpdateComputeWorkerRun p ns id merge serializeResponse changes)) {} w := by
  have herror : ∀ v e w' t', observed i v → Refused p ns id changes e v →
      (protocol p keys observed).wp i (.update ns id merge serializeResponse changes)
        (Returned p observed i (.update ns id merge serializeResponse changes))
        (finish (.error e)) t' w' := by
    intro v e w' t' hseen hrefused
    refine wp_finish_error fun w'' => ⟨fun _ hr => (by cases hr), ?_⟩
    rintro _ ⟨⟩
    exact ⟨v, hseen, hrefused⟩
  refine wp_stageUpdate rfl herror (fun w1 t1 run hseen hl => ?_)
    fun v w1 t1 run changed hseen hrunning hp hrun happly => ?_
  · cases hreply : terminalReply p serializeResponse changes id run with
    | error e =>
      refine herror w1 e w1 t1 hseen fun row hrow _ => ?_
      cases hl.row.symm.trans hrow
      exact Or.inr (terminalReply_error hreply)
    | ok r =>
      refine wp_finish_idle hl.writes fun w2 hr => ⟨?_, fun _ hr => by cases hr⟩
      rintro _ ⟨⟩
      exact ⟨run, (hl.rely hr).row, terminalReply_ok hreply⟩
  · cases hreply : updatedReply p serializeResponse id changed with
    | error e => exact herror v e w1 t1 hseen (hrunning e)
    | ok r =>
      refine wp_finish_pending hp (.updated rfl hrun happly) (fun _ _ _ hop => by cases hop)
        fun w2 hw => ⟨?_, fun _ hr => by cases hr⟩
      rintro _ ⟨⟩
      obtain ⟨happlied, hshown⟩ := updatedReply_ok hreply
      obtain ⟨-, ⟨status, hstatus, hset⟩, -⟩ := applyChanges_ok happly
      refine ⟨changed, hw, iff_of_true happlied fun value hvalue => ?_, hshown⟩
      rw [requestedStatus_ok hstatus, Option.map_eq_some_iff] at hvalue
      obtain ⟨s, rfl, rfl⟩ := hvalue
      rw [hset]
      rfl

theorem wp_cancel {cancelledBy : Option String} :
    (protocol p keys observed).wp i (.cancel ns id cancelledBy)
      (Returned p observed i (.cancel ns id cancelledBy))
      (committed (stageCancelComputeWorkerRun p ns id cancelledBy)) {} w := by
  have herror : ∀ e w' t', (protocol p keys observed).wp i (.cancel ns id cancelledBy)
      (Returned p observed i (.cancel ns id cancelledBy)) (finish (.error e)) t' w' :=
    fun e w' t' => wp_finish_error fun _ => trivial
  rw [committed, stageCancelComputeWorkerRun, Script.bind_assoc]
  refine wp_lockRun rfl (fun w1 t1 run _ _ _ hl => ?_) fun w1 t1 _ _ => herror _ w1 t1
  dsimp only
  split
  · exact herror _ w1 t1
  · rw [Script.bind_assoc]
    refine wp_utcNow fun w2 t2 now _ _ hwrites => ?_
    cases cancelChanges p now cancelledBy run with
    | error e => exact herror e w2 t2
    | ok changes =>
      dsimp only
      rw [Script.bind_assoc]
      refine wp_stageUpdate (hwrites.trans hl.writes) (fun _ e w3 t3 _ _ => herror e w3 t3)
        (fun w3 t3 run3 _ hl3 => ?_) fun _ w3 t3 run3 changed _ _ hp hrun happly => ?_
      · cases terminalReply p true changes id run3 with
        | error e => exact herror e w3 t3
        | ok r => exact wp_finish_idle hl3.writes fun _ _ => trivial
      · cases updatedReply p true id changed with
        | error e => exact herror e w3 t3
        | ok r =>
          exact wp_finish_pending hp (.cancelled rfl hrun happly) (fun _ _ _ hop => by cases hop)
            fun _ _ => trivial

/-- A transaction that holds the advisory lock of a key. -/
def KeyLocked (ns key : String) (t : Txn RunWrite RunResource) : Prop :=
  ∃ k ∈ t.held, k.res = .advisory (lockName ns key) ∧ k.mode = .exclusive

variable {t : Txn RunWrite RunResource} {payload : ComputeWorkerRunPayload}

theorem row_rely {w' : World RunTable} (hr : (protocol p keys observed).Rely t.held w w')
    (h : (w.db.get id).isSome = true) : (w'.db.get id).isSome = true := by
  refine hr.stable (S := fun v : World RunTable => (v.db.get id).isSome = true)
    (fun _ _ _ hs => hs) ?_ h
  intro v db j op t' hc hs
  obtain ⟨row, hrow⟩ := Option.isSome_iff_exists.mp hs
  have hstep := hc.act.1 id
  rw [hrow] at hstep
  obtain ⟨row', hrow', -⟩ := hstep.isSome
  exact Option.isSome_iff_exists.mpr ⟨row', hrow'⟩

/-- While a call holds the lock of a key, nobody makes a row of the namespace under it. -/
theorem foreign_rely {key : String} {w' : World RunTable} (hkey : keys key)
    (hlock : KeyLocked ns key t) (hr : (protocol p keys observed).Rely t.held w w')
    (h : ∀ row, w.db.get key = some row → row.ns ≠ ns) :
    ∀ row, w'.db.get key = some row → row.ns ≠ ns := by
  refine hr.stable
    (S := fun v : World RunTable => ∀ row, v.db.get key = some row → row.ns ≠ ns)
    (fun _ _ _ hs => hs) ?_ h
  intro v db j op t' hc hs row hrow
  have hstep := hc.act.1 key
  rw [hrow] at hstep
  cases hbefore : v.db.get key with
  | some before =>
    rw [hbefore] at hstep
    obtain ⟨row', hrow', hns⟩ := hstep.isSome
    cases hrow'
    rw [hns]
    exact hs before hbefore
  | none =>
    rw [hbefore] at hstep
    cases hstep with
    | @created ns' payload' _ hop hid hrun =>
      rw [newRun_ok hrun]
      rintro rfl
      have hdrawn := hc.calls
      rw [hop] at hdrawn
      cases hk : payload'.idempotencyKey with
      | none =>
        exact (Op.drawn_of_none ns' hk).mp hdrawn (hid ▸ hkey)
      | some key' =>
        have hsame : key' = key := (payload'.id_eq key' hk).symm.trans hid
        have hne : v.db.get payload'.id ≠ db.get payload'.id := by
          rw [hid, hbefore, hrow]
          exact Option.some_ne_none row ∘ Eq.symm
        obtain ⟨k, hmem, hres, -⟩ := hlock
        obtain ⟨k', hmem', hres', hmode'⟩ := hc.act.2 ns' payload' key' hop hk hne
        refine hc.compatible.not_exclusive hmem hmem' hmode' ?_
        rw [hres, hres', hsame]

/-- The insertion of a run and the end of its transaction. -/
theorem wp_addRun {Q : Except String Reply → Txn RunWrite RunResource → World RunTable → Prop}
    (ht : t.writes = [])
    (hlock : ∀ key, payload.idempotencyKey = some key → KeyLocked ns key t)
    (hinvalid : ∀ e w', newRun p.validate ns payload = .error e → Q (.error e) {} w')
    (hserial : ∀ run e w', newRun p.validate ns payload = .ok run →
      serializeRun p.validate payload.id run = .error e → Q (.error e) {} w')
    (hexists : ∀ w' row, (protocol p keys observed).Rely t.held w w' → observed i w' →
      w'.db.get payload.id = some row → ∀ w'', Q (.error "IntegrityError") {} w'')
    (hok : ∀ w' run response, newRun p.validate ns payload = .ok run →
      serializeRun p.validate payload.id run = .ok response →
        w'.db.get payload.id = some run → Q (.ok (.response response)) {} w') :
    (protocol p keys observed).wp i (.create ns payload) Q
      (addRun p ns payload >>= finish) t w := by
  rw [addRun]
  cases hnew : newRun p.validate ns payload with
  | error e => exact wp_finish_error fun w' => hinvalid e w' hnew
  | ok run =>
    dsimp only
    rw [Script.bind_assoc]
    apply Protocol.wp_statement
    intro w1 e hr _ hs
    have hdb : e.db = w1.db := by rw [hs.db, ht, view_nil]
    obtain ⟨_, hseen⟩ := hs.visited
    rw [hdb]
    cases hrow : w1.db.get payload.id with
    | some row => exact wp_finish_error (hexists w1 row hr hseen hrow)
    | none =>
      have hp : Pending payload.id none (some run) (t.after e
          { locks := [(RunResource.row payload.id, Mode.exclusive)]
            writes := [⟨payload.id, some run⟩] }) w1 := by
        refine ⟨by simp [Txn.after, ht], ?_, hrow⟩
        exact ⟨_, t.lock_mem_after e (n := (.row payload.id, .exclusive)) (by simp [Effect.needs]),
          rfl⟩
      change (protocol p keys observed).wp i (.create ns payload) Q
        (finish ((serializeRun p.validate payload.id run).map .response)) _ w1
      cases hser : serializeRun p.validate payload.id run with
      | error err => exact wp_finish_error fun w' => hserial run err w' hnew hser
      | ok response =>
        refine wp_finish_pending hp (.created rfl rfl hnew) ?_
          fun w' hw => hok w' run response hnew hser hw
        rintro _ _ key ⟨⟩ hk
        obtain ⟨k, hmem, hres, hmode⟩ := hlock key hk
        exact ⟨k, t.held_subset_after e _ hmem, hres, hmode⟩

theorem wp_create (hdrawn : (Op.create ns payload).drawn keys) :
    (protocol p keys observed).wp i (.create ns payload)
      (Returned p observed i (.create ns payload))
      (committed (stageCreateComputeWorkerRun p ns payload)) {} w := by
  rw [committed, stageCreateComputeWorkerRun]
  cases hk : payload.idempotencyKey with
  | none =>
    have hfree : ∀ reply w', Returned p observed i (.create ns payload) reply {} w' := by
      intro reply w' hsome
      rw [hk] at hsome
      cases hsome
    refine wp_addRun rfl (fun key hsome => ?_) (fun _ w' _ => hfree _ w')
      (fun _ _ w' _ _ => hfree _ w') (fun _ _ _ _ _ w' => hfree _ w') fun w' _ _ _ _ _ => hfree _ w'
    rw [hk] at hsome
    cases hsome
  | some key =>
    have hkey : keys key := (Op.drawn_of_some ns hk).mp hdrawn
    have hid := payload.id_eq key hk
    dsimp only
    rw [Script.bind_assoc]
    apply Protocol.wp_statement
    intro w1 e1 _ _ hs1
    have hlock1 : KeyLocked ns key ((({} : Txn RunWrite RunResource)).after e1
        { locks := [(.advisory (lockName ns key), .exclusive)] }) :=
      ⟨_, Txn.lock_mem_after {} e1 (n := (.advisory (lockName ns key), .exclusive))
        (by simp [Effect.needs]), rfl, rfl⟩
    rw [Script.bind_assoc]
    apply Protocol.wp_query
    intro w2 e2 hr2 _ hs2
    obtain ⟨_, hseen⟩ := hs2.visited
    have hdb : e2.db = w2.db := hs2.db
    rw [hdb]
    have herror : ∀ v e w', observed i v →
        CreateReply p ns payload payload.id (v.db.get payload.id) (.error e) →
        Returned p observed i (.create ns payload) (.error e) {} w' :=
      fun v e w' hv hreply _ => ⟨v, hv, hreply, fun _ hr => by cases hr⟩
    cases hrow : w2.db.get payload.id with
    | none =>
      refine wp_addRun rfl (fun key' hk' => ?_) (fun e w' hnew => ?_) (fun run e w' hnew hser => ?_)
        (fun w3 row hr3 hseen3 hrow3 w' => ?_) fun w' run response hnew hser hw _ => ?_
      · cases hk.symm.trans hk'
        exact hlock1
      · exact herror w2 e w' hseen (hrow ▸ .invalid hnew)
      · refine herror w2 e w' hseen ?_
        have hmade : CreateReply p ns payload payload.id none _ := .made hnew
        rw [hser] at hmade
        exact hrow ▸ hmade
      · have hforeign := foreign_rely hkey hlock1 hr3
          (fun row' hrow' => by rw [← hid, hrow] at hrow'; cases hrow') row (hid ▸ hrow3)
        refine herror w3 _ w' hseen3 (hrow3 ▸ .reused ?_)
        rw [ComputeWorkerRunPayload.sameRequest, decide_eq_false hforeign]
        rfl
      · have hmade : CreateReply p ns payload payload.id none _ := .made hnew
        rw [hser] at hmade
        refine ⟨w2, hseen, hrow ▸ hmade, ?_⟩
        rintro _ ⟨⟩
        rw [hw]
        exact ⟨rfl, fun _ => ⟨response, rfl, by rw [(serializeRun_ok hser).2.1]⟩⟩
    | some existing =>
      dsimp only
      by_cases hsame : payload.sameRequest ns existing = true
      · rw [if_pos hsame]
        have hfound : CreateReply p ns payload payload.id _ _ := .existing hsame
        rw [← hrow] at hfound
        cases hser : serializeRun p.validate payload.id existing with
        | error e =>
          rw [hser] at hfound
          exact wp_finish_error fun w' => herror w2 e w' hseen hfound
        | ok response =>
          rw [hser] at hfound
          refine wp_finish_idle rfl fun w3 hr3 _ => ⟨w2, hseen, hfound, fun _ _ => ?_⟩
          exact ⟨row_rely hr3 (by rw [hrow]; rfl), fun hnone => by rw [hrow] at hnone; cases hnone⟩
      · rw [if_neg hsame]
        exact wp_finish_error fun w' =>
          herror w2 _ w' hseen (hrow ▸ .reused (Bool.not_eq_true _ ▸ hsame))

theorem verified (p : Platform) (keys : String → Prop) (observed : ℕ → World RunTable → Prop) :
    Verified (protocol p keys observed) (code p) (Returned p observed) := by
  intro i op w hcalls _
  cases op with
  | create ns payload => exact wp_create hcalls
  | update ns id merge serializeResponse changes => exact wp_update
  | cancel ns id cancelledBy => exact wp_cancel

end Operations

end DataForge.Runs
