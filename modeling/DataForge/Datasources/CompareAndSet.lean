import DataForge.Datasources.Safety

/-!
# Compare and set

Runs of any number of publications, updates and deletions. A publication takes effect only at the
revision that it expects, and the revision of a row never goes back while the row exists.
-/

namespace DataForge.Datasources

open ReadCommitted

abbrev PublicationSystem := System Op Tables TableWrite TableRow Reply

abbrev PublicationCall := Call Op Tables TableWrite TableRow Reply

/-- An output placeholder that is about to commit counts on from the current revision; it has read
the row without a lock. -/
def CountsOn (s : PublicationSystem) (a : Action Op) (_ : PublicationSystem) : Prop :=
  ∀ i c id placeholder row row', a = .run i → s.calls[i]? = some c →
    c.op = .createPlaceholder id placeholder →
    TableWrite.datasource id (some row') ∈ c.txn.writes →
    s.db.datasources.get id = some row → row'.revision = row.revision + 1

/-- The states that are reached from `s`, in any interleaving, with any calls cut off. -/
def Reaches (p : Platform) (s s' : PublicationSystem) : Prop := Run (code p) CountsOn s s'

/-- The states of the runs that start without calls. -/
def Reachable (p : Platform) (s : PublicationSystem) : Prop :=
  ∃ now db, Reaches p ⟨now, db, []⟩ s

/-- A run in which the row of a datasource exists throughout. -/
def Lives (p : Platform) (id : String) (s s' : PublicationSystem) : Prop :=
  Run (code p) (fun u a u' => CountsOn u a u' ∧ (u.db.datasources.get id).isSome) s s'

/-- Call `i` commits, and has only a refresh left to do. -/
structure Committed (i : ℕ) (c : PublicationCall) (s s' : PublicationSystem) : Prop where
  call : s.calls[i]? = some c
  rows (id : String) : RowStep c.op id (s.db.datasources.get id) (s'.db.datasources.get id)
  events : c.op.settles = true → ∀ id, EventStep (s.db.events.get id) (s'.db.events.get id)
  publishes : Publishes c.op c.txn.held s.db s'.db
  settled : ∃ c', s'.calls[i]? = some c' ∧ Settled c'.script

section Steps

variable {p : Platform} {s s' : PublicationSystem} {a : Action Op} {id : String}

private theorem admits (s s' : PublicationSystem) (a : Action Op) : protocol.Admits s a s' :=
  ⟨fun _ _ => trivial, fun _ _ _ _ _ _ => trivial, fun _ _ _ _ _ _ _ => trivial⟩

theorem Reachable.good (h : Reachable p s) : Good protocol Returned s := by
  obtain ⟨now, db, hrun⟩ := h
  exact (Good.start trivial).run (verified p) (hrun.mono fun u b v _ => admits u v b)

theorem Reachable.reaches (h : Reachable p s) (hr : Reaches p s s') : Reachable p s' := by
  obtain ⟨now, db, hrun⟩ := h
  exact ⟨now, db, hrun.trans hr⟩

variable {next : DatasourceScript Reply} {i : ℕ}

theorem Reachable.commits (h : Reachable p s) {op : Op} {t : Txn TableWrite TableRow}
    (hs : s.step (code p) (.run i) = some s') (hc : s.calls[i]? = some ⟨op, .commit next, t⟩) :
    Committed i ⟨op, .commit next, t⟩ s s' := by
  have hact := h.good.commits hc rfl trivial
  obtain ⟨now, db, hrun⟩ := h
  have honce := hrun.commits (C := CommitsOnce) commits_code rfl _ (List.mem_of_getElem? hc) rfl
  have hlt := (List.getElem?_eq_some_iff.mp hc).1
  cases stepped hs with
  | commit hc' =>
    cases hc.symm.trans hc'
    refine ⟨hc, fun id => hact.1 (.datasource id), fun hsettles id => hact.1 (.event id) hsettles,
      hact.2, _, List.getElem?_set_self hlt, ?_⟩
    rw [Call.settle_script]
    exact honce.1
  | exec hc' => cases hc.symm.trans hc'
  | rollback hc' => cases hc.symm.trans hc'

theorem Reachable.committed (h : Reachable p s) (hs : s.step (code p) a = some s') :
    s'.db = s.db ∨ ∃ i c, a = .run i ∧ Committed i c s s' := by
  rcases h.good.changes hs (admits s s' a) with hdb | ⟨i, ⟨op, script, t⟩, next, rfl, hc, rfl, -⟩
  · exact Or.inl hdb
  · exact Or.inr ⟨i, _, rfl, h.commits hs hc⟩

variable {c : PublicationCall}

theorem Reachable.committed_of_ne (h : Reachable p s) (hs : s.step (code p) (.run i) = some s')
    (hc : s.calls[i]? = some c) (hne : s'.db ≠ s.db) :
    Committed i c s s' := by
  rcases h.committed hs with hdb | ⟨j, d, ha, hcommit⟩
  · exact absurd hdb hne
  · cases ha
    cases hc.symm.trans hcommit.call
    exact hcommit

theorem view_datasource {ws : List TableWrite} {db : Tables} {row : DataSource}
    (h : (view ws db).datasources.get id = some row) :
    db.datasources.get id = some row ∨ TableWrite.datasource id (some row) ∈ ws := by
  induction ws generalizing db with
  | nil => exact Or.inl h
  | cons v ws ih =>
    rcases ih h with h | h
    · cases v with
      | datasource id' row' =>
        have hput : (db.write (.datasource id' row')).datasources.get id =
            if id = id' then row' else db.datasources.get id := Table.get_put _ _ _ _
        have h' := hput.symm.trans h
        split at h'
        · next hid => exact Or.inr (by rw [hid, h']; exact List.mem_cons_self)
        · exact Or.inl h'
      | event => exact Or.inl h
      | claim => exact Or.inl h
    · exact Or.inr (List.mem_cons_of_mem _ h)

/-- The revision of a row never goes back. -/
theorem Reachable.revision_le (h : Reachable p s) (hs : s.step (code p) a = some s')
    (hcount : CountsOn s a s') {row row' : DataSource} (hrow : s.db.datasources.get id = some row)
    (hrow' : s'.db.datasources.get id = some row') : row.revision ≤ row'.revision := by
  rcases h.good.changes hs (admits s s' a) with hdb | ⟨i, c, next, rfl, hc, -, hview, -, -, hact, -⟩
  · rw [hdb, hrow, Option.some.injEq] at hrow'
    rw [hrow']
  have hstep : RowStep c.op id (s.db.datasources.get id) (s'.db.datasources.get id) :=
    hact (.datasource id)
  rw [hrow, hrow'] at hstep
  cases hstep with
  | same => exact Nat.le_refl _
  | published => exact Nat.le_succ _
  | cached => exact Nat.le_refl _
  | updated => exact Nat.le_succ _
  | overwritten hop =>
    rw [hview] at hrow'
    rcases view_datasource hrow' with hsame | hwritten
    · rw [show s.db.datasources.get id = _ from hrow, Option.some.injEq] at hsame
      exact Nat.le_of_eq (congrArg DataSource.revision hsame)
    · rw [hcount i c id _ row _ rfl hc hop hwritten hrow]
      exact Nat.le_succ _
  | marked => exact Nat.le_refl _

theorem Lives.reaches (h : Lives p id s s') : Reaches p s s' := h.mono fun _ _ _ h => h.1

theorem Lives.revision_le (hreach : Reachable p s) (h : Lives p id s s') {row row' : DataSource}
    (hrow : s.db.datasources.get id = some row) (hrow' : s'.db.datasources.get id = some row') :
    row.revision ≤ row'.revision := by
  induction h generalizing row' with
  | refl =>
    rw [hrow, Option.some.injEq] at hrow'
    rw [hrow']
  | step hr hs hok ih =>
    obtain ⟨middle, hmiddle⟩ := Option.isSome_iff_exists.mp hok.2
    have hreach' := hreach.reaches (Lives.reaches hr)
    exact (ih hmiddle).trans (hreach'.revision_le hs hok.1 hmiddle hrow')

/-- What can be left of a call after its commit. -/
def Finishing (q : DatasourceScript Reply) : Prop :=
  Settled q ∨ q = .raise "Could not refresh instance" ∨ q = .raise "aborted"

private theorem finishing_read {effect : Env Tables TableRow → Effect TableWrite TableRow}
    {next : Env Tables TableRow → DatasourceScript Reply} {e : Env Tables TableRow}
    (h : Finishing (.exec effect next)) : Finishing (next e) := by
  rcases h with (⟨reply, h⟩ | ⟨id, h⟩) | h | h
  · cases h
  · cases h
    dsimp only
    generalize e.db.datasources.get id = found
    cases found with
    | none => exact Or.inr (Or.inl rfl)
    | some row => exact Or.inl (Or.inl ⟨_, rfl⟩)
  · cases h
  · cases h

private theorem not_finishing_of_commit :
    ¬ Finishing (.commit next) := by
  rintro ((⟨reply, h⟩ | ⟨id, h⟩) | h | h) <;> cases h

private theorem not_finishing_of_rollback :
    ¬ Finishing (.rollback next) := by
  rintro ((⟨reply, h⟩ | ⟨id, h⟩) | h | h) <;> cases h

theorem Committed.fails {c d : PublicationCall} {error : String} {s'' : PublicationSystem}
    (h : Committed i c s s') (hr : Reaches p s' s'') (hd : s''.calls[i]? = some d)
    (herror : d.script = .raise error) :
    error = "Could not refresh instance" ∨ error = "aborted" := by
  obtain ⟨c', hc', hsettled⟩ := h.settled
  obtain ⟨d', hd', hleft⟩ := hr.remains (S := Finishing) (fun _ _ _ => finishing_read)
    (fun _ hq => (not_finishing_of_commit hq).elim)
    (fun _ hq => (not_finishing_of_rollback hq).elim)
    (Or.inr (Or.inr rfl)) hc' (Or.inl hsettled)
  cases hd.symm.trans hd'
  rw [herror] at hleft
  rcases hleft with (⟨reply, h⟩ | ⟨id, h⟩) | h | h
  · cases h
  · cases h
  · exact Or.inl (Script.raise.inj h)
  · exact Or.inr (Script.raise.inj h)

variable {guard : Option Guard} {config : Config}

theorem Reachable.create_keeps (h : Reachable p s) {name sourceType : String}
    {description ownerId schemaInfo : Option String} {id' : String} {row : DataSource}
    (hs : s.step (code p) (.run i) = some s') (hc : s'.calls[i]? = some c)
    (hop : c.op = .createDatasource id' name description sourceType config ownerId schemaInfo guard)
    (hrow : s.db.datasources.get id = some row) : s'.db.datasources.get id = some row := by
  rcases h.committed hs with hdb | ⟨j, d, ha, hcommit⟩
  · rw [hdb, hrow]
  · cases ha
    obtain ⟨c', hc', hop'⟩ := (stepped hs).op_eq hcommit.call
    cases hc.symm.trans hc'
    have hstep := hcommit.rows id
    rw [← hop', hop, hrow] at hstep
    generalize hafter : s'.db.datasources.get id = after at hstep ⊢
    cases hstep with
    | same => rfl
    | published hop => cases hop
    | cached hop => cases hop
    | updated hop => cases hop
    | overwritten hop => cases hop
    | marked hop => cases hop
    | deleted hop => cases hop

theorem Reachable.create_fails (h : Reachable p s) {name sourceType : String}
    {description ownerId schemaInfo : Option String} {error : String} (hc : s.calls[i]? = some c)
    (hop : c.op = .createDatasource id name description sourceType config ownerId schemaInfo guard)
    (herror : c.script = .raise error) : error = "aborted" ∨ ∃ now db past,
      (∀ x ∈ past, Met (code p) CountsOn i ⟨now, db, []⟩ s x) ∧
      CreateFails p id name sourceType ownerId config guard error past := by
  obtain ⟨now, db, hrun⟩ := h
  refine (hrun.raises (B := fun op => op = c.op)
    (P := CreateFails p id name sourceType ownerId config guard) (fun i op hop' => ?_) rfl hc rfl
      herror).imp (fun haborted => haborted) fun hmet => ⟨now, db, hmet⟩
  rw [hop', hop]
  exact raises_createDatasource

theorem Reachable.returned (h : Reachable p s) {reply : Reply} (hc : s.calls[i]? = some c)
    (hop : c.op.publishes = true) (hdone : c.script = .done reply) :
    ∃ s1 s2 d, Reachable p s1 ∧ s1.step (code p) (.run i) = some s2 ∧ Committed i d s1 s2 ∧
      d.op = c.op ∧ Reaches p s2 s := by
  obtain ⟨now, db, hrun⟩ := h
  obtain ⟨s1, s2, next, t, hreach, hs, hreach', hcommit⟩ :=
    hrun.committed (B := fun op => op.publishes = true) (fun i op => (commitsFirst_code · i)) rfl hc
      hop hdone
  exact ⟨s1, s2, _, ⟨now, db, hreach⟩, hs, Reachable.commits ⟨now, db, hreach⟩ hs hcommit, rfl,
    hreach'⟩

theorem Reachable.step_publish (h : Reachable p s) {i n : ℕ} {schemaInfo : Option String}
    (hs : s.step (code p) (.run i) = some s') (hc : s.calls[i]? = some c)
    (hop : c.op = .publishIngest id config n schemaInfo guard) : Reachable p s' := by
  refine h.reaches ((Run.refl s).step hs ?_)
  intro j d id' placeholder row row' ha hd hop'
  cases ha
  cases hc.symm.trans hd
  rw [hop] at hop'
  cases hop'

end Steps

/-- Publications compare and set. Every step commits one call or changes nothing; while its row
exists, a revision never goes back, and a later ingest has expected a later revision; a call that
has committed fails only behind its commit, and a creation or publication that has returned has
committed; and a creation leaves rows as they are, returns the stored row and fails only for what
it has met. -/
theorem publication_compare_and_set (p : Platform) :
    (∀ s a s', Reachable p s → s.step (code p) a = some s' →
      (s'.db = s.db ∨ ∃ i c, a = .run i ∧ Committed i c s s') ∧
      (CountsOn s a s' → ∀ id row row', s.db.datasources.get id = some row →
        s'.db.datasources.get id = some row' → row.revision ≤ row'.revision)) ∧
    (∀ s1 s2 s3 s4 i j c d id config config' n n' schemaInfo schemaInfo' guard guard',
      Reachable p s1 → s1.step (code p) (.run i) = some s2 → Committed i c s1 s2 →
      c.op = .publishIngest id config n schemaInfo guard → Lives p id s2 s3 →
      s3.step (code p) (.run j) = some s4 → Committed j d s3 s4 →
      d.op = .publishIngest id config' n' schemaInfo' guard' → n < n') ∧
    (∀ s1 s2 s3 i c d error, Reachable p s1 → s1.step (code p) (.run i) = some s2 →
      Committed i c s1 s2 → Reaches p s2 s3 → s3.calls[i]? = some d → d.script = .raise error →
      error = "Could not refresh instance" ∨ error = "aborted") ∧
    (∀ s i c reply, Reachable p s → s.calls[i]? = some c → c.op.publishes = true →
      c.script = .done reply → ∃ s1 s2 d, Reachable p s1 ∧
        s1.step (code p) (.run i) = some s2 ∧ Committed i d s1 s2 ∧ d.op = c.op ∧
        Reaches p s2 s) ∧
    (∀ s s' i c id name description sourceType config ownerId schemaInfo guard, Reachable p s →
      s.step (code p) (.run i) = some s' → s'.calls[i]? = some c →
      c.op = .createDatasource id name description sourceType config ownerId schemaInfo guard →
      (∀ id' row, s.db.datasources.get id' = some row → s'.db.datasources.get id' = some row) ∧
      (∀ reply, c.script = .done reply →
        ∃ row, reply = .datasource row ∧ s'.db.datasources.get id = some row)) ∧
    (∀ s i c id name description sourceType config ownerId schemaInfo guard error,
      Reachable p s → s.calls[i]? = some c →
      c.op = .createDatasource id name description sourceType config ownerId schemaInfo guard →
      c.script = .raise error → error = "aborted" ∨ ∃ now db past,
        (∀ x ∈ past, Met (code p) CountsOn i ⟨now, db, []⟩ s x) ∧
        CreateFails p id name sourceType ownerId config guard error past) := by
  refine ⟨fun s a s' h hs => ⟨h.committed hs, fun hcount id row row' hrow hrow' =>
    h.revision_le hs hcount hrow hrow'⟩, ?_, fun s1 s2 s3 i c d error h hs hcommit hr hd herror =>
    hcommit.fails hr hd herror, fun s i c reply h hc hop hdone => h.returned hc hop hdone, ?_,
    fun s i c id name description sourceType config ownerId schemaInfo guard error h hc hop
      herror => h.create_fails hc hop herror⟩
  · intro s1 s2 s3 s4 i j c d id config config' n n' schemaInfo schemaInfo' guard guard' h hs hc
      hop hlives hs' hd hop'
    have hreach₂ := h.step_publish hs hc.call hop
    obtain ⟨row, -, -, -, hafter⟩ := hc.publishes.ingest id config n schemaInfo guard hop
    obtain ⟨row', hbefore', hrevision', -⟩ :=
      hd.publishes.ingest id config' n' schemaInfo' guard' hop'
    have hle := hlives.revision_le hreach₂ hafter hbefore'
    rw [hrevision'] at hle
    exact hle
  · intro s s' i c id name description sourceType config ownerId schemaInfo guard h hs hc hop
    refine ⟨fun id' row hrow => h.create_keeps hs hc hop hrow, fun reply hdone => ?_⟩
    obtain ⟨t, hret⟩ := h.good.returns hs (admits _ _ _) hc hdone
    rw [hop] at hret
    rcases hret with hrow | ⟨hreplies, -⟩
    · exact hrow
    · cases hreplies

section Samples

/-- Ids are URLs. -/
def samplePlatform : Platform := { eventId := id, isUuid := fun _ => true }

/-- One datasource, and a claim under which it is published. -/
def sampleTables : Tables where
  datasources := Table.empty.put "d" (some { name := "D", sourceType := "file", config := .empty })
  events := .empty
  claims := Table.empty.put "r" (some ⟨"w", "t", 1, 9⟩)

def sampleGuard : Guard := ⟨"r", "w", "t", 1, "Datasource publication claim is no longer active"⟩

def sampleIngest (n : ℕ) : Op := .publishIngest "d" .empty n none (some sampleGuard)

def sampleSchema (schemaInfo : String) : Op :=
  .publishSchemaCache "d" 1 schemaInfo (some sampleGuard)

/-- No call is a placeholder, and the datasource exists. -/
def sampleTest (s : PublicationSystem) (_ : Action Op) : Bool :=
  (s.db.datasources.get "d").isSome && s.calls.all fun c => match c.op with
    | .createPlaceholder .. => false
    | _ => true

theorem Lives.of_replay {p : Platform} {s s' : PublicationSystem} {actions : List (Action Op)}
    (h : s.replayWhen (code p) sampleTest actions = some s') : Lives p "d" s s' := by
  refine (Run.of_replayWhen h).mono fun u a u' htest => ?_
  simp only [sampleTest, Bool.and_eq_true, List.all_eq_true] at htest
  refine ⟨fun i c id placeholder row row' _ hc hop _ _ => ?_, htest.1⟩
  have hother := htest.2 c (List.mem_of_getElem? hc)
  rw [hop] at hother
  cases hother

theorem Reachable.of_replays {p : Platform} (db : Tables) (first second : List (Action Op))
    (i j : ℕ) (test : PublicationSystem → PublicationSystem → PublicationSystem →
      PublicationSystem → Bool)
    (h : ((System.replayWhen (code p) sampleTest ⟨0, db, []⟩ first).any fun s1 =>
      (s1.step (code p) (.run i)).any fun s2 => (s2.replayWhen (code p) sampleTest second).any
        fun s3 => (s3.step (code p) (.run j)).any (test s1 s2 s3)) = true) :
    ∃ s1 s2 s3 s4, Reachable p s1 ∧ s1.step (code p) (.run i) = some s2 ∧ Lives p "d" s2 s3 ∧
      s3.step (code p) (.run j) = some s4 ∧ test s1 s2 s3 s4 = true := by
  obtain ⟨s1, hs1, h⟩ := (Option.any_eq_true _ _).mp h
  obtain ⟨s2, hs2, h⟩ := (Option.any_eq_true _ _).mp h
  obtain ⟨s3, hs3, h⟩ := (Option.any_eq_true _ _).mp h
  obtain ⟨s4, hs4, htest⟩ := (Option.any_eq_true _ _).mp h
  exact ⟨s1, s2, s3, s4, ⟨0, db, (Lives.of_replay hs1).reaches⟩, hs2, .of_replay hs3, hs4, htest⟩

theorem Op.of_ingests {op : Op} (h : op.ingests = true) :
    ∃ config n schemaInfo guard, op = .publishIngest op.datasourceId config n schemaInfo guard := by
  cases op with
  | publishIngest => exact ⟨_, _, _, _, rfl⟩
  | _ => cases h

/-- Call `i` of the state is about the sample, and passes the test. -/
def sampleCall (test : Op → Bool) (s : PublicationSystem) (i : ℕ) : Bool :=
  s.calls[i]?.any fun c => test c.op && c.op.datasourceId = "d"

/-- The schema and the revision of the sample. -/
def sampleRow (s : PublicationSystem) : Option (Option String × ℕ) :=
  (s.db.datasources.get "d").map fun row => (row.schemaCache, row.revision)

theorem ne_of_sampleRow {s s' : PublicationSystem} (h : sampleRow s' ≠ sampleRow s) :
    s'.db ≠ s.db := by
  intro hdb
  rw [sampleRow, sampleRow, hdb] at h
  exact h rfl

end Samples

/-- Two ingests, one after the other, expect revisions in this order. -/
theorem publication_compare_and_set_ingests : ∃ (s1 s2 s3 s4 : PublicationSystem)
    (c d : PublicationCall) (config config' : Config) (n n' : ℕ)
    (schemaInfo schemaInfo' : Option String) (guard guard' : Option Guard),
      Reachable samplePlatform s1 ∧ Lives samplePlatform "d" s2 s3 ∧
      Committed 0 c s1 s2 ∧ Committed 1 d s3 s4 ∧
      c.op = .publishIngest "d" config n schemaInfo guard ∧
      d.op = .publishIngest "d" config' n' schemaInfo' guard' ∧ n < n' := by
  obtain ⟨s1, s2, s3, s4, hreach, hs, hlives, hs', htest⟩ :=
    Reachable.of_replays (p := samplePlatform) sampleTables
      (.spawn (sampleIngest 1) :: List.replicate 3 (.run 0))
      (.spawn (sampleIngest 2) :: List.replicate 3 (.run 1)) 0 1
      (fun s1 s2 s3 s4 => sampleCall Op.ingests s1 0 && sampleCall Op.ingests s3 1 &&
        sampleRow s2 ≠ sampleRow s1 && sampleRow s4 ≠ sampleRow s3) (by decide +kernel)
  simp only [Bool.and_eq_true, decide_eq_true_eq, Option.any_eq_true, sampleCall] at htest
  obtain ⟨⟨⟨⟨c, hc, hingest, hid⟩, d, hd, hingest', hid'⟩, hrow⟩, hrow'⟩ := htest
  obtain ⟨config, n, schemaInfo, guard, hop⟩ := Op.of_ingests hingest
  obtain ⟨config', n', schemaInfo', guard', hop'⟩ := Op.of_ingests hingest'
  rw [hid] at hop
  rw [hid'] at hop'
  have hreach₃ := (hreach.step_publish hs hc hop).reaches hlives.reaches
  have hcommit := hreach.committed_of_ne hs hc (ne_of_sampleRow hrow)
  have hcommit' := hreach₃.committed_of_ne hs' hd (ne_of_sampleRow hrow')
  exact ⟨s1, s2, s3, s4, c, d, config, config', n, n', schemaInfo, schemaInfo', guard, guard',
    hreach, hlives, hcommit, hcommit', hop, hop',
    (publication_compare_and_set samplePlatform).2.1 s1 s2 s3 s4 0 1 c d "d" config config' n n'
      schemaInfo schemaInfo' guard guard' hreach hs hcommit hop hlives hs' hcommit' hop'⟩

/-- The revision that a publication expects. -/
def Op.expects : Op → Option ℕ
  | .publishIngest _ _ n _ _ | .publishSchemaCache _ n _ _ => some n
  | _ => none

/-- Two publications that expect one revision of a datasource, and both succeed. -/
theorem schemas_share_revision : ¬ ∀ (p : Platform) (s1 s2 s3 s4 : PublicationSystem) i j c d n id,
    Reachable p s1 → s1.step (code p) (.run i) = some s2 → s2.db ≠ s1.db → Lives p id s2 s3 →
    s3.step (code p) (.run j) = some s4 → s4.db ≠ s3.db → s1.calls[i]? = some c →
    s3.calls[j]? = some d → i ≠ j → c.op.datasourceId = id → d.op.datasourceId = id →
    ¬ (c.op.expects = some n ∧ d.op.expects = some n) := by
  intro hall
  obtain ⟨s1, s2, s3, s4, hreach, hs, hlives, hs', htest⟩ :=
    Reachable.of_replays (p := samplePlatform) sampleTables
      (.spawn (sampleSchema "a") :: List.replicate 2 (.run 0))
      (.spawn (sampleSchema "b") :: List.replicate 2 (.run 1)) 0 1
      (fun s1 s2 s3 s4 => sampleCall (·.expects = some 1) s1 0 &&
        sampleCall (·.expects = some 1) s3 1 && sampleRow s2 ≠ sampleRow s1 &&
        sampleRow s4 ≠ sampleRow s3) (by decide +kernel)
  simp only [Bool.and_eq_true, decide_eq_true_eq, Option.any_eq_true, sampleCall] at htest
  obtain ⟨⟨⟨⟨c, hc, hexpects, hid⟩, d, hd, hexpects', hid'⟩, hrow⟩, hrow'⟩ := htest
  exact hall samplePlatform s1 s2 s3 s4 0 1 c d 1 "d" hreach hs (ne_of_sampleRow hrow) hlives hs'
    (ne_of_sampleRow hrow') hc hd (by decide) hid hid' ⟨hexpects, hexpects'⟩

end DataForge.Datasources
