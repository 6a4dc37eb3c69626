import DataForge.Runs.Protocol

/-!
# Compute worker runs settle once

What holds of every interleaving of creations, updates and cancellations: a terminal row is never
changed again, creations with one key share one row, and merges lose no key of the result.
-/

namespace DataForge.Runs

open Documents ReadCommitted

/-- `s'` is reached from `s`; `keys` are the idempotency keys, and no id that is drawn is one. -/
def Reaches (p : Platform) (keys : String → Prop) (s s' : RunSystem) : Prop :=
  Run (code p) (fun _ a _ => ∀ op, a = .spawn op → op.drawn keys) s s'

/-- A state that some interleaving reaches from a table without calls. -/
def Reachable (p : Platform) (keys : String → Prop) (s : RunSystem) : Prop :=
  ∃ now db, Reaches p keys ⟨now, db, []⟩ s

/-- In the step from `s` to `s'`, call `i` of the operation returns. -/
structure Ended (p : Platform) (s s' : RunSystem) (i : ℕ) (op : Op) (reply : Except String Reply) :
    Prop where
  step : s.step (code p) (.run i) = some s'
  call : ∃ c, s'.calls[i]? = some c ∧ c.op = op ∧ c.script = .done reply

/-- What the runs promise from `s` on. -/
structure SettlesOnce (p : Platform) (keys : String → Prop) (s : RunSystem) : Prop where
  /-- A terminal row stays as it is. -/
  settled (id : String) (run : ComputeWorkerRun) (s' : RunSystem) : s.db.get id = some run →
    run.status.isTerminal = true → Reaches p keys s s' → s'.db.get id = some run
  /-- An update of it reports whether it asks for no other status, and shows the row. -/
  reported (id : String) (run : ComputeWorkerRun) (u u' : RunSystem) (i : ℕ) (ns : String)
    (merge serializeResponse : Bool) (changes : ComputeWorkerRunChanges) (r : Reply) :
    s.db.get id = some run → run.status.isTerminal = true → Reaches p keys s u →
    Ended p u u' i (.update ns id merge serializeResponse changes) (.ok r) →
    (r.applied = true ↔ ∀ status, changes.status = some status → status = run.status.value) ∧
      ∀ response, r = .response response → response.run = run
  /-- A later update of it fails only for a wrong namespace, status token or stored entry. -/
  refused (id : String) (run : ComputeWorkerRun) (u u' : RunSystem) (i : ℕ) (ns : String)
    (merge serializeResponse : Bool) (changes : ComputeWorkerRunChanges) (e : String) :
    s.db.get id = some run → run.status.isTerminal = true → Reaches p keys s u →
    s.calls.length ≤ i →
    Ended p u u' i (.update ns id merge serializeResponse changes) (.error e) →
    run.ns ≠ ns ∨ changes.requestedStatus = .error e ∨ serializeRun p.validate id run = .error e
  /-- A row that is there stays there. -/
  kept (id : String) (s' : RunSystem) : (s.db.get id).isSome = true → Reaches p keys s s' →
    (s'.db.get id).isSome = true
  /-- A creation changes no row that is there. -/
  once (s' : RunSystem) (i : ℕ) (c : Call Op RunTable RunWrite RunResource (Except String Reply))
    (ns : String) (payload : ComputeWorkerRunPayload) (id : String) (run : ComputeWorkerRun) :
    s.step (code p) (.run i) = some s' → s.calls[i]? = some c → c.op = .create ns payload →
    s.db.get id = some run → s'.db.get id = some run
  /-- A creation with a key returns the row under the key, which is of its request. -/
  returned (u u' : RunSystem) (i : ℕ) (ns key : String) (payload : ComputeWorkerRunPayload)
    (r : Reply) : Reaches p keys s u → s.calls.length ≤ i → payload.idempotencyKey = some key →
    Ended p u u' i (.create ns payload) (.ok r) →
    (u'.db.get key).isSome = true ∧ ∃ response, r = .response response ∧ response.id = key ∧
      payload.sameRequest ns response.run = true ∧ ∃ v, Reaches p keys s v ∧ Reaches p keys v u' ∧
        v.db.get key = some response.run
  /-- It fails only if the row under the key is of another request, or an entry is invalid. -/
  conflicts (u u' : RunSystem) (i : ℕ) (ns key : String) (payload : ComputeWorkerRunPayload)
    (e : String) : Reaches p keys s u → s.calls.length ≤ i → payload.idempotencyKey = some key →
    Ended p u u' i (.create ns payload) (.error e) →
    (∃ v row, Reaches p keys s v ∧ Reaches p keys v u' ∧ v.db.get key = some row ∧
      (payload.sameRequest ns row = false ∨ serializeRun p.validate key row = .error e)) ∨
    newRun p.validate ns payload = .error e ∨
    ∃ run, newRun p.validate ns payload = .ok run ∧ serializeRun p.validate key run = .error e
  /-- While the row under the key is of its request, every creation replies with that row. -/
  repeated (u u' : RunSystem) (i : ℕ) (ns key : String) (payload : ComputeWorkerRunPayload)
    (reply : Except String Reply) : Reaches p keys s u → s.calls.length ≤ i →
    payload.idempotencyKey = some key →
    (∀ v, Reaches p keys s v → Reaches p keys v u' →
      ∃ row, v.db.get key = some row ∧ payload.sameRequest ns row = true) →
    Ended p u u' i (.create ns payload) reply →
    ∃ v row, Reaches p keys s v ∧ Reaches p keys v u' ∧ v.db.get key = some row ∧
      reply = (serializeRun p.validate key row).map .response
  /-- An update in merge mode with a result object keeps the keys that it does not mention. -/
  merged (s' : RunSystem) (i : ℕ) (c : Call Op RunTable RunWrite RunResource (Except String Reply))
    (ns id : String) (serializeResponse : Bool) (changes : ComputeWorkerRunChanges)
    (new : Fields ℚ) (run : ComputeWorkerRun) : s.step (code p) (.run i) = some s' →
    s.calls[i]? = some c → c.op = .update ns id true serializeResponse changes →
    changes.resultJson = some (some new) → s.db.get id = some run →
    ∃ run', s'.db.get id = some run' ∧ ∀ k, k ∉ new.keys →
      (changes.executionEntries.isSome = true → k ≠ "execution_entries") →
      (run'.resultJson.getD []).get? k = (run.resultJson.getD []).get? k

section Runs

variable {p : Platform} {keys : String → Prop} {s s' u u' : RunSystem} {a : Action Op}

/-- What calls that start after `s` read on the way to `s'`. -/
def observedFrom (p : Platform) (keys : String → Prop) (s s' : RunSystem) (i : ℕ)
    (w : World RunTable) : Prop :=
  s.calls.length ≤ i → ∃ v, Reaches p keys s v ∧ Reaches p keys v s' ∧ v.world = w

theorem Reaches.trans (h : Reaches p keys s u) (h' : Reaches p keys u s') : Reaches p keys s s' :=
  Run.trans h h'

theorem Reaches.run {i : ℕ} (hs : s.step (code p) (.run i) = some s') : Reaches p keys s s' :=
  (Run.refl s).step hs fun _ h => by cases h

theorem admits_of_reaches (hu : Reaches p keys s u) (hu' : Reaches p keys u s')
    (ha : ∀ op, a = .spawn op → op.drawn keys) :
    (protocol p keys (observedFrom p keys s s')).Admits u a u' where
  calls op h := ha op h
  cond _ _ _ _ _ _ := trivial
  visited _ _ _ _ _ _ _ _ := ⟨u, hu, hu', rfl⟩

theorem admits_of_before (hu : Reaches p keys u s) (ha : ∀ op, a = .spawn op → op.drawn keys) :
    (protocol p keys (observedFrom p keys s s')).Admits u a u' where
  calls op h := ha op h
  cond _ _ _ _ _ _ := trivial
  visited i c effect next _ hc _ hi := by
    have hlt := (List.getElem?_eq_some_iff.mp hc).1
    have hle := Run.calls_length_le hu
    omega

theorem Reachable.good (h : Reachable p keys s) (hu : Reaches p keys s u)
    (hs' : Reaches p keys u s') :
    Good (protocol p keys (observedFrom p keys s s'))
      (Returned p (observedFrom p keys s s')) u := by
  obtain ⟨now, db, hrun⟩ := h
  have hstart : Good (protocol p keys (observedFrom p keys s s'))
      (Returned p (observedFrom p keys s s')) s := by
    refine (Good.start trivial).run (verified p keys _) (hrun.along.mono fun v b v' hv => ?_)
    exact admits_of_before hv.2.2 hv.1
  refine hstart.run (verified p keys _) (hu.along.mono fun v b v' hv => ?_)
  exact admits_of_reaches hv.2.1 (Reaches.trans hv.2.2 hs') hv.1

theorem Reachable.evolves (h : Reachable p keys s) (hr : Reaches p keys s s') :
    (protocol p keys (observedFrom p keys s s')).Rely [] s.world s'.world := by
  refine (h.good (.refl s) hr).evolves (verified p keys _) (hr.along.mono fun v b v' hv => ?_)
  exact admits_of_reaches hv.2.1 hv.2.2 hv.1

theorem Reachable.rowStep (h : Reachable p keys s) {i : ℕ}
    {c : Call Op RunTable RunWrite RunResource (Except String Reply)}
    (hs : s.step (code p) (.run i) = some s') (hc : s.calls[i]? = some c) (id : String) :
    RowStep p c.op id (s.db.get id) (s'.db.get id) := by
  have hgood := h.good (.refl s) (.run hs)
  rcases hgood.changes hs (admits_of_reaches (.refl s) (.run hs) fun _ h => by cases h) with
    hdb | ⟨j, d, _, ha, hd, -, -, -, -, hact⟩
  · rw [hdb]
    exact .same _
  · cases ha
    cases hc.symm.trans hd
    exact hact.1 id

theorem Reachable.ended (h : Reachable p keys s) (hu : Reaches p keys s u) {i : ℕ} {op : Op}
    {reply : Except String Reply} (he : Ended p u u' i op reply) :
    ∃ t, Returned p (observedFrom p keys s u') i op reply t u'.world := by
  obtain ⟨hs, c, hc, rfl, hd⟩ := he
  exact (h.good hu (.run hs)).returns hs
    (admits_of_reaches hu (.run hs) fun _ h => by cases h) hc hd

theorem Reachable.created (h : Reachable p keys s) (hu : Reaches p keys s u) {i : ℕ}
    {ns key : String} {payload : ComputeWorkerRunPayload} {reply : Except String Reply}
    (hi : s.calls.length ≤ i) (hk : payload.idempotencyKey = some key)
    (he : Ended p u u' i (.create ns payload) reply) :
    ∃ v, Reaches p keys s v ∧ Reaches p keys v u' ∧
      CreateReply p ns payload key (v.db.get key) reply ∧
      ∀ r, reply = .ok r → (u'.db.get key).isSome = true ∧ (v.db.get key = none →
        ∃ response, r = .response response ∧ u'.db.get key = some response.run) := by
  obtain ⟨t, hreturned⟩ := h.ended hu he
  cases payload.id_eq key hk
  obtain ⟨_, hseen, hreply, hrow⟩ := hreturned (by rw [hk]; rfl)
  obtain ⟨v, hv, hv', rfl⟩ := hseen hi
  exact ⟨v, hv, hv', hreply, hrow⟩

theorem Reachable.settled (h : Reachable p keys s) {id : String} {run : ComputeWorkerRun}
    (hrow : s.db.get id = some run) (ht : run.status.isTerminal = true)
    (hr : Reaches p keys s s') : s'.db.get id = some run := by
  refine (h.evolves hr).stable (S := fun v : World RunTable => v.db.get id = some run)
    (fun _ _ _ hs => hs) ?_ hrow
  intro v db i op t hc hs
  have hstep := hc.act.1 id
  rw [hs] at hstep
  exact hstep.terminal ht

/-- Every reachable state keeps what the runs promise. -/
theorem settles_once (p : Platform) (keys : String → Prop) (s : RunSystem)
    (h : Reachable p keys s) : SettlesOnce p keys s where
  settled _ _ _ hrow ht hr := h.settled hrow ht hr
  reported id run u u' i ns merge serializeResponse changes r hrow ht hu he := by
    obtain ⟨t, hreturned⟩ := h.ended hu he
    obtain ⟨row, hrow', happlied, hshown⟩ := hreturned.1 r rfl
    have hsettled := h.settled hrow ht (hu.trans (.run he.step))
    cases hsettled.symm.trans hrow'
    exact ⟨happlied, hshown⟩
  refused id run u u' i ns merge serializeResponse changes e hrow ht hu hi he := by
    obtain ⟨t, hreturned⟩ := h.ended hu he
    obtain ⟨_, hseen, hrefused⟩ := hreturned.2 e rfl
    obtain ⟨v, hv, -, rfl⟩ := hseen hi
    exact hrefused run (h.settled hrow ht hv) ht
  kept id s' hrow hr := row_rely (t := {}) (h.evolves hr) hrow
  once s' i c ns payload id run hs hc hop hrow := by
    have hstep := h.rowStep hs hc id
    rw [hrow, hop] at hstep
    generalize s'.db.get id = row at hstep ⊢
    cases hstep with
    | same => rfl
    | updated hop' => cases hop'
    | cancelled hop' => cases hop'
  returned u u' i ns key payload r hu hi hk he := by
    obtain ⟨v, hv, hv', hreply, hrow⟩ := h.created hu hi hk he
    obtain ⟨hsome, hmade⟩ := hrow r rfl
    refine ⟨hsome, ?_⟩
    rcases hreply.ok with ⟨response, hr, hid, hsame, hfound | hnone⟩
    · exact ⟨response, hr, hid, hsame, v, hv, hv', hfound⟩
    · obtain ⟨response', hr', hget⟩ := hmade hnone
      cases hr.symm.trans hr'
      exact ⟨response, hr, hid, hsame, u', hu.trans (.run he.step), .refl u', hget⟩
  conflicts u u' i ns key payload e hu hi hk he := by
    obtain ⟨v, hv, hv', hreply, -⟩ := h.created hu hi hk he
    rcases hreply.error with ⟨row, hrow, hreason⟩ | hnew
    · exact Or.inl ⟨v, row, hv, hv', hrow, hreason⟩
    · exact Or.inr hnew
  repeated u u' i ns key payload reply hu hi hk hsame he := by
    obtain ⟨v, hv, hv', hreply, -⟩ := h.created hu hi hk he
    obtain ⟨row, hrow, hrequest⟩ := hsame v hv hv'
    rw [hrow] at hreply
    exact ⟨v, row, hv, hv', hrow, hreply.of_same hrequest⟩
  merged s' i c ns id serializeResponse changes new run hs hc hop hnew hrow := by
    have hstep := h.rowStep hs hc id
    rw [hrow, hop] at hstep
    generalize s'.db.get id = row at hstep ⊢
    cases hstep with
    | same => exact ⟨run, rfl, fun _ _ _ => rfl⟩
    | cancelled hop' => cases hop'
    | updated hop' _ happly =>
      cases hop'
      refine ⟨_, rfl, fun k hk hentries => ?_⟩
      obtain ⟨-, -, entries, hvalid, hresult⟩ := applyChanges_ok happly
      rw [hresult, hnew]
      refine get?_merged hk fun hsome => hentries ?_
      rw [← validatedEntries_isSome hvalid]
      exact hsome

end Runs

/-- A platform on which every entry is valid and the clock stands still. -/
def samplePlatform : Platform := ⟨.ok, fun _ => "1970-01-01T00:00:00+00:00"⟩

/-- The creation of a run under the key `build-1`. -/
def samplePayload : ComputeWorkerRunPayload where
  analysisId := some "analysis"
  datasourceId := "datasource"
  kind := .preview
  status := .running
  requestJson := []
  createdAt := 0
  id := "build-1"
  idempotencyKey := some "build-1"
  request_distinct := ⟨List.nodup_nil, trivial⟩

/-- The run is created and cancelled while an update of a worker waits for its row. -/
def sampleActions : List (Action Op) :=
  [.spawn (.create "default" samplePayload), .run 0, .run 0, .run 0, .run 0,
    .spawn (.cancel "default" "build-1" (some "user")), .run 1, .run 1,
    .spawn (.update "default" "build-1" true true { status := some "success" }),
    .run 1, .run 1, .run 1, .run 2, .run 2]

/-- The creations of the sample are made with the key. -/
def sampleDrawn : Op → Bool
  | .create _ payload => payload.idempotencyKey = some "build-1"
  | _ => true

theorem drawn_of_sample {op : Op} (h : sampleDrawn op = true) : op.drawn (· = "build-1") := by
  cases op with
  | create ns payload => exact (Op.drawn_of_some ns (of_decide_eq_true h)).mpr rfl
  | update => trivial
  | cancel => trivial

theorem settles_once_sample : ∃ s run, Reachable samplePlatform (· = "build-1") s ∧
    s.db.get "build-1" = some run ∧ run.status = .cancelled ∧
      SettlesOnce samplePlatform (· = "build-1") s := by
  have h : (System.replay (code samplePlatform) ⟨0, ⟨.empty⟩, []⟩ sampleActions).any
      (fun s => (s.db.get "build-1").any (·.status = .cancelled)) = true := by decide +kernel
  obtain ⟨s, hs, hrow⟩ := Option.any_eq_true _ _ |>.mp h
  obtain ⟨run, hrow, hstatus⟩ := Option.any_eq_true _ _ |>.mp hrow
  have hreach : Reachable samplePlatform (· = "build-1") s := by
    refine ⟨0, ⟨.empty⟩, (Run.of_replay_spawns sampleDrawn hs (by decide) ?_).mono ?_⟩
    · intro c hc
      cases hc
    · rintro _ _ _ ⟨ha, -⟩ op rfl
      exact drawn_of_sample ha
  exact ⟨s, run, hreach, hrow, of_decide_eq_true hstatus, settles_once _ _ s hreach⟩

end DataForge.Runs
