import DataForge.Compute.Settle

/-!
# Compute requests: verified staging

`_stage_request` meets the protocol: a new request commits together with its flight and its
wake, and a caller that is handed an existing request gets one staged under the caller's own
flight key.
-/

namespace DataForge.Compute

open ReadCommitted DataForge.Runtime

/-- What call `i`, looking up a flight, is handed in the state `w`: the committed row of a
request staged under `key`, active, or completed under a flight that the call read one
statement earlier and that has not expired at the clock value `now` of the caller. -/
structure Reused (p : Platform) (C : Setting) (i : ℕ) (ns key : String) (now : ℕ) (id : String)
    (r : ComputeRequest) (w : ComputeWorld) : Prop where
  visited : C.visited i w
  committed : (w.db.tenants ns).requests.get id = some r
  staged : r.ns = ns ∧ flightKey p r.kind r.commandEnvelope.command = some key
  reusable : r.status.active = true ∨
    (r.status = .completed ∧ r.responseEnvelope ≠ none ∧ cacheCompletedFlight id r = .ok true ∧
      ∃ v f e, C.visited i v ∧ (v.db.tenants ns).flights.get (ns, key) = some f ∧
        f.requestId = id ∧ f.expiresAt = some e ∧ now < e)

section Flights

variable {p : Platform} {C : Setting} {op : Op} {i : ℕ} {w w' : ComputeWorld}
  {t : ComputeTxn} {ns key : String} {now : ℕ}

theorem visited_of_sees {e : ComputeEnv} (hs : (protocol p C).Sees i t w e) : C.visited i w :=
  hs.visited.elim fun _ hv => hv

theorem request_fixed_rely {h : ComputeLocks} {id : String}
    {r : ComputeRequest} (hr : (protocol p C).Rely h w w')
    (hget : (w.db.tenants ns).requests.get id = some r) :
    ∃ r', (w'.db.tenants ns).requests.get id = some r' ∧ r'.ns = r.ns ∧ r'.kind = r.kind ∧
      r'.commandEnvelope = r.commandEnvelope := by
  refine hr.stable (S := fun v : ComputeWorld => ∃ r',
    (v.db.tenants ns).requests.get id = some r' ∧ r'.ns = r.ns ∧ r'.kind = r.kind ∧
    r'.commandEnvelope = r.commandEnvelope)
    (fun _ _ _ h => h) ?_ ⟨r, hget, rfl, rfl, rfl⟩
  rintro v db j op' t' hc ⟨r', hr', hns, hkind, henv⟩
  have hstep := hc.act.request ns id
  obtain ⟨a, ha⟩ := hstep.stays hr'
  rw [hr', ha] at hstep
  obtain ⟨hns', hkind', henv', -⟩ := hstep.fixed
  exact ⟨a, ha, hns'.trans hns, hkind'.trans hkind, henv'.trans henv⟩

/-- What `_reusable_flight_request` answers about a committed flight and, read after it, its
request. -/
theorem reused_of_reusable {h : ComputeLocks} {f : ComputeRequestFlight}
    {r : ComputeRequest} (hi : Inv p C w) (hv : C.visited i w)
    (hv' : C.visited i w') (hr : (protocol p C).Rely h w w')
    (hf : (w.db.tenants ns).flights.get (ns, key) = some f)
    (hreuse : reusableFlightRequest f.requestId ((w'.db.tenants ns).requests.get f.requestId) f
      now = .ok (some r)) : Reused p C i ns key now f.requestId r w' := by
  obtain ⟨-, r0, hr0, hns0, hkey0⟩ := hi.flight ns (ns, key) f hf
  obtain ⟨r', hget, hns, hkind, henv⟩ := request_fixed_rely hr hr0
  have hstaged : r'.ns = ns ∧ flightKey p r'.kind r'.commandEnvelope.command = some key := by
    rw [hkind, henv]
    exact ⟨hns.trans hns0, hkey0⟩
  rw [hget, reusableFlightRequest] at hreuse
  split at hreuse
  · next hact =>
    cases hreuse
    exact ⟨hv', hget, hstaged, Or.inl hact⟩
  · split at hreuse
    · next hact hdone =>
      obtain ⟨hstatus, hresp, hexp⟩ := hdone
      cases hcache : cacheCompletedFlight f.requestId r' with
      | error m => rw [hcache] at hreuse; cases hreuse
      | ok cached =>
        rw [hcache] at hreuse
        cases cached with
        | false => cases hreuse
        | true =>
          cases hreuse
          obtain ⟨e, he, hlt⟩ : ∃ e, f.expiresAt = some e ∧ now < e := by
            cases he : f.expiresAt with
            | none => simp [he] at hexp
            | some e => exact ⟨e, rfl, by simpa [he] using hexp⟩
          exact ⟨hv', hget, hstaged, Or.inr ⟨hstatus, hresp, hcache,
            w, f, e, hv, hf, rfl, he, hlt⟩⟩
    · cases hreuse

variable {R : Option (String × ComputeRequest) →
  ComputeTxn → ComputeWorld → Prop}

/-- A transaction that has written nothing; lookups keep it that way. -/
structure Reads (t : ComputeTxn) (w : ComputeWorld)
    (p : Platform) (C : Setting) (t' : ComputeTxn)
    (w' : ComputeWorld) : Prop where
  writes : t'.writes = []
  held : t.held ⊆ t'.held
  rely : (protocol p C).Rely t.held w w'

/-- `_read_flight`: the flight and, one statement later, its request, both as committed. -/
theorem wp_readFlight {R : Option (ComputeRequestFlight × Option ComputeRequest) →
      ComputeTxn → ComputeWorld → Prop}
    (hw : t.writes = []) (hnone : ∀ t' w', Reads t w p C t' w' → R none t' w')
    (hsome : ∀ t' v w' f, Reads t w p C t' w' → Inv p C v → C.visited i v →
      C.visited i w' → (protocol p C).Rely t.held v w' →
      (v.db.tenants ns).flights.get (ns, key) = some f →
      R (some (f, (w'.db.tenants ns).requests.get f.requestId)) t' w') :
    (protocol p C).wp i op R (readFlight ns key) t w := by
  unfold readFlight getRequest
  apply Protocol.wp_query
  intro w1 e1 hr1 hi1 hs1
  have hdb1 : e1.db = w1.db := by rw [hs1.db, hw]; rfl
  rw [hdb1]
  cases hf : (w1.db.tenants ns).flights.get (ns, key) with
  | none => exact hnone _ _ ⟨hw, List.Subset.refl _, hr1⟩
  | some f =>
    apply Protocol.wp_query
    intro w2 e2 hr2 hi2 hs2
    have hdb2 : e2.db = w2.db := by rw [hs2.db, hw]; rfl
    rw [requests, hdb2]
    exact hsome _ w1 _ f ⟨hw, List.Subset.refl _, hr1.trans hr2⟩ hi1
      (visited_of_sees hs1) (visited_of_sees hs2) hr2 hf

theorem wp_findReusableFlight (hw : t.writes = [])
    (hnone : ∀ t' w', Reads t w p C t' w' → R none t' w')
    (hsome : ∀ t' w' id r, Reads t w p C t' w' → Reused p C i ns key now id r w' →
      R (some (id, r)) t' w') :
    (protocol p C).wp i op R (findReusableFlight ns key now) t w := by
  unfold findReusableFlight
  rw [Protocol.wp_bind]
  refine wp_readFlight hw hnone fun t' v w' f hreads hiv hv hv' hrv hf => ?_
  refine wp_check fun reusable hreuse => ?_
  cases reusable with
  | none => exact hnone _ _ hreads
  | some r => exact hsome _ _ _ r hreads (reused_of_reusable hiv hv hv' hrv hf hreuse)

/-- `_reusable_flight`: on a miss at most the stale flight under the key has been deleted. -/
theorem wp_reusableFlight (hw : t.writes = [])
    (hnone : ∀ t' w', t.held ⊆ t'.held → (protocol p C).Rely t.held w w' → Mine p op t' w' →
      (∀ id, Untouched ns id t') → R none t' w')
    (hsome : ∀ t' w' id r, Reads t w p C t' w' → Reused p C i ns key now id r w' →
      R (some (id, r)) t' w') :
    (protocol p C).wp i op R (reusableFlight ns key now) t w := by
  have hmiss (t' w') (hreads : Reads t w p C t' w') : R none t' w' :=
    hnone t' w' hreads.held hreads.rely (Mine.of_nil p op w' hreads.writes)
      (fun id => Untouched.of_nil ns id hreads.writes)
  unfold reusableFlight
  rw [Protocol.wp_bind]
  refine wp_readFlight hw hmiss fun t1 v w1 f hreads₁ hiv hv hv' hrv hf => ?_
  refine wp_check fun reusable hreuse => ?_
  cases reusable with
  | some r => exact hsome _ _ _ r hreads₁ (reused_of_reusable hiv hv hv' hrv hf hreuse)
  | none =>
    apply Protocol.wp_statement
    intro w2 e2 hr2 hi2 hs2
    have hdb2 : e2.db = w2.db := by rw [hs2.db, hreads₁.writes]; rfl
    rw [hdb2]
    have hreads₂ (rows : List (Resource TableRow)) :
        Reads t w p C (t1.after e2 (lockRows rows .exclusive)) w2 := by
      refine ⟨?_, fun k hk => t1.held_subset_after _ _ (hreads₁.held hk),
        hreads₁.rely.trans (hr2.mono hreads₁.held)⟩
      rw [Txn.after, hreads₁.writes]
      rfl
    cases hf2 : (w2.db.tenants ns).flights.get (ns, key) with
    | none => exact hmiss _ _ (hreads₂ _)
    | some f2 =>
      unfold getRequest
      apply Protocol.wp_query
      intro w3 e3 hr3 hi3 hs3
      have hdb3 : e3.db = w3.db := by rw [hs3.db, (hreads₂ _).writes]; rfl
      rw [requests, hdb3]
      have hlocked := hreads₂ [Resource.tenant ns (TableRow.flight (ns, key))]
      have hreads₃ : Reads t w p C ⟨(t1.after e2 (lockRows [Resource.tenant ns
          (TableRow.flight (ns, key))] .exclusive)).held, [], some e3.began⟩ w3 :=
        ⟨rfl, hlocked.held, hlocked.rely.trans (hr3.mono hlocked.held)⟩
      rw [(hreads₂ _).writes]
      refine wp_check fun reusable hreuse => ?_
      cases reusable with
      | some r => exact hsome _ _ _ r hreads₃ (reused_of_reusable hi2
          (visited_of_sees hs2) (visited_of_sees hs3) hr3 hf2 hreuse)
      | none =>
        apply Protocol.wp_statement
        intro w4 e4 hr4 hi4 hs4
        refine hnone _ _ (fun k hk => Txn.held_subset_after _ _ _ (hreads₃.held hk))
          (hreads₃.rely.trans (hr4.mono hreads₃.held))
          ((Mine.of_nil p op w4 rfl).write e4 ns (.flight (ns, key) none) ?_)
          fun id => (Untouched.of_nil ns id rfl).write (fun he => by cases he)
        intro g hg
        replace hg := (flight_write _ ns (ns, key) (ns, key) none).symm.trans hg
        rw [if_pos rfl] at hg
        cases hg

end Flights

section Insert

variable {p : Platform} {C : Setting} {op : Op} {i : ℕ} {w w' : ComputeWorld}
  {t : ComputeTxn} {ns : String}
  {Q : Reply → ComputeTxn → ComputeWorld → Prop}

theorem wp_insertRow {β : Type} {taken : ComputeEnv → Bool} {write : Write TableWrite}
    {k : Unit → ComputeScript β}
    {R : β → ComputeTxn → ComputeWorld → Prop}
    (h : ∀ w' e, (protocol p C).Rely t.held w w' → (protocol p C).Sees i t w' e → taken e = false →
      (protocol p C).wp i op R (k ()) (t.after e ⟨[], [write]⟩) w') :
    (protocol p C).wp i op R (insertRow taken write >>= k) t w := by
  apply Protocol.wp_exec
  intro w1 e1 hr1 hi1 hs1
  cases htaken : taken e1 with
  | true =>
    simp only [htaken, if_true]
    trivial
  | false =>
    simp only [htaken, Bool.false_eq_true, if_false]
    exact h w1 e1 hr1 hs1 htaken

theorem view_request_rely {id : String} {k : Lock (Resource TableRow)}
    (hr : (protocol p C).Rely t.held w w') (hk : k ∈ t.held) (hres : k.res = requestRow ns id) :
    ((view t.writes w'.db).tenants ns).requests.get id =
      ((view t.writes w.db).tenants ns).requests.get id := by
  have hsame := hr.same hk
  rw [hres] at hsame
  exact view_same t.writes hsame

/-- A staging transaction that has inserted its request and nothing else of consequence. -/
structure Inserted (p : Platform) (op : Op) (ns : String) (args : StageArgs)
    (command : ComputeCommand) (t : ComputeTxn)
    (w : ComputeWorld) : Prop extends Mine p op t w where
  lock : ∃ k ∈ t.held, k.res = requestRow ns args.requestId
  row : ((view t.writes w.db).tenants ns).requests.get args.requestId =
    some (stagedRequest p ns args command)

variable {args : StageArgs} {command : ComputeCommand}

theorem Inserted.rely (h : Inserted p op ns args command t w)
    (hr : (protocol p C).Rely t.held w w') : Inserted p op ns args command t w' := by
  obtain ⟨k, hk, hres⟩ := h.lock
  exact ⟨h.toMine.rely hr, h.lock, (view_request_rely hr hk hres).trans h.row⟩

/-- The operations that stage `args`. -/
def Stages (op : Op) (ns : String) (args : StageArgs) : Prop :=
  op = .stageRequest ns args ∨ op = .stageSharedFlightRequest ns args

theorem RequestStep.eq_of_stages {h : ComputeLocks} {ns' id : String}
    {x y : Option ComputeRequest} (hop : Stages op ns args) (hns : ns' ≠ ns)
    (hs : RequestStep p op h ns' id x y) : y = x := by
  cases hs with
  | same => rfl
  | stage args' command' hop' hid =>
    rcases hop with rfl | rfl <;> rcases hop' with hop' | hop' <;> cases hop' <;>
      exact absurd rfl hns
  | claim args' b now since hop' => rcases hop with rfl | rfl <;> cases hop'
  | renew claims workerId b since hop' => rcases hop with rfl | rfl <;> cases hop'
  | finish args' b since hop' => rcases hop with rfl | rfl <;> cases hop'
  | retire b reason now hop' => rcases hop with rfl | rfl <;> exact hop'.elim

variable {key : Option String}

/-- Committing an inserted request together with its wake and, for a shared flight, the flight
that leads to it. -/
theorem Inserted.act {t' : ComputeTxn} {wake : Wake}
    (hop : Stages op ns args) (h : Inserted p op ns args command t w) (hh : t.held ⊆ t'.held)
    (hkey : ∀ k, key = some k → flightKey p args.kind command = some k)
    (hwake : w.db.work.wakes.get args.wakeId = none) (hlive : wake.live ns .compute = true)
    (hwrites : t'.writes = t.writes ++ key.toList.map (fun k =>
      Write.tenant ns (TableWrite.flight (ns, k) (some ⟨args.requestId, args.now, none⟩))) ++
      [.wake args.wakeId (some wake)]) :
    Act p C op t'.held w (view t'.writes w.db) := by
  rw [hwrites, view_append, view_append]
  set db0 := view t.writes w.db with hdb0
  set flights := key.toList.map fun k =>
    Write.tenant ns (TableWrite.flight (ns, k) (some ⟨args.requestId, args.now, none⟩))
  set db1 := view flights db0 with hdb1
  set db := view (W := Write TableWrite) [.wake args.wakeId (some wake)] db1 with hdb
  have htenants : db.tenants = db1.tenants := rfl
  have hflights : ∀ v ∈ flights, ∃ ns u, v = .tenant ns u := by
    intro v hv
    obtain ⟨k, _, rfl⟩ := List.mem_map.mp hv
    exact ⟨_, _, rfl⟩
  have hwork : db1.work = w.db.work := by
    rw [hdb1, work_view _ hflights, hdb0, work_view _ h.tenant]
  have hwakes (id : ℕ) : db.work.wakes.get id =
      if id = args.wakeId then some wake else w.db.work.wakes.get id := by
    rw [← hwork]
    exact Table.get_put _ _ _ _
  have hmarkers : db.work.markers = w.db.work.markers := by rw [← hwork]; rfl
  have hrequests (ns' id : String) : (db.tenants ns').requests.get id =
      (db0.tenants ns').requests.get id := by
    rw [htenants]
    refine view_same_of_ne (W := Write TableWrite)
      (r := Resource.tenant ns' (TableRow.request id)) db0 fun v hv he => ?_
    obtain ⟨k, _, rfl⟩ := List.mem_map.mp hv
    injection he with _ he
    cases he
  have hstep (ns' id : String) : RequestStep p op t'.held ns' id
      ((w.db.tenants ns').requests.get id) ((db.tenants ns').requests.get id) := by
    rw [hrequests]
    exact RequestStep.mono hh (h.staged (.tenant ns' (.request id)))
  refine ⟨hstep, ?_, ?_, ?_, ?_⟩
  · intro ns' key' f hf
    cases hk : key with
    | none =>
      have hnil : db1 = db0 := by rw [hdb1, show flights = [] by simp [flights, hk]]; rfl
      rw [htenants, hnil] at hf
      exact Or.inr (h.staged (.tenant ns' (.flight key')) f hf)
    | some k =>
      have hone : db1 = db0.write (.tenant ns (TableWrite.flight (ns, k)
          (some ⟨args.requestId, args.now, none⟩))) := by
        rw [hdb1, show flights = [.tenant ns (.flight (ns, k)
          (some ⟨args.requestId, args.now, none⟩))] by simp [flights, hk]]
        rfl
      by_cases hnew : ns' = ns ∧ key' = (ns, k)
      · -- the flight just inserted leads to the request just inserted
        obtain ⟨rfl, rfl⟩ := hnew
        rw [htenants, hone, flight_write, if_pos rfl, Option.some.injEq] at hf
        refine Or.inl ⟨rfl, stagedRequest p ns' args command, ?_, rfl, hkey k hk⟩
        rw [hrequests, ← hf]
        exact h.row
      · have hold : (db0.tenants ns').flights.get key' = some f := by
          rw [htenants, hone] at hf
          by_cases hns : ns' = ns
          · subst hns
            rwa [flight_write, if_neg (fun he => hnew ⟨rfl, he⟩)] at hf
          · simpa [Db.write, hns] using hf
        exact Or.inr (h.staged (.tenant ns' (.flight key')) f hold)
  · intro ns' args' he
    rcases hop with rfl | rfl <;> cases he
  · intro id hid
    rw [hwakes]
    split
    · exact Option.some_ne_none _
    · exact hid
  · intro _ ns'
    have hnew : db.work.Live ns .compute args.wakeId := ⟨wake, by rw [hwakes, if_pos rfl], hlive⟩
    refine Or.inl ⟨by rw [hmarkers], fun id hl => ?_, fun (id : String) => ?_⟩
    · obtain ⟨u, hu, hul⟩ := hl
      refine ⟨u, ?_, hul⟩
      rw [hwakes, if_neg (fun he => by rw [he, hwake] at hu; cases hu)]
      exact hu
    · by_cases hns : ns' = ns
      · subst hns
        exact Or.inr ⟨args.wakeId, hwake, hnew⟩
      · have hsame := (hstep ns' id).eq_of_stages hop hns
        exact Or.inl (by simp [queue, hsame])

/-- The association rows change nothing the protocol looks at. -/
theorem Inserted.associate (h : Inserted p op ns args command t w) (e : ComputeEnv)
    (keys : List (String × String)) : Inserted p op ns args command
      (t.after e ⟨[], keys.map fun k => .tenant ns (.requestDatasource k (some ()))⟩) w := by
  have hforms : ∀ v ∈ keys.map fun k => Write.tenant ns (TableWrite.requestDatasource k (some ())),
      ∃ k, v = .tenant ns (.requestDatasource k (some ())) := by
    intro v hv
    obtain ⟨k, _, rfl⟩ := List.mem_map.mp hv
    exact ⟨k, rfl⟩
  refine ⟨⟨h.guarded.after _ _, h.staged.write (cell_local p op) fun v hv => ?_, fun v hv => ?_⟩,
    ?_, ?_⟩
  · obtain ⟨k, rfl⟩ := hforms v hv
    trivial
  · rcases List.mem_append.mp hv with hv | hv
    · exact h.tenant v hv
    · obtain ⟨k, rfl⟩ := hforms v hv
      exact ⟨_, _, rfl⟩
  · obtain ⟨k, hk, hres⟩ := h.lock
    exact ⟨k, t.held_subset_after _ _ hk, hres⟩
  · rw [Txn.after, view_append]
    refine Eq.trans (view_same_of_ne (W := Write TableWrite)
      (r := Resource.tenant ns (TableRow.request args.requestId)) _ fun v hv he => ?_) h.row
    obtain ⟨k, rfl⟩ := hforms v hv
    injection he with _ he
    cases he

/-- The wake and the commit that end a staging transaction. -/
theorem wp_appendWake_commit {t' : ComputeTxn} {reply : Reply}
    (hop : Stages op ns args) (h : Inserted p op ns args command t w) (hh : t.held ⊆ t'.held)
    (hkey : ∀ k, key = some k → flightKey p args.kind command = some k)
    (hwrites : t'.writes = t.writes ++ key.toList.map (fun k =>
      Write.tenant ns (TableWrite.flight (ns, k) (some ⟨args.requestId, args.now, none⟩))))
    (hQ : ∀ t w, Q reply t w) :
    (protocol p C).wp i op Q (do
      let _ ← appendWake ns .compute args.wakeId
      Script.commitNow
      pure reply) t' w := by
  have htenant : ∀ v ∈ t'.writes, ∃ ns u, v = Write.tenant ns u := by
    intro v hv
    rw [hwrites] at hv
    rcases List.mem_append.mp hv with hv | hv
    · exact h.tenant v hv
    · obtain ⟨k, _, rfl⟩ := List.mem_map.mp hv
      exact ⟨_, _, rfl⟩
  apply Protocol.wp_exec
  intro w1 e1 hr1 hi1 hs1
  have hwork : e1.db.work = w1.db.work := by rw [hs1.db, work_view _ htenant]
  cases hget : e1.db.work.wakes.get args.wakeId with
  | some u =>
    simp only [hget]
    trivial
  | none =>
    simp only [hget]
    apply Protocol.wp_commit
    intro w2 hr2 hi2 hc2
    have hsub := t'.held_subset_after e1 (⟨[], [.wake args.wakeId
      (some ⟨ns, .compute, e1.now, false⟩)]⟩ : Effect (Write TableWrite) (Resource TableRow))
    have hlock : (⟨.wake args.wakeId, .exclusive, e1.now⟩ : Lock (Resource TableRow)) ∈
        (t'.after e1 ⟨[], [.wake args.wakeId (some ⟨ns, .compute, e1.now, false⟩)]⟩).held :=
      Txn.lock_mem_after (n := (Resource.wake args.wakeId, Mode.exclusive)) _ _ List.mem_cons_self
    have hnone : w2.db.work.wakes.get args.wakeId = none := by
      have hsame : w2.db.work.wakes.get args.wakeId = w1.db.work.wakes.get args.wakeId :=
        hr2.same hlock
      rw [hsame, ← hwork]
      exact hget
    have hins := h.rely ((hr1.mono hh).trans (hr2.mono fun k hk => hsub (hh hk)))
    have hlive : (⟨ns, .compute, e1.now, false⟩ : Wake).live ns .compute = true := by
      simp [Wake.live]
    refine ⟨hins.act hop (fun k hk => hsub (hh hk)) hkey hnone hlive ?_, hQ _ _⟩
    rw [← hwrites]
    rfl

/-- The creating half of `_stage_request` meets the protocol. -/
theorem wp_insertRequest (hop : Stages op ns args) (hm : Mine p op t w)
    (hu : Untouched ns args.requestId t)
    (hkey : ∀ k, key = some k → flightKey p args.kind command = some k)
    (hQ : ∀ t w, Q (.staged args.requestId (stagedRequest p ns args command) true) t w) :
    (protocol p C).wp i op Q (insertRequest p ns args command key) t w := by
  unfold insertRequest
  refine wp_check fun _ _ => ?_
  apply wp_insertRow
  intro w1 e1 hr1 hs1 hfree
  -- the key was free, and is held from here on
  have hnone : ((view t.writes w1.db).tenants ns).requests.get args.requestId = none := by
    rw [requests, hs1.db] at hfree
    simpa using hfree
  have hrow1 : (w1.db.tenants ns).requests.get args.requestId = none := (hu.view w1.db) ▸ hnone
  have hins1 : Inserted p op ns args command (t.after e1 ⟨[], [.tenant ns (.request args.requestId
      (some (stagedRequest p ns args command)))]⟩) w1 := by
    have hwritten := request_write (view t.writes w1.db) ns args.requestId args.requestId
      (some (stagedRequest p ns args command))
    rw [if_pos rfl] at hwritten
    refine ⟨(hm.rely hr1).write e1 ns _ ?_, ⟨_, granted_write t e1 _, rfl⟩, ?_⟩
    · simp only [Cell, TableWrite.target, hwritten, hrow1]
      exact .stage args command hop rfl
    · rw [Txn.after, view_append]
      exact hwritten
  apply Protocol.wp_statement
  intro w2 e2 hr2 hi2 hs2
  have hins2 := (hins1.rely hr2).associate e2
    ((datasourceIdsForCommand command).map fun id => (args.requestId, id))
  rw [List.map_map] at hins2
  cases key with
  | none =>
    exact wp_appendWake_commit hop hins2 (List.Subset.refl _) hkey (List.append_nil _).symm hQ
  | some k =>
    apply wp_insertRow
    intro w3 e3 hr3 hs3 _
    exact wp_appendWake_commit hop (hins2.rely hr3) (Txn.held_subset_after _ _ _) hkey rfl hQ

end Insert

/-- `own` is the snapshot of `command` that call `i` took in a state it visited, and the
revisions it read are still the committed ones in `w`. -/
def Snapshot (C : Setting) (i : ℕ) (ns : String) (command own : ComputeCommand)
    (w : ComputeWorld) : Prop :=
  ∃ v, C.visited i v ∧ own = snapshotted (v.db.tenants ns) command ∧
    ∀ x ∈ own.inputRevisions,
      ((w.db.tenants ns).datasources.get x.datasourceId).map DataSource.revision = some x.revision

/-- A caller of `_stage_request` is handed the existing request `id`, staged under the flight
key of the caller's own snapshot. -/
def HandedOut (p : Platform) (C : Setting) (i : ℕ) (ns : String) (args : StageArgs)
    (id : String) (r : ComputeRequest) (w : ComputeWorld) : Prop :=
  ∃ own key, Snapshot C i ns args.command own w ∧ flightKey p args.kind own = some key ∧
    Reused p C i ns key args.now id r w

section Staging

variable {p : Platform} {C : Setting} {op : Op} {i : ℕ} {w w' : ComputeWorld}
  {t t' : ComputeTxn} {ns : String} {args : StageArgs}

theorem Reads.refl (hw : t.writes = []) : Reads t w p C t w :=
  ⟨hw, List.Subset.refl _, .refl⟩

theorem Reads.trans {t'' : ComputeTxn} {w'' : ComputeWorld}
    (h : Reads t w p C t' w') (h' : Reads t' w' p C t'' w'') : Reads t w p C t'' w'' :=
  ⟨h'.writes, fun _ hk => h'.held (h.held hk), h.rely.trans (h'.rely.mono h.held)⟩

theorem Reads.lock (hw : t.writes = []) (hr : (protocol p C).Rely t.held w w')
    (e : ComputeEnv) (locks : List (Resource TableRow × Mode)) :
    Reads t w p C (t.after e ⟨locks, []⟩) w' :=
  ⟨by rw [Txn.after, hw]; rfl, t.held_subset_after _ _, hr⟩

theorem wp_validateStage {R : Unit → ComputeTxn →
      ComputeWorld → Prop} (hw : t.writes = [])
    (hR : ∀ t' w', Reads t w p C t' w' → R () t' w') :
    (protocol p C).wp i op R (validateStage args) t w := by
  unfold validateStage
  cases args.validate with
  | none => exact hR t w (.refl hw)
  | some validate =>
    apply Protocol.wp_exec
    intro w1 e1 hr1 hi1 hs1
    cases hval : validate e1.db with
    | error m =>
      simp only
      trivial
    | ok rows =>
      simp only
      exact hR _ _ (.lock hw hr1 e1 _)

theorem wp_validatePreflightParent {R : Unit → ComputeTxn →
      ComputeWorld → Prop} (hw : t.writes = [])
    (hR : ∀ t' w', Reads t w p C t' w' → R () t' w') :
    (protocol p C).wp i op R (validatePreflightParent ns args) t w := by
  unfold validatePreflightParent
  split
  · split
    · apply Protocol.wp_statement
      intro w1 e1 hr1 hi1 hs1
      split
      · trivial
      · split
        · trivial
        · refine wp_check fun original _ => ?_
          split
          · trivial
          · exact hR _ _ (.lock hw hr1 e1 _)
    · exact hR t w (.refl hw)
  · exact hR t w (.refl hw)

/-- `_snapshot_input_revisions`: the revisions read are committed, and locked. -/
theorem wp_snapshotInputRevisions {command : ComputeCommand}
    {R : ComputeCommand → ComputeTxn → ComputeWorld → Prop}
    (hw : t.writes = [])
    (hR : ∀ own t' w', Reads t w p C t' w' →
      (∀ w'', (protocol p C).Rely t'.held w' w'' → C.visited i w'' →
        Snapshot C i ns command own w'') → R own t' w') :
    (protocol p C).wp i op R (snapshotInputRevisions ns command) t w := by
  unfold snapshotInputRevisions
  dsimp only
  split
  · next hids =>
    -- without datasources there is no statement, and any state gives the same snapshot
    refine hR _ t w (.refl hw) fun w'' _ hv => ⟨w'', hv, ?_, fun x hx => by cases hx⟩
    rw [snapshotted, revisionsOf, hids]
    rfl
  · apply Protocol.wp_exec
    intro w1 e1 hr1 hi1 hs1
    have hdb : e1.db = w1.db := by rw [hs1.db, hw]; rfl
    simp only [hdb]
    refine hR _ _ w1 (.lock hw hr1 e1 _) fun w'' hr hv => ⟨w1, visited_of_sees hs1, rfl,
      fun x hx => ?_⟩
    obtain ⟨id, hid, hx⟩ := List.mem_filterMap.mp hx
    obtain ⟨d, hd, rfl⟩ := Option.map_eq_some_iff.mp hx
    have hsome : ((w1.db.tenants ns).datasources.get id).isSome = true := by rw [hd]; rfl
    have hmem : Resource.tenant ns (TableRow.datasource id) ∈
        ((datasourceIdsForCommand command).filter fun id =>
          ((w1.db.tenants ns).datasources.get id).isSome).map
          fun id => Resource.tenant ns (TableRow.datasource id) :=
      List.mem_map.mpr ⟨id, List.mem_filter.mpr ⟨hid, hsome⟩, rfl⟩
    have hsame : (w''.db.tenants ns).datasources.get id = (w1.db.tenants ns).datasources.get id :=
      hr.same (mem_held_lockRows t e1 hmem)
    rw [hsame, hd]
    rfl

variable {Q : Reply → ComputeTxn → ComputeWorld → Prop}

/-- `_stage_request` meets the protocol, and a caller that is handed an existing request is
handed one of its own flight. -/
theorem wp_stageRequest {deduplicateFlight : Bool} (hop : Stages op ns args)
    (hnew : ∀ id r t w, Q (.staged id r true) t w)
    (hold : ∀ id r t w, HandedOut p C i ns args id r w → Q (.staged id r false) t w) :
    (protocol p C).wp i op Q (stageRequest p ns args deduplicateFlight) {} w := by
  unfold stageRequest
  rw [Protocol.wp_bind]
  refine wp_validateStage rfl fun t1 w1 hreads₁ => ?_
  rw [Protocol.wp_bind]
  refine wp_validatePreflightParent hreads₁.writes fun t2 w2 hreads₂ => ?_
  rw [Protocol.wp_bind]
  refine wp_snapshotInputRevisions hreads₂.writes fun own t3 w3 hreads₃ hown => ?_
  have hinsert {t : ComputeTxn} {w : ComputeWorld}
      {key : Option String} (hm : Mine p op t w) (hu : Untouched ns args.requestId t)
      (hkey : ∀ k, key = some k → flightKey p args.kind own = some k) :
      (protocol p C).wp i op Q (insertRequest p ns args own key) t w :=
    wp_insertRequest hop hm hu hkey (fun t w => hnew _ _ t w)
  split
  · exact hinsert (Mine.of_nil p op w3 hreads₃.writes) (Untouched.of_nil ns _ hreads₃.writes)
      fun k hk => by cases hk
  · next key hk =>
    have hkey : flightKey p args.kind own = some key := by
      cases deduplicateFlight with
      | false => cases hk
      | true => exact hk
    have hreused {t : ComputeTxn} {w : ComputeWorld}
        {id : String} {r : ComputeRequest} (hrely : (protocol p C).Rely t3.held w3 w)
        (hr : Reused p C i ns key args.now id r w) : Q (.staged id r false) t w :=
      hold id r t w ⟨own, key, hown w hrely hr.visited, hkey, hr⟩
    rw [Protocol.wp_bind]
    refine wp_findReusableFlight hreads₃.writes (fun t4 w4 hreads₄ => ?_)
      fun t4 w4 id r hreads₄ hr => hreused hreads₄.rely hr
    apply Protocol.wp_statement
    intro w5 e5 hr5 hi5 hs5
    split
    · rw [Protocol.wp_bind]
      have hreads₅ := hreads₄.trans (Reads.lock hreads₄.writes hr5 e5
        [(.advisory (p.advisoryKey ("dataforge:compute-flight:" ++ ns ++ ":" ++ key)), .exclusive)])
      refine wp_reusableFlight hreads₅.writes (fun t6 w6 hh6 hr6 hm6 hu6 => ?_)
        fun t6 w6 id r hreads₆ hr => hreused (hreads₅.trans hreads₆).rely hr
      exact hinsert hm6 (hu6 _) fun k hk => by cases hk; exact hkey
    · trivial

theorem verified_stageRequest (hop : op = .stageRequest ns args) (hQ : ∀ r t w, Q r t w) :
    (protocol p C).wp i op Q (stageRequest p ns args false) {} w :=
  wp_stageRequest (Or.inl hop) (fun _ _ _ _ => hQ _ _ _) fun _ _ _ _ _ => hQ _ _ _

theorem verified_stageSharedFlightRequest (hop : op = .stageSharedFlightRequest ns args)
    (hnew : ∀ id r t w, Q (.staged id r true) t w)
    (hold : ∀ id r t w, HandedOut p C i ns args id r w → Q (.staged id r false) t w) :
    (protocol p C).wp i op Q (stageSharedFlightRequest p ns args) {} w := by
  unfold stageSharedFlightRequest
  split
  · trivial
  · split
    · trivial
    · exact wp_stageRequest (Or.inr hop) hnew hold

end Staging
end DataForge.Compute
