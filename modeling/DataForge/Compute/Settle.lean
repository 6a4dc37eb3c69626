import DataForge.Compute.Protocol

/-!
# Compute requests: verified settlement

Each settling operation meets the protocol: `_publish_terminal` and the two cancels, the
exhaustion pass with its refresh of the work projection, the finish paths and the renewal.
-/

namespace DataForge.Compute

open ReadCommitted DataForge.Runtime

/-- What a transaction of `op` may stage at one resource. -/
def Cell (p : Platform) (op : Op) (h : ComputeLocks) (r : Resource TableRow)
    (a b : Db Tables) : Prop :=
  match r with
  | .tenant ns (.request id) => RequestStep p op h ns id ((a.tenants ns).requests.get id)
      ((b.tenants ns).requests.get id)
  | .tenant ns (.flight key) => ∀ f, (b.tenants ns).flights.get key = some f →
      ∃ f', (a.tenants ns).flights.get key = some f' ∧ f'.requestId = f.requestId
  | _ => True

theorem RequestStep.mono {p : Platform} {op : Op} {h h' : ComputeLocks}
    {ns id : String} {x y : Option ComputeRequest} (hh : h ⊆ h')
    (hs : RequestStep p op h ns id x y) : RequestStep p op h' ns id x y := by
  cases hs with
  | same => exact .same _
  | stage args command hop hid => exact .stage args command hop hid
  | claim args b now since hop hb hnow hrow hkey =>
    refine .claim args b now since hop hb hnow (hh hrow) fun identity hi => ?_
    obtain ⟨t, ht⟩ := hkey identity hi
    exact ⟨t, hh ht⟩
  | renew claims workerId b since hop hb hrow hunique =>
    exact .renew claims workerId b since hop hb (hh hrow) hunique
  | finish args b since hop hid hb hrow => exact .finish args b since hop hid hb (hh hrow)
  | retire b reason now hop hb => exact .retire b reason now hop hb

theorem cell_local (p : Platform) (op : Op) :
    Protocol.Local (Write TableWrite) (Cell p op) where
  refl h r db := by
    rcases r with ⟨ns, id | key | key | id⟩ | key | id | key
    · exact .same _
    on_goal 2 => exact fun f hf => ⟨f, hf, rfl⟩
    all_goals trivial
  mono {h h' r a b} hh hc := by
    rcases r with ⟨ns, id | key | key | id⟩ | key | id | key
    · exact RequestStep.mono hh hc
    all_goals exact hc
  congr {h r a a' b b'} ha hb hc := by
    rcases r with ⟨ns, id | key | key | id⟩ | key | id | key
    · have ha' : (a'.tenants ns).requests.get id = (a.tenants ns).requests.get id := ha
      have hb' : (b'.tenants ns).requests.get id = (b.tenants ns).requests.get id := hb
      simp only [Cell, ha', hb'] at hc ⊢
      exact hc
    on_goal 2 =>
      have ha' : (a'.tenants ns).flights.get key = (a.tenants ns).flights.get key := ha
      have hb' : (b'.tenants ns).flights.get key = (b.tenants ns).flights.get key := hb
      simp only [Cell, ha', hb'] at hc ⊢
      exact hc
    all_goals trivial

section Views

variable (db : Db Tables) (ns : String)

theorem request_write (id id' : String) (row : Option ComputeRequest) :
    ((db.write (.tenant ns (TableWrite.request id row))).tenants ns).requests.get id' =
      if id' = id then row else (db.tenants ns).requests.get id' := by
  simp [Db.write, Storage.apply, Tables.write]

theorem flight_write (key key' : String × String) (row : Option ComputeRequestFlight) :
    ((db.write (.tenant ns (TableWrite.flight key row))).tenants ns).flights.get key' =
      if key' = key then row else (db.tenants ns).flights.get key' := by
  simp [Db.write, Storage.apply, Tables.write]

theorem work_view {ws : List (Write TableWrite)} (hw : ∀ v ∈ ws, ∃ ns u, v = .tenant ns u) :
    (view ws db).work = db.work := by
  induction ws generalizing db with
  | nil => rfl
  | cons v vs ih =>
    obtain ⟨ns, u, rfl⟩ := hw v List.mem_cons_self
    exact ih _ (fun x hx => hw x (List.mem_cons_of_mem _ hx))

end Views

/-- A transaction of `op` that has staged nothing but allowed tenant rows. -/
structure Mine (p : Platform) (op : Op) (t : ComputeTxn)
    (w : ComputeWorld) : Prop where
  guarded : t.Guarded
  staged : Protocol.Staged (Cell p op) t w
  tenant : ∀ v ∈ t.writes, ∃ ns u, v = .tenant ns u

/-- The transaction has not written this request. -/
def Untouched (ns id : String) (t : ComputeTxn) : Prop :=
  ∀ v ∈ t.writes, Storage.target v ≠ requestRow ns id

section Mine

variable {p : Platform} {C : Setting} {op : Op} {i : ℕ}
  {t : ComputeTxn} {w w' : ComputeWorld}
  {e : ComputeEnv} {ns id : String}

theorem Mine.of_nil (p : Platform) (op : Op) (w : ComputeWorld) (h : t.writes = []) :
    Mine p op t w := by
  refine ⟨fun v hv => ?_, fun r => ?_, fun v hv => ?_⟩
  · rw [h] at hv
    cases hv
  · rw [h]
    exact (cell_local p op).refl _ r _
  · rw [h] at hv
    cases hv

theorem Mine.empty (p : Platform) (op : Op) (w : ComputeWorld) : Mine p op {} w :=
  Mine.of_nil p op w rfl

theorem Untouched.of_nil (ns id : String) (h : t.writes = []) : Untouched ns id t := by
  intro v hv
  rw [h] at hv
  cases hv

theorem Mine.rely (hm : Mine p op t w) (hr : (protocol p C).Rely t.held w w') : Mine p op t w' :=
  ⟨hm.guarded, hm.staged.rely (cell_local p op) hm.guarded hr, hm.tenant⟩

theorem Mine.lock (hm : Mine p op t w) (e : ComputeEnv) (rows : List (Resource TableRow))
    (mode : Mode) : Mine p op (t.after e (lockRows rows mode)) w :=
  ⟨hm.guarded.after _ _, hm.staged.lock (cell_local p op), by
    simpa [Txn.after, lockRows] using hm.tenant⟩

theorem Mine.query (hm : Mine p op t w) (began : Option ℕ) :
    Mine p op ⟨t.held, t.writes, began⟩ w := ⟨hm.guarded, hm.staged, hm.tenant⟩

theorem Mine.write (hm : Mine p op t w) (e : ComputeEnv) (ns : String) (u : TableWrite)
    (hc : Cell p op (t.after e ⟨[], [.tenant ns u]⟩).held (.tenant ns u.target) w.db
      ((view t.writes w.db).write (.tenant ns u))) :
    Mine p op (t.after e ⟨[], [.tenant ns u]⟩) w := by
  refine ⟨hm.guarded.after _ _, hm.staged.write (cell_local p op) ?_, ?_⟩
  · intro v hv
    rw [List.mem_singleton.mp hv]
    exact hc
  · intro v hv
    rcases List.mem_append.mp hv with hv | hv
    · exact hm.tenant v hv
    · exact ⟨ns, u, List.mem_singleton.mp hv⟩

theorem Untouched.view (hu : Untouched ns id t) (db : Db Tables) :
    ((ReadCommitted.view t.writes db).tenants ns).requests.get id =
      (db.tenants ns).requests.get id :=
  view_same_of_ne (r := Resource.tenant ns (TableRow.request id)) db hu

theorem request_rely {h : ComputeLocks} {k : Lock (Resource TableRow)}
    (hr : (protocol p C).Rely h w w') (hk : k ∈ h) (hres : k.res = requestRow ns id) :
    (w'.db.tenants ns).requests.get id = (w.db.tenants ns).requests.get id := by
  have hsame := hr.same hk
  rw [hres] at hsame
  exact hsame

theorem mem_held_lockRows (t : ComputeTxn) (e : ComputeEnv)
    {rows : List (Resource TableRow)} {mode : Mode} {r : Resource TableRow} (hr : r ∈ rows) :
    (⟨r, mode, e.now⟩ : Lock (Resource TableRow)) ∈ (t.after e (lockRows rows mode)).held :=
  Txn.lock_mem_after (n := (r, mode)) t e
    (List.mem_append_left _ (List.mem_map.mpr ⟨r, hr, rfl⟩))

theorem granted_write (t : ComputeTxn) (e : ComputeEnv)
    (u : TableWrite) : Granted (t.after e ⟨[], [.tenant ns u]⟩).held (.tenant ns u.target) e.now :=
  Txn.lock_mem_after (n := (Resource.tenant ns u.target, Mode.exclusive)) t e
    (List.mem_cons_self)

theorem Untouched.lock (hu : Untouched ns id t) (e : ComputeEnv) (rows : List (Resource TableRow))
    (mode : Mode) : Untouched ns id (t.after e (lockRows rows mode)) := by
  simpa [Untouched, Txn.after, lockRows] using hu

theorem Untouched.write (hu : Untouched ns id t) {e : ComputeEnv} {ns' : String} {u : TableWrite}
    (hne : Resource.tenant ns' u.target ≠ requestRow ns id) :
    Untouched ns id (t.after e ⟨[], [.tenant ns' u]⟩) := by
  intro v hv
  rcases List.mem_append.mp hv with hv | hv
  · exact hu v hv
  · rw [List.mem_singleton.mp hv]
    exact hne

end Mine

theorem Mine.aside {p : Platform} {op : Op} {t : ComputeTxn}
    {w : ComputeWorld} (hm : Mine p op t w) : Aside .compute t.writes w.db where
  forms v hv := Or.inl (hm.tenant v hv)
  unissued id row hv := by
    obtain ⟨ns, u, he⟩ := hm.tenant _ hv
    cases he

section Publish

variable {p : Platform} {C : Setting} {op : Op} {i : ℕ}
  {t : ComputeTxn} {w : ComputeWorld} {ns id : String}
  {Q : Unit → ComputeTxn → ComputeWorld → Prop}

private theorem flightOf_eq {e : ComputeEnv} {key : String × String} {f : ComputeRequestFlight}
    (h : flightOf ns e id = some (key, f)) : (e.db.tenants ns).flights.get key = some f :=
  (Table.mem_rows_iff _ _ _).mp (List.mem_of_find?_eq_some h)

/-- `_finish_flight` extends or deletes a flight that it holds. -/
theorem wp_finishFlight {cache : Bool} {completedAt : ℕ} (hm : Mine p op t w)
    (hQ : ∀ t' w', Mine p op t' w' → t.held ⊆ t'.held → (protocol p C).Rely t.held w w' →
      (∀ id', Untouched ns id' t → Untouched ns id' t') → Q () t' w') :
    (protocol p C).wp i op Q (finishFlight ns id cache completedAt) t w := by
  unfold finishFlight
  apply Protocol.wp_statement
  intro w1 e1 hr1 hi1 hs1
  have hm1 := (hm.rely hr1).lock e1
    ((flightOf ns e1 id).toList.map fun f => Resource.tenant ns (TableRow.flight f.1)) .exclusive
  cases hf : flightOf ns e1 id with
  | none =>
    rw [hf] at hm1
    exact hQ _ _ hm1 (t.held_subset_after _ _) hr1 (fun id' hu => hu.lock _ _ _)
  | some kf =>
    obtain ⟨key, f⟩ := kf
    rw [hf] at hm1
    apply Protocol.wp_exec
    intro w2 e2 hr2 hi2 hs2
    -- the flight was committed, if not as it is seen, and is held since the last statement
    obtain ⟨f', hf', hid⟩ : ∃ f', (w1.db.tenants ns).flights.get key = some f' ∧
        f'.requestId = f.requestId := by
      have hcell := (hm.rely hr1).staged (.tenant ns (.flight key)) f
      rw [← hs1.db] at hcell
      exact hcell (flightOf_eq hf)
    have hsame : (w2.db.tenants ns).flights.get key = (w1.db.tenants ns).flights.get key :=
      hr2.same (mem_held_lockRows t e1 (r := Resource.tenant ns (TableRow.flight key))
        (List.mem_cons_self))
    refine hQ _ _ ((hm1.rely hr2).write e2 ns (.flight key _) ?_)
      (fun k hk => Txn.held_subset_after _ _ _ (t.held_subset_after _ _ hk))
      (hr1.trans (hr2.mono (t.held_subset_after _ _))) (fun id' hu => (hu.lock _ _ _).write ?_)
    · intro g hg
      replace hg := (flight_write _ ns key key _).symm.trans hg
      rw [if_pos rfl] at hg
      refine ⟨f', hsame.trans hf', hid.trans ?_⟩
      cases cache with
      | true =>
        rw [if_pos rfl, Option.some.injEq] at hg
        rw [← hg]
      | false => cases hg
    · intro he
      cases he

/-- `_publish_terminal` on a held row that the transaction has not written yet. -/
theorem wp_publishTerminal {f : ComputeRequest → ComputeRequest} {cache : Bool} {completedAt : ℕ}
    {r : ComputeRequest} {k : Lock (Resource TableRow)} (hm : Mine p op t w)
    (hk : k ∈ t.held) (hres : k.res = requestRow ns id) (hu : Untouched ns id t)
    (hr : (w.db.tenants ns).requests.get id = some r)
    (hstep : ∀ h, t.held ⊆ h → RequestStep p op h ns id (some r) (some (f r)))
    (hQ : ∀ t' w', Mine p op t' w' → t.held ⊆ t'.held → (protocol p C).Rely t.held w w' →
      (∀ id', id' ≠ id → Untouched ns id' t → Untouched ns id' t') → Q () t' w') :
    (protocol p C).wp i op Q (publishTerminal ns id f cache completedAt) t w := by
  unfold publishTerminal updateRequest
  apply Protocol.wp_statement
  intro w1 e1 hr1 hi1 hs1
  have hrow : (w1.db.tenants ns).requests.get id = some r := (request_rely hr1 hk hres).trans hr
  have hget : (requests ns e1).get id = some r := by
    rw [requests, hs1.db, hu.view]
    exact hrow
  simp only [hget]
  have hm1 : Mine p op (t.after e1 ⟨[], [.tenant ns (.request id (some (f r)))]⟩) w1 := by
    refine (hm.rely hr1).write e1 ns _ ?_
    have hwritten := request_write (view t.writes w1.db) ns id id (some (f r))
    rw [if_pos rfl] at hwritten
    simp only [Cell, TableWrite.target, hwritten, hrow]
    exact hstep _ (t.held_subset_after _ _)
  refine wp_finishFlight hm1 fun t' w' hm' hh' hr' hu' => ?_
  refine hQ t' w' hm' (fun x hx => hh' (t.held_subset_after _ _ hx))
    (hr1.trans (hr'.mono (t.held_subset_after _ _))) fun id' hne hu0 => hu' id' (hu0.write ?_)
  intro he
  injection he with _ he
  injection he with he
  exact hne he.symm

theorem wp_retireRequest {reason : String} {now : ℕ} {r : ComputeRequest}
    {k : Lock (Resource TableRow)} (hop : op.retires ns) (hm : Mine p op t w)
    (hk : k ∈ t.held) (hres : k.res = requestRow ns id) (hu : Untouched ns id t)
    (hr : (w.db.tenants ns).requests.get id = some r) (hact : r.status.active = true)
    (hQ : ∀ t' w', Mine p op t' w' → t.held ⊆ t'.held → (protocol p C).Rely t.held w w' →
      (∀ id', id' ≠ id → Untouched ns id' t → Untouched ns id' t') → Q () t' w') :
    (protocol p C).wp i op Q (retireRequest ns id reason now) t w :=
  wp_publishTerminal hm hk hres hu hr (fun _ _ => .retire r reason now hop hact) hQ

/-- Retiring a batch of held, active rows, by induction on the batch. -/
theorem wp_retireAll {reason : ComputeRequest → String} {now : ℕ}
    {rows : List (String × ComputeRequest)} (hop : op.retires ns) (hm : Mine p op t w)
    (hn : (rows.map Prod.fst).Nodup)
    (hrows : ∀ x ∈ rows, (∃ k ∈ t.held, k.res = requestRow ns x.1) ∧ Untouched ns x.1 t ∧
      (w.db.tenants ns).requests.get x.1 = some x.2 ∧ x.2.status.active = true)
    (hQ : ∀ t' w', Mine p op t' w' → t.held ⊆ t'.held → (protocol p C).Rely t.held w w' →
      Q () t' w') :
    (protocol p C).wp i op Q (retireAll ns reason now rows) t w := by
  induction rows generalizing t w with
  | nil => exact hQ t w hm (List.Subset.refl _) .refl
  | cons x rest ih =>
    obtain ⟨id, r⟩ := x
    obtain ⟨⟨k, hk, hres⟩, hu, hget, hact⟩ := hrows (id, r) List.mem_cons_self
    rw [List.map_cons, List.nodup_cons] at hn
    rw [retireAll, Protocol.wp_bind]
    refine wp_retireRequest hop hm hk hres hu hget hact fun t1 w1 hm1 hh1 hr1 hu1 => ?_
    refine ih hm1 hn.2 (fun y hy => ?_) fun t' w' hm' hh' hr' =>
      hQ t' w' hm' (fun x hx => hh' (hh1 hx)) (hr1.trans (hr'.mono hh1))
    obtain ⟨⟨k', hk', hres'⟩, hu', hget', hact'⟩ := hrows y (List.mem_cons_of_mem _ hy)
    have hne : y.1 ≠ id := fun he => hn.1 (he ▸ List.mem_map.mpr ⟨y, hy, rfl⟩)
    exact ⟨⟨k', hh1 hk', hres'⟩, hu1 y.1 hne hu', (request_rely hr1 hk' hres').trans hget', hact'⟩

end Publish

section Operations

variable {p : Platform} {C : Setting} {op : Op} {i : ℕ}
  {t : ComputeTxn} {w : ComputeWorld} {ns : String}

/-- Operations that insert no request and claim none. -/
def Op.settles : Op → Prop
  | .stageRequest .. | .stageSharedFlightRequest .. | .claimNextRequest .. => False
  | _ => True

theorem RequestStep.none_of_settles {h : ComputeLocks} {id : String}
    {y : Option ComputeRequest} (hs : RequestStep p op h ns id none y) (hset : op.settles) :
    y = none := by
  cases hs with
  | same => rfl
  | stage args command hop hid => rcases hop with rfl | rfl <;> exact hset.elim

theorem deadline_le_of_settles {db : Db Tables} {h : ComputeLocks}
    (hset : op.settles) (hi : Inv p C w) (hC : C.renews)
    (hcond : C.renews → NoShorterLease op w db)
    (hplain : C.renews → op.plain) (ns id : String)
    (hs : RequestStep p op h ns id ((w.db.tenants ns).requests.get id)
      ((db.tenants ns).requests.get id)) :
    queue.deadline (w.db.tenants ns) id ≤ queue.deadline (db.tenants ns) id := by
  refine hs.slot_le (hplain hC) (hi.lease ns id) (fun hx => ?_) fun claims workerId hop b a e e' =>
    hcond hC ns claims workerId hop id b a e e'
  rw [hx] at hs
  exact hs.none_of_settles hset

theorem Mine.act (hm : Mine p op t w) (hset : op.settles) (hi : Inv p C w)
    (hcond : C.renews → NoShorterLease op w (view t.writes w.db)) (hplain : C.renews → op.plain) :
    Act p C op t.held w (view t.writes w.db) where
  request ns id := hm.staged (.tenant ns (.request id))
  flight ns key f hf := Or.inr (hm.staged (.tenant ns (.flight key)) f hf)
  exclusive ns args hop := by rw [hop] at hset; exact hset.elim
  issued id hid := by rw [work_view _ hm.tenant]; exact hid
  work hC ns := Or.inl
    { marker := by rw [work_view _ hm.tenant]
      live := fun id hl => by rw [work_view _ hm.tenant]; exact hl
      deadline := fun id => Or.inl (deadline_le_of_settles hset hi hC hcond hplain ns id
        (hm.staged (.tenant ns (.request id)))) }

/-- Committing tenant rows together with a refreshed projection. -/
theorem Mine.act_refreshed {t' : ComputeTxn} (hm : Mine p op t w)
    (hset : op.settles) (hi : Inv p C w) (hh : t.held ⊆ t'.held)
    (hcond : C.renews → NoShorterLease op w (view t'.writes w.db)) (hplain : C.renews → op.plain)
    (hp : Projects queue ns .compute C.renews w.db (view t.writes w.db) (view t'.writes w.db)) :
    Act p C op t'.held w (view t'.writes w.db) where
  request ns id := by
    rw [hp.tenants]
    exact RequestStep.mono hh (hm.staged (.tenant ns (.request id)))
  flight ns key f hf := by
    rw [hp.tenants] at hf
    exact Or.inr (hm.staged (.tenant ns (.flight key)) f hf)
  exclusive ns args hop := by rw [hop] at hset; exact hset.elim
  issued := hp.issued
  work hC ns' := by
    have hdeadline (id : String) : queue.deadline (w.db.tenants ns') id ≤
        queue.deadline ((view t'.writes w.db).tenants ns') id := by
      refine deadline_le_of_settles (h := t.held) hset hi hC hcond hplain ns' id ?_
      rw [hp.tenants]
      exact hm.staged (.tenant ns' (.request id))
    by_cases hns : (ns', RuntimeWorkKind.compute) = (ns, RuntimeWorkKind.compute)
    · cases hns
      rcases hp.own with ⟨hmark, hlive⟩ | href
      · exact Or.inl ⟨hmark, hlive, fun id => Or.inl (hdeadline id)⟩
      · exact Or.inr (href hC)
    · obtain ⟨hmark, hlive⟩ := hp.other _ hns
      exact Or.inl ⟨hmark, hlive, fun id => Or.inl (hdeadline id)⟩

theorem keeps (p : Platform) (C : Setting) : Keeps (protocol p C) queue .compute C.renews where
  issued hc := hc.act.issued
  step hC hc := hc.act.work hC

variable {Q : Reply → ComputeTxn → ComputeWorld → Prop}

theorem wp_check {α β : Type} {x : Except String α} {k : α → ComputeScript β}
    {R : β → ComputeTxn → ComputeWorld → Prop}
    (h : ∀ a, x = .ok a → (protocol p C).wp i op R (k a) t w) :
    (protocol p C).wp i op R (check x >>= k) t w := by
  cases x with
  | ok a => exact h a rfl
  | error m => trivial

theorem verified_cancelDisconnectedRequest {requestId reason : String} {now : ℕ}
    (hop : op = .cancelDisconnectedRequest ns requestId reason now) (hplain : C.renews → op.plain)
    (hQ : ∀ r t w, Q r t w) :
    (protocol p C).wp i op Q (cancelDisconnectedRequest p ns requestId reason now) {} w := by
  have hset : op.settles := by rw [hop]; trivial
  have hret : op.retires ns := by rw [hop]; rfl
  unfold cancelDisconnectedRequest
  apply Protocol.wp_statement
  intro w1 e1 hr1 hi1 hs1
  cases hf : ((requests ns e1).get requestId).filter (·.status.active) with
  | none =>
    apply Protocol.wp_rollback
    exact fun w2 _ _ => hQ _ _ _
  | some r =>
    obtain ⟨hget, hact⟩ := Option.filter_eq_some_iff.mp hf
    have hrow : (w1.db.tenants ns).requests.get requestId = some r := by
      rw [requests, hs1.db] at hget
      exact hget
    refine wp_check fun envelope _ => ?_
    split
    · apply Protocol.wp_rollback
      exact fun w2 _ _ => hQ _ _ _
    · split
      · apply Protocol.wp_rollback
        exact fun w2 _ _ => hQ _ _ _
      · rw [Protocol.wp_bind]
        have hm1 := (Mine.empty p op w1).lock e1 [requestRow ns requestId] .exclusive
        refine wp_retireRequest hret hm1 (mem_held_lockRows _ _ List.mem_cons_self) rfl
          (fun v hv => by cases hv) hrow hact fun t' w' hm' _ _ _ => ?_
        apply Protocol.wp_commit
        intro w2 hr2 hi2 hc2
        refine ⟨(hm'.rely hr2).act hset hi2 hc2 hplain, ?_⟩
        apply Protocol.wp_query
        exact fun _ _ _ _ _ => hQ _ _ _

theorem nodup_filter_keys {t : Table String ComputeRequest}
    (f : String × ComputeRequest → Bool) : ((t.rows.filter f).map Prod.fst).Nodup :=
  t.nodup.sublist (List.filter_sublist.map _)

theorem verified_cancelActiveRequestsForEngine {identity : ComputeWorkerIdentity}
    {reason : String} {now : ℕ}
    (hop : op = .cancelActiveRequestsForEngine ns identity reason now)
    (hplain : C.renews → op.plain) (hQ : ∀ r t w, Q r t w) :
    (protocol p C).wp i op Q (cancelActiveRequestsForEngine ns identity reason now) {} w := by
  have hset : op.settles := by rw [hop]; trivial
  have hret : op.retires ns := by rw [hop]; rfl
  unfold cancelActiveRequestsForEngine
  apply Protocol.wp_statement
  intro w1 e1 hr1 hi1 hs1
  rw [Protocol.wp_bind]
  have hm1 := (Mine.empty p op w1).lock e1
    (((requests ns e1).rows.filter (targetsEngine ns identity ·.2)).map
      fun r => requestRow ns r.1) .exclusive
  refine wp_retireAll hret hm1 (nodup_filter_keys _) (fun x hx => ?_) fun t' w' hm' _ _ => ?_
  · obtain ⟨hmem, htarget⟩ := List.mem_filter.mp hx
    have hget := (Table.mem_rows_iff _ _ _).mp hmem
    rw [requests, hs1.db] at hget
    refine ⟨⟨_, mem_held_lockRows _ e1 (List.mem_map.mpr ⟨x, hx, rfl⟩), rfl⟩,
      (fun v hv => by cases hv), hget, ?_⟩
    simp only [targetsEngine, Bool.and_eq_true] at htarget
    exact htarget.1.1.1.2
  · dsimp only
    split
    · apply Protocol.wp_commit
      intro w2 hr2 hi2 hc2
      exact ⟨(hm'.rely hr2).act hset hi2 hc2 hplain, hQ _ _ _⟩
    · apply Protocol.wp_rollback
      exact fun w2 _ _ => hQ _ _ _

theorem exhaustBatch_spec (ns : String) (e : ComputeEnv) (now : ℕ) :
    ((exhaustBatch ns e now).map Prod.fst).Nodup ∧
      ∀ x ∈ exhaustBatch ns e now, (requests ns e).get x.1 = some x.2 ∧
        exhausted ns now x.2 = true := by
  unfold exhaustBatch
  constructor
  · refine List.Nodup.sublist ((List.take_sublist _ _).map _) ?_
    refine ((List.perm_insertionSort _ _).map _).nodup_iff.mpr ?_
    exact nodup_filter_keys _
  · intro x hx
    have hmem := (List.mem_insertionSort _).mp (List.mem_of_mem_take hx)
    obtain ⟨hrow, hex⟩ := List.mem_filter.mp hmem
    exact ⟨(Table.mem_rows_iff _ _ _).mp hrow, (Bool.and_eq_true_iff.mp hex).1⟩

theorem verified_reconcileExpiredRequests (hop : op = .reconcileExpiredRequests ns)
    (hplain : C.renews → op.plain) (hQ : ∀ r t w, Q r t w) :
    (protocol p C).wp i op Q (reconcileExpiredRequests ns) {} w := by
  have hset : op.settles := by rw [hop]; trivial
  have hret : op.retires ns := by rw [hop]; rfl
  unfold reconcileExpiredRequests
  apply Protocol.wp_query
  intro w1 e1 hr1 hi1 hs1
  apply Protocol.wp_statement
  intro w2 e2 hr2 hi2 hs2
  rw [Protocol.wp_bind]
  obtain ⟨hnodup, hbatch⟩ := exhaustBatch_spec ns e2 e1.began
  have hm2 := ((Mine.empty p op w2).query (some e1.began)).lock e2
    ((exhaustBatch ns e2 e1.began).map fun r => requestRow ns r.1) .exclusive
  refine wp_retireAll hret hm2 hnodup (fun x hx => ?_) fun t3 w3 hm3 _ _ => ?_
  · obtain ⟨hget, hex⟩ := hbatch x hx
    rw [requests, hs2.db] at hget
    refine ⟨⟨_, mem_held_lockRows _ e2 (List.mem_map.mpr ⟨x, hx, rfl⟩), rfl⟩,
      (fun v hv => by cases hv), hget, ?_⟩
    simp only [exhausted, Bool.and_eq_true, decide_eq_true_eq] at hex
    rw [hex.1.1.2]
    rfl
  · rw [Protocol.wp_bind]
    apply wp_refresh (keeps p C) hm3.guarded hm3.aside
    intro t4 w4 hg4 hh4 hr4 hp4
    apply Protocol.wp_commit
    intro w5 hr5 hi5 hc5
    have hm5 := hm3.rely (hr4.trans (hr5.mono hh4))
    exact ⟨hm5.act_refreshed hset hi5 hh4 hc5 hplain (hp4 w5 hr5), hQ _ _ _⟩

private theorem wp_acknowledgeRetry {args : FinishArgs} (hQ : ∀ r t w, Q r t w) :
    (protocol p C).wp i op Q (acknowledgeRetry ns args) t w := by
  unfold acknowledgeRetry
  apply Protocol.wp_rollback
  intro w1 _ _
  apply Protocol.wp_query
  exact fun _ _ _ _ _ => hQ _ _ _

/-- `_active_request_claim`: the row it returns carries the presented claim, unexpired at the
clock value the statement reads; with `for_update` it is held from then on. -/
private theorem wp_activeRequestClaim {args : FinishArgs} {forUpdate : Bool}
    {R : Option ComputeRequest → ComputeTxn →
      ComputeWorld → Prop} (hm : Mine p op t w)
    (hnone : ∀ t' w', R none t' w')
    (hsome : ∀ t' w' r since, Mine p op t' w' → t'.writes = t.writes →
      (forUpdate = true → Granted t'.held (requestRow ns args.requestId) since) →
      ((view t.writes w'.db).tenants ns).requests.get args.requestId = some r →
      activeClaim args since r = true → R (some r) t' w') :
    (protocol p C).wp i op R (activeRequestClaim ns args forUpdate) t w := by
  unfold activeRequestClaim
  apply Protocol.wp_query
  intro w1 e1 hr1 hi1 hs1
  apply Protocol.wp_exec
  intro w2 e2 hr2 hi2 hs2
  simp only [Protocol.wp]
  cases hf : ((requests ns e2).get args.requestId).filter (activeClaim args e2.now) with
  | none => exact hnone _ _
  | some r =>
    obtain ⟨hget, hact⟩ := Option.filter_eq_some_iff.mp hf
    refine hsome _ _ r e2.now ((((hm.rely hr1).query _).rely hr2).lock _ _ _)
      (List.append_nil _) (fun hfor => mem_held_lockRows _ _ ?_) ?_ hact
    · simp [hfor]
    · rw [requests, hs2.db] at hget
      exact hget

theorem verified_finishClaimedRequest {args : FinishArgs}
    (hop : op = .finishClaimedRequest ns args) (hplain : C.renews → op.plain)
    (hQ : ∀ r t w, Q r t w) :
    (protocol p C).wp i op Q (finishClaimedRequest ns args) {} w := by
  have hset : op.settles := by rw [hop]; trivial
  unfold finishClaimedRequest
  rw [Protocol.wp_bind]
  refine wp_activeRequestClaim (Mine.empty p op w) (fun t' w' => wp_acknowledgeRetry hQ) ?_
  intro t1 w1 r1 since1 hm1 hw1 _ _ _
  refine wp_check fun _ _ => wp_check fun _ _ => ?_
  rw [Protocol.wp_bind]
  refine wp_activeRequestClaim hm1 (fun t' w' => wp_acknowledgeRetry hQ) ?_
  intro t2 w2 r since hm2 hw2 hgrant hget hact
  refine wp_check fun cached _ => ?_
  rw [Protocol.wp_bind]
  have hempty : t2.writes = [] := hw2.trans hw1
  have hrow : (w2.db.tenants ns).requests.get args.requestId = some r := by
    rw [hw1] at hget
    exact hget
  refine wp_publishTerminal hm2 (hgrant rfl) rfl (fun v hv => by rw [hempty] at hv; cases hv) hrow
    (fun h hh => .finish args r since hop rfl hact (hh (hgrant rfl))) fun t3 w3 hm3 _ _ _ => ?_
  apply Protocol.wp_commit
  intro w4 hr4 hi4 hc4
  exact ⟨(hm3.rely hr4).act hset hi4 hc4 hplain, hQ _ _ _⟩

/-- The requests after a batch of writes to distinct rows. -/
theorem view_requests (ns : String) {rows : List (String × ComputeRequest)}
    (f : ComputeRequest → ComputeRequest) (db : Db Tables) (hn : (rows.map Prod.fst).Nodup)
    {id : String} {r : ComputeRequest} (hm : (id, r) ∈ rows) :
    ((view (rows.map fun x => Write.tenant ns (TableWrite.request x.1 (some (f x.2)))) db).tenants
      ns).requests.get id = some (f r) := by
  induction rows generalizing db with
  | nil => cases hm
  | cons x rest ih =>
    rw [List.map_cons, List.nodup_cons] at hn
    rcases List.mem_cons.mp hm with rfl | hm
    · -- later writes do not touch this row
      have hne : ∀ v ∈ rest.map fun x => Write.tenant ns (TableWrite.request x.1 (some (f x.2))),
          Storage.target v ≠ Resource.tenant ns (TableRow.request id) := by
        intro v hv he
        obtain ⟨y, hy, rfl⟩ := List.mem_map.mp hv
        injection he with _ he
        injection he with he
        exact hn.1 (List.mem_map.mpr ⟨y, hy, he⟩)
      have hrest := view_same_of_ne (W := Write TableWrite)
        (db.write (.tenant ns (TableWrite.request id (some (f r))))) hne
      refine Eq.trans hrest ?_
      rw [request_write, if_pos rfl]
    · exact ih _ hn.2 hm

theorem verified_renewRequestLeases {claims : List LeaseClaim} {workerId : String}
    (hop : op = .renewRequestLeases ns claims workerId) (hplain : C.renews → op.plain)
    (hQ : ∀ r t w, Q r t w) :
    (protocol p C).wp i op Q (renewRequestLeases p ns claims workerId) {} w := by
  have hset : op.settles := by rw [hop]; trivial
  unfold renewRequestLeases
  split
  · trivial
  · next hbatch =>
    have hunique : (claims.map LeaseClaim.requestId).Nodup :=
      not_not.mp fun hn => hbatch (Or.inr hn)
    apply Protocol.wp_statement
    intro w1 e1 hr1 hi1 hs1
    set rows := (requests ns e1).rows.filter fun r => renewable claims workerId e1.now r.1 r.2
      with hrows
    set writes := rows.map
      (fun r => Write.tenant ns (TableWrite.request r.1 (some (renewedRow p e1.now r.2))))
      with hwrites
    have hm1 : Mine p op (Txn.after {} e1 ⟨[], writes⟩) w1 := by
      refine ⟨Txn.guarded_empty.after _ _,
        (Mine.empty p op w1).staged.write (cell_local p op) ?_, ?_⟩
      · intro v hv
        obtain ⟨x, hx, rfl⟩ := List.mem_map.mp hv
        obtain ⟨hmem, hren⟩ := List.mem_filter.mp hx
        have hget := (Table.mem_rows_iff _ _ _).mp hmem
        rw [requests, hs1.db] at hget
        have hafter := view_requests ns (renewedRow p e1.now) w1.db (nodup_filter_keys _) hx
        have hgrant : Granted (Txn.after {} e1 ⟨[], writes⟩).held (requestRow ns x.1) e1.now :=
          Txn.lock_mem_after (n := (requestRow ns x.1, Mode.exclusive)) _ _
            (List.mem_map.mpr ⟨_, hv, rfl⟩)
        change RequestStep p op _ ns x.1 ((w1.db.tenants ns).requests.get x.1)
          (((view writes w1.db).tenants ns).requests.get x.1)
        rw [show (w1.db.tenants ns).requests.get x.1 = some x.2 from hget, hafter]
        exact .renew claims workerId x.2 e1.now hop hren hgrant hunique
      · intro v hv
        obtain ⟨x, hx, rfl⟩ := List.mem_map.mp hv
        exact ⟨ns, _, rfl⟩
    dsimp only
    split
    · apply Protocol.wp_commit
      intro w2 hr2 hi2 hc2
      exact ⟨(hm1.rely hr2).act hset hi2 hc2 hplain, hQ _ _ _⟩
    · apply Protocol.wp_rollback
      exact fun w2 _ _ => hQ _ _ _

theorem verified_writeDatasource {id : String} {row : Option DataSource}
    (hop : op = .writeDatasource ns id row) (hplain : C.renews → op.plain) (hQ : ∀ r t w, Q r t w) :
    (protocol p C).wp i op Q (writeDatasource ns id row) {} w := by
  have hset : op.settles := by rw [hop]; trivial
  unfold writeDatasource
  apply Protocol.wp_statement
  intro w1 e1 hr1 hi1 hs1
  have hm1 := (Mine.empty p op w1).write e1 ns (.datasource id row) trivial
  apply Protocol.wp_commit
  intro w2 hr2 hi2 hc2
  exact ⟨(hm1.rely hr2).act hset hi2 hc2 hplain, hQ _ _ _⟩

theorem verified_otherWork {wakes : List (ℕ × Wake)}
    {markers : List ((String × RuntimeWorkKind) × Marker)} (hQ : ∀ r t w, Q r t w)
    (hop : op = .otherWork wakes markers) :
    (protocol p C).wp i op Q (otherWork wakes markers) {} w := by
  unfold otherWork
  apply Protocol.wp_statement
  intro w1 e1 hr1 hi1 hs1
  apply Protocol.wp_commit
  intro w2 hr2 hi2 hc2
  refine ⟨?_, hQ _ _ _⟩
  set writes : List (Write TableWrite) := (wakes.filter fun w => w.2.kind ≠ .compute &&
      (e1.db.work.wakes.get w.1).all (·.kind ≠ .compute)).map
        (fun w => Write.wake w.1 (some w.2)) ++
    (markers.filter fun m => m.1.2 ≠ .compute).map fun m => Write.marker m.1 (some m.2) with hwrites
  have hforms : ∀ v ∈ writes, (∃ id row, v = .wake id (some row)) ∨
      ∃ key row, v = .marker key row := by
    intro v hv
    rcases List.mem_append.mp hv with hv | hv
    · obtain ⟨x, _, rfl⟩ := List.mem_map.mp hv
      exact Or.inl ⟨_, _, rfl⟩
    · obtain ⟨x, _, rfl⟩ := List.mem_map.mp hv
      exact Or.inr ⟨_, _, rfl⟩
  obtain ⟨htenants, hissued⟩ := view_work w2.db hforms
  -- a written wake was not one of the compute queue, and is held
  have hwake (id : ℕ) (row : Wake) (hv : Write.wake id (some row) ∈ writes) (ns : String) :
      ¬w2.db.work.Live ns .compute id := by
    rintro ⟨u, hu, hlive⟩
    have hsame : w2.db.work.wakes.get id = w1.db.work.wakes.get id :=
      hr2.same (Txn.lock_mem_after (n := (Resource.wake id, Mode.exclusive)) _ _
        (List.mem_append_right _ (List.mem_map.mpr ⟨_, hv, rfl⟩)))
    have hkind : (e1.db.work.wakes.get id).all (·.kind ≠ .compute) = true := by
      rcases List.mem_append.mp hv with hv | hv
      · obtain ⟨x, hx, he⟩ := List.mem_map.mp hv
        injection he with he _
        subst he
        exact (Bool.and_eq_true_iff.mp (List.mem_filter.mp hx).2).2
      · obtain ⟨x, _, he⟩ := List.mem_map.mp hv
        cases he
    have he1 : e1.db = w1.db := hs1.db
    rw [he1, ← hsame, hu] at hkind
    simp only [Wake.live, Bool.and_eq_true, decide_eq_true_eq] at hlive
    simp [hlive.1.2] at hkind
  have hlive (ns : String) (id : ℕ) (hl : w2.db.work.Live ns .compute id) :
      (view writes w2.db).work.Live ns .compute id := by
    have hget : (view writes w2.db).work.wakes.get id = w2.db.work.wakes.get id := by
      refine view_same_of_ne (W := Write TableWrite) (r := Resource.wake id) w2.db ?_
      intro v hv he
      rcases hforms v hv with ⟨id', row, rfl⟩ | ⟨key, row, rfl⟩
      · injection he with he
        subst he
        exact hwake id' row hv ns hl
      · cases he
    obtain ⟨u, hu, hul⟩ := hl
    exact ⟨u, hget.trans hu, hul⟩
  have hmarker (ns : String) : (view writes w2.db).work.markers.get (ns, .compute) =
      w2.db.work.markers.get (ns, .compute) := by
    refine view_same_of_ne (W := Write TableWrite) (r := Resource.marker (ns, .compute)) w2.db ?_
    intro v hv he
    rcases List.mem_append.mp hv with hv | hv
    · obtain ⟨x, _, rfl⟩ := List.mem_map.mp hv
      cases he
    · obtain ⟨x, hx, rfl⟩ := List.mem_map.mp hv
      injection he with he
      have hk := (List.mem_filter.mp hx).2
      rw [he] at hk
      simp at hk
  change Act p C op _ w2 (view writes w2.db)
  exact
    { request := fun ns id => by rw [htenants]; exact .same _
      flight := fun ns key f hf => Or.inr ⟨f, by rw [htenants] at hf; exact hf, rfl⟩
      exclusive := fun ns args h => by rw [hop] at h; cases h
      issued := hissued
      work := fun _ ns => Or.inl ⟨hmarker ns, hlive ns, fun id => Or.inl (by rw [htenants])⟩ }

end Operations

end DataForge.Compute
