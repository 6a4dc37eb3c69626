import DataForge.Compute.Claim
import DataForge.Compute.Stage

/-!
# Compute requests: every interleaving

All operations of the queue meet the protocol, so its invariants hold in every state that any
number of interleaved calls can reach: one running request per engine identity, a request
life cycle fenced by lease generations, and single flight.
-/

namespace DataForge.Compute

open ReadCommitted DataForge.Runtime

abbrev ComputeSystem := System Op (Db Tables) (Write TableWrite) (Resource TableRow) Reply

/-- A request row of a system state. -/
def requestAt (s : ComputeSystem) (ns id : String) : Option ComputeRequest :=
  (s.db.tenants ns).requests.get id

/-- The queue before its first request; datasources and work tables may be anything. -/
def Fresh (db : Db Tables) : Prop :=
  ∀ ns, (db.tenants ns).requests = .empty ∧ (db.tenants ns).flights = .empty

/-- Any interleaving of any number of calls, without conditions on them. -/
abbrev Reaches (p : Platform) : ComputeSystem → ComputeSystem → Prop :=
  Run (code p) fun _ _ _ => True

/-- A state of the queue that some interleaving reaches. -/
def Reachable (p : Platform) (s : ComputeSystem) : Prop :=
  ∃ now db, Fresh db ∧ Reaches p ⟨now, db, []⟩ s

/-- What is known about the replies: an existing request is handed out for its own flight. -/
def Returned (p : Platform) (C : Setting) (i : ℕ) (op : Op) (reply : Reply)
    (_ : ComputeTxn) (w : ComputeWorld) : Prop :=
  ∀ ns args id r, op = .stageSharedFlightRequest ns args → reply = .staged id r false →
    HandedOut p C i ns args id r w

/-- Every operation of the queue meets the protocol. -/
theorem verified (p : Platform) (C : Setting) :
    Verified (protocol p C) (code p) (Returned p C) := by
  intro i op w hplain hi
  have hplain' : C.renews → op.plain := hplain
  -- only the shared-flight stage says something about its reply
  have hQ (hne : ∀ ns args, op ≠ .stageSharedFlightRequest ns args) :
      ∀ r t w, Returned p C i op r t w :=
    fun _ _ _ ns args _ _ hop => absurd hop (hne ns args)
  cases op with
  | stageRequest ns args => exact verified_stageRequest rfl (hQ fun _ _ h => by cases h)
  | stageSharedFlightRequest ns args =>
    refine verified_stageSharedFlightRequest rfl (fun id r t w ns' args' id' r' _ h => ?_)
      fun id r t w hout ns' args' id' r' hop h => ?_
    · cases h
    · cases hop
      cases h
      exact hout
  | claimNextRequest ns args =>
    exact verified_claimNextRequest rfl hplain' (hQ fun _ _ h => by cases h)
  | renewRequestLeases ns claims workerId =>
    exact verified_renewRequestLeases rfl hplain' (hQ fun _ _ h => by cases h)
  | finishClaimedRequest ns args =>
    exact verified_finishClaimedRequest rfl hplain' (hQ fun _ _ h => by cases h)
  | cancelDisconnectedRequest ns requestId reason now =>
    exact verified_cancelDisconnectedRequest rfl hplain' (hQ fun _ _ h => by cases h)
  | cancelActiveRequestsForEngine ns identity reason now =>
    exact verified_cancelActiveRequestsForEngine rfl hplain' (hQ fun _ _ h => by cases h)
  | reconcileExpiredRequests ns =>
    exact verified_reconcileExpiredRequests rfl hplain' (hQ fun _ _ h => by cases h)
  | writeDatasource ns id row =>
    exact verified_writeDatasource rfl hplain' (hQ fun _ _ h => by cases h)
  | otherWork wakes markers => exact verified_otherWork (hQ fun _ _ h => by cases h) rfl

theorem Fresh.inv {db : Db Tables} (h : Fresh db) (p : Platform) (C : Setting) (now : ℕ) :
    Inv p C ⟨now, db⟩ where
  lease ns id r hr := by rw [(h ns).1] at hr; cases hr
  exclusive ns id id' r r' hr := by rw [(h ns).1] at hr; cases hr
  flight ns key f hf := by rw [(h ns).2] at hf; cases hf
  covered _ ns id := by
    change _ ≤ ((db.tenants ns).requests.get id).elim ⊤ ComputeRequest.deadline
    rw [(h ns).1]
    exact le_top

/-- No promise about renewals, and no interest in the states visited. -/
def anySetting : Setting := ⟨False, fun _ _ => True⟩

theorem engineClaimIdentity_ns {r : ComputeRequest}
    {identity : String × ComputeWorkerScope × ComputeWorkerReusePolicy × String}
    (h : r.engineClaimIdentity = some identity) : identity.1 = r.ns := by
  unfold ComputeRequest.engineClaimIdentity at h
  split at h <;> cases h
  rfl

section Runs

variable {p : Platform} {s s' s'' : ComputeSystem} {a : Action Op}

theorem Reachable.of_replay (p : Platform) {db : Db Tables} (hfresh : Fresh db) (now : ℕ)
    (actions : List (Action Op)) (test : ComputeSystem → Bool)
    (h : (System.replay (code p) ⟨now, db, []⟩ actions).any test = true) :
    ∃ s, Reachable p s ∧ test s = true := by
  obtain ⟨s, hs, htest⟩ := (Option.any_eq_true _ _).mp h
  exact ⟨s, ⟨now, db, hfresh, .of_replay hs⟩, htest⟩

theorem admits_any : (protocol p anySetting).Admits s a s' :=
  ⟨fun _ _ hC => hC.elim, fun _ _ _ _ _ _ hC => hC.elim, fun _ _ _ _ _ _ _ => trivial⟩

theorem Reachable.good (h : Reachable p s) :
    Good (protocol p anySetting) (Returned p anySetting) s := by
  obtain ⟨now, db, hfresh, hr⟩ := h
  exact (Good.start (hfresh.inv p anySetting now)).run (verified p anySetting)
    (hr.mono fun _ _ _ _ => admits_any)

theorem Reachable.trans (h : Reachable p s) (hr : Reaches p s s') : Reachable p s' := by
  obtain ⟨now, db, hfresh, hr0⟩ := h
  exact ⟨now, db, hfresh, hr0.trans hr⟩

theorem Reachable.request_step (h : Reachable p s) (hs : s.step (code p) a = some s')
    (ns id : String) : requestAt s' ns id = requestAt s ns id ∨
      ∃ i c next, a = .run i ∧ s.calls[i]? = some c ∧ c.script = .commit next ∧
        RequestStep p c.op c.txn.held ns id (requestAt s ns id) (requestAt s' ns id) := by
  rcases h.good.changes hs admits_any with hdb | ⟨i, c, next, ha, hc, hscript, -, -, -, hact⟩
  · exact Or.inl (by rw [requestAt, hdb, requestAt])
  · exact Or.inr ⟨i, c, next, ha, hc, hscript, hact.request ns id⟩

theorem Reachable.request_ns (h : Reachable p s) {ns id : String} {r : ComputeRequest}
    (hr : requestAt s ns id = some r) : r.ns = ns := by
  obtain ⟨now, db, hfresh, hrun⟩ := h
  induction hrun generalizing r with
  | refl =>
    rw [requestAt, (hfresh ns).1] at hr
    cases hr
  | step hrun hs _ ih =>
    rcases Reachable.request_step ⟨now, db, hfresh, hrun⟩ hs ns id with
      hsame | ⟨i, c, next, -, -, -, hstep⟩
    · exact ih (hsame ▸ hr)
    · rw [hr] at hstep
      cases hb : requestAt _ ns id with
      | none =>
        rw [hb] at hstep
        cases hstep
        rfl
      | some b =>
        rw [hb] at hstep
        exact hstep.fixed.1.trans (ih hb)

/-- At most one request per engine identity is running. -/
theorem running_request_unique (h : Reachable p s) {ns ns' id id' : String}
    {r r' : ComputeRequest} (hr : requestAt s ns id = some r) (hr' : requestAt s ns' id' = some r')
    (hrun : r.status = .running) (hrun' : r'.status = .running)
    (hident : r.engineClaimIdentity ≠ none)
    (heq : r.engineClaimIdentity = r'.engineClaimIdentity) : ns = ns' ∧ id = id' := by
  obtain ⟨identity, hsome⟩ := Option.ne_none_iff_exists'.mp hident
  have hns : ns = ns' := by
    rw [← h.request_ns hr, ← h.request_ns hr', ← engineClaimIdentity_ns hsome,
      ← engineClaimIdentity_ns (heq ▸ hsome)]
  subst hns
  exact ⟨rfl, h.good.inv.exclusive ns id id' r r' hr hr' hrun hrun' hident heq⟩

end Runs

/-- A deployment to evaluate runs on; all engine identities share one lock key. -/
def samplePlatform : Platform := ⟨fun _ => [], fun _ => "", fun _ => 0, 3, 300⟩

/-- No request yet, and one datasource at revision 1. -/
def sampleDb : Db Tables :=
  ⟨fun _ => ⟨.empty, .empty, .empty, Table.empty.put "d" (some ⟨1⟩)⟩, ⟨.empty, .empty⟩⟩

theorem sampleDb_fresh : Fresh sampleDb := fun _ => ⟨rfl, rfl⟩

/-- Stage a request for the engine of analysis `a`. -/
def sampleStage (id : String) (wakeId : ℕ) : Op :=
  .stageRequest "n"
    { kind := .spawnEngine
      command := ⟨[], some (.spawnEngine ⟨.analysisInteractive, .shared, "a"⟩ "")⟩
      requestId := id
      now := 0
      wakeId }

def sampleClaim (workerId claimToken : String) : Op :=
  .claimNextRequest "n" { workerId, claimToken, fuel := 2 }

/-- Two requests for one engine; two managers claim at the same time. -/
def sampleRace : List (Action Op) :=
  Action.spawn (sampleStage "x" 0) :: List.replicate 4 (.run 0) ++
    Action.spawn (sampleStage "y" 1) :: List.replicate 4 (.run 1) ++
    [Action.spawn (sampleClaim "w" "t"), .spawn (sampleClaim "v" "u")] ++
    [Action.run 2, .run 3, .run 2, .run 3, .run 2, .run 3, .run 2, .run 2, .run 2, .run 2]

/-- After the race one of the two requests runs, and it is the only one of its engine. -/
theorem running_request_unique_race : ∃ s r, Reachable samplePlatform s ∧
    requestAt s "n" "x" = some r ∧ r.status = .running ∧ r.engineClaimIdentity ≠ none ∧
    ∀ ns id' r', requestAt s ns id' = some r' → r'.status = .running →
      r.engineClaimIdentity = r'.engineClaimIdentity → "n" = ns ∧ "x" = id' := by
  obtain ⟨s, hreach, htest⟩ := Reachable.of_replay samplePlatform sampleDb_fresh 0 sampleRace
    (fun s => (requestAt s "n" "x").any fun r =>
      r.status = .running && r.engineClaimIdentity.isSome) (by decide +kernel)
  obtain ⟨r, hr, hrow⟩ := (Option.any_eq_true _ _).mp htest
  simp only [Bool.and_eq_true, decide_eq_true_eq] at hrow
  have hident : r.engineClaimIdentity ≠ none := Option.isSome_iff_ne_none.mp hrow.2
  exact ⟨s, r, hreach, hr, hrow.1, hident, fun ns id' r' hr' hrun heq =>
    running_request_unique hreach hr hr' hrow.1 hrun hident heq⟩

/-- `op` presents this claim of the request `id` for a renewal or a result. -/
def Op.Presents (ns id owner token : String) (generation : ℕ) : Op → Prop
  | .renewRequestLeases ns' claims workerId =>
    ns' = ns ∧ workerId = owner ∧ ⟨id, token, generation⟩ ∈ claims
  | .finishClaimedRequest ns' args =>
    ns' = ns ∧ args.requestId = id ∧ args.workerId = owner ∧ args.claimToken = token ∧
      args.leaseGeneration = generation
  | _ => False

/-- A later generation has been claimed, or the lease of generation `g` has expired at a moment
when no operation is half-way through the row. -/
def Fenced (s : ComputeSystem) (ns id : String) (g : ℕ) : Prop :=
  ∃ r, requestAt s ns id = some r ∧ (g < r.leaseGeneration ∨
    (r.leaseGeneration = g ∧ r.leaseExpiresAt.any (· ≤ s.now) = true ∧
      ∀ i k, s.Holds i k → k.res ≠ requestRow ns id))

section Lifecycle

variable {p : Platform} {op : Op} {h : ComputeLocks} {ns id : String}
  {a b : ComputeRequest}

theorem RequestStep.generation (hs : RequestStep p op h ns id (some b) (some a)) :
    (a.leaseGeneration = b.leaseGeneration ∧ ∀ args, op = .claimNextRequest ns args → a = b) ∨
      ∃ args, op = .claimNextRequest ns args ∧ a.leaseGeneration = b.leaseGeneration + 1 ∧
        a.status = .running ∧ a.leaseOwner = some args.workerId ∧
        a.claimToken = some args.claimToken := by
  cases hs with
  | same => exact Or.inl ⟨rfl, fun _ _ => rfl⟩
  | claim args b now since hop => exact Or.inr ⟨args, hop, rfl, rfl, rfl, rfl⟩
  | renew claims workerId b since hop =>
    exact Or.inl ⟨rfl, fun _ he => by rw [hop] at he; cases he⟩
  | finish args b since hop =>
    refine Or.inl ⟨?_, fun _ he => by rw [hop] at he; cases he⟩
    unfold finishedRow
    cases args.artifacts <;> rfl
  | retire b reason now hop =>
    exact Or.inl ⟨rfl, fun _ he => by rw [he] at hop; exact hop.elim⟩

/-- A renewal or a result that changes the row presents the current claim, which had not
expired when the row was locked. -/
theorem RequestStep.presented {owner token : String} {generation : ℕ}
    (hs : RequestStep p op h ns id (some b) (some a)) (hne : a ≠ b)
    (hop : op.Presents ns id owner token generation) :
    b.leaseGeneration = generation ∧ b.leaseOwner = some owner ∧ b.claimToken = some token ∧
      ∃ since e, b.leaseExpiresAt = some e ∧ since < e ∧ Granted h (requestRow ns id) since := by
  have expiry {since : ℕ} (hany : b.leaseExpiresAt.any (since < ·) = true) :
      ∃ e, b.leaseExpiresAt = some e ∧ since < e := by
    cases he : b.leaseExpiresAt with
    | none => simp [he] at hany
    | some e => exact ⟨e, rfl, by simpa [he] using hany⟩
  cases hs with
  | same => exact absurd rfl hne
  | claim args b now since hop' => rw [hop'] at hop; exact hop.elim
  | renew claims workerId b since hop' hb hrow hunique =>
    rw [hop'] at hop
    obtain ⟨-, rfl, hmem⟩ := hop
    simp only [renewable, Bool.and_eq_true, decide_eq_true_eq, List.any_eq_true] at hb
    obtain ⟨⟨⟨-, howner⟩, hexp⟩, c, hc, ⟨hcid, htoken⟩, hgen⟩ := hb
    have hce : c = ⟨id, token, generation⟩ :=
      List.inj_on_of_nodup_map hunique hc hmem hcid
    subst hce
    obtain ⟨e, he, hlt⟩ := expiry hexp
    exact ⟨hgen, howner, htoken, since, e, he, hlt, hrow⟩
  | finish args b since hop' hid hb hrow =>
    rw [hop'] at hop
    obtain ⟨-, -, rfl, rfl, rfl⟩ := hop
    simp only [activeClaim, Bool.and_eq_true, decide_eq_true_eq] at hb
    obtain ⟨⟨⟨⟨-, howner⟩, htoken⟩, hgen⟩, hexp⟩ := hb
    obtain ⟨e, he, hlt⟩ := expiry hexp
    exact ⟨hgen, howner, htoken, since, e, he, hlt, hrow⟩
  | retire b reason now hret => cases op <;> first | exact hop.elim | exact hret.elim

variable {s s' s'' : ComputeSystem} {act : Action Op}

theorem Reachable.generation_le (h : Reachable p s) (hr : Reaches p s s') {r : ComputeRequest}
    (hb : requestAt s ns id = some r) :
    ∃ r', requestAt s' ns id = some r' ∧ r.leaseGeneration ≤ r'.leaseGeneration := by
  induction hr with
  | refl => exact ⟨r, hb, Nat.le_refl _⟩
  | step hr hs _ ih =>
    obtain ⟨b, hb', hle⟩ := ih
    rcases (h.trans hr).request_step hs ns id with hsame | ⟨i, c, next, -, -, -, hstep⟩
    · exact ⟨b, hsame.trans hb', hle⟩
    · obtain ⟨a, ha⟩ := hstep.stays hb'
      rw [hb', ha] at hstep
      refine ⟨a, ha, hle.trans ?_⟩
      rcases hstep.generation with ⟨hgen, -⟩ | ⟨args, -, hgen, -⟩ <;> omega

theorem Reachable.terminal (h : Reachable p s) (hr : Reaches p s s') {r : ComputeRequest}
    (hb : requestAt s ns id = some r) (hterm : r.status.active = false) :
    requestAt s' ns id = some r := by
  induction hr with
  | refl => exact hb
  | step hr hs _ ih =>
    rcases (h.trans hr).request_step hs ns id with hsame | ⟨i, c, next, -, -, -, hstep⟩
    · exact hsame.trans ih
    · rw [ih] at hstep
      exact hstep.terminal hterm

/-- What a fence leaves open: a later generation, or a lease that expires no later than `t`. -/
private def Shut (g t : ℕ) (r : ComputeRequest) : Prop :=
  g < r.leaseGeneration ∨ (r.leaseGeneration = g ∧ ∀ e, r.leaseExpiresAt = some e → e ≤ t)

private theorem granted_later {i : ℕ} {c : Call Op (Db Tables) (Write TableWrite)
      (Resource TableRow) Reply} {since : ℕ} (hr : Reaches p s s')
    (hfree : ∀ i k, s.Holds i k → k.res ≠ requestRow ns id) (hc : s'.calls[i]? = some c)
    (hk : Granted c.txn.held (requestRow ns id) since) : s.now ≤ since := by
  rcases hr.holds ⟨c, hc, hk⟩ with hheld | hle
  · exact absurd rfl (hfree _ _ hheld)
  · exact hle

/-- An expired lease that nobody is half-way through renewing stays expired. -/
theorem Reachable.shut {g : ℕ} {r : ComputeRequest} (h : Reachable p s) (hr : Reaches p s s')
    (hfree : ∀ i k, s.Holds i k → k.res ≠ requestRow ns id)
    (hb : requestAt s ns id = some r) (hshut : Shut g s.now r) :
    ∃ r', requestAt s' ns id = some r' ∧ Shut g s.now r' := by
  induction hr with
  | refl => exact ⟨r, hb, hshut⟩
  | step hr hs _ ih =>
    obtain ⟨b, hb', hshut'⟩ := ih
    rcases (h.trans hr).request_step hs ns id with hsame | ⟨i, c, next, -, hc, -, hstep⟩
    · exact ⟨b, hsame.trans hb', hshut'⟩
    · obtain ⟨a, ha⟩ := hstep.stays hb'
      rw [hb', ha] at hstep
      refine ⟨a, ha, ?_⟩
      rcases hshut' with hlt | ⟨hgen, hexp⟩
      · rcases hstep.generation with ⟨he, -⟩ | ⟨args, -, he, -⟩
        · exact Or.inl (by omega)
        · exact Or.inl (by omega)
      · cases hstep with
        | same => exact Or.inr ⟨hgen, hexp⟩
        | claim args b now since hop => exact Or.inl (Nat.lt_succ_of_le (Nat.le_of_eq hgen.symm))
        | renew claims workerId b since hop hbr hrow hunique =>
          have hlater := granted_later hr hfree hc hrow
          simp only [renewable, Bool.and_eq_true] at hbr
          cases he : b.leaseExpiresAt with
          | none => simp [he] at hbr
          | some e =>
            have hle := hexp e he
            have hlt : since < e := by simpa [he] using hbr.1.2
            omega
        | finish args b since hop =>
          refine Or.inr ⟨?_, ?_⟩
          · unfold finishedRow
            cases args.artifacts <;> exact hgen
          · unfold finishedRow
            cases args.artifacts <;> exact fun e he => by cases he
        | retire b reason now hop => exact Or.inr ⟨hgen, fun e he => by cases he⟩

/-- Behind a fence no call presenting an old claim changes the row. -/
theorem Reachable.fenced {g i generation : ℕ} {owner token : String}
    {c : Call Op (Db Tables) (Write TableWrite) (Resource TableRow) Reply} (h : Reachable p s)
    (hf : Fenced s ns id g) (hr : Reaches p s s') (hs : s'.step (code p) (.run i) = some s'')
    (hc : s'.calls[i]? = some c) (hop : c.op.Presents ns id owner token generation)
    (hg : generation ≤ g) : requestAt s'' ns id = requestAt s' ns id := by
  obtain ⟨r, hr0, hfence⟩ := hf
  rcases (h.trans hr).request_step hs ns id with hsame | ⟨j, d, next, ha, hd, -, hstep⟩
  · exact hsame
  · cases ha
    obtain rfl : c = d := Option.some.inj (hc.symm.trans hd)
    obtain ⟨b, hb, hle⟩ := h.generation_le hr hr0
    obtain ⟨a, ha⟩ := hstep.stays hb
    rw [hb, ha] at hstep
    rw [hb, ha]
    by_contra hne
    obtain ⟨hgen, -, -, since, e, he, hlt, hrow⟩ :=
      hstep.presented (fun heq => hne (by rw [heq])) hop
    rcases hfence with hnew | ⟨hgen0, hexp, hfree⟩
    · omega
    · have hshut : Shut g s.now r := Or.inr ⟨hgen0, fun e0 he0 => by simpa [he0] using hexp⟩
      obtain ⟨b', hb', hshut'⟩ := h.shut hr hfree hr0 hshut
      obtain rfl : b = b' := Option.some.inj (hb.symm.trans hb')
      have hlater := granted_later hr hfree hc hrow
      rcases hshut' with hnew | ⟨-, hexp'⟩
      · omega
      · have hle' := hexp' e he
        omega

/-- The life cycle of a request, over every run: lease columns are set exactly while it runs,
its lease generation counts its claims, a terminal row is final, and behind a fence old claims
are powerless. -/
theorem request_lifecycle (h : Reachable p s) (hr : Reaches p s s') (ns id : String) :
    (∀ r, requestAt s ns id = some r → LeaseOk r) ∧
    (∀ r, requestAt s ns id = some r → r.status.active = false → requestAt s' ns id = some r) ∧
    (∀ r, requestAt s ns id = some r →
      ∃ r', requestAt s' ns id = some r' ∧ r.leaseGeneration ≤ r'.leaseGeneration) ∧
    (∀ act s'' b, s'.step (code p) act = some s'' → requestAt s' ns id = some b →
      ∃ a, requestAt s'' ns id = some a ∧ (a = b ∨ ∃ i c, act = .run i ∧ s'.calls[i]? = some c ∧
        ((∃ args, c.op = .claimNextRequest ns args ∧
            a.leaseGeneration = b.leaseGeneration + 1 ∧ a.status = .running ∧
            a.leaseOwner = some args.workerId ∧ a.claimToken = some args.claimToken) ∨
          ((∀ args, c.op ≠ .claimNextRequest ns args) ∧
            a.leaseGeneration = b.leaseGeneration)))) ∧
    (∀ g, Fenced s ns id g → ∀ i c s'' owner token generation,
      s'.step (code p) (.run i) = some s'' → s'.calls[i]? = some c →
      c.op.Presents ns id owner token generation → generation ≤ g →
      requestAt s'' ns id = requestAt s' ns id) := by
  refine ⟨fun r hb => h.good.inv.lease ns id r hb, fun r hb ht => h.terminal hr hb ht,
    fun r hb => h.generation_le hr hb, fun act s'' b hs hb => ?_,
    fun g hf i c s'' owner token generation hs hc hop hg => h.fenced hf hr hs hc hop hg⟩
  rcases (h.trans hr).request_step hs ns id with hsame | ⟨i, c, next, ha, hc, -, hstep⟩
  · exact ⟨b, hsame.trans hb, Or.inl rfl⟩
  · obtain ⟨a, hrow⟩ := hstep.stays hb
    rw [hb, hrow] at hstep
    refine ⟨a, hrow, ?_⟩
    by_cases hab : a = b
    · exact Or.inl hab
    · refine Or.inr ⟨i, c, ha, hc, ?_⟩
      rcases hstep.generation with ⟨hgen, hclaim⟩ | hclaim
      · exact Or.inr ⟨fun args hop => hab (hclaim args hop), hgen⟩
      · exact Or.inl hclaim

/-- A claim outlives its lease, another manager claims the request, and the first one then
reports a result. -/
def sampleTakeover : List (Action Op) :=
  Action.spawn (sampleStage "x" 0) :: List.replicate 4 (.run 0) ++
    Action.spawn (sampleClaim "w" "t") :: List.replicate 7 (.run 1) ++
    Action.tick (seconds 30) :: .spawn (sampleClaim "v" "u") :: List.replicate 7 (.run 2)

/-- The late result of the first manager. -/
def sampleLateResult : Op :=
  .finishClaimedRequest "n" (markRequestCompleted "x"
    ⟨.spawnEngine, 1, "x", .completed, none, .result ""⟩ "w" "t" 1 (none, none, none) none
    (seconds 31))

/-- After the takeover the second claim is fenced against the first. -/
theorem request_lifecycle_takeover : ∃ s r, Reachable samplePlatform s ∧
    requestAt s "n" "x" = some r ∧ r.leaseGeneration = 2 ∧ r.leaseOwner = some "v" ∧ LeaseOk r ∧
    Fenced s "n" "x" 1 ∧ sampleLateResult.Presents "n" "x" "w" "t" 1 ∧
    ∀ s' s'' i c, Reaches samplePlatform s s' →
      s'.step (code samplePlatform) (.run i) = some s'' → s'.calls[i]? = some c →
      c.op = sampleLateResult → requestAt s'' "n" "x" = requestAt s' "n" "x" := by
  obtain ⟨s, hreach, htest⟩ := Reachable.of_replay samplePlatform sampleDb_fresh 0 sampleTakeover
    (fun s => (requestAt s "n" "x").any fun r =>
      r.leaseGeneration = 2 && r.leaseOwner = some "v") (by decide +kernel)
  obtain ⟨r, hr, hrow⟩ := (Option.any_eq_true _ _).mp htest
  simp only [Bool.and_eq_true, decide_eq_true_eq] at hrow
  have hfence : Fenced s "n" "x" 1 := ⟨r, hr, Or.inl (by rw [hrow.1]; decide)⟩
  have hpresents : sampleLateResult.Presents "n" "x" "w" "t" 1 := ⟨rfl, rfl, rfl, rfl, rfl⟩
  refine ⟨s, r, hreach, hr, hrow.1, hrow.2, ?_, hfence, hpresents, ?_⟩
  · exact (request_lifecycle hreach (.refl s) "n" "x").1 r hr
  · intro s' s'' i c hrun hstep hc hop
    exact (request_lifecycle hreach hrun "n" "x").2.2.2.2 1 hfence i c s'' "w" "t" 1 hstep hc
      (by rw [hop]; exact hpresents) (Nat.le_refl 1)

end Lifecycle

end DataForge.Compute
