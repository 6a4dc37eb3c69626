import DataForge.Compute.Safety

/-!
# Compute requests: progress of a claim

`claim_next_request` while no other transaction runs. The candidate query exempts requests
without an engine identity from the sibling filter, but the re-check compares their nullable
columns with `IS NULL`: such a request is then its neighbours' sibling, the loop rolls back
and selects it again. The claim returns exactly when some round selects another row.
-/

namespace DataForge.Compute

open ReadCommitted DataForge.Runtime

variable {p : Platform} {ns : String} {args : ClaimArgs} {clock : ℕ → ℕ} {db : Db Tables}

/-- A row that a claim at `now` should find: queued, or running without a live lease and with
attempts left, of an allowed kind, and without a running sibling of its engine identity. -/
def Claimable (args : ClaimArgs) (t : Table String ComputeRequest) (now : ℕ) (id : String)
    (r : ComputeRequest) : Prop :=
  t.get id = some r ∧ claimableAt args now r = true ∧ args.allowedKinds.all (r.kind ∈ ·) = true ∧
    (r.engineClaimIdentity = none ∨ ∀ id' r', t.get id' = some r' → r'.status = .running →
      r'.engineClaimIdentity = r.engineClaimIdentity → id' = id)

/-- The row the candidate query selects when no row is locked. -/
def nextCandidate (args : ClaimArgs) (t : Table String ComputeRequest) (now : ℕ) :
    Option (String × ComputeRequest) :=
  ((t.rows.filter fun r => candidate args t now [] r.1 r.2).insertionSort claimOrder).head?

/-- A round that rolls back: the selected row has no engine identity, and another running row
has the same nullable identity columns. -/
def Stuck (args : ClaimArgs) (t : Table String ComputeRequest) (now : ℕ) : Prop :=
  ∃ id r, nextCandidate args t now = some (id, r) ∧ r.engineClaimIdentity = none ∧
    activeSibling t id r = true

/-- `claim_next_request` alone in the database, cut off after `fuel` rounds. -/
def claimAlone (p : Platform) (ns : String) (args : ClaimArgs) (fuel : ℕ) (clock : ℕ → ℕ)
    (db : Db Tables) : Except String Reply × Db Tables :=
  (claimNextRequest p ns { args with fuel }).alone clock {} db

/-- The claim returns, and it returns a request if one is claimable when it starts. -/
def ClaimSucceeds (p : Platform) (ns : String) (args : ClaimArgs) (clock : ℕ → ℕ)
    (db : Db Tables) : Prop :=
  ∃ fuel reply, (claimAlone p ns args fuel clock db).1 = .ok reply ∧ reply ≠ .outOfFuel ∧
    ((∃ id r, Claimable args (db.tenants ns).requests (clock 0) id r) →
      ∃ id r, reply = .claimed id r)

variable {r : ComputeRequest}

/-- Rows of one engine identity are each other's siblings. -/
theorem activeSibling_iff (t : Table String ComputeRequest) (id : String)
    (hident : r.engineClaimIdentity ≠ none) : activeSibling t id r = true ↔
      ∃ id' r', t.get id' = some r' ∧ r'.status = .running ∧
        r'.engineClaimIdentity = r.engineClaimIdentity ∧ id' ≠ id := by
  obtain ⟨identity, hsome⟩ := Option.ne_none_iff_exists'.mp hident
  constructor
  · intro h
    obtain ⟨⟨id', r'⟩, hmem, he⟩ := List.any_eq_true.mp h
    simp only [Bool.and_eq_true, decide_eq_true_eq, sameIdentityColumns] at he
    obtain ⟨⟨⟨⟨⟨hns, hscope⟩, hpolicy⟩, hres⟩, hrun⟩, hne⟩ := he
    refine ⟨id', r', (Table.mem_rows_iff _ _ _).mp hmem, hrun, ?_, hne⟩
    rw [ComputeRequest.engineClaimIdentity, ComputeRequest.engineClaimIdentity, hns, hscope,
      hpolicy, hres]
  · rintro ⟨id', r', hget, hrun, heq, hne⟩
    refine List.any_eq_true.mpr ⟨(id', r'), (Table.mem_rows_iff _ _ _).mpr hget, ?_⟩
    simp [sameIdentityColumns_of_eq (heq.trans hsome) hsome, hrun, hne]

variable {t : Table String ComputeRequest}

/-- The candidate query selects exactly the claimable rows. -/
theorem candidate_iff {now : ℕ} {id : String} (hget : t.get id = some r) :
    candidate args t now [] id r = true ↔ Claimable args t now id r := by
  have hblocked : r.engineClaimIdentity.all (· ∉ []) = true := by
    cases r.engineClaimIdentity <;> simp
  by_cases hident : r.engineClaimIdentity = none
  · simp [candidate, Claimable, hasRunningSibling, hget, hident]
  · have hsib := activeSibling_iff t id hident
    have hnot : activeSibling t id r = false ↔ ∀ id' r', t.get id' = some r' →
        r'.status = .running → r'.engineClaimIdentity = r.engineClaimIdentity → id' = id := by
      rw [← Bool.not_eq_true, hsib]
      push Not
      exact Iff.rfl
    rw [candidate, hasRunningSibling, Option.isSome_iff_ne_none.mpr hident, hblocked, Claimable,
      ← hnot]
    simp only [hget, hident, Bool.true_and, Bool.and_true, Bool.and_eq_true, Bool.not_eq_true',
      true_and, false_or]
    exact ⟨fun h => ⟨h.1.1, h.2, h.1.2⟩, fun h => ⟨⟨h.1, h.2.2⟩, h.2.1⟩⟩

theorem nextCandidate_spec {now : ℕ} :
    (∀ id r, nextCandidate args t now = some (id, r) → Claimable args t now id r) ∧
      (nextCandidate args t now = none → ∀ id r, ¬ Claimable args t now id r) := by
  constructor
  · intro id r h
    have hmem := (List.mem_insertionSort _).mp (List.mem_of_head? h)
    obtain ⟨hrow, hcand⟩ := List.mem_filter.mp hmem
    exact (candidate_iff ((Table.mem_rows_iff _ _ _).mp hrow)).mp hcand
  · intro h id r hc
    have hnil := List.head?_eq_none_iff.mp h
    have hmem : (id, r) ∈ (t.rows.filter fun r => candidate args t now [] r.1 r.2).insertionSort
        claimOrder := (List.mem_insertionSort _).mpr (List.mem_filter.mpr
          ⟨(Table.mem_rows_iff _ _ _).mpr hc.1, (candidate_iff hc.1).mpr hc⟩)
    rw [hnil] at hmem
    cases hmem

theorem Claimable.mono {now now' : ℕ} {id : String} (hle : now ≤ now')
    (h : Claimable args t now id r) :
    Claimable args t now' id r := by
  obtain ⟨hget, hat, hrest⟩ := h
  refine ⟨hget, ?_, hrest⟩
  have hexp : r.leaseExpiresAt.any (· ≤ now) = true → r.leaseExpiresAt.any (· ≤ now') = true := by
    cases r.leaseExpiresAt with
    | none => exact fun h => h
    | some e => simpa using fun he => Nat.le_trans he hle
  simp only [claimableAt, Bool.or_eq_true, Bool.and_eq_true] at hat ⊢
  exact hat.imp_right fun h => ⟨⟨h.1.1, h.1.2.imp_right hexp⟩, h.2⟩

section Rounds

private theorem claimCandidate_alone (t : ComputeTxn)
    (ht : t.writes = []) (now : ℕ) : claimCandidate ns args (t.aloneEnv clock db) now [] =
      nextCandidate args (db.tenants ns).requests now := by
  have hdb : (t.aloneEnv clock db).db = db := by simp [Txn.env, ht]
  rw [claimCandidate, nextCandidate, requests, hdb]
  simp [Txn.env]

private theorem round_open (p : Platform) (ns : String) (args : ClaimArgs) (clock : ℕ → ℕ)
    (db : Db Tables) (fuel : ℕ) : ∃ t : ComputeTxn,
    t.writes = [] ∧ (claimLoop p ns args (fuel + 1) []).alone clock {} db =
      Script.alone (match nextCandidate args (db.tenants ns).requests (clock 0) with
        | none => Script.commitNow >>= fun _ => pure .nothing
        | some (id, row) => claimSelected p ns args id row [] (claimLoop p ns args fuel))
        (fun n => clock (n + 2)) t db := by
  refine ⟨Txn.after ⟨[], [], some (clock 0)⟩ (Txn.aloneEnv
    (⟨[], [], some (clock 0)⟩ : ComputeTxn)
    (fun n => clock (n + 1)) db) (lockRows ((nextCandidate args (db.tenants ns).requests
      (clock 0)).toList.map fun r => requestRow ns r.1) .exclusive), rfl, ?_⟩
  rw [claimLoop, Script.alone_query, Script.alone_statement]
  dsimp only
  rw [claimCandidate_alone _ rfl]
  rfl

private theorem round_none (fuel : ℕ)
    (h : nextCandidate args (db.tenants ns).requests (clock 0) = none) :
    (claimLoop p ns args (fuel + 1) []).alone clock {} db = (.ok .nothing, db) := by
  obtain ⟨t, ht, hround⟩ := round_open p ns args clock db fuel
  rw [hround, h]
  dsimp only
  rw [Script.alone_commit, ht]
  rfl

private theorem round_stuck (fuel : ℕ) (h : Stuck args (db.tenants ns).requests (clock 0)) :
    (claimLoop p ns args (fuel + 1) []).alone clock {} db =
      (claimLoop p ns args fuel []).alone (fun n => clock (n + 3)) {} db := by
  obtain ⟨id, row, hcand, hident, hsib⟩ := h
  obtain ⟨t, ht, hround⟩ := round_open p ns args clock db fuel
  have hdb : (t.aloneEnv (fun n => clock (n + 2)) db).db = db := by simp [Txn.env, ht]
  rw [hround, hcand]
  dsimp only
  rw [claimSelected, lockEngineClaim, hident]
  simp only [Script.pure_eq_done, Script.done_bind, if_true]
  rw [Script.alone_query, requests, hdb, hsib, if_pos rfl, Script.alone_rollback]

variable {row : ComputeRequest}

private theorem lock_alone {β : Type} {k : Bool → ComputeScript β}
    {t : ComputeTxn} (ht : t.writes = []) :
    ∃ (t' : ComputeTxn) (clock' : ℕ → ℕ), t'.writes = [] ∧
      (lockEngineClaim p row >>= k).alone clock t db = (k true).alone clock' t' db := by
  rw [lockEngineClaim]
  cases row.engineClaimIdentity with
  | none => exact ⟨t, clock, ht, rfl⟩
  | some identity =>
    refine ⟨_, _, ?_, Script.alone_statement _ _ _⟩
    rw [Txn.after, ht]
    rfl

private theorem finish_alone {id : String} {t : ComputeTxn}
    (ht : t.writes = []) (hget : (db.tenants ns).requests.get id = some row) :
    ∃ r, ((finishClaim ns args id row).alone clock t db).1 = .ok (.claimed id r) := by
  have hdb : (t.aloneEnv clock db).db = db := by simp [Txn.env, ht]
  have hguard : claimGuard row row = true := by simp [claimGuard]
  have hrow : (requests ns (t.aloneEnv clock db)).get id = some row := by rw [requests, hdb, hget]
  rw [finishClaim, claimByLeaseOwner, Script.alone_statement, hrow]
  simp only [hguard, if_true, Option.any_some]
  rw [Script.alone_commit, getRequest, Script.alone_query, Txn.after, ht]
  set claimed := claimedRow args.workerId args.claimToken row (t.aloneEnv clock db).now row
  have hread : (requests ns (Txn.aloneEnv ({} : ComputeTxn)
      (fun n => clock (n + 1)) (view (W := Write TableWrite)
        ([] ++ [Write.tenant ns (TableWrite.request id (some claimed))]) db))).get id =
      some claimed := by
    refine (request_write db ns id id (some claimed)).trans ?_
    rw [if_pos rfl]
  rw [hread]
  exact ⟨claimed, rfl⟩

private theorem round_claims (fuel : ℕ) {id : String}
    (hcand : nextCandidate args (db.tenants ns).requests (clock 0) = some (id, row))
    (hsib : activeSibling (db.tenants ns).requests id row = false) :
    ∃ r, ((claimLoop p ns args (fuel + 1) []).alone clock {} db).1 = .ok (.claimed id r) := by
  obtain ⟨t, ht, hround⟩ := round_open p ns args clock db fuel
  rw [hround, hcand]
  dsimp only
  rw [claimSelected]
  obtain ⟨t', clock', ht', hlock⟩ := lock_alone ht
  have hdb : (t'.aloneEnv clock' db).db = db := by simp [Txn.env, ht']
  rw [hlock, if_pos rfl, Script.alone_query, requests, hdb, hsib, if_neg Bool.false_ne_true]
  exact finish_alone ht' (nextCandidate_spec.1 id row hcand).1

end Rounds

theorem claimLoop_outOfFuel (h : ∀ k, Stuck args (db.tenants ns).requests (clock (3 * k)))
    (fuel : ℕ) : (claimLoop p ns args fuel []).alone clock {} db = (.ok .outOfFuel, db) := by
  induction fuel generalizing clock with
  | zero => rfl
  | succ fuel ih =>
    rw [round_stuck fuel (h 0)]
    exact ih fun k => h (k + 1)

/-- A round that is not stuck ends the claim, with a request if one is claimable. -/
theorem round_ends (h : ¬ Stuck args (db.tenants ns).requests (clock 0)) (fuel : ℕ) :
    ∃ reply, ((claimLoop p ns args (fuel + 1) []).alone clock {} db).1 = .ok reply ∧
      reply ≠ .outOfFuel ∧ ((∃ id r, Claimable args (db.tenants ns).requests (clock 0) id r) →
        ∃ id r, reply = .claimed id r) := by
  cases hcand : nextCandidate args (db.tenants ns).requests (clock 0) with
  | none =>
    refine ⟨.nothing, by rw [round_none fuel hcand], nofun, ?_⟩
    exact fun ⟨id, r, hc⟩ => absurd hc (nextCandidate_spec.2 hcand id r)
  | some x =>
    obtain ⟨id, row⟩ := x
    have hsib : activeSibling (db.tenants ns).requests id row = false := by
      rw [← Bool.not_eq_true]
      intro hs
      by_cases hident : row.engineClaimIdentity = none
      · exact h ⟨id, row, hcand, hident, hs⟩
      · obtain ⟨id', r', hget, hrun, heq, hne⟩ := (activeSibling_iff _ id hident).mp hs
        rcases (nextCandidate_spec.1 id row hcand).2.2.2 with hnone | halone
        · exact hident hnone
        · exact hne (halone id' r' hget hrun heq)
    obtain ⟨r, hr⟩ := round_claims (p := p) fuel hcand hsib
    exact ⟨.claimed id r, hr, nofun, fun _ => ⟨id, r, rfl⟩⟩

theorem claimLoop_ends (hclock : Monotone clock) (k : ℕ)
    (h : ¬ Stuck args (db.tenants ns).requests (clock (3 * k))) :
    ∃ fuel reply, ((claimLoop p ns args fuel []).alone clock {} db).1 = .ok reply ∧
      reply ≠ .outOfFuel ∧ ((∃ id r, Claimable args (db.tenants ns).requests (clock 0) id r) →
        ∃ id r, reply = .claimed id r) := by
  induction k generalizing clock with
  | zero => exact ⟨1, round_ends h 0⟩
  | succ k ih =>
    by_cases hstuck : Stuck args (db.tenants ns).requests (clock 0)
    · have hclock' : Monotone fun n => clock (n + 3) := fun a b hab => hclock (by omega)
      obtain ⟨fuel, reply, hrun, hne, hclaims⟩ := ih hclock' h
      refine ⟨fuel + 1, reply, by rw [round_stuck fuel hstuck, hrun], hne, fun ⟨id, r, hc⟩ => ?_⟩
      exact hclaims ⟨id, r, hc.mono (hclock (by omega))⟩
    · exact ⟨1, round_ends hstuck 0⟩

theorem claimAlone_eq (fuel : ℕ) : claimAlone p ns args fuel clock db =
    (claimLoop p ns args fuel []).alone clock {} db := by
  have hloop (n m : ℕ) : claimLoop p ns { args with fuel := n } m = claimLoop p ns args m := by
    induction m with
    | zero => rfl
    | succ m ih =>
      funext blocked
      rw [claimLoop, claimLoop, ih]
      rfl
  rw [claimAlone, claimNextRequest, hloop]

/-- A claim that runs alone succeeds exactly when, at the clock reading of one of its rounds,
the row it selects is not a request without engine identity that has a running twin. -/
theorem claim_succeeds_iff (hclock : Monotone clock) : ClaimSucceeds p ns args clock db ↔
    ∃ k, ¬ Stuck args (db.tenants ns).requests (clock (3 * k)) := by
  constructor
  · rintro ⟨fuel, reply, hrun, hne, -⟩
    by_contra hall
    push Not at hall
    rw [claimAlone_eq, claimLoop_outOfFuel hall] at hrun
    exact hne (Except.ok.inj hrun).symm
  · rintro ⟨k, hk⟩
    obtain ⟨fuel, reply, hrun, hne, hclaims⟩ := claimLoop_ends (p := p) hclock k hk
    exact ⟨fuel, reply, by rw [claimAlone_eq, hrun], hne, hclaims⟩

/-- A download without analysis, hence without engine identity. -/
def sampleDownload (status : ComputeRequestStatus) (id : String) (createdAt attempts : ℕ) :
    ComputeRequest :=
  { ns := "n"
    kind := .download
    status
    computeWorkerScope := none
    computeWorkerReusePolicy := none
    computeWorkerResourceId := none
    commandEnvelope := commandEnvelope .download ⟨[], some (.download ⟨"", ⟨"", []⟩, ""⟩)⟩ id
    attempts
    createdAt
    updatedAt := createdAt }

/-- The same in its third and last attempt. -/
def sampleLastAttempt : ComputeRequest :=
  { sampleDownload .running "x" 0 3 with
    leaseOwner := some "w"
    claimToken := some "t"
    leaseGeneration := 3
    leaseExpiresAt := some (seconds 20) }

/-- One such request is queued while another is in its last attempt. -/
def sampleTwins : Db Tables :=
  ⟨fun _ => ⟨(Table.empty.put "x" (some sampleLastAttempt)).put "y"
      (some (sampleDownload .queued "y" 1 0)), .empty, .empty, .empty⟩, ⟨.empty, .empty⟩⟩

/-- One such request is queued, and nothing runs. -/
def sampleSingle : Db Tables :=
  ⟨fun _ => ⟨Table.empty.put "y" (some (sampleDownload .queued "y" 1 0)), .empty, .empty, .empty⟩,
    ⟨.empty, .empty⟩⟩

def sampleClaimArgs : ClaimArgs := { workerId := "v", claimToken := "u", fuel := 0 }

theorem claim_succeeds_on_single :
    ClaimSucceeds samplePlatform "n" sampleClaimArgs id sampleSingle := by
  refine (claim_succeeds_iff monotone_id).mpr ⟨0, ?_⟩
  rintro ⟨id', r, hcand, -, hsib⟩
  have hone : nextCandidate sampleClaimArgs (sampleSingle.tenants "n").requests (id (3 * 0)) =
    some ("y", sampleDownload .queued "y" 1 0) := rfl
  rw [hone] at hcand
  cases hcand
  exact absurd hsib (by decide)

theorem sampleTwins_stuck (now : ℕ) :
    Stuck sampleClaimArgs (sampleTwins.tenants "n").requests now := by
  refine ⟨"y", sampleDownload .queued "y" 1 0, ?_, rfl, by decide⟩
  have hx : claimableAt sampleClaimArgs now sampleLastAttempt = false := by
    simp [claimableAt, sampleLastAttempt, sampleDownload]
  have hrows : (sampleTwins.tenants "n").requests.rows =
      [("x", sampleLastAttempt), ("y", sampleDownload .queued "y" 1 0)] := rfl
  have hy : candidate sampleClaimArgs (sampleTwins.tenants "n").requests now [] "y"
      (sampleDownload .queued "y" 1 0) = true := rfl
  have hfilter : (sampleTwins.tenants "n").requests.rows.filter (fun r => candidate sampleClaimArgs
      (sampleTwins.tenants "n").requests now [] r.1 r.2) =
      [("y", sampleDownload .queued "y" 1 0)] := by
    rw [hrows, List.filter_cons_of_neg (by simp [candidate, hx]), List.filter_cons_of_pos
      (by exact hy), List.filter_nil]
  rw [nextCandidate, hfilter]
  rfl

/-- The queued request is claimable, yet the claim spins whatever the clock reads. -/
theorem claim_spins_on_twins : ¬ ∀ (p : Platform) (ns : String) (args : ClaimArgs)
    (clock : ℕ → ℕ) (db : Db Tables), Monotone clock → ClaimSucceeds p ns args clock db := by
  intro hall
  obtain ⟨fuel, reply, hrun, hne, -⟩ :=
    hall samplePlatform "n" sampleClaimArgs id sampleTwins monotone_id
  have hloop := claimLoop_outOfFuel (p := samplePlatform)
    (fun k => sampleTwins_stuck (id (3 * k))) fuel
  rw [claimAlone_eq, hloop] at hrun
  exact hne (Except.ok.inj hrun).symm

end DataForge.Compute
