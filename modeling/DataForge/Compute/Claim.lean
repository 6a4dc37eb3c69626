import DataForge.Compute.Settle

/-!
# Compute requests: verified claim

`claim_next_request` meets the protocol. The candidate filter, the try-advisory lock, the
sibling re-read under that lock and the compare-and-set on the row are needed together: the
re-read makes the absence of a running sibling a fact, and the advisory lock keeps it one
until the commit.
-/

namespace DataForge.Compute

open ReadCommitted DataForge.Runtime

/-- No other row with this engine identity runs. -/
def NoSibling (ns id : String)
    (identity : String × ComputeWorkerScope × ComputeWorkerReusePolicy × String)
    (db : Db Tables) : Prop :=
  ∀ id' r', (db.tenants ns).requests.get id' = some r' → r'.status = .running →
    r'.engineClaimIdentity = some identity → id' = id

section

variable {p : Platform} {C : Setting} {op : Op} {i : ℕ} {w w' : ComputeWorld}
  {ns id : String} {row : ComputeRequest}
  {identity : String × ComputeWorkerScope × ComputeWorkerReusePolicy × String}

theorem sameIdentityColumns_of_eq {r : ComputeRequest}
    (h : r.engineClaimIdentity = some identity) (h' : row.engineClaimIdentity = some identity) :
    sameIdentityColumns r row = true := by
  unfold ComputeRequest.engineClaimIdentity at h h'
  split at h
  · next hs hp hi =>
    split at h'
    · next hs' hp' hi' =>
      rw [← h', Option.some.injEq, Prod.mk.injEq, Prod.mk.injEq, Prod.mk.injEq] at h
      obtain ⟨hns, hsc, hpol, hres⟩ := h
      simp [sameIdentityColumns, hs, hp, hi, hs', hp', hi', hns, hsc, hpol, hres]
    · cases h'
  · cases h

theorem noSibling_of_activeSibling {db : Db Tables}
    (h : activeSibling (db.tenants ns).requests id row = false)
    (hid : row.engineClaimIdentity = some identity) : NoSibling ns id identity db := by
  intro id' r' hget hrun hident
  by_contra hne
  have hany : activeSibling (db.tenants ns).requests id row = true := by
    refine List.any_eq_true.mpr ⟨(id', r'), (Table.mem_rows_iff _ _ _).mpr hget, ?_⟩
    simp [sameIdentityColumns_of_eq hident hid, hrun, hne]
  rw [h] at hany
  cases hany

theorem NoSibling.rely {h : ComputeLocks} {since : ℕ}
    (hk : Granted h (.advisory (p.advisoryKey (engineClaimName identity))) since)
    (hr : (protocol p C).Rely h w w') (hn : NoSibling ns id identity w.db) :
    NoSibling ns id identity w'.db := by
  refine hr.stable (S := fun v => NoSibling ns id identity v.db) (fun _ _ _ hn => hn) ?_ hn
  intro v db j op' t hc hn id' r' hget hrun hident
  have hstep := hc.act.request ns id'
  rw [hget] at hstep
  rcases hstep.running hrun with ⟨b, hb, hbrun⟩ | ⟨args, -, hkey⟩
  · rw [hb] at hstep
    exact hn id' b hb hbrun (hstep.fixed.2.2.2.symm.trans hident)
  · obtain ⟨since', hk'⟩ := hkey identity hident
    exact (hc.compatible.not_exclusive hk hk' rfl rfl).elim

variable {args : ClaimArgs}

/-- Committing one claimed row over a state in which no sibling runs. -/
theorem act_claim {h : ComputeLocks} {now since : ℕ}
    (hop : op = .claimNextRequest ns args) (hplain : C.renews → op.plain) (hi : Inv p C w)
    (hrow : (w.db.tenants ns).requests.get id = some row) (hb : claimableAt args now row = true)
    (hnow : now ≤ since) (hgrant : Granted h (requestRow ns id) since)
    (hkey : ∀ identity, row.engineClaimIdentity = some identity →
      (∃ t, Granted h (.advisory (p.advisoryKey (engineClaimName identity))) t) ∧
        NoSibling ns id identity w.db) :
    Act p C op h w (w.db.write (.tenant ns (TableWrite.request id
      (some (claimedRow args.workerId args.claimToken row since row))))) := by
  set db := w.db.write (.tenant ns (TableWrite.request id
    (some (claimedRow args.workerId args.claimToken row since row)))) with hdb
  have hother (ns' : String) (hns : ns' ≠ ns) : db.tenants ns' = w.db.tenants ns' := by
    simp [hdb, Db.write, hns]
  have hget (id' : String) : (db.tenants ns).requests.get id' =
      if id' = id then some (claimedRow args.workerId args.claimToken row since row)
      else (w.db.tenants ns).requests.get id' := request_write _ _ _ _ _
  have hrequest (ns' id' : String) : RequestStep p op h ns' id'
      ((w.db.tenants ns').requests.get id') ((db.tenants ns').requests.get id') := by
    by_cases hns : ns' = ns
    · subst hns
      rw [hget]
      by_cases hid : id' = id
      · subst hid
        rw [if_pos rfl, hrow]
        exact .claim args row now since hop hb hnow hgrant fun identity hident =>
          (hkey identity hident).1
      · rw [if_neg hid]
        exact .same _
    · rw [hother ns' hns]
      exact .same _
  refine ⟨hrequest, ?_, ?_, fun _ hid => hid, ?_⟩
  · intro ns' key f hf
    have hsame : (db.tenants ns').flights.get key = (w.db.tenants ns').flights.get key := by
      by_cases hns : ns' = ns
      · subst hns
        simp [hdb, Db.write, Storage.apply, Tables.write]
      · rw [hother ns' hns]
    exact Or.inr ⟨f, hsame ▸ hf, rfl⟩
  · -- only the claimed row is new among the running ones
    intro _ _ _ ns' id1 id2 r1 r2 h1 h2 hr1 hr2 hne heq
    by_cases hns : ns' = ns
    · subst hns
      have side (ida idb : String) (ra rb : ComputeRequest) (ha : ida = id)
          (hga : (db.tenants ns').requests.get ida = some ra)
          (hgb : (db.tenants ns').requests.get idb = some rb) (hrb : rb.status = .running)
          (hnea : ra.engineClaimIdentity ≠ none)
          (he : ra.engineClaimIdentity = rb.engineClaimIdentity) : ida = idb := by
        by_cases hb' : idb = id
        · rw [ha, hb']
        · rw [hget, if_pos ha, Option.some.injEq] at hga
          rw [hget, if_neg hb'] at hgb
          obtain ⟨identity, hident⟩ := Option.ne_none_iff_exists'.mp hnea
          have hrowi : row.engineClaimIdentity = some identity := by rw [← hident, ← hga]; rfl
          exact absurd ((hkey identity hrowi).2 idb rb hgb hrb (he ▸ hident)) hb'
      by_cases hid1 : id1 = id
      · exact side id1 id2 r1 r2 hid1 h1 h2 hr2 hne heq
      · by_cases hid2 : id2 = id
        · exact (side id2 id1 r2 r1 hid2 h2 h1 hr1 (heq ▸ hne) heq.symm).symm
        · rw [hget, if_neg hid1] at h1
          rw [hget, if_neg hid2] at h2
          exact hi.exclusive ns' id1 id2 r1 r2 h1 h2 hr1 hr2 hne heq
    · rw [hother ns' hns] at h1 h2
      exact hi.exclusive ns' id1 id2 r1 r2 h1 h2 hr1 hr2 hne heq
  · intro hC ns'
    refine Or.inl ⟨rfl, fun _ hl => hl, fun (id' : String) => Or.inl ?_⟩
    refine (hrequest ns' id').slot_le (hplain hC) (hi.lease ns' id') (fun hb' => ?_)
      fun claims workerId he => by rw [hop] at he; cases he
    by_cases hns : ns' = ns
    · subst hns
      rw [hget, if_neg (fun hid => by rw [hid, hrow] at hb'; cases hb')]
      exact hb'
    · rw [hother ns' hns]
      exact hb'

variable {Q : Reply → ComputeTxn → ComputeWorld → Prop}

theorem claimCandidate_spec {e : ComputeEnv} {now : ℕ}
    {blocked : List (String × ComputeWorkerScope × ComputeWorkerReusePolicy × String)}
    (h : claimCandidate ns args e now blocked = some (id, row)) :
    (requests ns e).get id = some row ∧ claimableAt args now row = true := by
  have hmem := (List.mem_insertionSort _).mp (List.mem_of_head? h)
  obtain ⟨hrow, hcand⟩ := List.mem_filter.mp hmem
  simp only [candidate, Bool.and_eq_true] at hcand
  exact ⟨(Table.mem_rows_iff _ _ _).mp hrow, hcand.1.1.1.1⟩

private theorem wp_finishClaim {now : ℕ} {t : ComputeTxn}
    {k : Lock (Resource TableRow)} (hop : op = .claimNextRequest ns args)
    (hplain : C.renews → op.plain) (hQ : ∀ r t w, Q r t w) (hwrites : t.writes = [])
    (hk : k ∈ t.held) (hres : k.res = requestRow ns id)
    (hrow : (w.db.tenants ns).requests.get id = some row) (hb : claimableAt args now row = true)
    (hnow : now ≤ w.now) (hkey : ∀ identity, row.engineClaimIdentity = some identity →
      (∃ since, Granted t.held (.advisory (p.advisoryKey (engineClaimName identity))) since) ∧
        NoSibling ns id identity w.db) :
    (protocol p C).wp i op Q (finishClaim ns args id row) t w := by
  unfold finishClaim claimByLeaseOwner
  apply Protocol.wp_statement
  intro w1 e1 hr1 hi1 hs1
  have hrow1 : (w1.db.tenants ns).requests.get id = some row :=
    (request_rely hr1 hk hres).trans hrow
  have hget : (requests ns e1).get id = some row := by
    rw [requests, hs1.db, hwrites]
    exact hrow1
  have hguard : claimGuard row row = true := by simp [claimGuard]
  simp only [hget, hguard, if_true, Option.any_some]
  apply Protocol.wp_commit
  intro w2 hr2 hi2 hc2
  have hsub := t.held_subset_after e1 (⟨[], [.tenant ns (.request id
    (some (claimedRow args.workerId args.claimToken row e1.now row)))]⟩ :
      Effect (Write TableWrite) (Resource TableRow))
  have hr2' := hr2.mono hsub
  constructor
  · have hview : view (t.after e1 ⟨[], [.tenant ns (.request id
        (some (claimedRow args.workerId args.claimToken row e1.now row)))]⟩).writes w2.db =
        w2.db.write (.tenant ns (TableWrite.request id
          (some (claimedRow args.workerId args.claimToken row e1.now row)))) := by
      rw [Txn.after, hwrites]
      rfl
    rw [hview]
    refine act_claim hop hplain hi2 ((request_rely hr2' hk hres).trans hrow1) hb ?_
      (granted_write t e1 _) fun identity hident => ?_
    · have hle := hr1.now_le
      have hnow1 := hs1.now
      omega
    · obtain ⟨⟨since, hadv⟩, hno⟩ := hkey identity hident
      exact ⟨⟨since, hsub hadv⟩, hno.rely hadv (hr1.trans hr2')⟩
  · apply Protocol.wp_query
    intro w3 e3 hr3 hi3 hs3
    split
    · apply Protocol.wp_commit
      exact fun w4 _ hi4 _ => ⟨Act.idle hi4, hQ _ _ _⟩
    · split
      · apply Protocol.wp_commit
        exact fun w4 _ hi4 _ => ⟨Act.idle hi4, hQ _ _ _⟩
      · exact hQ _ _ _

private theorem wp_lockEngineClaim {t : ComputeTxn}
    {R : Bool → ComputeTxn → ComputeWorld → Prop}
    (hR : ∀ locked t' w', t'.writes = t.writes → t.held ⊆ t'.held →
      (protocol p C).Rely t.held w w' →
      (locked = true → ∀ identity, row.engineClaimIdentity = some identity →
        ∃ since, Granted t'.held (.advisory (p.advisoryKey (engineClaimName identity))) since) →
      R locked t' w') :
    (protocol p C).wp i op R (lockEngineClaim p row) t w := by
  unfold lockEngineClaim
  cases hident : row.engineClaimIdentity with
  | none =>
    refine hR true t w rfl (List.Subset.refl _) .refl fun _ _ he => ?_
    rw [hident] at he
    cases he
  | some identity =>
    apply Protocol.wp_exec
    intro w1 e1 hr1 hi1 hs1
    refine hR _ _ _ (List.append_nil _) (t.held_subset_after _ _) hr1 fun hlocked identity' he => ?_
    rw [hident, Option.some.injEq] at he
    subst he
    exact ⟨e1.now, mem_held_lockRows t e1 (by simp [hlocked])⟩

theorem verified_claimNextRequest (hop : op = .claimNextRequest ns args)
    (hplain : C.renews → op.plain) (hQ : ∀ r t w, Q r t w) :
    (protocol p C).wp i op Q (claimNextRequest p ns args) {} w := by
  unfold claimNextRequest
  -- induction on the rounds of the retry loop; nothing is held between rounds
  generalize args.fuel = fuel
  generalize ([] : List (String × ComputeWorkerScope × ComputeWorkerReusePolicy × String)) = blocked
  induction fuel generalizing w blocked with
  | zero => exact hQ _ _ _
  | succ fuel ih =>
    rw [claimLoop]
    apply Protocol.wp_query
    intro w1 e1 hr1 hi1 hs1
    apply Protocol.wp_statement
    intro w2 e2 hr2 hi2 hs2
    cases hcand : claimCandidate ns args e2 e1.began blocked with
    | none =>
      apply Protocol.wp_commit
      exact fun w3 _ hi3 _ => ⟨Act.idle hi3, hQ _ _ _⟩
    | some x =>
      obtain ⟨id, row⟩ := x
      obtain ⟨hget, hb⟩ := claimCandidate_spec hcand
      rw [requests, hs2.db] at hget
      have hnow : e1.began ≤ w2.now := by
        have hle := hr2.now_le
        have hbegan : e1.began = w1.now := hs1.began
        omega
      dsimp only
      unfold claimSelected
      rw [Protocol.wp_bind]
      refine wp_lockEngineClaim fun locked t3 w3 hw3 hh3 hr3 hlocked => ?_
      have hlock : (⟨requestRow ns id, .exclusive, e2.now⟩ : Lock (Resource TableRow)) ∈ t3.held :=
        hh3 (mem_held_lockRows _ e2 List.mem_cons_self)
      have hrow3 : (w3.db.tenants ns).requests.get id = some row :=
        (request_rely (hr3.mono (List.Subset.refl _))
          (mem_held_lockRows _ e2 List.mem_cons_self) rfl).trans hget
      split
      · next hlk =>
        apply Protocol.wp_query
        intro w4 e4 hr4 hi4 hs4
        have hview4 : e4.db = w4.db := by rw [hs4.db, hw3]; rfl
        split
        · apply Protocol.wp_rollback
          exact fun w5 _ _ => ih _
        · next hsib =>
          refine wp_finishClaim hop hplain hQ hw3 hlock rfl
            ((request_rely hr4 hlock rfl).trans hrow3) hb ?_ fun identity hident => ?_
          · have h3 := hr3.now_le
            have h4 := hr4.now_le
            omega
          · refine ⟨hlocked hlk identity hident, noSibling_of_activeSibling ?_ hident⟩
            rw [← hview4]
            exact Bool.eq_false_iff.mpr hsib
      · split
        · trivial
        · apply Protocol.wp_rollback
          exact fun w4 _ _ => ih _

end
end DataForge.Compute
