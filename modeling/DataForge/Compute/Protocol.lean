import DataForge.Compute.Service
import DataForge.Runtime.Coverage

/-!
# Compute requests: protocol

What a commit of each queue operation may do to the committed rows, and the invariants that
follow: a lease exists exactly while a request runs, one engine identity runs one request,
a flight leads to a request staged under its key, and the compute alarm covers the queue.
-/

namespace DataForge.Compute

open ReadCommitted DataForge.Runtime

/-- The transaction was granted `r` exclusively at `since`. -/
def Granted (h : ComputeLocks) (r : Resource TableRow) (since : ℕ) : Prop :=
  ⟨r, .exclusive, since⟩ ∈ h

/-- Operations that retire requests of a namespace without holding their claim. -/
def Op.retires (ns : String) : Op → Prop
  | .cancelDisconnectedRequest ns' _ _ _ => ns' = ns
  | .cancelActiveRequestsForEngine ns' _ _ _ => ns' = ns
  | .reconcileExpiredRequests ns' => ns' = ns
  | _ => False

/-- What a commit of `op` under the locks `h` may do to one request row. -/
inductive RequestStep (p : Platform) (op : Op) (h : ComputeLocks)
    (ns id : String) : Option ComputeRequest → Option ComputeRequest → Prop where
  | same (r) : RequestStep p op h ns id r r
  | stage (args command)
      (hop : op = .stageRequest ns args ∨ op = .stageSharedFlightRequest ns args)
      (hid : id = args.requestId) :
      RequestStep p op h ns id none (some (stagedRequest p ns args command))
  | claim (args b now since) (hop : op = .claimNextRequest ns args)
      (hb : claimableAt args now b = true) (hnow : now ≤ since)
      (hrow : Granted h (requestRow ns id) since)
      (hkey : ∀ identity, b.engineClaimIdentity = some identity →
        ∃ t, Granted h (.advisory (p.advisoryKey (engineClaimName identity))) t) :
      RequestStep p op h ns id (some b)
        (some (claimedRow args.workerId args.claimToken b since b))
  | renew (claims workerId b since) (hop : op = .renewRequestLeases ns claims workerId)
      (hb : renewable claims workerId since id b = true)
      (hrow : Granted h (requestRow ns id) since)
      (hunique : (claims.map LeaseClaim.requestId).Nodup) :
      RequestStep p op h ns id (some b) (some (renewedRow p since b))
  | finish (args b since) (hop : op = .finishClaimedRequest ns args) (hid : id = args.requestId)
      (hb : activeClaim args since b = true) (hrow : Granted h (requestRow ns id) since) :
      RequestStep p op h ns id (some b) (some (finishedRow args b))
  | retire (b reason now) (hop : op.retires ns) (hb : b.status.active = true) :
      RequestStep p op h ns id (some b) (some (retiredRow id reason now b))

/-- A lease exists exactly while the request runs. -/
def LeaseOk (r : ComputeRequest) : Prop :=
  if r.status = .running then
    r.leaseOwner.isSome ∧ r.claimToken.isSome ∧ r.leaseExpiresAt.isSome
  else r.leaseOwner = none ∧ r.claimToken = none ∧ r.leaseExpiresAt = none

/-- At most one running request per engine identity. -/
def Exclusive (db : Db Tables) : Prop :=
  ∀ ns id id' r r', (db.tenants ns).requests.get id = some r →
    (db.tenants ns).requests.get id' = some r' → r.status = .running → r'.status = .running →
    r.engineClaimIdentity ≠ none → r.engineClaimIdentity = r'.engineClaimIdentity → id = id'

/-- The request of a flight was staged with exactly the key of the flight. -/
def FlightOk (p : Platform) (db : Db Tables) (ns : String) (key : String × String)
    (f : ComputeRequestFlight) : Prop :=
  key.1 = ns ∧ ∃ r, (db.tenants ns).requests.get f.requestId = some r ∧ r.ns = ns ∧
    flightKey p r.kind r.commandEnvelope.command = some key.2

/-- The earliest time at which a request is claimable, if its lease is not renewed. -/
def ComputeRequest.deadline (r : ComputeRequest) : ℕ∞ :=
  match r.status with
  | .queued => 0
  | .running => if r.leaseOwner = none then 0 else r.leaseExpiresAt.elim ⊤ (fun e => (e : ℕ∞))
  | _ => ⊤

theorem computeWork_le (now : ℕ) (db : Tables) (id : String) :
    alarmOf (computeWorkPending now db) (computeWorkDue now db) ≤
      (db.requests.get id).elim ⊤ ComputeRequest.deadline := by
  cases hr : db.requests.get id with
  | none => exact le_top
  | some r =>
    have hmem := (Table.mem_rows_iff _ _ _).mpr hr
    by_cases hp : computeWorkPending now db = true
    · rw [alarmOf, hp, if_pos rfl]
      exact zero_le
    · have hnot : ¬(r.status = .queued ∨ (r.status = .running ∧
          (r.leaseOwner = none ∨ (r.leaseExpiresAt.any (· ≤ now)) = true))) := by
        intro hc
        apply hp
        rw [computeWorkPending, List.any_eq_true]
        exact ⟨(id, r), hmem, by simpa using hc⟩
      rw [alarmOf, if_neg hp, Option.elim_some, ComputeRequest.deadline]
      split
      · next hs => exact absurd (Or.inl hs) hnot
      · next hs =>
        have howner : r.leaseOwner ≠ none := fun ho => hnot (Or.inr ⟨hs, Or.inl ho⟩)
        rw [if_neg howner]
        cases he : r.leaseExpiresAt with
        | none => exact le_top
        | some e =>
          have hlt : now < e := by
            by_contra hle
            exact hnot (Or.inr ⟨hs, Or.inr (by simp [he]; omega)⟩)
          have hin : e ∈ db.requests.rows.filterMap fun r =>
              if r.2.status = .running then r.2.leaseExpiresAt.filter (now < ·) else none :=
            List.mem_filterMap.mpr ⟨(id, r), hmem, by simp [hs, he, hlt]⟩
          obtain ⟨m, hm⟩ := Option.isSome_iff_exists.mp (List.isSome_min?_of_mem hin)
          rw [computeWorkDue, hm]
          exact ENat.natCast_le_natCast.mpr ((List.min?_eq_some_iff.mp hm).2 e hin)
      · exact le_top

/-- The compute queue, as the wake service sees it. -/
def queue : Queue Tables TableWrite TableRow where
  Row := String
  resource := .request
  deadline db id := (db.requests.get id).elim ⊤ ComputeRequest.deadline
  pending := computeWorkPending
  due := computeWorkDue
  deadline_same {a b id} h := by rw [show a.requests.get id = b.requests.get id from h]
  snapshot_le := computeWork_le

/-- The setting of a verification: whether callers keep the renewal promise, and the states
in which the calls of the run at hand execute their statements. -/
structure Setting where
  renews : Prop
  visited : ℕ → ComputeWorld → Prop

/-- What a commit of `op` may do. The work tables are constrained if callers keep the renewal
promise. -/
structure Act (p : Platform) (C : Setting) (op : Op) (h : ComputeLocks)
    (w : ComputeWorld) (db : Db Tables) : Prop where
  request : ∀ ns id, RequestStep p op h ns id ((w.db.tenants ns).requests.get id)
    ((db.tenants ns).requests.get id)
  flight : ∀ ns key f, (db.tenants ns).flights.get key = some f →
    FlightOk p db ns key f ∨
      ∃ f', (w.db.tenants ns).flights.get key = some f' ∧ f'.requestId = f.requestId
  exclusive : ∀ ns args, op = .claimNextRequest ns args → Exclusive db
  issued : ∀ id, w.db.work.wakes.get id ≠ none → db.work.wakes.get id ≠ none
  work : C.renews → ∀ ns, Quiet queue ns .compute w.db db ∨ Refreshed queue ns .compute w.db db

/-- The invariants of the committed queue. -/
structure Inv (p : Platform) (C : Setting) (w : ComputeWorld) : Prop where
  lease : ∀ ns id r, (w.db.tenants ns).requests.get id = some r → LeaseOk r
  exclusive : Exclusive w.db
  flight : ∀ ns key f, (w.db.tenants ns).flights.get key = some f → FlightOk p w.db ns key f
  covered : C.renews → ∀ ns, Covered queue ns .compute w.db

/-- A renewal never sets an earlier expiry. -/
def NoShorterLease (op : Op) (w : ComputeWorld) (db : Db Tables) : Prop :=
  ∀ ns claims workerId, op = .renewRequestLeases ns claims workerId → ∀ id b a e e',
    (w.db.tenants ns).requests.get id = some b → (db.tenants ns).requests.get id = some a →
    b.leaseExpiresAt = some e → a.leaseExpiresAt = some e' → e ≤ e'

/-- Claims as the servers make them: nobody passes owners to reclaim from
(`backend_grpc/server.py:1014-1018`). -/
def Op.plain : Op → Prop
  | .claimNextRequest _ args => args.reclaimable = []
  | _ => True

section Steps

variable {p : Platform} {op : Op} {h : ComputeLocks} {ns id : String}
  {a b : ComputeRequest} {x y : Option ComputeRequest}

theorem RequestStep.stays (hs : RequestStep p op h ns id x y) (hx : x = some b) :
    ∃ a, y = some a := by
  cases hs with
  | same => exact ⟨b, hx⟩
  | stage => cases hx
  | _ => exact ⟨_, rfl⟩

theorem RequestStep.fixed (hs : RequestStep p op h ns id (some b) (some a)) :
    a.ns = b.ns ∧ a.kind = b.kind ∧ a.commandEnvelope = b.commandEnvelope ∧
      a.engineClaimIdentity = b.engineClaimIdentity := by
  cases hs with
  | same => exact ⟨rfl, rfl, rfl, rfl⟩
  | claim => exact ⟨rfl, rfl, rfl, rfl⟩
  | renew => exact ⟨rfl, rfl, rfl, rfl⟩
  | finish args b since hop hid hb hrow =>
    unfold finishedRow
    cases args.artifacts <;> exact ⟨rfl, rfl, rfl, rfl⟩
  | retire => exact ⟨rfl, rfl, rfl, rfl⟩

theorem finishedRow_active (args : FinishArgs) (r : ComputeRequest) :
    (finishedRow args r).status.active = false := by
  have hs : (finishedRow args r).status = args.status := by
    unfold finishedRow
    cases args.artifacts <;> rfl
  rw [hs, FinishArgs.status]
  cases args.completed <;> rfl

theorem RequestStep.running (hs : RequestStep p op h ns id x (some a)) (ha : a.status = .running) :
    (∃ b, x = some b ∧ b.status = .running) ∨
      ∃ args, op = .claimNextRequest ns args ∧ ∀ identity, a.engineClaimIdentity = some identity →
        ∃ t, Granted h (.advisory (p.advisoryKey (engineClaimName identity))) t := by
  cases hs with
  | same => exact Or.inl ⟨a, rfl, ha⟩
  | stage args command hop hid => cases ha
  | claim args b now since hop hb hnow hrow hkey => exact Or.inr ⟨args, hop, hkey⟩
  | renew claims workerId b since hop hb hrow => exact Or.inl ⟨b, rfl, ha⟩
  | finish args b since hop hid hb hrow =>
    have hactive := finishedRow_active args b
    rw [ha] at hactive
    cases hactive
  | retire => cases ha

theorem RequestStep.leaseOk (hs : RequestStep p op h ns id x (some a))
    (hx : ∀ b, x = some b → LeaseOk b) : LeaseOk a := by
  cases hs with
  | same => exact hx a rfl
  | stage => exact ⟨rfl, rfl, rfl⟩
  | claim => exact ⟨rfl, rfl, rfl⟩
  | renew claims workerId b since hop hb hrow =>
    have hl := hx b rfl
    have hst : b.status = .running := by
      simp only [renewable, Bool.and_eq_true, decide_eq_true_eq] at hb
      exact hb.1.1.1
    rw [LeaseOk, if_pos hst] at hl
    rw [LeaseOk, if_pos (show (renewedRow p since b).status = .running from hst)]
    exact ⟨hl.1, hl.2.1, rfl⟩
  | finish args b since hop hid hb hrow =>
    have hne : (finishedRow args b).status ≠ .running := fun he => by
      have hactive := finishedRow_active args b
      rw [he] at hactive
      cases hactive
    rw [LeaseOk, if_neg hne]
    unfold finishedRow
    cases args.artifacts <;> exact ⟨rfl, rfl, rfl⟩
  | retire => exact ⟨rfl, rfl, rfl⟩

theorem active_of_claimable {args : ClaimArgs} {now : ℕ} {r : ComputeRequest}
    (h : claimableAt args now r = true) : r.status.active = true := by
  simp only [claimableAt, Bool.or_eq_true, Bool.and_eq_true, decide_eq_true_eq] at h
  rcases h with h | h
  · rw [h]
    rfl
  · rw [h.1.1]
    rfl

theorem RequestStep.terminal (hs : RequestStep p op h ns id (some b) y)
    (hb : b.status.active = false) : y = some b := by
  cases hs with
  | same => rfl
  | claim args b now since hop hc hnow hrow hkey =>
    rw [active_of_claimable hc] at hb
    cases hb
  | renew claims workerId b since hop hc hrow =>
    simp only [renewable, Bool.and_eq_true, decide_eq_true_eq] at hc
    rw [hc.1.1.1] at hb
    cases hb
  | finish args b since hop hid hc hrow =>
    simp only [activeClaim, Bool.and_eq_true, decide_eq_true_eq] at hc
    rw [hc.1.1.1.1] at hb
    cases hb
  | retire b reason now hop hc => rw [hb] at hc; cases hc

theorem deadline_of_terminal (ha : a.status.active = false) : a.deadline = ⊤ := by
  unfold ComputeRequest.deadline
  split
  · next hs => rw [hs] at ha; cases ha
  · next hs => rw [hs] at ha; cases ha
  · rfl

/-- Claims as the servers make them and renewals that do not shorten a lease never move a
deadline forward. -/
theorem RequestStep.deadline_le (hs : RequestStep p op h ns id (some b) (some a))
    (hplain : op.plain) (hl : LeaseOk b)
    (hrenew : ∀ claims workerId, op = .renewRequestLeases ns claims workerId → ∀ e e',
      b.leaseExpiresAt = some e → a.leaseExpiresAt = some e' → e ≤ e') :
    b.deadline ≤ a.deadline := by
  cases hs with
  | same => exact le_refl _
  | claim args b now since hop hb hnow hrow hkey =>
    have hnil : args.reclaimable = [] := by rw [hop] at hplain; exact hplain
    have ha : (claimedRow args.workerId args.claimToken b since b).deadline =
        ((since + claimDeliveryLease : ℕ) : ℕ∞) := rfl
    rw [ha]
    unfold ComputeRequest.deadline
    split
    · exact zero_le
    · next hs =>
      split
      · exact zero_le
      · next howner =>
        -- a running row with an owner is claimable only once its lease has expired
        rw [LeaseOk, if_pos hs] at hl
        obtain ⟨owner, ho⟩ := Option.isSome_iff_exists.mp hl.1
        obtain ⟨e, he⟩ := Option.isSome_iff_exists.mp hl.2.2
        have hexp : e ≤ now := by
          simp [claimableAt, hs, hnil, ho, he] at hb
          exact hb.1
        rw [he, Option.elim_some]
        exact ENat.natCast_le_natCast.mpr (by omega)
    · next hq hr =>
      exfalso
      cases hst : b.status <;> simp_all [claimableAt]
  | renew claims workerId b since hop hb hrow =>
    have hs : b.status = .running := by
      simp only [renewable, Bool.and_eq_true, decide_eq_true_eq] at hb
      exact hb.1.1.1
    rw [LeaseOk, if_pos hs] at hl
    obtain ⟨e, he⟩ := Option.isSome_iff_exists.mp hl.2.2
    have hle := hrenew claims workerId hop e _ he rfl
    unfold ComputeRequest.deadline
    rw [show (renewedRow p since b).status = .running from hs, hs]
    dsimp only
    split
    · exact zero_le
    · next ho =>
      rw [if_neg (show (renewedRow p since b).leaseOwner ≠ none from ho), he]
      exact ENat.natCast_le_natCast.mpr hle
  | finish args b since hop hid hb hrow =>
    rw [deadline_of_terminal (finishedRow_active args b)]
    exact le_top
  | retire b reason now hop hb =>
    rw [deadline_of_terminal (show (retiredRow id reason now b).status.active = false from rfl)]
    exact le_top

theorem RequestStep.slot_le (hs : RequestStep p op h ns id x y) (hplain : op.plain)
    (hl : ∀ b, x = some b → LeaseOk b) (hnone : x = none → y = none)
    (hrenew : ∀ claims workerId, op = .renewRequestLeases ns claims workerId → ∀ b a e e',
      x = some b → y = some a → b.leaseExpiresAt = some e → a.leaseExpiresAt = some e' → e ≤ e') :
    x.elim ⊤ ComputeRequest.deadline ≤ y.elim ⊤ ComputeRequest.deadline := by
  cases hx : x with
  | none => rw [hnone hx]
  | some b =>
    obtain ⟨a, ha⟩ := hs.stays hx
    rw [hx, ha] at hs
    rw [ha]
    exact hs.deadline_le hplain (hl b hx) fun claims workerId hop e e' =>
      hrenew claims workerId hop b a e e' hx ha

end Steps

section Invariant

variable {p : Platform} {C : Setting} {op : Op} {h : ComputeLocks}
  {w : ComputeWorld} {db : Db Tables}

theorem Act.idle (hw : Inv p C w) : Act p C op h w w.db where
  request _ _ := .same _
  flight _ _ f hf := Or.inr ⟨f, hf, rfl⟩
  exclusive _ _ _ := hw.exclusive
  issued _ hid := hid
  work _ _ := Or.inl ⟨rfl, fun _ hl => hl, fun _ => Or.inl (le_refl _)⟩

/-- Commits keep the invariants. -/
theorem Act.inv (hw : Inv p C w) (ha : Act p C op h w db) : Inv p C ⟨w.now, db⟩ where
  lease ns id r hr := by
    have hs := ha.request ns id
    rw [hr] at hs
    exact hs.leaseOk fun b hb => hw.lease ns id b hb
  exclusive := by
    by_cases hop : ∃ ns args, op = .claimNextRequest ns args
    · obtain ⟨ns, args, hop⟩ := hop
      exact ha.exclusive ns args hop
    · intro ns id id' r r' hr hr' hs hs' hne heq
      -- no row starts to run, so both rows ran before with the same identities
      have back (id : String) (r : ComputeRequest) (hr : (db.tenants ns).requests.get id = some r)
          (hs : r.status = .running) : ∃ b, (w.db.tenants ns).requests.get id = some b ∧
            b.status = .running ∧ r.engineClaimIdentity = b.engineClaimIdentity := by
        have hstep := ha.request ns id
        rw [hr] at hstep
        rcases hstep.running hs with ⟨b, hb, hbs⟩ | ⟨args, hop', -⟩
        · rw [hb] at hstep
          exact ⟨b, hb, hbs, hstep.fixed.2.2.2⟩
        · exact absurd ⟨ns, args, hop'⟩ hop
      obtain ⟨b, hb, hbs, hbi⟩ := back id r hr hs
      obtain ⟨b', hb', hbs', hbi'⟩ := back id' r' hr' hs'
      exact hw.exclusive ns id id' b b' hb hb' hbs hbs' (hbi ▸ hne) (by rw [← hbi, ← hbi', heq])
  flight ns key f hf := by
    rcases ha.flight ns key f hf with hok | ⟨f', hf', hid⟩
    · exact hok
    · obtain ⟨hkey, r, hr, hrns, hk⟩ := hw.flight ns key f' hf'
      obtain ⟨a, hra⟩ := (ha.request ns f'.requestId).stays hr
      have hstep := ha.request ns f'.requestId
      rw [hr, hra] at hstep
      obtain ⟨hns, hkind, henv, -⟩ := hstep.fixed
      exact ⟨hkey, a, hid ▸ hra, hns.trans hrns, by rw [hkind, henv]; exact hk⟩
  covered hC ns := by
    rcases ha.work hC ns with hq | hf
    · exact hq.covered (hw.covered hC ns)
    · exact hf.covered

/-- The protocol of the queue. -/
def protocol (p : Platform) (C : Setting) :
    Protocol Op (Db Tables) (Write TableWrite) (Resource TableRow) where
  visited i _ w := C.visited i w
  calls op := C.renews → op.plain
  inv := Inv p C
  act _ := Act p C
  cond op w db := C.renews → NoShorterLease op w db
  inv_tick h _ := ⟨h.lease, h.exclusive, h.flight, h.covered⟩
  inv_act _ hw _ ha := ha.inv hw

end Invariant
end DataForge.Compute
