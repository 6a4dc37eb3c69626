import DataForge.Outbox.Protocol

/-!
# The runtime outbox: claims, deliveries and intents meet the protocol

The rules of the statements that lock, change and insert events, the operations of
`runtime_outbox_service.py`, and those of `storage_cleanup_service.py` that register, hand over, arm
and delete intents and that authorize and complete their cleanup.
-/

namespace DataForge.Outbox

open ReadCommitted Relation

variable {p : Platform} {missed : ℕ → String → Prop} {i : ℕ} {op : Op} {α : Type}
  {Q : α → Txn TableWrite TableRow → World Tables → Prop} {t : Txn TableWrite TableRow}
  {w : World Tables} {id : String}

/-! ## Events -/

/-- A locked event is what was found of it. -/
def Found (id : String) (found : Option RuntimeOutboxEvent) (t : Txn TableWrite TableRow)
    (w : World Tables) : Prop :=
  ∀ row, found = some row → ∃ c, At id c t w ∧ c.event = some row

theorem wp_lockEvent {k : Option RuntimeOutboxEvent → OutboxScript α} (ht : Running p i op t w)
    (h : ∀ found t' w', Running p i op t' w' → Found id found t' w' →
      (protocol p missed).wp i op Q (k found) t' w') :
    (protocol p missed).wp i op Q (lockEvent id >>= k) t w := by
  apply wp_locks ht
  intro w' e _ hs ht'
  refine h _ _ _ ht' fun row hrow => ⟨e.db.cell id, ?_, hrow⟩
  apply at_after hs
  · simp [Effect.needs, hrow]
  · rfl

variable {db : Tables}

theorem cell_of_change {row' : Option RuntimeOutboxEvent} :
    (view (row'.toList.map (TableWrite.event id)) db).cell id =
      { db.cell id with event := row'.or (db.cell id).event } := by
  rw [cell_view]
  cases row' with
  | none => rfl
  | some row' => simp [Cell.write]

theorem wp_modifyEvent {change : ℕ → RuntimeOutboxEvent → Option RuntimeOutboxEvent}
    {k : Option RuntimeOutboxEvent → OutboxScript α} (ht : Running p i op t w)
    (hstep : ∀ {now began c row row'}, began ≤ now → c.event = some row →
      change began row = some row' →
      CellStep p i op now id c { c with event := some row' })
    (h : ∀ found t' w', Running p i op t' w' →
      (∀ row, found = some row → ∃ began c, At id c t' w' ∧
        c.event = some ((change began row).getD row)) →
      (protocol p missed).wp i op Q (k found) t' w') :
    (protocol p missed).wp i op Q (modifyEvent id change >>= k) t w := by
  apply wp_write ht
  · rintro w' e hle r ⟨v, hv, rfl⟩
    obtain ⟨row', hrow', rfl⟩ := List.mem_map.mp hv
    rw [Option.mem_toList] at hrow'
    obtain ⟨row, hrow, hchange⟩ := Option.bind_eq_some_iff.mp hrow'
    change ReflTransGen _ _ _
    rw [cell_of_change, hrow']
    exact ReflTransGen.single (hstep hle hrow hchange)
  · intro w' e _ hs ht'
    refine h _ _ _ ht' fun row hrow => ⟨e.began, _, at_after hs ?_ rfl, ?_⟩
    · simp [Effect.needs, hrow]
    · dsimp only
      rw [cell_of_change, hrow, Option.bind_some]
      cases hc : change e.began row with
      | none => exact hrow
      | some row' => rfl

theorem wp_insertEvent {row : ℕ → RuntimeOutboxEvent} {k : Bool → OutboxScript α}
    (ht : Running p i op t w) (hfresh : ∀ began, Fresh p id (row began))
    (h : ∀ inserted t' w', Running p i op t' w' →
      (inserted = true → ∃ began c, At id c t' w' ∧ c.event = some (row began)) →
      (protocol p missed).wp i op Q (k inserted) t' w') :
    (protocol p missed).wp i op Q (insertEvent id row >>= k) t w := by
  apply wp_write ht
  · rintro w' e hle r ⟨v, hv, rfl⟩
    dsimp only at hv ⊢
    split at hv
    · next hnone =>
      rw [if_pos hnone]
      rw [List.mem_singleton] at hv
      subst hv
      change ReflTransGen _ (e.db.cell id) ((e.db.write (.event id (row e.began))).cell id)
      rw [Tables.cell_write, Cell.write, if_pos rfl]
      exact ReflTransGen.single (.enqueued (Option.isNone_iff_eq_none.mp hnone) (hfresh _))
    · cases hv
  · intro w' e _ hs ht'
    refine h _ _ _ ht' fun hnone => ⟨e.began, _, at_after hs ?_ rfl, ?_⟩
    · simp [Effect.needs]
    · dsimp only
      rw [if_pos hnone]
      change ((e.db.write (.event id (row e.began))).cell id).event = _
      rw [Tables.cell_write, Cell.write, if_pos rfl]

theorem wp_flush {rows : ℕ → Cell → List TableWrite} {k : Unit → OutboxScript α} {c : Cell}
    (ht : Running p i op t w) (hat : At id c t w)
    (htarget : ∀ began, ∀ v ∈ rows began c, v.target = .event id)
    (hstep : ∀ {now began}, began ≤ now → ReflTransGen (CellStep p i op now id) c
      ((rows began c).foldl (fun c v => c.write id v) c))
    (h : ∀ t' w', Running p i op t' w' → (∃ began, At id
      ((rows began c).foldl (fun c v => c.write id v) c) t' w') →
      (protocol p missed).wp i op Q (k ()) t' w') :
    (protocol p missed).wp i op Q (flush id rows >>= k) t w := by
  apply Protocol.wp_statement
  intro w' e hr _ hs
  have hat' := hat.rely hr
  have ht' := ht.rely hr
  have hc : e.db.cell id = c := by
    rw [hs.db]
    exact hat'.2
  have hrun := ht'.write (f := { writes := rows e.began (e.db.cell id) }) hs ?_
  · refine h _ _ hrun ⟨e.began, ?_⟩
    obtain ⟨⟨k, hk, hres, hmode⟩, hcell⟩ := hat'
    refine ⟨⟨k, t.held_subset_after e _ hk, hres, hmode⟩, ?_⟩
    change (view (t.writes ++ rows e.began (e.db.cell id)) w'.db).cell id = _
    rw [view_append, cell_view, hcell, hc]
  · rintro r ⟨v, hv, rfl⟩
    rw [hc] at hv
    rw [htarget e.began v hv]
    change ReflTransGen _ (e.db.cell id) ((view (rows e.began (e.db.cell id)) e.db).cell id)
    rw [cell_view, hc]
    exact hstep (ht'.began_le hs)

theorem wp_databaseNow {k : ℕ → OutboxScript α} (ht : Running p i op t w)
    (h : ∀ began t' w', Running p i op t' w' → t'.held = t.held → t'.writes = t.writes →
      (protocol p missed).Rely t.held w w' →
      (protocol p missed).wp i op Q (k began) t' w') :
    (protocol p missed).wp i op Q (databaseNow >>= k) t w :=
  wp_look ht fun _ _ hr _ ht' => h _ _ _ ht' rfl rfl hr

/-! ## Claims -/

theorem nodup_selected {rows : List (String × RuntimeOutboxEvent)} (h : rows.Subperm db.events.rows)
    : (rows.map Prod.fst).Nodup := by
  obtain ⟨l, hperm, hsub⟩ := h
  exact (hperm.map Prod.fst).nodup_iff.mp (db.events.nodup.sublist (hsub.map Prod.fst))

theorem nextEvents_subperm (e : Env Tables TableRow) (lane : Lane) (limit : ℕ) :
    (nextEvents e lane limit).Subperm e.db.events.rows := by
  unfold nextEvents
  refine (List.take_sublist ..).subperm.trans ?_
  refine List.filter_sublist.subperm.trans ?_
  exact (List.perm_insertionSort ..).subperm.trans List.filter_sublist.subperm

theorem mem_nextEvents {e : Env Tables TableRow} {lane : Lane} {limit : ℕ}
    {r : String × RuntimeOutboxEvent} (h : r ∈ nextEvents e lane limit) :
    e.db.events.get r.1 = some r.2 ∧ lane.covers r.2.content = true ∧
      r.2.due e.began = true := by
  unfold nextEvents at h
  have hmem := (List.mem_filter.mp (List.mem_of_mem_take h)).1
  rw [List.mem_insertionSort, List.mem_filter, Bool.and_eq_true] at hmem
  exact ⟨(e.db.events.mem_rows_iff _ _).mp hmem.1, hmem.2⟩

/-- The writes of the claims of call `i`, whose tokens begin with number `drawn`. -/
def claimWrites (p : Platform) (i drawn began : ℕ) (rows : List (String × RuntimeOutboxEvent)) :
    List TableWrite :=
  rows.zipIdx.map fun r =>
    TableWrite.event r.1.1 (r.1.2.claimed p.settings (p.uuid4 i (drawn + r.2)) began)

theorem cell_claimWrites {rows : List (String × RuntimeOutboxEvent)} (p : Platform)
    (i drawn began : ℕ) (hrows : rows.Subperm db.events.rows)
    {r : (String × RuntimeOutboxEvent) × ℕ} (hr : r ∈ rows.zipIdx) :
    (view (claimWrites p i drawn began rows) db).cell r.1.1 =
      { db.cell r.1.1 with
        event := some (r.1.2.claimed p.settings (p.uuid4 i (drawn + r.2)) began) } := by
  have hkeys : rows.zipIdx.map (fun r => r.1.1) = rows.map Prod.fst := by
    conv_rhs => rw [← List.zipIdx_map_fst 0 rows, List.map_map]
    rfl
  rw [cell_view, claimWrites, List.map_eq_flatMap]
  refine (foldl_flatMap (fun r : (String × RuntimeOutboxEvent) × ℕ => r.1.1)
    (hkeys ▸ nodup_selected hrows) (fun x _ v hv => ?_) hr _).trans ?_
  · rw [List.mem_singleton.mp hv]
    rfl
  · simp [Cell.write]

/-- The event of a claim is being dispatched under it, and its receipts are those that the claim
has seen. -/
structure Claimed (p : Platform) (i : ℕ) (claim : OutboxClaim) (db : Tables) : Prop where
  token : ∃ n, claim.claimToken = p.uuid4 i n
  row : ∃ row, db.events.get claim.eventId = some row ∧ row.content = claim.content ∧
    row.heldBy claim.claimToken claim.leaseGeneration = true
  parts : claim.content.external? = some .telegram →
    claim.completedParts = (db.cell claim.eventId).parts.map PartReceipt.partKey

theorem wp_claimNextEvents {lane : Lane} {limit drawn : ℕ} {k : List OutboxClaim → OutboxScript α}
    (hop : op.Plain) (hlane : op.lane? = some lane) (ht : Running p i op t w)
    (h : ∀ claims t' w', Running p i op t' w' → (∀ claim ∈ claims, Claimed p i claim w'.db) →
      (protocol p missed).wp i op Q (k claims) t' w') :
    (protocol p missed).wp i op Q (claimNextEvents p i lane limit drawn >>= k) t w := by
  unfold claimNextEvents
  split
  · exact h _ _ _ ht fun _ hc => by cases hc
  · rw [Script.bind_assoc]
    apply wp_databaseNow ht
    intro began t1 w1 ht1 _ _ _
    rw [Script.bind_assoc]
    apply wp_write ht1
    · rintro w' e hle r ⟨v, hv, rfl⟩
      obtain ⟨r, hr, rfl⟩ := List.mem_map.mp hv
      obtain ⟨hrow, hcovers, hdue⟩ := mem_nextEvents (List.fst_mem_of_mem_zipIdx hr)
      have hcell := cell_claimWrites p i drawn e.began (nextEvents_subperm e lane limit) hr
      change ReflTransGen _ (e.db.cell r.1.1)
        ((view (claimWrites p i drawn e.began (nextEvents e lane limit)) e.db).cell r.1.1)
      rw [hcell]
      exact ReflTransGen.single (.claimed hrow hlane hcovers hle hdue)
    · intro w2 e _ hs ht2
      split
      · rw [Script.bind_assoc]
        exact wp_rollback fun w3 => h _ _ _ .start fun _ hc => by cases hc
      · rw [Script.bind_assoc]
        refine wp_commit hop ht2 fun w3 hr => h _ _ _ .start fun claim hclaim => ?_
        obtain ⟨r, hmem, rfl⟩ := List.mem_map.mp hclaim
        have hcell := cell_claimWrites p i drawn e.began (nextEvents_subperm e lane limit) hmem
        have hat := (at_after hs ?_ hcell).rely hr
        · have hevent : (Tables.cell _ r.1.1).event = _ := congrArg Cell.event hat.2
          refine ⟨⟨_, rfl⟩, ⟨_, hevent, rfl, ?_⟩, fun htelegram => ?_⟩
          · simp [RuntimeOutboxEvent.heldBy, RuntimeOutboxEvent.claimed, outboxClaim]
          · have hparts : (Tables.cell _ r.1.1).parts = _ := congrArg Cell.parts hat.2
            exact (if_pos htelegram).trans (congrArg _ hparts.symm)
        · apply List.mem_append_right
          exact List.mem_map.mpr ⟨_, List.mem_map.mpr ⟨r, hmem, rfl⟩, rfl⟩

/-! ## Outcomes -/

theorem mem_settledBy {outcomes : List Outcome} {r : (String × RuntimeOutboxEvent) × Option String}
    (h : r ∈ settledBy db outcomes) :
    db.events.get r.1.1 = some r.1.2 ∧ ∃ o ∈ outcomes, o.1.eventId = r.1.1 ∧ o.2 = r.2 ∧
      r.1.2.heldBy o.1.claimToken o.1.leaseGeneration = true := by
  obtain ⟨r', hr', hsome⟩ := List.mem_filterMap.mp h
  obtain ⟨o, ho, hif⟩ := Option.bind_eq_some_iff.mp hsome
  split at hif
  · next hheld =>
    cases hif
    have hmem := List.mem_reverse.mp (List.mem_of_find?_eq_some ho)
    have hid := of_decide_eq_true (List.find?_some (p := fun o : Outcome => o.1.eventId = r'.1) ho)
    exact ⟨(db.events.mem_rows_iff _ _).mp hr', o, hmem, hid, rfl, hheld⟩
  · cases hif

theorem nodup_settledBy (db : Tables) (outcomes : List Outcome) :
    ((settledBy db outcomes).map fun r => r.1.1).Nodup := by
  refine db.events.nodup.sublist ?_
  unfold settledBy
  generalize db.events.rows = rows
  induction rows with
  | nil => exact List.Sublist.slnil
  | cons r rows ih =>
    rw [List.filterMap_cons, List.map_cons]
    split
    · exact ih.cons _
    · next r' hr' =>
      obtain ⟨o, -, hif⟩ := Option.bind_eq_some_iff.mp hr'
      split at hif
      · cases hif
        exact ih.cons_cons _
      · cases hif

theorem target_settledRows {s : Settings} {record : Bool} {now : ℕ} {row : RuntimeOutboxEvent}
    {receipt : Option DeliveryReceipt} {error : Option String} {v : TableWrite}
    (h : v ∈ settledRows s record now id row receipt error) : v.target = .event id := by
  unfold settledRows at h
  rw [List.mem_append, List.mem_append] at h
  rcases h with (h | h) | h
  · split at h
    · split at h
      · rw [List.mem_singleton.mp h]
        rfl
      · cases h
    · cases h
  · split at h
    · rw [List.mem_singleton.mp h]
      rfl
    · cases h
  · rw [List.mem_singleton.mp h]
    rfl

theorem wp_finalizeClaims {outcomes : List Outcome} {record : Bool} {k : ℕ × ℕ → OutboxScript α}
    (hop : op.Plain) (ht : Running p i op t w)
    (hheld : ∀ w', (protocol p missed).Rely t.held w w' → ∀ o ∈ outcomes, ∀ row,
      (view t.writes w'.db).events.get o.1.eventId = some row →
      row.heldBy o.1.claimToken o.1.leaseGeneration = true → op.Holds p i o.1.eventId row)
    (h : ∀ outcome t' w', Running p i op t' w' →
      (protocol p missed).wp i op Q (k outcome) t' w') :
    (protocol p missed).wp i op Q (finalizeClaims p outcomes record >>= k) t w := by
  unfold finalizeClaims
  split
  · exact h _ _ _ ht
  · rw [Script.bind_assoc]
    apply wp_databaseNow ht
    intro began t1 w1 ht1 hheld1 hwrites₁ hr1
    rw [Script.bind_assoc]
    apply Protocol.wp_statement
    intro w2 e hr2 _ hs
    split
    · rw [Script.bind_assoc]
      exact wp_rollback fun w3 => h _ _ _ .start
    · rw [Script.bind_assoc]
      refine wp_commit hop ((ht1.rely hr2).write hs ?_) fun w3 _ => h _ _ _ .start
      rintro r ⟨v, hv, rfl⟩
      obtain ⟨r, hr, hv⟩ := List.mem_flatMap.mp hv
      rw [target_settledRows hv]
      obtain ⟨hrow, o, ho, hid, -, hholds⟩ := mem_settledBy hr
      change ReflTransGen _ (e.db.cell r.1.1) ((view (List.flatMap _ _) e.db).cell r.1.1)
      rw [cell_view, foldl_flatMap (fun r => r.1.1) (nodup_settledBy e.db outcomes)
        (fun x _ v hv => target_settledRows hv) hr]
      have hfound : (view t.writes w2.db).events.get o.1.eventId = some r.1.2 := by
        rw [hid, ← hwrites₁, ← hs.db]
        exact hrow
      have hrely := hr1.trans (hheld1 ▸ hr2)
      exact ReflTransGen.single (.settled hrow (hid ▸ hheld w2 hrely o ho _ hfound hholds))

/-! ## Operations -/

/-- The operation is neither a publication nor an authorization. -/
def Op.isPlain : Op → Bool
  | .publishDatasource _ _ => false
  | .authorizeCleanup _ _ _ => false
  | _ => true

theorem Op.plain (h : op.isPlain = true) : op.Plain where
  publish _ _ he := by rw [he] at h; cases h
  authorize _ _ _ he := by rw [he] at h; cases h

/-- What the calls return. A claim is held by its call when it is returned. -/
def Returned (p : Platform) (i : ℕ) (op : Op) (reply : Reply) (_ : Txn TableWrite TableRow)
    (w : World Tables) : Prop :=
  ∀ kind limit, op = .claimExternalDeliveries kind limit →
    ∃ claims, reply = .claims claims ∧ ∀ claim ∈ claims, Claimed p i claim w.db

theorem returned_of_ne {op : Op} {reply : Reply}
    (h : ∀ kind limit, op ≠ .claimExternalDeliveries kind limit) :
    Returned p i op reply t w := fun kind limit he => absurd he (h kind limit)

section Operations

variable {claim : OutboxClaim} {error : Option String}

theorem wp_enqueueEvent {content : Content}
    {Q : Reply → Txn TableWrite TableRow → World Tables → Prop} (hop : op.Plain)
    (hcontent : content.intent? = none)
    (hq : ∀ w', Q .done {} w') :
    (protocol p missed).wp i op Q (enqueueEvent p i content) {} w := by
  apply wp_databaseNow .start
  intro began t1 w1 ht1 _ _ _
  apply wp_insertEvent ht1
  · intro began
    refine ⟨rfl, rfl, rfl, rfl, rfl, fun intent hintent => ?_⟩
    rw [show content = .cleanup intent from hintent] at hcontent
    cases hcontent
  · intro inserted t2 w2 ht2 _
    cases inserted with
    | false => trivial
    | true => exact wp_commit hop ht2 fun w3 _ => hq _

theorem wp_enqueueRuntimeEvent {payload : Payload} :
    (protocol p missed).wp i (.enqueueRuntimeEvent payload)
      (Returned p i (.enqueueRuntimeEvent payload)) (enqueueRuntimeEvent p i payload) {} w := by
  unfold enqueueRuntimeEvent
  split
  · trivial
  · apply wp_enqueueEvent (Op.plain rfl) rfl
    intro w'
    apply returned_of_ne
    intro _ _ he
    cases he

theorem wp_enqueueNotificationDelivery {payload : Payload} :
    (protocol p missed).wp i (.enqueueNotificationDelivery payload)
      (Returned p i (.enqueueNotificationDelivery payload))
      (enqueueNotificationDelivery p i payload) {} w := by
  unfold enqueueNotificationDelivery
  split
  · trivial
  · apply wp_enqueueEvent (Op.plain rfl) rfl
    intro w'
    apply returned_of_ne
    intro _ _ he
    cases he

/-- By induction on the rounds. The outcomes of a round are of its own claims. -/
theorem wp_dispatchRounds {limit n : ℕ} {fault : ℕ → Option String} {k : ℕ → OutboxScript Reply}
    {Q : Reply → Txn TableWrite TableRow → World Tables → Prop}
    (h : ∀ dispatched t' w', Running p i (.dispatchPendingEvents n fault) t' w' →
      (protocol p missed).wp i (.dispatchPendingEvents n fault) Q (k dispatched) t' w')
    (fuel processed dispatched : ℕ) (ht : Running p i (.dispatchPendingEvents n fault) t w) :
    (protocol p missed).wp i (.dispatchPendingEvents n fault) Q
      (dispatchRounds p i limit fault fuel processed dispatched >>= k) t w := by
  induction fuel generalizing t w processed dispatched with
  | zero => exact h _ _ _ ht
  | succ fuel ih =>
    rw [dispatchRounds]
    split
    · exact h _ _ _ ht
    · rw [Script.bind_assoc]
      apply wp_claimNextEvents (Op.plain rfl) rfl ht
      intro claims t1 w1 ht1 hclaims
      have hheld (f : OutboxClaim → Option String) :
          ∀ o ∈ claims.map fun claim => (claim, f claim), ∀ row : RuntimeOutboxEvent,
            row.heldBy o.1.claimToken o.1.leaseGeneration = true →
            Op.Holds p i o.1.eventId row (.dispatchPendingEvents n fault) := by
        intro o ho row hrow
        obtain ⟨claim, hclaim, rfl⟩ := List.mem_map.mp ho
        obtain ⟨m, hm⟩ := (hclaims claim hclaim).token
        exact ⟨m, claim.leaseGeneration, hm ▸ hrow⟩
      split
      · exact h _ _ _ ht1
      · split
        · rw [Script.bind_assoc]
          apply wp_finalizeClaims (Op.plain rfl) ht1 fun _ _ o ho row _ => hheld _ o ho row
          exact fun outcome t2 w2 ht2 => ih _ _ ht2
        · rw [Script.bind_assoc]
          apply wp_rollback
          intro w2
          rw [Script.bind_assoc]
          apply wp_finalizeClaims (Op.plain rfl) .start fun _ _ o ho row _ => hheld _ o ho row
          exact fun outcome t2 w3 ht2 => ih _ _ ht2

theorem wp_dispatchPendingEvents {limit : ℕ} {fault : ℕ → Option String} :
    (protocol p missed).wp i (.dispatchPendingEvents limit fault)
      (Returned p i (.dispatchPendingEvents limit fault))
      (dispatchPendingEvents p i limit fault) {} w := by
  apply wp_dispatchRounds _ _ _ _ .start
  intro dispatched t1 w1 ht1
  refine wp_commit (Op.plain rfl) ht1 fun w2 _ => returned_of_ne fun _ _ he => ?_
  cases he

theorem wp_claimExternalDeliveries {kind : DeliveryKind} {limit : ℕ} :
    (protocol p missed).wp i (.claimExternalDeliveries kind limit)
      (Returned p i (.claimExternalDeliveries kind limit))
      (claimExternalDeliveries p i kind limit) {} w := by
  apply wp_claimNextEvents (Op.plain rfl) rfl .start
  intro claims t1 w1 _ hclaims
  exact fun _ _ _ => ⟨claims, rfl, hclaims⟩

theorem wp_finalizeExternalDelivery :
    (protocol p missed).wp i (.finalizeExternalDelivery claim error)
      (Returned p i (.finalizeExternalDelivery claim error))
      (finalizeExternalDelivery p claim error) {} w := by
  have hq (reply : Reply) (t : Txn TableWrite TableRow) (w : World Tables) :
      Returned p i (.finalizeExternalDelivery claim error) reply t w := by
    apply returned_of_ne
    intro _ _ he
    cases he
  apply wp_finalizeClaims (Op.plain rfl) .start
  · intro _ _ o ho row _ hrow
    rw [List.mem_singleton.mp ho] at hrow ⊢
    exact ⟨rfl, hrow⟩
  · intro outcome t1 w1 ht1
    split
    · exact hq _ _ _
    · exact wp_commit (Op.plain rfl) ht1 fun w2 _ => hq _ _ _

theorem wp_recordExternalDeliveryPart {partKey : String} :
    (protocol p missed).wp i (.recordExternalDeliveryPart claim partKey)
      (Returned p i (.recordExternalDeliveryPart claim partKey))
      (recordExternalDeliveryPart p claim partKey) {} w := by
  have hq (reply : Reply) (t : Txn TableWrite TableRow) (w : World Tables) :
      Returned p i (.recordExternalDeliveryPart claim partKey) reply t w := by
    apply returned_of_ne
    intro _ _ he
    cases he
  unfold recordExternalDeliveryPart
  split
  · trivial
  split
  · trivial
  apply wp_lockEvent .start
  intro found t1 w1 ht1 hfound
  apply wp_look ht1
  intro w2 e hr hs ht2
  cases found with
  | none => exact wp_rollback fun w3 => hq _ _ _
  | some row =>
    dsimp only
    split
    · next hrecords =>
      obtain ⟨c, hat, hrow⟩ := hfound row rfl
      have hat' : At claim.eventId c ⟨t1.held, t1.writes, some e.began⟩ w2 := hat.rely hr
      apply wp_flush ht2 hat'
      · intro began v hv
        simp only [List.mem_cons, List.not_mem_nil, or_false] at hv
        rcases hv with rfl | rfl <;> rfl
      · intro now began _
        refine ReflTransGen.single ?_
        have hstep :
            CellStep p i (.recordExternalDeliveryPart claim partKey) now claim.eventId c _ :=
          .recorded hrow rfl rfl hrecords
        simpa [Cell.write] using hstep
      · intro t3 w3 ht3 _
        exact wp_commit (Op.plain rfl) ht3 fun w4 _ => hq _ _ _
    · exact wp_rollback fun w3 => hq _ _ _

theorem wp_claimCleanups {limit : ℕ} :
    (protocol p missed).wp i (.claimCleanups limit) (Returned p i (.claimCleanups limit))
      (claimCleanups p i limit) {} w := by
  apply wp_claimNextEvents (Op.plain rfl) rfl .start
  intro claims t1 w1 ht1 _
  refine wp_commit (Op.plain rfl) ht1 fun w2 _ => returned_of_ne fun _ _ he => ?_
  cases he

end Operations

/-! ## Intents -/

section Intents

attribute [local irreducible] isManagedUrl StageArgs.matchesAttempt

variable {intent : Intent} {row : RuntimeOutboxEvent}

theorem content_of_intent (h : row.content.intent? = some intent) :
    row.content = .cleanup intent := by
  cases hc : row.content with
  | cleanup found =>
    rw [hc] at h
    cases h
    rfl
  | runtime kind payload => rw [hc] at h; cases h
  | external kind payload => rw [hc] at h; cases h

theorem content_of_targets {url : String} (h : row.targets url = some intent) :
    row.content = .cleanup intent ∧ intent.url = url := by
  obtain ⟨hintent, hurl⟩ := Option.filter_eq_some_iff.mp h
  exact ⟨content_of_intent hintent, of_decide_eq_true hurl⟩

variable {availableAt : Option ℕ}

theorem rearm_step {now began : ℕ} {c : Cell} {intent intent' : Intent} (hrow : c.event = some row)
    (hcontent : row.content = .cleanup intent) (hopen : intent.phase.Open)
    (htracked : intent'.phase = .tracked) (hurl : intent'.url = intent.url)
    (howner : OwnerStep op intent intent') :
    CellStep p i op now id c { c with event := some (row.rearmed intent' availableAt began) } :=
  @CellStep.rearmed p i op now id c row intent intent' availableAt row.dispatchedAt began hrow
    hcontent hopen htracked hurl howner

theorem wp_enqueue {k : Intent → OutboxScript α} (ht : Running p i op t w)
    (h : ∀ found t' w', Running p i op t' w' → (protocol p missed).wp i op Q (k found) t' w') :
    (protocol p missed).wp i op Q (enqueue p intent availableAt >>= k) t w := by
  unfold enqueue
  split
  · trivial
  · rw [Script.bind_assoc]
    apply wp_modifyEvent ht
    · intro now began c row row' _ hrow hbump
      unfold bumped at hbump
      split at hbump
      · next hif =>
        cases hbump
        obtain ⟨found, hfound⟩ := Option.isSome_iff_exists.mp hif.1
        exact .bumped hrow (content_of_targets hfound).1
      · cases hbump
    · intro found t1 w1 ht1 _
      cases found with
      | some row =>
        dsimp only
        cases row.targets intent.url with
        | none => trivial
        | some found => exact h _ _ _ ht1
      | none =>
        dsimp only
        rw [Script.bind_assoc]
        apply wp_insertEvent ht1
        · intro began
          refine ⟨rfl, rfl, rfl, rfl, rfl, fun intent' hintent => ?_⟩
          cases hintent
          exact ⟨rfl, rfl⟩
        · intro inserted t2 w2 ht2 _
          cases inserted with
          | true => exact h _ _ _ ht2
          | false => trivial

variable {k : Unit → OutboxScript α}

theorem wp_writeOwners {others : List OwnerWrite} (ht : Running p i op t w)
    (h : ∀ t' w', Running p i op t' w' → (protocol p missed).wp i op Q (k ()) t' w') :
    (protocol p missed).wp i op Q (writeOwners others >>= k) t w := by
  apply wp_write ht
  · rintro w' e _ r ⟨v, hv, rfl⟩
    obtain ⟨v', -, rfl⟩ := List.mem_map.mp hv
    cases v' <;> trivial
  · exact fun w' e _ _ ht' => h _ _ ht'

theorem wp_inTransaction {others : List OwnerWrite} {part : OutboxScript Unit}
    {Q : Reply → Txn TableWrite TableRow → World Tables → Prop} (hop : op.Plain)
    (hpart : ∀ k : Unit → OutboxScript Reply,
      (∀ t' w', Running p i op t' w' → (protocol p missed).wp i op Q (k ()) t' w') →
      (protocol p missed).wp i op Q (part >>= k) {} w)
    (hq : ∀ w', Q .done {} w') :
    (protocol p missed).wp i op Q (inTransaction others part) {} w :=
  hpart _ fun _ _ ht => wp_writeOwners ht fun _ _ ht' => wp_commit hop ht' fun _ _ => hq _

/-! ## Uploads, preflights and stages -/

theorem wp_registerPreflightSource {preflightId resourceId sourcePath : String}
    (hop : ∃ resourceId path availableAt others,
      op = .registerPreflightSource preflightId resourceId path availableAt others)
    (ht : Running p i op t w)
    (h : ∀ t' w', Running p i op t' w' → (protocol p missed).wp i op Q (k ()) t' w') :
    (protocol p missed).wp i op Q
      (registerPreflightSource p preflightId resourceId sourcePath availableAt >>= k) t w := by
  unfold registerPreflightSource
  rw [Script.bind_assoc]
  apply wp_modifyEvent ht
  · intro now began c row row' _ hrow hhanded
    obtain ⟨intent, hfilter, rfl⟩ := Option.map_eq_some_iff.mp hhanded
    obtain ⟨hintent, htest⟩ := Option.filter_eq_some_iff.mp hfilter
    rw [Bool.and_eq_true, decide_eq_true_eq, decide_eq_true_eq] at htest
    exact rearm_step hrow (content_of_intent hintent) (Or.inl htest.2) htest.2 rfl
      (.preflight hop htest.1 rfl)
  · intro found t1 w1 ht1 _
    split
    · split
      · exact h _ _ ht1
      · trivial
    · rw [Script.bind_assoc]
      exact wp_enqueue ht1 fun _ _ _ ht2 => h _ _ ht2

theorem returned_done (op : Op) (reply : Reply) (t : Txn TableWrite TableRow) (w : World Tables)
    (h : op.lane? = none) : Returned p i op reply t w := by
  apply returned_of_ne
  intro kind limit he
  rw [he] at h
  cases h

theorem wp_registerUploadSource {uploadId sourcePath : String} :
    (protocol p missed).wp i (.registerUploadSource uploadId sourcePath)
      (Returned p i (.registerUploadSource uploadId sourcePath))
      (registerUploadSource p uploadId sourcePath) {} w := by
  apply wp_databaseNow .start
  intro now t1 w1 ht1 _ _ _
  apply wp_enqueue ht1
  intro intent t2 w2 ht2
  split
  · trivial
  · exact wp_commit (Op.plain rfl) ht2 fun w3 _ => returned_done _ _ _ _ rfl

theorem wp_rearmUpload {uploadId sourcePath conflict : String} {delay : Option ℕ}
    (hop : op.isPlain = true) (hlane : op.lane? = none) :
    (protocol p missed).wp i op (Returned p i op)
      (rearmUpload p uploadId sourcePath conflict delay) {} w := by
  apply wp_modifyEvent .start
  · intro now began c row row' _ hrow hrearm
    obtain ⟨intent, hfilter, rfl⟩ := Option.map_eq_some_iff.mp hrearm
    obtain ⟨hintent, htest⟩ := Option.filter_eq_some_iff.mp hfilter
    have hphase : intent.phase = .tracked := by
      rw [Intent.uploadedBy, Bool.and_eq_true, decide_eq_true_eq] at htest
      exact htest.2
    exact rearm_step hrow (content_of_intent hintent) (Or.inl hphase) hphase rfl (.kept rfl rfl)
  · intro found t1 w1 ht1 _
    split
    · exact wp_commit (Op.plain hop) ht1 fun w2 _ => returned_done _ _ _ _ hlane
    · trivial

theorem wp_registerTargets {args : StageArgs}
    (ht : Running p i (.registerStage args) t w) :
    (protocol p missed).wp i (.registerStage args) (Returned p i (.registerStage args))
      (registerTargets p args) t w := by
  unfold registerTargets
  split
  · trivial
  · apply wp_enqueue ht
    intro _ t1 w1 ht1
    apply wp_enqueue ht1
    intro _ t2 w2 ht2
    apply wp_commit (Op.plain rfl) ht2
    exact fun w3 _ => returned_done _ _ _ _ rfl

theorem wp_registerStage {args : StageArgs} :
    (protocol p missed).wp i (.registerStage args) (Returned p i (.registerStage args))
      (registerStage p args) {} w := by
  unfold registerStage checkStageClaim
  cases args.owner with
  | compute =>
    dsimp only
    rw [Script.bind_assoc]
    unfold lockActiveRequestClaim
    apply wp_locks .start
    intro w1 e _ _ ht1
    split
    · trivial
    · split
      · exact wp_registerTargets ht1
      · trivial
  | build buildId =>
    dsimp only
    rw [Script.bind_assoc]
    unfold lockActiveJobClaim
    apply wp_locks .start
    intro w1 e _ _ ht1
    split
    · exact wp_registerTargets ht1
    · trivial

/-! ## Deletions -/

theorem wp_enqueueDatasourceTarget (hkind : intent.ownerKind = .datasource)
    (hop : op = .deleteDatasource intent.ownerId) (ht : Running p i op t w)
    (h : ∀ t' w', Running p i op t' w' → (protocol p missed).wp i op Q (k ()) t' w') :
    (protocol p missed).wp i op Q (enqueueDatasourceTarget p intent >>= k) t w := by
  unfold enqueueDatasourceTarget
  rw [Script.bind_assoc]
  apply wp_modifyEvent ht
  · intro now began c row row' _ hrow hretarget
    obtain ⟨found, hfilter, rfl⟩ := Option.map_eq_some_iff.mp hretarget
    obtain ⟨htargets, htest⟩ := Option.filter_eq_some_iff.mp hfilter
    obtain ⟨hcontent, hurl⟩ := content_of_targets htargets
    rw [Bool.or_eq_true, decide_eq_true_eq, decide_eq_true_eq] at htest
    exact .rearmed hrow hcontent htest rfl hurl.symm (.datasource hop hkind)
  · intro found t1 w1 ht1 _
    cases found with
    | none =>
      dsimp only
      rw [Script.bind_assoc]
      apply wp_enqueue ht1
      exact fun _ t2 w2 ht2 => h _ _ ht2
    | some row =>
      dsimp only
      split
      · trivial
      · exact h _ _ ht1

/-- By induction on the targets. -/
theorem wp_enqueueTargets {intents : List Intent}
    (hintents : ∀ intent ∈ intents, intent.ownerKind = .datasource ∧
      op = .deleteDatasource intent.ownerId) (ht : Running p i op t w)
    (h : ∀ t' w', Running p i op t' w' → (protocol p missed).wp i op Q (k ()) t' w') :
    (protocol p missed).wp i op Q (enqueueTargets p intents >>= k) t w := by
  induction intents generalizing t w with
  | nil => exact h _ _ ht
  | cons intent rest ih =>
    have hrest := fun intent h => hintents intent (List.mem_cons_of_mem _ h)
    obtain ⟨hkind, hop⟩ := hintents intent List.mem_cons_self
    rw [enqueueTargets]
    split
    · rw [Script.bind_assoc]
      exact wp_enqueueDatasourceTarget hkind hop ht fun _ _ ht1 => ih hrest ht1
    · exact ih hrest ht

/-- By induction on the intents that are armed again. -/
theorem wp_rearmEach {snapshots : List (String × Intent)} (ht : Running p i op t w)
    (h : ∀ t' w', Running p i op t' w' → (protocol p missed).wp i op Q (k ()) t' w') :
    (protocol p missed).wp i op Q (rearmEach snapshots >>= k) t w := by
  induction snapshots generalizing t w with
  | nil => exact h _ _ ht
  | cons snapshot rest ih =>
    obtain ⟨id, snapshot⟩ := snapshot
    rw [rearmEach, Script.bind_assoc]
    apply wp_modifyEvent ht
    · intro now began c row row' _ hrow hrepublish
      obtain ⟨intent, hfilter, rfl⟩ := Option.map_eq_some_iff.mp hrepublish
      obtain ⟨hintent, htest⟩ := Option.filter_eq_some_iff.mp hfilter
      simp only [Bool.and_eq_true, decide_eq_true_eq] at htest
      exact .rearmed hrow (content_of_intent hintent) (Or.inr htest.1.2) rfl rfl (.kept rfl rfl)
    · exact fun _ _ _ ht1 _ => ih ht1

variable {datasourceId : String}

theorem owner_cleanupIntents {row : Datasources.DataSource}
    {catalog : Option Storage.CatalogIdentity}
    (h : intent ∈ cleanupIntents row datasourceId catalog) :
    intent.ownerKind = .datasource ∧ intent.ownerId = datasourceId := by
  unfold cleanupIntents at h
  rw [List.mem_insertionSort] at h
  obtain ⟨target, -, rfl⟩ := List.mem_map.mp h
  exact ⟨rfl, rfl⟩

theorem wp_removeDatasource (ht : Running p i (.deleteDatasource datasourceId) t w) :
    (protocol p missed).wp i (.deleteDatasource datasourceId)
      (Returned p i (.deleteDatasource datasourceId)) (removeDatasource datasourceId) t w := by
  apply wp_write ht
  · rintro w' e _ r ⟨v, hv, rfl⟩
    rw [List.mem_singleton.mp hv]
    change DatasourceStep _ _ _ ((e.db.datasources.put datasourceId none).get datasourceId)
    rw [Table.get_put, if_pos rfl]
    exact .deleted rfl
  · intro w' e _ _ ht'
    apply wp_commit (Op.plain rfl) ht'
    exact fun w3 _ => returned_done _ _ _ _ rfl

theorem wp_deleteDatasource :
    (protocol p missed).wp i (.deleteDatasource datasourceId)
      (Returned p i (.deleteDatasource datasourceId)) (deleteDatasource p datasourceId) {} w := by
  apply wp_locks .start
  intro w1 e _ _ ht1
  split
  · exact returned_done _ _ _ _ rfl
  · next row _ =>
    unfold enqueueDatasourceCleanup
    split
    · trivial
    · next catalog _ =>
      rw [Script.bind_assoc]
      apply wp_enqueueTargets _ ht1
      · intro t2 w2 ht2
        cases catalog with
        | none => exact wp_removeDatasource ht2
        | some identity =>
          dsimp only
          unfold rearmPublishedCatalogIntents
          rw [Script.bind_assoc]
          apply wp_look ht2
          intro w3 e' _ _ ht3
          exact wp_rearmEach ht3 fun _ _ ht4 => wp_removeDatasource ht4
      · intro intent hintent
        obtain ⟨hkind, howner⟩ := owner_cleanupIntents hintent
        exact ⟨hkind, by rw [howner]⟩

end Intents
end DataForge.Outbox
