import DataForge.Outbox.Authorizations

/-!
# The runtime outbox: what one step keeps

One allowed step on an event: the generation of its lease, the claims that it has left behind,
the receipts of its parts, and the phase and the owner of an intent.
-/

namespace DataForge.Outbox

open ReadCommitted Relation

variable {p : Platform} {i : ℕ} {op : Op} {now : ℕ} {id : String} {c c' : Cell}
  {row : RuntimeOutboxEvent}

/-! ## Claims -/

theorem heldBy_iff {token : String} {generation : ℕ} :
    row.heldBy token generation = true ↔ row.status = .dispatching ∧
      row.claimToken = some token ∧ row.leaseGeneration = generation := by
  rw [RuntimeOutboxEvent.heldBy, Bool.and_eq_true, Bool.and_eq_true, decide_eq_true_eq,
    decide_eq_true_eq, decide_eq_true_eq, and_assoc]

theorem Op.Holds.held (h : op.Holds p i id row) :
    ∃ token generation, row.heldBy token generation = true := by
  cases op with
  | dispatchPendingEvents limit fault =>
    obtain ⟨n, generation, h⟩ := h
    exact ⟨_, _, h⟩
  | finalizeExternalDelivery claim error => exact ⟨_, _, h.2⟩
  | recordExternalDeliveryPart claim partKey => exact ⟨_, _, h.2⟩
  | authorizeCleanup id' token generation => exact ⟨_, _, h.2.1⟩
  | completeCleanup id' token generation error => exact ⟨_, _, h.2.1⟩
  | _ => cases h

theorem Op.Holds.dispatching (h : op.Holds p i id row) : row.status = .dispatching := by
  obtain ⟨token, generation, hheld⟩ := h.held
  exact (heldBy_iff.mp hheld).1

theorem records_held {claim : OutboxClaim} {noted : ℕ} (h : row.records claim noted = true) :
    row.content.external? = some .telegram ∧
      row.heldBy claim.claimToken claim.leaseGeneration = true := by
  rw [RuntimeOutboxEvent.records, Bool.and_eq_true, Bool.and_eq_true, decide_eq_true_eq] at h
  exact h.1

theorem settled_not_dispatching (s : Settings) (error : Option String) (began : ℕ) :
    (row.settled s error began).status ≠ .dispatching := by
  unfold RuntimeOutboxEvent.settled
  cases error with
  | none => rintro ⟨⟩
  | some text =>
    dsimp only
    split <;> rintro ⟨⟩

theorem settled_event {s : Settings} {record : Bool} {began : ℕ} {error : Option String} :
    ((settledRows s record began id row c.receipt error).foldl
      (fun c v => c.write id v) c).event = some (row.settled s error began) := by
  obtain ⟨receipt, hcell, -⟩ := settled_cell s record began id row error c
  rw [hcell]

/-- The claim does not hold the row, and its generation is not ahead. -/
def Lost (token : String) (generation : ℕ) (row : RuntimeOutboxEvent) : Prop :=
  generation ≤ row.leaseGeneration ∧ row.heldBy token generation = false

theorem lost_of_lt {token : String} {generation : ℕ} (hlt : generation < row.leaseGeneration) :
    Lost token generation row := by
  refine ⟨Nat.le_of_lt hlt, Bool.eq_false_iff.mpr fun hheld => ?_⟩
  exact Nat.ne_of_gt hlt (heldBy_iff.mp hheld).2.2

/-- Events are never removed, and a row is not held by a claim of its generation or an earlier one
that did not hold it before. -/
theorem CellStep.succeeds (h : CellStep p i op now id c c') (hrow : c.event = some row) :
    ∃ row', c'.event = some row' ∧ (row.leaseGeneration < row'.leaseGeneration ∨
      row'.leaseGeneration = row.leaseGeneration ∧ ∀ token generation,
        row'.heldBy token generation = true → row.heldBy token generation = true) := by
  cases h with
  | enqueued hnone => rw [hnone] at hrow; cases hrow
  | claimed hrow' => cases hrow.symm.trans hrow'; exact ⟨_, rfl, .inl (Nat.lt_succ_self _)⟩
  | rearmed hrow' => cases hrow.symm.trans hrow'; exact ⟨_, rfl, .inl (Nat.lt_succ_self _)⟩
  | settled hrow' =>
    cases hrow.symm.trans hrow'
    refine ⟨_, settled_event, .inr ⟨settled_generation _ _ _ _, fun _ _ hheld => ?_⟩⟩
    exact absurd (heldBy_iff.mp hheld).1 (settled_not_dispatching _ _ _)
  | referenced hrow' hcontent hsettle =>
    cases hrow.symm.trans hrow'
    obtain ⟨-, rfl⟩ := settleReferenced_eq hsettle
    exact ⟨_, rfl, .inr ⟨rfl, fun _ _ hheld => by cases (heldBy_iff.mp hheld).1⟩⟩
  | recorded hrow' | bumped hrow' | authorized hrow' | deleted hrow' =>
    cases hrow.symm.trans hrow'
    exact ⟨_, rfl, .inr ⟨rfl, fun _ _ hheld => hheld⟩⟩

/-- A lost claim is not regained: each new claim has a generation of its own. -/
theorem CellStep.lost {token : String} {generation : ℕ} (h : CellStep p i op now id c c')
    (hc : ∃ row, c.event = some row ∧ Lost token generation row) :
    ∃ row, c'.event = some row ∧ Lost token generation row := by
  obtain ⟨row, hrow, hle, hlost⟩ := hc
  obtain ⟨row', hrow', hlt | ⟨hsame, hheld⟩⟩ := h.succeeds hrow
  · exact ⟨row', hrow', lost_of_lt (Nat.lt_of_le_of_lt hle hlt)⟩
  · refine ⟨row', hrow', hsame ▸ hle, Bool.eq_false_iff.mpr fun h' => ?_⟩
    exact Bool.eq_false_iff.mp hlost (hheld _ _ h')

/-- The generation of a lease never goes back. -/
theorem CellStep.generation {n : ℕ} (h : CellStep p i op now id c c')
    (hc : ∃ row, c.event = some row ∧ n ≤ row.leaseGeneration) :
    ∃ row, c'.event = some row ∧ n ≤ row.leaseGeneration := by
  obtain ⟨row, hrow, hn⟩ := hc
  obtain ⟨row', hrow', hlt | ⟨hsame, -⟩⟩ := h.succeeds hrow
  · exact ⟨row', hrow', Nat.le_of_lt (Nat.lt_of_le_of_lt hn hlt)⟩
  · exact ⟨row', hrow', hsame ▸ hn⟩

/-! ## Deliveries -/

/-- The delivery of the event has ended. -/
def RuntimeOutboxEvent.Final (row : RuntimeOutboxEvent) : Prop :=
  row.content.intent? = none ∧ (row.status = .dispatched ∨ row.status = .poisoned)

theorem intent_ne_none {intent : Intent} (h : row.content = .cleanup intent) :
    row.content.intent? ≠ none := by
  rw [h]
  rintro ⟨⟩

theorem RuntimeOutboxEvent.Final.not_due (h : row.Final) (now : ℕ) : row.due now = false := by
  unfold RuntimeOutboxEvent.due
  rcases h.2 with hs | hs <;> simp [hs]

theorem RuntimeOutboxEvent.Final.not_held (h : row.Final) : ¬ op.Holds p i id row := by
  intro hheld
  have hstatus := hheld.dispatching
  rcases h.2 with hs | hs <;> rw [hs] at hstatus <;> cases hstatus

/-- Nothing is done to a delivery that has ended. -/
theorem CellStep.final (h : CellStep p i op now id c c') (hrow : c.event = some row)
    (hfinal : row.Final) : False := by
  have hnot {row' : RuntimeOutboxEvent} {intent : Intent} (hrow' : c.event = some row')
      (hcontent : row'.content = .cleanup intent) : False := by
    cases hrow.symm.trans hrow'
    exact intent_ne_none hcontent hfinal.1
  cases h with
  | enqueued hnone hfresh => rw [hnone] at hrow; cases hrow
  | claimed hrow' hop hlane hbegan hdue =>
    cases hrow.symm.trans hrow'
    rw [hfinal.not_due] at hdue
    cases hdue
  | settled hrow' hheld => cases hrow.symm.trans hrow'; exact hfinal.not_held hheld
  | recorded hrow' hop hid hrecords =>
    cases hrow.symm.trans hrow'
    have hstatus := (heldBy_iff.mp (records_held hrecords).2).1
    rcases hfinal.2 with hs | hs <;> rw [hs] at hstatus <;> cases hstatus
  | bumped hrow' hcontent => exact hnot hrow' hcontent
  | rearmed hrow' hcontent => exact hnot hrow' hcontent
  | referenced hrow' hcontent => exact hnot hrow' hcontent
  | authorized hrow' hcontent => exact hnot hrow' hcontent
  | deleted hrow' hcontent => exact hnot hrow' hcontent

/-- What a step makes of the content of an event: nothing, or of an intent one in another phase,
for the same object and an owner that it may have got. -/
theorem CellStep.contents (h : CellStep p i op now id c c') (hrow : c.event = some row) :
    ∃ row', c'.event = some row' ∧ (row'.content = row.content ∨
      ∃ intent intent', row.content = .cleanup intent ∧ row'.content = .cleanup intent' ∧
        intent'.url = intent.url ∧ OwnerStep op intent intent' ∧ (intent.phase.Open ∨
          intent' = { intent with phase := .authorized } ∧
            (intent.phase = .tracked ∨ intent.phase = .authorized) ∨
          intent' = { intent with phase := .deleted } ∧ intent.phase = .authorized)) := by
  cases h with
  | enqueued hnone => rw [hnone] at hrow; cases hrow
  | settled hrow' =>
    cases hrow.symm.trans hrow'
    exact ⟨_, settled_event, .inl (settled_content ..)⟩
  | claimed hrow' | recorded hrow' | bumped hrow' =>
    cases hrow.symm.trans hrow'
    exact ⟨_, rfl, .inl rfl⟩
  | rearmed hrow' hcontent hopen _ hurl howner =>
    cases hrow.symm.trans hrow'
    exact ⟨_, rfl, .inr ⟨_, _, hcontent, rfl, hurl, howner, .inl hopen⟩⟩
  | referenced hrow' hcontent hsettle =>
    cases hrow.symm.trans hrow'
    obtain ⟨hopen, rfl⟩ := settleReferenced_eq hsettle
    exact ⟨_, rfl, .inr ⟨_, _, hcontent, rfl, rfl, .kept rfl rfl, .inl hopen⟩⟩
  | authorized hrow' hcontent _ _ hphase =>
    cases hrow.symm.trans hrow'
    exact ⟨_, rfl, .inr ⟨_, _, hcontent, rfl, rfl, .kept rfl rfl, .inr (.inl ⟨rfl, hphase⟩)⟩⟩
  | deleted hrow' hcontent _ _ hphase =>
    cases hrow.symm.trans hrow'
    exact ⟨_, rfl, .inr ⟨_, _, hcontent, rfl, rfl, .kept rfl rfl, .inr (.inr ⟨rfl, hphase⟩)⟩⟩

/-- The payload of a delivery never changes. -/
theorem CellStep.payload {content : Content} (hcontent : content.intent? = none)
    (h : CellStep p i op now id c c') (hc : ∃ row, c.event = some row ∧ row.content = content) :
    ∃ row, c'.event = some row ∧ row.content = content := by
  obtain ⟨row, hrow, rfl⟩ := hc
  obtain ⟨row', hrow', hsame | ⟨intent, -, hcleanup, -⟩⟩ := h.contents hrow
  · exact ⟨row', hrow', hsame⟩
  · exact absurd hcontent (intent_ne_none hcleanup)

/-! ## Parts -/

/-- The part is recorded, or the delivery has ended. -/
def Cell.Noted (c : Cell) (part : String) : Prop :=
  part ∈ c.parts.map PartReceipt.partKey ∨ ∃ row, c.event = some row ∧ row.Final

theorem mem_addPart {parts : List PartReceipt} {partKey part : String} {noted : ℕ}
    (h : part ∈ parts.map PartReceipt.partKey) :
    part ∈ (addPart parts partKey noted).map PartReceipt.partKey := by
  unfold addPart
  split
  · exact h
  · rw [List.map_append]
    exact List.mem_append_left _ h

/-- A recorded part is forgotten by the settlement that ends the delivery only. -/
theorem CellStep.noted {part : String} (h : CellStep p i op now id c c') (hc : c.Noted part) :
    c'.Noted part := by
  rcases hc with hpart | ⟨row, hrow, hfinal⟩
  swap
  · exact (h.final hrow hfinal).elim
  cases h with
  | @settled row error record began hrow' hheld =>
    obtain ⟨receipt, hcell, -⟩ := settled_cell p.settings record began id row error c
    rw [hcell]
    by_cases hends : (error.isNone && decide (row.content.external? = some .telegram)) = true
    · rw [Bool.and_eq_true, decide_eq_true_eq] at hends
      obtain rfl : error = none := Option.isNone_iff_eq_none.mp hends.1
      refine Or.inr ⟨_, rfl, ?_, Or.inl rfl⟩
      rw [settled_content]
      cases hcontent : row.content with
      | cleanup intent => rw [hcontent] at hends; cases hends.2
      | runtime kind payload => rfl
      | external kind payload => rfl
    · refine Or.inl ?_
      rw [if_neg hends]
      exact hpart
  | recorded hrow' => exact Or.inl (mem_addPart hpart)
  | _ => exact Or.inl hpart

/-! ## Phases -/

/-- The deletion of the object is authorized or done; nothing else of the intent has changed. -/
def Cell.Doomed (c : Cell) (intent : Intent) : Prop :=
  ∃ row phase, c.event = some row ∧ row.content = .cleanup { intent with phase } ∧
    (phase = .deleted ∨ (phase = .authorized ∧ intent.phase ≠ .deleted))

theorem not_open_of_doomed {phase : StorageCleanupPhase} {intent : Intent}
    (h : phase = .deleted ∨ (phase = .authorized ∧ intent.phase ≠ .deleted)) : ¬ phase.Open := by
  rintro (rfl | rfl)
  · rcases h with h | ⟨h, -⟩ <;> cases h
  · rcases h with h | ⟨h, -⟩ <;> cases h

/-- An authorization is never taken back, and a deletion is final. -/
theorem CellStep.doomed {intent : Intent} (h : CellStep p i op now id c c')
    (hc : c.Doomed intent) : c'.Doomed intent := by
  obtain ⟨row, phase, hrow, hcontent, hphase⟩ := hc
  obtain ⟨row', hrow', hsame | ⟨before, after, hbefore, hafter, -, -, hstep⟩⟩ := h.contents hrow
  · exact ⟨row', phase, hrow', hsame.trans hcontent, hphase⟩
  · cases hbefore.symm.trans hcontent
    rcases hstep with hopen | ⟨rfl, hauthorized⟩ | ⟨rfl, -⟩
    · exact (not_open_of_doomed hphase hopen).elim
    · refine ⟨row', .authorized, hrow', hafter, Or.inr ⟨rfl, ?_⟩⟩
      rcases hphase with rfl | ⟨-, hphase⟩
      · rcases hauthorized with h | h <;> cases h
      · exact hphase
    · exact ⟨row', .deleted, hrow', hafter, Or.inl rfl⟩

/-- The call completes an authorized cleanup under its current claim. -/
def Completes (op : Op) (id : String) (row : RuntimeOutboxEvent) : Prop :=
  ∃ intent token generation, row.content = .cleanup intent ∧ intent.phase = .authorized ∧
    op = .completeCleanup id token generation none ∧ row.heldBy token generation = true

/-- The object is not deleted, and the call does not complete its cleanup. -/
def Undeleted (op : Op) (id : String) (c : Cell) : Prop :=
  ∀ row, c.event = some row → (∀ intent, row.content = .cleanup intent →
    intent.phase ≠ .deleted) ∧ ¬ Completes op id row

/-- Nothing but the completion of an authorized cleanup deletes an object. -/
theorem CellStep.undeleted (h : CellStep p i op now id c c') (hc : Undeleted op id c) :
    Undeleted op id c' := by
  have hset {d : Cell} {row' : RuntimeOutboxEvent} {intent : Intent} (hd : d.event = some row')
      (hcontent : row'.content = .cleanup intent) (hphase : intent.phase ≠ .deleted)
      (hnot : intent.phase = .authorized → ∀ token generation,
        op ≠ .completeCleanup id token generation none) : Undeleted op id d := by
    intro row hrow
    cases hd.symm.trans hrow
    constructor
    · intro intent' hintent'
      cases hcontent.symm.trans hintent'
      exact hphase
    · rintro ⟨intent', token, generation, hintent', hauthorized, hop, -⟩
      cases hcontent.symm.trans hintent'
      exact hnot hauthorized _ _ hop
  have hkeep {d : Cell} {row row' : RuntimeOutboxEvent} (hrow : c.event = some row)
      (hd : d.event = some row') (hcontent : row'.content = row.content)
      (hnot : ∀ token generation, op = .completeCleanup id token generation none →
        row'.heldBy token generation = true → row.heldBy token generation = true) :
      Undeleted op id d := by
    intro row1 hrow1
    cases hd.symm.trans hrow1
    obtain ⟨hphase, hcompletes⟩ := hc row hrow
    constructor
    · exact fun intent hintent => hphase intent (hcontent.symm.trans hintent)
    · rintro ⟨intent, token, generation, hintent, hauthorized, hop, hheld⟩
      exact hcompletes ⟨intent, token, generation, hcontent.symm.trans hintent, hauthorized, hop,
        hnot _ _ hop hheld⟩
  cases h with
  | enqueued hnone hfresh =>
    intro row hrow
    cases hrow
    constructor
    · intro intent hintent
      rw [(hfresh.intent intent hintent).1]
      rintro ⟨⟩
    · rintro ⟨intent, token, generation, hintent, hauthorized, -⟩
      rw [(hfresh.intent intent hintent).1] at hauthorized
      cases hauthorized
  | claimed hrow hop =>
    refine hkeep hrow rfl rfl fun token generation hcomplete _ => ?_
    rw [hcomplete] at hop
    cases hop
  | settled hrow hheld =>
    refine hkeep hrow settled_event (settled_content ..) fun token generation _ hlost => ?_
    exact absurd (heldBy_iff.mp hlost).1 (settled_not_dispatching _ _ _)
  | recorded hrow hop =>
    refine hkeep hrow rfl rfl fun token generation hcomplete _ => ?_
    rw [hcomplete] at hop
    cases hop
  | bumped hrow => exact hkeep hrow rfl rfl fun _ _ _ hheld => hheld
  | rearmed hrow hcontent hopen htracked =>
    refine hset rfl rfl (by rw [htracked]; rintro ⟨⟩) fun hauthorized => ?_
    rw [htracked] at hauthorized
    cases hauthorized
  | referenced hrow hcontent hsettle =>
    obtain ⟨-, rfl⟩ := settleReferenced_eq hsettle
    exact hset rfl rfl (by rintro ⟨⟩) (by rintro ⟨⟩)
  | authorized hrow hcontent hop =>
    refine hset rfl rfl (by rintro ⟨⟩) fun _ token generation hcomplete => ?_
    rw [hcomplete] at hop
    cases hop
  | deleted hrow hcontent hop hheld hphase =>
    exact absurd ⟨_, _, _, hcontent, hphase, hop, hheld⟩ (hc _ hrow).2

/-! ## Owners -/

theorem OwnerStep.trans {a b d : Intent} (h : OwnerStep op a b) (h' : OwnerStep op b d) :
    OwnerStep op a d := by
  cases h' with
  | kept hkind hid =>
    cases h with
    | kept hkind' hid' => exact .kept (hkind.trans hkind') (hid.trans hid')
    | preflight hop hbefore hafter => exact .preflight (hid ▸ hop) hbefore (hkind.trans hafter)
    | source hop hbefore hafter => exact .source (hid ▸ hop) hbefore (hkind.trans hafter)
    | datasource hop hafter => exact .datasource (hid ▸ hop) (hkind.trans hafter)
  | preflight hop hbefore hafter =>
    cases h with
    | kept hkind hid => exact .preflight hop (hkind.symm.trans hbefore) hafter
    | preflight _ _ hkind => rw [hkind] at hbefore; cases hbefore
    | source _ _ hkind => rw [hkind] at hbefore; cases hbefore
    | datasource _ hkind => rw [hkind] at hbefore; cases hbefore
  | source hop hbefore hafter =>
    obtain ⟨path, others, rfl⟩ := hop
    cases h with
    | kept hkind hid => exact .source ⟨path, others, rfl⟩ (by rwa [hkind] at hbefore) hafter
    | preflight hop' => obtain ⟨_, _, _, _, hop'⟩ := hop'; cases hop'
    | source _ _ hkind => rw [hkind] at hbefore; rcases hbefore with h | h <;> cases h
    | datasource hop' => cases hop'
  | datasource hop hafter => exact .datasource hop hafter

/-- The event tracks the same object, for an owner that the call may have set. -/
def Cell.Tracks (op : Op) (intent : Intent) (c : Cell) : Prop :=
  ∃ row intent', c.event = some row ∧ row.content = .cleanup intent' ∧ intent'.url = intent.url ∧
    OwnerStep op intent intent'

/-- An event keeps its object, and its owner changes by a hand-over only. -/
theorem CellStep.tracks {intent : Intent} (h : CellStep p i op now id c c')
    (hc : c.Tracks op intent) : c'.Tracks op intent := by
  obtain ⟨row, intent₀, hrow, hcontent, hurl, howner⟩ := hc
  obtain ⟨row', hrow', hsame | ⟨before, after, hbefore, hafter, hurl', howner', -⟩⟩ :=
    h.contents hrow
  · exact ⟨row', intent₀, hrow', hsame.trans hcontent, hurl, howner⟩
  · cases hbefore.symm.trans hcontent
    exact ⟨row', after, hrow', hafter, hurl'.trans hurl, howner.trans howner'⟩

end DataForge.Outbox
