import DataForge.Outbox.Lifecycle

/-!
# The runtime outbox: safety

What holds in every run of every interleaving of the operations, from a database without events:
claims are fenced, recorded parts are not posted again, an authorized deletion is final, an
uploaded source has one consumer, and nothing that a datasource names is authorized for deletion
unless a publication has not found the intent, or an output has come to name it.
-/

namespace DataForge.Outbox

open ReadCommitted Relation

abbrev OutboxSystem := System Op Tables TableWrite TableRow Reply

/-- `s'` is reached from `s` by some interleaving. -/
def Reaches (p : Platform) (s s' : OutboxSystem) : Prop := Run (code p) (fun _ _ _ => True) s s'

/-- A state that some interleaving reaches from a database without events and without calls. -/
def Reachable (p : Platform) (s : OutboxSystem) : Prop :=
  ∃ now db, (∀ id, db.events.get id = none) ∧ Reaches p ⟨now, db, []⟩ s

/-- On the way to `s`, call `i` looks for an intent in order to settle it, and there is none. -/
def Misses (p : Platform) (s : OutboxSystem) (i : ℕ) (id : String) : Prop :=
  ∃ u op next t, Reachable p u ∧ Reaches p u s ∧
    u.calls[i]? = some ⟨op, .exec (settleEffect id) next, t⟩ ∧ u.db.events.get id = none

/-- On the way to `s`, call `i` commits the row of an output that comes to name an object whose
intent is `id`. -/
def Names (p : Platform) (s : OutboxSystem) (i : ℕ) (id : String) : Prop :=
  ∃ u u' c datasourceId row path, Reachable p u ∧ u.step (code p) (.run i) = some u' ∧
    Reaches p u' s ∧ u.calls[i]? = some c ∧ c.op.Stages datasourceId ∧
    u'.db.datasources.get datasourceId = some row ∧
    u.db.datasources.get datasourceId ≠ some row ∧ path ∈ exactPaths row.config ∧
    p.eventId path = id

/-- On the way to `s`, call `i` passes the intent by. -/
def Passes (p : Platform) (s : OutboxSystem) (i : ℕ) (id : String) : Prop :=
  Misses p s i id ∨ Names p s i id

section Runs

variable {p : Platform} {s s' : OutboxSystem} {a : Action Op} {id : String}

theorem Reachable.trans (h : Reachable p s) (hr : Reaches p s s') : Reachable p s' := by
  obtain ⟨now, db, hempty, hrun⟩ := h
  exact ⟨now, db, hempty, hrun.trans hr⟩

theorem Reaches.step (hs : s.step (code p) a = some s') : Reaches p s s' :=
  (Run.refl s).step hs trivial

theorem Passes.mono {i : ℕ} (h : Passes p s i id) (hr : Reaches p s s') : Passes p s' i id := by
  refine h.imp (fun hmisses => ?_) fun hnames => ?_
  · obtain ⟨u, op, next, t, hu, hus, hrest⟩ := hmisses
    exact ⟨u, op, next, t, hu, hus.trans hr, hrest⟩
  · obtain ⟨u, u', c, datasourceId, row, path, hu, hs, hus, hrest⟩ := hnames
    exact ⟨u, u', c, datasourceId, row, path, hu, hs, hus.trans hr, hrest⟩

theorem Reachable.admits {u u' : OutboxSystem} (hu : Reachable p u)
    (hs : u.step (code p) a = some u') (hus : Reaches p u' s) :
    (protocol p (Passes p s)).Admits u a u' where
  calls _ _ := trivial
  cond i c next ha hc _ datasourceId row hop hrow hne path hpath := by
    subst ha
    exact ⟨i, Or.inr ⟨u, u', c, datasourceId, row, path, hu, hs, hus, hc, hop, hrow, hne, hpath,
      rfl⟩⟩
  visited i c effect next _ hc hexec id heffect hnone := by
    obtain ⟨op, script, t⟩ := c
    subst hexec heffect
    exact Or.inl ⟨u, op, next, t, hu, (Reaches.step hs).trans hus, hc, hnone⟩

theorem Reachable.good (h : Reachable p s) (hr : Reaches p s s') :
    Good (protocol p (Passes p s')) (Returned p) s := by
  obtain ⟨now, db, hempty, hrun⟩ := h
  have hkeyed : Keyed p db := fun id row intent hrow => by rw [hempty id] at hrow; cases hrow
  refine (Good.start hkeyed).run (verified p _) (hrun.steps_along.mono fun u a u' hu => ?_)
  exact Reachable.admits ⟨now, db, hempty, hu.2.1⟩ hu.2.2.1 (hu.2.2.2.trans hr)

theorem Reachable.commits (h : Reachable p s) (hs : s.step (code p) a = some s') :
    s'.db = s.db ∨ ∃ i c, a = .run i ∧ s.calls[i]? = some c ∧
      Commit p (Passes p s') i c.op c.txn.held s.world s'.db := by
  rcases (h.good (Reaches.step hs)).changes hs (h.admits hs (.refl s')) with hdb |
    ⟨i, c, _, ha, hc, -, -, -, -, hact⟩
  · exact Or.inl hdb
  · exact Or.inr ⟨i, c, ha, hc, hact⟩

theorem Reachable.keyed (h : Reachable p s) : Keyed p s.db := (h.good (.refl s)).inv

/-- The induction rule for one event: what every step keeps, every run keeps. -/
theorem Reaches.cell {S : Cell → Prop}
    (step : ∀ i op now c c', CellStep p i op now id c c' → S c → S c')
    (h : Reachable p s) (hr : Reaches p s s') (hS : S (s.db.cell id)) : S (s'.db.cell id) := by
  induction hr with
  | refl => exact hS
  | step hr hs _ ih =>
    rcases (h.trans hr).commits hs with hdb | ⟨i, c, -, -, hc⟩
    · rw [hdb]
      exact ih
    · exact steps_preserve (step i c.op _) (hc.moves (.event id)) ih

end Runs

/-! ## Claims -/

/-- What becomes of an event between `s` and `s'`. -/
structure Fenced (s s' : OutboxSystem) (id : String) (row : RuntimeOutboxEvent) : Prop where
  /-- Events are not removed, and the generation of a lease does not go back. -/
  generation : ∃ row', s'.db.events.get id = some row' ∧
    row.leaseGeneration ≤ row'.leaseGeneration
  /-- A claim that does not hold the event will not hold it again. -/
  lost (token : String) (generation : ℕ) : generation ≤ row.leaseGeneration →
    row.heldBy token generation = false →
      ∃ row', s'.db.events.get id = some row' ∧ row'.heldBy token generation = false
  /-- A delivery keeps its payload. -/
  payload : row.content.intent? = none →
    ∃ row', s'.db.events.get id = some row' ∧ row'.content = row.content
  /-- A delivery that has ended is not touched, nor are its receipts. -/
  final : row.Final → s'.db.cell id = s.db.cell id

/-- Claims are fenced in every run: by their generation, and by the end of the delivery. -/
theorem outbox_fenced (p : Platform) (s s' : OutboxSystem) (h : Reachable p s)
    (hr : Reaches p s s') (id : String) (row : RuntimeOutboxEvent)
    (hrow : s.db.events.get id = some row) : Fenced s s' id row where
  generation := Reaches.cell (fun _ _ _ _ _ hs hc => hs.generation hc) h hr
    ⟨row, hrow, Nat.le_refl _⟩
  lost token generation hle hheld := by
    have hstart : ∃ row, (s.db.cell id).event = some row ∧ Lost token generation row :=
      ⟨row, hrow, hle, hheld⟩
    obtain ⟨row', hrow', -, hlost⟩ := Reaches.cell (fun _ _ _ _ _ hs hc => hs.lost hc) h hr hstart
    exact ⟨row', hrow', hlost⟩
  payload hcontent := Reaches.cell (fun _ _ _ _ _ hs hc => hs.payload hcontent hc) h hr
    ⟨row, hrow, rfl⟩
  final hfinal := by
    refine Reaches.cell (S := fun c => c = s.db.cell id) ?_ h hr rfl
    rintro i op now c c' hs rfl
    exact (hs.final hrow hfinal).elim

def samplePlatform : Platform where
  uuid4 i n := "e" ++ toString i ++ toString n
  isUuid _ := true
  ns := "ns"
  eventId url := url
  databaseUrl := "postgresql://db"
  sourceInUse _ _ _ := false

def sampleStart : OutboxSystem := ⟨0, ⟨.empty, .empty, .empty, .empty, .empty, .empty⟩, []⟩

def sampleDelivery : Payload := [("kind", .str "telegram_delivery"), ("body", .str "x")]

/-- A message is queued and claimed, and its first part is recorded. -/
def sampleRecorded : List (Action Op) :=
  .spawn (.enqueueNotificationDelivery sampleDelivery) :: List.replicate 3 (.run 0) ++
  .spawn (.claimExternalDeliveries .telegram 1) :: List.replicate 3 (.run 1) ++
  .spawn (.recordExternalDeliveryPart
    { eventId := "e00", claimToken := "e10", leaseGeneration := 1,
      content := .external .telegram sampleDelivery } "part:0") :: List.replicate 4 (.run 2)

/-- Its lease expires, and it is about to be claimed again. -/
def sampleExpired : List (Action Op) :=
  .tick 40000000 :: .spawn (.claimExternalDeliveries .telegram 1) :: List.replicate 2 (.run 3)

theorem Reachable.of_replay (actions : List (Action Op)) (test : OutboxSystem → Bool)
    (h : (System.replay (code samplePlatform) sampleStart actions).any test = true) :
    ∃ s, Reachable samplePlatform s ∧ test s = true := by
  obtain ⟨s, hs, htest⟩ := (Option.any_eq_true _ _).mp h
  exact ⟨s, ⟨0, sampleStart.db, fun _ => rfl, .of_replay hs⟩, htest⟩

/-- A claimed message is claimed again by another call. -/
theorem outbox_fenced_expired : ∃ s s' row, Reachable samplePlatform s ∧
    Reaches samplePlatform s s' ∧ s.db.events.get "e00" = some row ∧ Fenced s s' "e00" row := by
  obtain ⟨s, hreach, htest⟩ := Reachable.of_replay sampleRecorded
    (fun s => (s.db.events.get "e00").isSome &&
      (s.replay (code samplePlatform) (sampleExpired ++ [.run 3])).isSome) (by decide +kernel)
  rw [Bool.and_eq_true, Option.isSome_iff_exists, Option.isSome_iff_exists] at htest
  obtain ⟨⟨row, hrow⟩, s', hs'⟩ := htest
  have hr : Reaches samplePlatform s s' := .of_replay hs'
  exact ⟨s, s', row, hreach, hr, hrow, outbox_fenced samplePlatform s s' hreach hr "e00" row hrow⟩

/-- The call may change the delivery at the time `now`: by recording a part or finalizing it under
its current claim, or by claiming it, while it is being dispatched only after its lease has
expired. -/
def Acts (p : Platform) (i : ℕ) (op : Op) (now : ℕ) (id : String) (row : RuntimeOutboxEvent) :
    Prop :=
  op.Holds p i id row ∨ (op.lane?.any (·.covers row.content) = true ∧ row.availableAt ≤ now ∧
    (row.status = .pending ∨ row.status = .failed ∨ (row.status = .dispatching ∧
      ∃ lease, row.leaseExpiresAt = some lease ∧ lease ≤ now)))

variable {row : RuntimeOutboxEvent} {op : Op} {i : ℕ}

theorem Acts.of_due {p : Platform} {now began : ℕ} {id : String} {lane : Lane}
    (hop : op.lane? = some lane) (hlane : lane.covers row.content = true) (hbegan : began ≤ now)
    (hdue : row.due began = true) : Acts p i op now id row := by
  simp only [RuntimeOutboxEvent.due, Bool.and_eq_true, Bool.or_eq_true, decide_eq_true_eq] at hdue
  obtain ⟨hstatus, havailable⟩ := hdue
  refine Or.inr ⟨by rw [hop]; exact hlane, Nat.le_trans havailable hbegan, ?_⟩
  rcases hstatus with (hstatus | hstatus) | ⟨hstatus, hexpired⟩
  · exact Or.inl hstatus
  · exact Or.inr (Or.inl hstatus)
  · obtain ⟨lease, hlease, hle⟩ := (Option.any_eq_true _ _).mp hexpired
    exact Or.inr (Or.inr ⟨hstatus, lease, hlease, Nat.le_trans (of_decide_eq_true hle) hbegan⟩)

/-- A commit that changes a delivery acts on the row that it finds: its first step does. -/
theorem CellStep.acts {p : Platform} {now : ℕ} {id : String} {c c' : Cell}
    (hrow : c.event = some row) (hdelivery : row.content.intent? = none)
    (h : ReflTransGen (CellStep p i op now id) c c') : c' = c ∨ Acts p i op now id row := by
  rcases ReflTransGen.cases_head h with rfl | ⟨d, hs, -⟩
  · exact Or.inl rfl
  · refine Or.inr ?_
    have hnot {row' : RuntimeOutboxEvent} {intent : Intent} (hrow' : c.event = some row')
        (hcontent : row'.content = .cleanup intent) : False := by
      cases hrow.symm.trans hrow'
      exact intent_ne_none hcontent hdelivery
    cases hs with
    | enqueued hnone hfresh => rw [hnone] at hrow; cases hrow
    | claimed hrow' hop hlane hbegan hdue =>
      cases hrow.symm.trans hrow'
      exact .of_due hop hlane hbegan hdue
    | settled hrow' hheld => cases hrow.symm.trans hrow'; exact Or.inl hheld
    | recorded hrow' hop hid hrecords =>
      cases hrow.symm.trans hrow'
      rw [hop]
      exact Or.inl ⟨hid, (records_held hrecords).2⟩
    | bumped hrow' hcontent => exact (hnot hrow' hcontent).elim
    | rearmed hrow' hcontent => exact (hnot hrow' hcontent).elim
    | referenced hrow' hcontent => exact (hnot hrow' hcontent).elim
    | authorized hrow' hcontent => exact (hnot hrow' hcontent).elim
    | deleted hrow' hcontent => exact (hnot hrow' hcontent).elim

/-- A step that changes a delivery or its receipts is a commit that acts on it. -/
theorem delivery_changes (p : Platform) (s s' : OutboxSystem) (a : Action Op) (h : Reachable p s)
    (hs : s.step (code p) a = some s') (id : String) (row : RuntimeOutboxEvent)
    (hrow : s.db.events.get id = some row) (hdelivery : row.content.intent? = none)
    (hchange : s'.db.cell id ≠ s.db.cell id) :
    ∃ i c, a = .run i ∧ s.calls[i]? = some c ∧ Acts p i c.op s.now id row := by
  rcases h.commits hs with hdb | ⟨i, c, ha, hc, hcommit⟩
  · exact absurd (by rw [hdb]) hchange
  · have hacts := CellStep.acts hrow hdelivery (hcommit.moves (.event id))
    exact ⟨i, c, ha, hc, hacts.resolve_left hchange⟩

/-- A call records a part of the message that it delivers. -/
theorem delivery_changes_recorded : ∃ s s' row, Reachable samplePlatform s ∧
    s.step (code samplePlatform) (.run 2) = some s' ∧ s.db.events.get "e00" = some row ∧
    ∃ i c, (.run 2 : Action Op) = .run i ∧ s.calls[i]? = some c ∧
      Acts samplePlatform i c.op s.now "e00" row := by
  obtain ⟨s, hreach, htest⟩ := Reachable.of_replay (sampleRecorded.dropLast)
    (fun s => (s.db.events.get "e00").any (fun row => row.content.intent?.isNone) &&
      (s.step (code samplePlatform) (.run 2)).any fun s' =>
        (s'.db.cell "e00").parts ≠ (s.db.cell "e00").parts) (by decide +kernel)
  rw [Bool.and_eq_true] at htest
  obtain ⟨row, hrow, hdelivery⟩ := (Option.any_eq_true _ _).mp htest.1
  obtain ⟨s', hs, hparts⟩ := (Option.any_eq_true _ _).mp htest.2
  refine ⟨s, s', row, hreach, hs, hrow, delivery_changes samplePlatform s s' _ hreach hs "e00" row
    hrow (Option.isNone_iff_eq_none.mp hdelivery) fun heq => ?_⟩
  exact of_decide_eq_true hparts (congrArg Cell.parts heq)

/-! ## Parts -/

theorem not_mem_deliverParts {completed : List String} {part : String} (h : part ∈ completed)
    (outcome : String → PartOutcome) (parts : List String) :
    part ∉ (deliverParts completed outcome parts).1 := by
  induction parts with
  | nil => exact List.not_mem_nil
  | cons head rest ih =>
    rw [deliverParts]
    split
    · exact ih
    · next hhead =>
      have hne : part ≠ head := fun heq => hhead (heq ▸ h)
      split
      · exact fun hmem => hne (List.mem_singleton.mp hmem)
      split
      · exact fun hmem => hne (List.mem_singleton.mp hmem)
      · exact fun hmem => (List.mem_cons.mp hmem).elim hne ih

/-- A part of a Telegram delivery that has been recorded is not posted under any claim that is
returned later, however the delivery was interrupted in between. -/
theorem recorded_parts_not_posted (p : Platform) (s1 s2 s₃ : OutboxSystem) (h : Reachable p s1)
    (hr : Reaches p s1 s2) (i : ℕ) (hs : s2.step (code p) (.run i) = some s₃)
    (c : Call Op Tables TableWrite TableRow Reply) (hc : s₃.calls[i]? = some c)
    (kind : DeliveryKind) (limit : ℕ) (hop : c.op = .claimExternalDeliveries kind limit)
    (claims : List OutboxClaim) (hdone : c.script = .done (.claims claims)) (claim : OutboxClaim)
    (hclaim : claim ∈ claims) (htelegram : claim.content.external? = some .telegram)
    (part : String)
    (hpart : part ∈ (s1.db.cell claim.eventId).parts.map PartReceipt.partKey)
    (outcome : String → PartOutcome) (parts : List String) :
    part ∉ (deliverParts claim.completedParts outcome parts).1 := by
  apply not_mem_deliverParts
  have h2 := h.trans hr
  obtain ⟨t, hreturned⟩ :=
    (h2.good (Reaches.step hs)).returns hs (h2.admits hs (.refl s₃)) hc hdone
  obtain ⟨_, ⟨⟩, hclaimed⟩ := hreturned kind limit hop
  have hclaimed := hclaimed claim hclaim
  obtain ⟨row, hrow, hcontent, hheld⟩ := hclaimed.row
  rw [hclaimed.parts htelegram]
  have hnoted : (s₃.db.cell claim.eventId).Noted part :=
    Reaches.cell (fun _ _ _ _ _ hs hc => hs.noted hc) h (hr.trans (Reaches.step hs))
      (Or.inl hpart)
  rcases hnoted with hmem | ⟨row', hrow', hfinal⟩
  · exact hmem
  · have heq : row' = row := Option.some.inj (hrow'.symm.trans hrow)
    have hstatus := (heldBy_iff.mp (heq ▸ hheld)).1
    rcases hfinal.2 with hs | hs <;> rw [hs] at hstatus <;> cases hstatus

/-- The claim that a call has returned, of a claim of Telegram messages. -/
def returnedClaim (c : Call Op Tables TableWrite TableRow Reply) : Option OutboxClaim :=
  match c.op, c.script with
  | .claimExternalDeliveries .telegram 1, .done (.claims [claim]) => some claim
  | _, _ => none

theorem returnedClaim_eq {c : Call Op Tables TableWrite TableRow Reply} {claim : OutboxClaim}
    (h : returnedClaim c = some claim) :
    c.op = .claimExternalDeliveries .telegram 1 ∧ c.script = .done (.claims [claim]) := by
  unfold returnedClaim at h
  split at h
  · next hop hscript =>
    cases h
    exact ⟨hop, hscript⟩
  · cases h

/-- The message whose claim has expired is claimed again: its first part is not posted. -/
theorem recorded_parts_not_posted_expired : ∃ claim : OutboxClaim, claim.eventId = "e00" ∧
    ∀ outcome parts, "part:0" ∉ (deliverParts claim.completedParts outcome parts).1 := by
  obtain ⟨s1, hreach, htest⟩ := Reachable.of_replay sampleRecorded
    (fun s1 => "part:0" ∈ (s1.db.cell "e00").parts.map PartReceipt.partKey &&
      (s1.replay (code samplePlatform) sampleExpired).any fun s2 =>
        (s2.step (code samplePlatform) (.run 3)).any fun s₃ =>
          (s₃.calls[3]?).any fun c => (returnedClaim c).any fun claim =>
            claim.eventId = "e00" && claim.content.external? = some .telegram) (by decide +kernel)
  rw [Bool.and_eq_true, decide_eq_true_eq] at htest
  obtain ⟨hpart, htest⟩ := htest
  obtain ⟨s2, hs2, htest⟩ := (Option.any_eq_true _ _).mp htest
  obtain ⟨s₃, hs3, htest⟩ := (Option.any_eq_true _ _).mp htest
  obtain ⟨c, hc, htest⟩ := (Option.any_eq_true _ _).mp htest
  obtain ⟨claim, hclaim, htest⟩ := (Option.any_eq_true _ _).mp htest
  rw [Bool.and_eq_true, decide_eq_true_eq, decide_eq_true_eq] at htest
  obtain ⟨hid, htelegram⟩ := htest
  obtain ⟨hop, hdone⟩ := returnedClaim_eq hclaim
  refine ⟨claim, hid, fun outcome parts => ?_⟩
  exact recorded_parts_not_posted samplePlatform s1 s2 s₃ hreach (.of_replay hs2) 3 hs3 c hc
    .telegram 1 hop [claim] hdone claim List.mem_cons_self htelegram "part:0" (hid ▸ hpart)
    outcome parts

/-! ## Cleanups -/

/-- An authorized deletion is never taken back, a deletion is final, and an object is deleted by
the completion of its authorized cleanup under the current claim only. -/
theorem cleanup_phases (p : Platform) (s : OutboxSystem) (h : Reachable p s) :
    (∀ s' id row intent, Reaches p s s' → s.db.events.get id = some row →
      row.content = .cleanup intent → intent.phase = .authorized ∨ intent.phase = .deleted →
        ∃ row' phase, s'.db.events.get id = some row' ∧
          row'.content = .cleanup { intent with phase } ∧
          (phase = .deleted ∨ (phase = .authorized ∧ intent.phase ≠ .deleted))) ∧
    (∀ a s' id row' intent', s.step (code p) a = some s' → s'.db.events.get id = some row' →
      row'.content = .cleanup intent' → intent'.phase = .deleted →
        ∃ row, s.db.events.get id = some row ∧
          ((∃ intent, row.content = .cleanup intent ∧ intent.phase = .deleted) ∨
            ∃ i c, a = .run i ∧ s.calls[i]? = some c ∧ Completes c.op id row)) := by
  refine ⟨fun s' id row intent hr hrow hcontent hphase => ?_, ?_⟩
  · have hdoomed : (s.db.cell id).Doomed intent := by
      refine ⟨row, intent.phase, hrow, hcontent, ?_⟩
      rcases hphase with hphase | hphase
      · exact Or.inr ⟨hphase, by rw [hphase]; rintro ⟨⟩⟩
      · exact Or.inl hphase
    exact Reaches.cell (fun _ _ _ _ _ hs hc => hs.doomed hc) h hr hdoomed
  · intro a s' id row' intent' hs hrow' hcontent' hphase'
    rcases h.commits hs with hdb | ⟨i, c, ha, hc, hcommit⟩
    · rw [hdb] at hrow'
      exact ⟨row', hrow', Or.inl ⟨intent', hcontent', hphase'⟩⟩
    by_contra hnone
    have hundeleted : Undeleted c.op id (s.db.cell id) := by
      intro row hrow
      constructor
      · intro intent hcontent hphase
        exact hnone ⟨row, hrow, Or.inl ⟨intent, hcontent, hphase⟩⟩
      · exact fun hcompletes => hnone ⟨row, hrow, Or.inr ⟨i, c, ha, hc, hcompletes⟩⟩
    have hafter : Undeleted c.op id (s'.db.cell id) :=
      steps_preserve (fun _ _ hs hc => hs.undeleted hc) (hcommit.moves (.event id)) hundeleted
    exact (hafter row' hrow').1 intent' hcontent' hphase'

/-- A source is uploaded, its registration expires, and its cleanup is authorized. -/
def sampleCleanup : List (Action Op) :=
  .spawn (.registerUploadSource "u" "s3://ns/uploads/a") :: List.replicate 4 (.run 0) ++
  .tick 1800000000 :: .spawn (.claimCleanups 1) :: List.replicate 4 (.run 1) ++
  .spawn (.authorizeCleanup "s3://ns/uploads/a" "e10" 1) :: List.replicate 8 (.run 2)

/-- The phase of the uploaded source. -/
def samplePhase (s : OutboxSystem) : Option StorageCleanupPhase :=
  ((s.db.events.get "s3://ns/uploads/a").bind fun row => row.content.intent?).map Intent.phase

/-- The authorization of the upload is not taken back. -/
theorem cleanup_phases_authorized : ∃ s, Reachable samplePlatform s ∧
    samplePhase s = some .authorized ∧ ∀ s', Reaches samplePlatform s s' →
      samplePhase s' = some .authorized ∨ samplePhase s' = some .deleted := by
  obtain ⟨s, hreach, htest⟩ := Reachable.of_replay sampleCleanup
    (fun s => samplePhase s = some .authorized) (by decide +kernel)
  have hphase := of_decide_eq_true htest
  refine ⟨s, hreach, hphase, fun s' hr => ?_⟩
  obtain ⟨intent, hintent, hauthorized⟩ := Option.map_eq_some_iff.mp hphase
  obtain ⟨row, hrow, hcontent⟩ := Option.bind_eq_some_iff.mp hintent
  obtain ⟨row', phase, hrow', hcontent', hphase'⟩ := (cleanup_phases samplePlatform s hreach).1 s'
    _ row intent hr hrow (content_of_intent hcontent) (Or.inl hauthorized)
  have hafter : samplePhase s' = some phase := by
    rw [samplePhase, hrow', Option.bind_some, hcontent']
    rfl
  rw [hafter]
  rcases hphase' with rfl | ⟨rfl, -⟩
  · exact Or.inr rfl
  · exact Or.inl rfl

/-- The intent belongs to the create request, or to a datasource that is being deleted. -/
def Cell.Consumed (requestId : String) (c : Cell) : Prop :=
  ∃ row intent, c.event = some row ∧ row.content = .cleanup intent ∧
    ((intent.ownerKind = .source ∧ intent.ownerId = requestId) ∨ intent.ownerKind = .datasource)

theorem CellStep.consumed {p : Platform} {now : ℕ} {id : String} {c c' : Cell} {requestId : String}
    (h : CellStep p i op now id c c') (hc : c.Consumed requestId) :
    c'.Consumed requestId := by
  obtain ⟨row, intent, hrow, hcontent, howner⟩ := hc
  have htracks : c.Tracks op intent := ⟨row, intent, hrow, hcontent, rfl, .kept rfl rfl⟩
  obtain ⟨row', intent', hrow', hcontent', -, hstep⟩ := h.tracks htracks
  refine ⟨row', intent', hrow', hcontent', ?_⟩
  have hnot : intent.ownerKind ≠ .upload ∧ intent.ownerKind ≠ .preflight := by
    rcases howner with ⟨hkind, -⟩ | hkind <;> rw [hkind] <;> exact ⟨by rintro ⟨⟩, by rintro ⟨⟩⟩
  cases hstep with
  | kept hkind hid => rwa [hkind, hid]
  | preflight hop hbefore => exact (hnot.1 hbefore).elim
  | source hop hbefore => exact (hbefore.elim hnot.1 hnot.2).elim
  | datasource hop hafter => exact Or.inr hafter

/-- The object of an intent never changes, its owner changes by a registration, a hand-over or a
deletion of the new owner, and an uploaded source that one create request consumes is never handed
to another. -/
theorem source_owners (p : Platform) (s : OutboxSystem) (h : Reachable p s) :
    (∀ a s' id row intent, s.step (code p) a = some s' → s.db.events.get id = some row →
      row.content = .cleanup intent → ∃ row' intent', s'.db.events.get id = some row' ∧
        row'.content = .cleanup intent' ∧ intent'.url = intent.url ∧
        ((intent'.ownerKind = intent.ownerKind ∧ intent'.ownerId = intent.ownerId) ∨
          ∃ i c, a = .run i ∧ s.calls[i]? = some c ∧ OwnerStep c.op intent intent')) ∧
    (∀ s' id row intent, Reaches p s s' → s.db.events.get id = some row →
      row.content = .cleanup intent → intent.ownerKind = .source →
        ∃ row' intent', s'.db.events.get id = some row' ∧ row'.content = .cleanup intent' ∧
          ((intent'.ownerKind = .source ∧ intent'.ownerId = intent.ownerId) ∨
            intent'.ownerKind = .datasource)) := by
  constructor
  · intro a s' id row intent hs hrow hcontent
    rcases h.commits hs with hdb | ⟨i, c, ha, hc, hcommit⟩
    · rw [hdb]
      exact ⟨row, intent, hrow, hcontent, rfl, Or.inl ⟨rfl, rfl⟩⟩
    · have htracks : (s.db.cell id).Tracks c.op intent :=
        ⟨row, intent, hrow, hcontent, rfl, .kept rfl rfl⟩
      obtain ⟨row', intent', hrow', hcontent', hurl, howner⟩ : (s'.db.cell id).Tracks c.op intent :=
        steps_preserve (fun _ _ hs hc => hs.tracks hc) (hcommit.moves (.event id)) htracks
      exact ⟨row', intent', hrow', hcontent', hurl, Or.inr ⟨i, c, ha, hc, howner⟩⟩
  · intro s' id row intent hr hrow hcontent hkind
    exact Reaches.cell (fun _ _ _ _ _ hs hc => hs.consumed hc) h hr
      ⟨row, intent, hrow, hcontent, Or.inl ⟨hkind, rfl⟩⟩

/-- A source is uploaded, and a create request consumes it. -/
def sampleConsumed : List (Action Op) :=
  .spawn (.registerUploadSource "u" "s3://ns/uploads/a") :: List.replicate 4 (.run 0) ++
  .spawn (.transferPreflightSource "s3://ns/uploads/a" "r" []) :: List.replicate 5 (.run 1)

/-- The owner of the uploaded source. -/
def sampleOwner (s : OutboxSystem) : Option (StorageCleanupOwner × String) :=
  ((s.db.events.get "s3://ns/uploads/a").bind fun row => row.content.intent?).map fun intent =>
    (intent.ownerKind, intent.ownerId)

/-- No other create request becomes the owner. -/
theorem source_owners_consumed : ∃ s, Reachable samplePlatform s ∧
    sampleOwner s = some (.source, "r") ∧ ∀ s', Reaches samplePlatform s s' →
      ∀ requestId, sampleOwner s' = some (.source, requestId) → requestId = "r" := by
  obtain ⟨s, hreach, htest⟩ := Reachable.of_replay sampleConsumed
    (fun s => sampleOwner s = some (.source, "r")) (by decide +kernel)
  have howner := of_decide_eq_true htest
  refine ⟨s, hreach, howner, fun s' hr requestId hs' => ?_⟩
  obtain ⟨intent, hintent, hfields⟩ := Option.map_eq_some_iff.mp howner
  obtain ⟨hkind, hid⟩ := Prod.mk.inj hfields
  obtain ⟨row, hrow, hcontent⟩ := Option.bind_eq_some_iff.mp hintent
  obtain ⟨row', intent', hrow', hcontent', howner'⟩ := (source_owners samplePlatform s hreach).2 s'
    _ row intent hr hrow (content_of_intent hcontent) hkind
  rw [sampleOwner, hrow', Option.bind_some, hcontent'] at hs'
  obtain ⟨hkind', hid'⟩ := Prod.mk.inj (Option.some.inj hs')
  rcases howner' with ⟨-, hsame⟩ | hdatasource
  · exact hid'.symm.trans (hsame.trans hid)
  · rw [hkind'] at hdatasource
    cases hdatasource

/-! ## References -/

/-- The deletion of the object is neither authorized nor done. -/
def Unharmed (c : Cell) : Prop :=
  ∀ row intent, c.event = some row → row.content = .cleanup intent → intent.phase.Open

/-- Only an authorization harms an object. -/
theorem CellStep.unharmed {p : Platform} {now : ℕ} {id : String} {c c' : Cell}
    (hop : ∀ token generation, op ≠ .authorizeCleanup id token generation)
    (h : CellStep p i op now id c c') (hc : Unharmed c) : Unharmed c' := by
  have hset {d : Cell} {row : RuntimeOutboxEvent} {intent : Intent} (hd : d.event = some row)
      (hcontent : row.content = .cleanup intent) (hopen : intent.phase.Open) : Unharmed d := by
    intro row' intent' hrow' hcontent'
    cases hd.symm.trans hrow'
    cases hcontent.symm.trans hcontent'
    exact hopen
  have hkeep {d : Cell} {row row' : RuntimeOutboxEvent} (hrow : c.event = some row)
      (hd : d.event = some row') (hcontent : row'.content = row.content) : Unharmed d := by
    intro row1 intent hrow1 hcontent₁
    cases hd.symm.trans hrow1
    exact hc row intent hrow (hcontent.symm.trans hcontent₁)
  cases h with
  | enqueued hnone hfresh =>
    intro row intent hrow hcontent
    cases hrow
    exact Or.inl (hfresh.intent intent hcontent).1
  | claimed hrow => exact hkeep hrow rfl rfl
  | settled hrow hheld => exact hkeep hrow settled_event (settled_content ..)
  | recorded hrow => exact hkeep hrow rfl rfl
  | bumped hrow => exact hkeep hrow rfl rfl
  | rearmed hrow hcontent hopen htracked => exact hset rfl rfl (Or.inl htracked)
  | referenced hrow hcontent hsettle =>
    obtain ⟨-, rfl⟩ := settleReferenced_eq hsettle
    exact hset rfl rfl (Or.inr rfl)
  | authorized hrow hcontent hauthorize => exact absurd hauthorize (hop _ _)
  | deleted hrow hcontent hcomplete hheld hphase =>
    have hopen := hc _ _ hrow hcontent
    rw [hphase] at hopen
    rcases hopen with h | h <;> cases h

/-- A commit leaves what is free and doomed free. -/
theorem Commit.free {p : Platform} {missed : ℕ → String → Prop} {held : List (Lock TableRow)}
    {w : World Tables} {db : Tables} {id : String} {intent : Intent}
    (hc : Commit p missed i op held w db) (hw : Keyed p w.db)
    (hfree : ∀ row intent, w.db.events.get id = some row → row.content = .cleanup intent →
      ¬ intent.phase.Open → Free p missed intent.url w.db) (hrow : db.events.get id = some row)
    (hcontent : row.content = .cleanup intent) (hphase : ¬ intent.phase.Open) :
    Free p missed intent.url db := by
  have hid : p.eventId intent.url = id := hc.keyed hw id row intent hrow hcontent
  have hbefore : Free p missed intent.url w.db := by
    by_cases hharmed : Unharmed (w.db.cell id)
    · -- the commit is the authorization
      by_cases hop : ∃ token generation, op = .authorizeCleanup id token generation
      · obtain ⟨token, generation, rfl⟩ := hop
        have hundeleted : Undeleted (.authorizeCleanup id token generation) id (db.cell id) := by
          refine steps_preserve (fun _ _ hs hc => hs.undeleted hc) (hc.moves (.event id)) ?_
          intro row0 hrow0
          constructor
          · intro intent₀ hcontent₀ hdeleted
            have hopen := hharmed row0 intent₀ hrow0 hcontent₀
            rw [hdeleted] at hopen
            rcases hopen with h | h <;> cases h
          · rintro ⟨_, _, _, _, _, ⟨⟩, _⟩
        have hnot := (hundeleted row hrow).1 intent hcontent
        refine hc.authorizes id token generation rfl row intent hrow hcontent ?_
        cases hcase : intent.phase with
        | tracked => exact absurd (Or.inl hcase) hphase
        | published => exact absurd (Or.inr hcase) hphase
        | authorized => rfl
        | deleted => exact absurd hcase hnot
      · refine absurd ?_ hphase
        have hafter : Unharmed (db.cell id) := by
          refine steps_preserve (fun _ _ hs hc => hs.unharmed (fun token generation he => ?_) hc)
            (hc.moves (.event id)) hharmed
          exact hop ⟨token, generation, he⟩
        exact hafter row intent hrow hcontent
    · -- it was authorized before
      simp only [Unharmed, not_forall] at hharmed
      obtain ⟨row0, intent₀, hrow0, hcontent₀, hphase₀⟩ := hharmed
      have hdoomed : (w.db.cell id).Doomed intent₀ := by
        refine ⟨row0, intent₀.phase, hrow0, hcontent₀, ?_⟩
        cases hcase : intent₀.phase with
        | tracked => exact absurd (Or.inl hcase) hphase₀
        | published => exact absurd (Or.inr hcase) hphase₀
        | authorized => exact Or.inr ⟨rfl, by rintro ⟨⟩⟩
        | deleted => exact Or.inl rfl
      obtain ⟨row', phase, hrow', hcontent', -⟩ : (db.cell id).Doomed intent₀ :=
        steps_preserve (fun _ _ hs hc => hs.doomed hc) (hc.moves (.event id)) hdoomed
      cases hrow.symm.trans hrow'
      cases hcontent.symm.trans hcontent'
      exact hfree row0 intent₀ hrow0 hcontent₀ hphase₀
  refine hbefore.moves hc fun datasourceId ds hop hchange hurl => ?_
  rcases hc.publishes datasourceId ds hop hchange intent.url hurl with hmissed | ⟨-, hpublished⟩
  · exact hmissed
  · refine absurd (Or.inr ?_) hphase
    exact hpublished row intent (hid.symm ▸ hrow) hcontent

theorem Free.mono {p : Platform} {missed missed' : ℕ → String → Prop} {url : String} {db : Tables}
    (hle : ∀ i id, missed i id → missed' i id) (h : Free p missed url db) :
    Free p missed' url db :=
  h.imp_left fun ⟨j, hj⟩ => ⟨j, hle _ _ hj⟩

/-- By induction on the run. -/
theorem Reachable.free {p : Platform} {s : OutboxSystem} (h : Reachable p s) {id : String}
    {intent : Intent} (hrow : s.db.events.get id = some row)
    (hcontent : row.content = .cleanup intent) (hphase : ¬ intent.phase.Open) :
    Free p (Passes p s) intent.url s.db := by
  obtain ⟨now, db, hempty, hrun⟩ := h
  have hstart : Reachable p ⟨now, db, []⟩ := ⟨now, db, hempty, .refl _⟩
  induction hrun generalizing id row intent with
  | refl =>
    rw [show db.events.get id = none from hempty id] at hrow
    cases hrow
  | step hrun hs _ ih =>
    have hbefore := hstart.trans hrun
    have hmono {url : String} {db : Tables} (h : Free p (Passes p _) url db) :
        Free p (Passes p _) url db := h.mono fun _ _ hpass => hpass.mono (Reaches.step hs)
    rcases hbefore.commits hs with hdb | ⟨i, c, -, -, hcommit⟩
    · rw [hdb] at hrow ⊢
      exact hmono (ih hrow hcontent hphase)
    · exact hcommit.free hbefore.keyed (fun _ _ hrow hcontent hphase =>
        hmono (ih hrow hcontent hphase)) hrow hcontent hphase

/-- No datasource names an object whose deletion is authorized or done, unless some publication
has looked for the intent of the object when there was none, or some output, which settles no
intents, has come to name the object. -/
theorem referenced_not_authorized (p : Platform) (s : OutboxSystem) (h : Reachable p s)
    (id : String) (row : RuntimeOutboxEvent) (intent : Intent)
    (hrow : s.db.events.get id = some row) (hcontent : row.content = .cleanup intent)
    (hphase : intent.phase = .authorized ∨ intent.phase = .deleted) :
    Unreferenced s.db intent.url ∨ (∃ i, Misses p s i id) ∨ ∃ i, Names p s i id := by
  have hopen : ¬ intent.phase.Open := by
    rcases hphase with hphase | hphase <;> rw [hphase] <;> rintro (h | h) <;> cases h
  rcases h.free hrow hcontent hopen with ⟨i, hpass⟩ | hfree
  · rw [h.keyed id row intent hrow hcontent] at hpass
    exact Or.inr (hpass.imp (fun hmisses => ⟨i, hmisses⟩) fun hnames => ⟨i, hnames⟩)
  · exact Or.inl hfree

/-- The upload whose deletion is authorized is named by no datasource. -/
theorem referenced_not_authorized_upload : ∃ s, Reachable samplePlatform s ∧
    samplePhase s = some .authorized ∧ (Unreferenced s.db "s3://ns/uploads/a" ∨
      (∃ i, Misses samplePlatform s i "s3://ns/uploads/a") ∨
      ∃ i, Names samplePlatform s i "s3://ns/uploads/a") := by
  obtain ⟨s, hreach, htest⟩ := Reachable.of_replay sampleCleanup
    (fun s => samplePhase s = some .authorized) (by decide +kernel)
  have hphase := of_decide_eq_true htest
  refine ⟨s, hreach, hphase, ?_⟩
  obtain ⟨intent, hintent, hauthorized⟩ := Option.map_eq_some_iff.mp hphase
  obtain ⟨row, hrow, hcontent⟩ := Option.bind_eq_some_iff.mp hintent
  have hcleanup := content_of_intent hcontent
  have hurl : intent.url = "s3://ns/uploads/a" := hreach.keyed _ row intent hrow hcleanup
  have h := referenced_not_authorized samplePlatform s hreach _ row intent hrow hcleanup
    (Or.inl hauthorized)
  rw [hurl] at h
  exact h

end DataForge.Outbox
