import DataForge.Compute.Settle
import DataForge.Compute.Sources
import DataForge.ReadCommitted.Reading

/-!
# Compute requests: what happens to one row

All writers of request rows in one protocol. The queue writes a row only before its request is
terminal, and while it is not, the artifact columns are as staging wrote them. After that the
source services may clear these columns or delete the row.
-/

namespace DataForge.Compute

open ReadCommitted DataForge.Runtime

/-- The artifact columns are as `_stage_request` writes them. -/
def AsStaged (r : ComputeRequest) : Prop := r.artifacts = stagedArtifacts r.commandEnvelope.command

/-- The operations that take over sources. -/
def RowOp.clears : RowOp → Prop
  | .createFromPreflight .. => True
  | _ => False

/-- The operations that delete preflights. -/
def RowOp.deletes : RowOp → Prop
  | .removePreflight .. | .expirePreflights .. | .authorizeCleanup .. => True
  | _ => False

/-- What a commit of `op` may do to one request row. -/
inductive RowStep (op : RowOp) : Option ComputeRequest → Option ComputeRequest → Prop where
  | same (x) : RowStep op x x
  | work {x r} (hx : ∀ b, x = some b → b.status.active = true)
      (hr : r.status.active = true → AsStaged r) : RowStep op x (some r)
  | cleared {r} (hop : op.clears) (hr : r.status = .completed) :
      RowStep op (some r) (some r.clearArtifacts)
  | deleted {r} (hop : op.deletes) : RowStep op (some r) none

namespace RowStep

variable {op : RowOp} {x : Option ComputeRequest} {r : ComputeRequest}

theorem active_before (h : RowStep op x (some r)) (hr : r.status.active = true) :
    ∀ b, x = some b → b.status.active = true := by
  cases h with
  | same =>
    rintro b hb
    cases hb
    exact hr
  | work hx => exact hx
  | @cleared b _ hc =>
    rw [show b.clearArtifacts.status = .completed from hc] at hr
    cases hr

theorem asStaged (h : RowStep op x (some r)) (hx : ∀ b, x = some b → b.status.active = true →
    AsStaged b) (hr : r.status.active = true) : AsStaged r := by
  cases h with
  | same => exact hx r rfl hr
  | work _ hwork => exact hwork hr
  | @cleared b _ hc =>
    rw [show b.clearArtifacts.status = .completed from hc] at hr
    cases hr

theorem none_before (h : RowStep op x none) (hop : ¬ op.deletes) : x = none := by
  cases h with
  | same => rfl
  | deleted hd => exact absurd hd hop

end RowStep

/-- The commit of a result publishes it on a row whose claim was active. -/
def Finishes (op : RowOp) (w : ComputeWorld) (db : Db Tables) : Prop :=
  ∀ ns args, op = .queue (.finishClaimedRequest ns args) → ∃ b,
    (w.db.tenants ns).requests.get args.requestId = some b ∧ b.status.active = true ∧
      (db.tenants ns).requests.get args.requestId = some (finishedRow args b)

/-- The protocol of all writers of request rows. -/
def rowProtocol : Protocol RowOp (Db Tables) (Write TableWrite) (Resource TableRow) where
  visited _ _ _ := True
  calls _ := True
  inv w := ∀ ns id r, (w.db.tenants ns).requests.get id = some r → r.status.active = true →
    AsStaged r
  act _ op _ w db := (∀ ns id, RowStep op ((w.db.tenants ns).requests.get id)
    ((db.tenants ns).requests.get id)) ∧ Finishes op w db
  cond _ _ _ := True
  inv_tick h _ := h
  inv_act _ hw _ ha ns id r hr hact := by
    have hs := ha.1 ns id
    rw [hr] at hs
    exact hs.asStaged (hw ns id) hact

/-- What a transaction of `op` may stage at one resource. -/
def RowCell (op : RowOp) (_ : ComputeLocks) (r : Resource TableRow)
    (a b : Db Tables) : Prop :=
  match r with
  | .tenant ns (.request id) =>
    RowStep op ((a.tenants ns).requests.get id) ((b.tenants ns).requests.get id)
  | _ => True

theorem rowCell_local (op : RowOp) : Protocol.Local (Write TableWrite) (RowCell op) where
  refl h r db := by
    rcases r with ⟨ns, id | key | key | id⟩ | key | id | key
    · exact .same _
    all_goals trivial
  mono _ hc := hc
  congr {h r a a' b b'} ha hb hc := by
    rcases r with ⟨ns, id | key | key | id⟩ | key | id | key
    · have ha' : (a'.tenants ns).requests.get id = (a.tenants ns).requests.get id := ha
      have hb' : (b'.tenants ns).requests.get id = (b.tenants ns).requests.get id := hb
      simp only [RowCell, ha', hb'] at hc ⊢
      exact hc
    all_goals trivial

/-- The write is none of a request row. -/
def Spares (v : Write TableWrite) : Prop := ∀ ns id, Storage.target v ≠ requestRow ns id

/-- A transaction of `op` that has staged allowed rows only. -/
structure Opened (op : RowOp) (t : ComputeTxn)
    (w : ComputeWorld) : Prop where
  guarded : t.Guarded
  staged : Protocol.Staged (RowCell op) t w

/-- The row is held, and is not that of a terminal request. -/
structure Ours (ns id : String) (t : ComputeTxn)
    (w : ComputeWorld) : Prop where
  held : ∃ k ∈ t.held, k.res = requestRow ns id
  active : ∀ b, (w.db.tenants ns).requests.get id = some b → b.status.active = true

section Opened

variable {op : RowOp} {i : ℕ} {t t' : ComputeTxn}
  {w w' : ComputeWorld} {e : ComputeEnv} {ns id : String} {r : ComputeRequest}

theorem Opened.of_nil (op : RowOp) (w : ComputeWorld) (h : t.writes = []) :
    Opened op t w := by
  refine ⟨fun v hv => ?_, fun r => ?_⟩
  · rw [h] at hv
    cases hv
  · rw [h]
    exact (rowCell_local op).refl _ r _

theorem Opened.rely (hm : Opened op t w) (hr : rowProtocol.Rely t.held w w') : Opened op t w' :=
  ⟨hm.guarded, hm.staged.rely (rowCell_local op) hm.guarded hr⟩

theorem Opened.query (hm : Opened op t w) (began : Option ℕ) :
    Opened op ⟨t.held, t.writes, began⟩ w := ⟨hm.guarded, hm.staged⟩

theorem Opened.sees (hm : Opened op t w) (hs : rowProtocol.Sees i t w e) (ns id : String) :
    RowStep op ((w.db.tenants ns).requests.get id) ((requests ns e).get id) := by
  rw [requests, hs.db]
  exact hm.staged (.tenant ns (.request id))

theorem Opened.after (hm : Opened op t w) (hs : rowProtocol.Sees i t w e)
    (f : Effect (Write TableWrite) (Resource TableRow))
    (hf : ∀ v ∈ f.writes, ∀ ns id, Storage.target v = requestRow ns id →
      RowStep op ((w.db.tenants ns).requests.get id)
        (((view f.writes e.db).tenants ns).requests.get id)) : Opened op (t.after e f) w := by
  refine ⟨hm.guarded.after e f, hm.staged.write (rowCell_local op) fun v hv => ?_⟩
  rw [← hs.db]
  generalize htarget : Storage.target v = target
  rcases target with ⟨ns, id | key | key | id⟩ | key | id | key
  · exact hf v hv ns id htarget
  all_goals trivial

theorem Opened.spare (hm : Opened op t w) (hs : rowProtocol.Sees i t w e)
    (f : Effect (Write TableWrite) (Resource TableRow)) (hf : ∀ v ∈ f.writes, Spares v) :
    Opened op (t.after e f) w :=
  hm.after hs f fun v hv ns id htarget => absurd htarget (hf v hv ns id)

theorem Opened.lock (hm : Opened op t w) (hs : rowProtocol.Sees i t w e)
    (rows : List (Resource TableRow)) (mode : Mode) :
    Opened op (t.after e (lockRows rows mode)) w := hm.spare hs _ fun _ h => by cases h

theorem Opened.request (hm : Opened op t w) (hs : rowProtocol.Sees i t w e)
    {row : Option ComputeRequest} (hrow : RowStep op ((w.db.tenants ns).requests.get id) row) :
    Opened op (t.after e ⟨[], [.tenant ns (.request id row)]⟩) w := by
  refine hm.after hs _ fun v hv ns' id' htarget => ?_
  rw [List.mem_singleton.mp hv] at htarget
  injection htarget with hns hid
  injection hid with hid
  subst hns
  subst hid
  have hwritten := request_write e.db ns id id row
  rw [if_pos rfl] at hwritten
  change RowStep op _ (((e.db.write (.tenant ns (TableWrite.request id row))).tenants
    ns).requests.get id)
  rw [hwritten]
  exact hrow

theorem Ours.of_lock (hm : Opened op t w) (hs : rowProtocol.Sees i t w e)
    {rows : List (Resource TableRow)} {mode : Mode} (hmem : requestRow ns id ∈ rows)
    (hr : (requests ns e).get id = some r) (hact : r.status.active = true) :
    Ours ns id (t.after e (lockRows rows mode)) w := by
  refine ⟨⟨_, mem_held_lockRows t e hmem, rfl⟩, ?_⟩
  have hstep := hm.sees hs ns id
  rw [hr] at hstep
  exact hstep.active_before hact

theorem row_rely {k : Lock (Resource TableRow)} (hr : rowProtocol.Rely t.held w w')
    (hk : k ∈ t.held) (hres : k.res = requestRow ns id) :
    (w'.db.tenants ns).requests.get id = (w.db.tenants ns).requests.get id := by
  have hsame := hr.same hk
  rw [hres] at hsame
  exact hsame

theorem Ours.rely (h : Ours ns id t w) (hr : rowProtocol.Rely t.held w w') : Ours ns id t w' := by
  obtain ⟨k, hk, hres⟩ := h.held
  exact ⟨h.held, by rw [row_rely hr hk hres]; exact h.active⟩

theorem Ours.mono (h : Ours ns id t w) (hh : t.held ⊆ t'.held) : Ours ns id t' w := by
  obtain ⟨k, hk, hres⟩ := h.held
  exact ⟨⟨k, hh hk, hres⟩, h.active⟩

theorem view_row_rely {k : Lock (Resource TableRow)} (hr : rowProtocol.Rely t.held w w')
    (hk : k ∈ t.held) (hres : k.res = requestRow ns id) :
    ((view t.writes w'.db).tenants ns).requests.get id =
      ((view t.writes w.db).tenants ns).requests.get id := by
  have hsame := view_same t.writes (hr.same hk)
  rw [hres] at hsame
  exact hsame

theorem view_row_append {ws vs : List (Write TableWrite)} (hvs : ∀ v ∈ vs, Spares v)
    (db : Db Tables) : ((view (ws ++ vs) db).tenants ns).requests.get id =
      ((view ws db).tenants ns).requests.get id := by
  rw [view_append]
  exact view_same_of_ne (r := requestRow ns id) (view ws db) fun v hv => hvs v hv ns id

end Opened

end DataForge.Compute
