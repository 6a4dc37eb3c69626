import DataForge.Compute.Safety
import Mathlib.Data.Countable.Basic
import Mathlib.Logic.Equiv.List
import Mathlib.Tactic.DeriveCountable
import DataForge.Texts.Split

/-!
# Compute requests: single flight

What a caller of `stage_shared_flight_request` is handed, in every interleaving. The key of a
flight holds a row-locked snapshot of the input revisions, so that a flight of an older
revision is never found under it; the lock-free lookup compares the expiry of a cached result
with the clock value the caller took when its call began.
-/

namespace DataForge.Compute

open ReadCommitted DataForge.Runtime

/-- A flight row of a system state. -/
def flightAt (s : ComputeSystem) (ns : String) (key : String × String) :
    Option ComputeRequestFlight := (s.db.tenants ns).flights.get key

/-- `u` is a state of a run that leads to `s`, and call `i` had started in it. -/
def During (p : Platform) (i : ℕ) (u s : ComputeSystem) : Prop :=
  Reachable p u ∧ Reaches p u s ∧ i < u.calls.length

theorem mem_revisionsOf {db : Tables} {command : ComputeCommand} {d : String} {n : ℕ}
    (hd : d ∈ datasourceIdsForCommand command) : ⟨d, n⟩ ∈ revisionsOf db command ↔
      (db.datasources.get d).map DataSource.revision = some n := by
  rw [revisionsOf, List.mem_filterMap]
  constructor
  · rintro ⟨d', -, h⟩
    obtain ⟨row, hrow, he⟩ := Option.map_eq_some_iff.mp h
    cases he
    rw [hrow]
    rfl
  · intro h
    obtain ⟨row, hrow, rfl⟩ := Option.map_eq_some_iff.mp h
    exact ⟨d, hd, by rw [hrow]; rfl⟩

section SingleFlight

variable {p : Platform} {s s' : ComputeSystem} {i : ℕ}

/-- The states call `i` visits on the way to `s`. -/
def visitedSetting (p : Platform) (s : ComputeSystem) : Setting :=
  ⟨False, fun i w => ∃ u, During p i u s ∧ u.world = w⟩

theorem Reachable.returned (h : Reachable p s) (hs : s.step (code p) (.run i) = some s')
    {c : Call Op (Db Tables) (Write TableWrite) (Resource TableRow) Reply} {reply : Reply}
    (hc : s'.calls[i]? = some c) (hd : c.script = .done reply) :
    ∃ t, Returned p (visitedSetting p s) i c.op reply t s'.world := by
  have hr := h
  obtain ⟨now, db, hfresh, hrun⟩ := hr
  have admits {u u' : ComputeSystem} {a : Action Op} (hu : Reachable p u) (hus : Reaches p u s) :
      (protocol p (visitedSetting p s)).Admits u a u' :=
    ⟨fun _ _ hC => hC.elim, fun _ _ _ _ _ _ hC => hC.elim, fun _ _ _ _ _ hc _ =>
      ⟨u, ⟨hu, hus, (List.getElem?_eq_some_iff.mp hc).1⟩, rfl⟩⟩
  have hgood : Good (protocol p (visitedSetting p s)) (Returned p (visitedSetting p s)) s :=
    (Good.start (hfresh.inv p _ now)).run (verified p _)
      (hrun.along.mono fun u a u' hu => admits ⟨now, db, hfresh, hu.2.1⟩ hu.2.2)
  exact hgood.returns hs (admits h (.refl s)) hc hd

private theorem number_inj {kind kind' : ComputeRequestKind}
    (h : Nat.toDigits 10 kind.number = Nat.toDigits 10 kind'.number) : kind = kind' := by
  cases kind <;> cases kind' <;> first | rfl | exact absurd h (by decide)

theorem flightKey_inj {kind kind' : ComputeRequestKind} {command command' : ComputeCommand}
    {key : String} (h : flightKey p kind command = some key)
    (h' : flightKey p kind' command' = some key) :
    kind = kind' ∧ p.sha256 (p.serialize command) = p.sha256 (p.serialize command') := by
  have chars {kind : ComputeRequestKind} {command : ComputeCommand}
      (hk : flightKey p kind command = some key) : key.toList =
        Nat.toDigits 10 kind.number ++ ':' :: (p.sha256 (p.serialize command)).toList := by
    unfold flightKey at hk
    split at hk
    · cases hk
      simp
    · cases hk
  have colon (n : ℕ) : ':' ∉ Nat.toDigits 10 n := fun hm =>
    absurd (Nat.isDigit_of_mem_toDigits (by decide) (by decide) hm) (by decide)
  obtain ⟨hnumber, hhash⟩ := Texts.append_cons_inj (colon _) (colon _)
    ((chars h).symm.trans (chars h'))
  exact ⟨number_inj hnumber, String.toList_injective hhash⟩

/-- Single flight. Flights are unique per key and lead to a request staged under that key. A
caller that is handed an existing request gets one whose command equals the caller's own,
with the revisions the caller read in a state `v` visited by its call, all of them still
committed. That request is active, or completed and cacheable under a flight that the call
read in a state `u` and that expires after the clock value the caller brought. -/
theorem single_flight (hsha : Function.Injective p.sha256)
    (hser : Function.Injective p.serialize) (h : Reachable p s) :
    (∀ ns, ((s.db.tenants ns).flights.rows.map Prod.fst).Nodup) ∧
    (∀ ns key f, flightAt s ns key = some f → key.1 = ns ∧ ∃ r,
      requestAt s ns f.requestId = some r ∧ r.ns = ns ∧
        flightKey p r.kind r.commandEnvelope.command = some key.2) ∧
    ∀ i s' c ns args id r, s.step (code p) (.run i) = some s' → s'.calls[i]? = some c →
      c.op = .stageSharedFlightRequest ns args → c.script = .done (.staged id r false) →
      requestAt s' ns id = some r ∧ r.kind = args.kind ∧
      (∃ v, During p i v s ∧
        r.commandEnvelope.command = snapshotted (v.db.tenants ns) args.command ∧
        (∀ d ∈ datasourceIdsForCommand args.command, ∀ n,
          ⟨d, n⟩ ∈ r.commandEnvelope.command.inputRevisions ↔
            ((v.db.tenants ns).datasources.get d).map DataSource.revision = some n) ∧
        ∀ x ∈ r.commandEnvelope.command.inputRevisions,
          ((s'.db.tenants ns).datasources.get x.datasourceId).map DataSource.revision =
            some x.revision) ∧
      (r.status.active = true ∨ (r.status = .completed ∧ r.responseEnvelope ≠ none ∧
        cacheCompletedFlight id r = .ok true ∧ ∃ u key f e, During p i u s ∧
          flightKey p r.kind r.commandEnvelope.command = some key ∧
          flightAt u ns (ns, key) = some f ∧ f.requestId = id ∧ f.expiresAt = some e ∧
          args.now < e)) := by
  refine ⟨fun ns => (s.db.tenants ns).flights.nodup, fun ns key f hf => ?_, ?_⟩
  · obtain ⟨hns, r, hr, hrns, hkey⟩ := h.good.inv.flight ns key f hf
    exact ⟨hns, r, hr, hrns, hkey⟩
  intro i s' c ns args id r hs hc hop hd
  obtain ⟨t, hret⟩ := h.returned hs hc hd
  obtain ⟨own, key, ⟨w, ⟨v, hv, rfl⟩, rfl, hcurrent⟩, hkey, hreused⟩ :=
    hret ns args id r hop rfl
  obtain ⟨hkind, hhash⟩ := flightKey_inj hreused.staged.2 hkey
  have hcommand := hser (hsha hhash)
  refine ⟨hreused.committed, hkind, ⟨v, hv, hcommand, fun d hd n => ?_, ?_⟩, ?_⟩
  · rw [hcommand]
    exact mem_revisionsOf hd
  · rw [hcommand]
    exact hcurrent
  · rcases hreused.reusable with hactive | ⟨hdone, hresp, hcache, w, f, e, ⟨u, hu, rfl⟩, hf⟩
    · exact Or.inl hactive
    · exact Or.inr ⟨hdone, hresp, hcache, u, key, f, e, hu, hreused.staged.2, hf⟩

end SingleFlight
/-- Commands are countable, so an injective serialization exists. -/
instance countableString : Countable String :=
  have : Countable Char :=
    Function.Injective.countable (f := Char.toNat) fun _ _ => Char.toNat_inj.mp
  Function.Injective.countable (f := String.toList) fun _ _ => String.toList_injective

deriving instance Countable for ComputeWorkerScope, ComputeWorkerReusePolicy,
  ComputeWorkerIdentity, StepConfig, PipelineTab, AnalysisPipeline, InteractiveCommand,
  PreflightAction, PreflightCommand, DatasourceCommand, CommandBody, InputRevision,
  ComputeCommand

/-- The schema command of datasource `d`, before and after its snapshot at revision 1. -/
def sampleSchema (revisions : List InputRevision) : ComputeCommand :=
  ⟨revisions, some (.datasource (some (.schema "d" false "")))⟩

/-- The bytes of `sampleSchema [⟨"d", 1⟩]` on the wire. -/
def sampleBytes : List UInt8 := [82, 5, 42, 3, 10, 1, 100, 90, 5, 10, 1, 100, 16, 1]

/-- An injective serialization and hash that agree with the real ones on the sample command;
elsewhere any injection does. -/
noncomputable def flightPlatform : Platform :=
  { samplePlatform with
    serialize := fun c => if c = sampleSchema [⟨"d", 1⟩] then sampleBytes
      else List.replicate (Classical.choose (exists_injective_nat ComputeCommand) c) 0
    sha256 := fun b => if b = sampleBytes then
        "14292c8d87d2f8476bdb2666346b07b44a384b8d63e9877939c766a3b18b010b"
      else String.ofList ('-' :: b.map Char.ofUInt8) }

theorem flightPlatform_serialize_injective : Function.Injective flightPlatform.serialize := by
  have hne (n : ℕ) : sampleBytes ≠ List.replicate n 0 := fun h => by
    have hmem : (82 : UInt8) ∈ List.replicate n 0 := h ▸ List.mem_cons_self
    exact absurd (List.eq_of_mem_replicate hmem) (by decide)
  intro c c' h
  simp only [flightPlatform] at h
  split at h <;> split at h
  · next hc hc' => rw [hc, hc']
  · exact absurd h (hne _)
  · exact absurd h.symm (hne _)
  · exact Classical.choose_spec (exists_injective_nat ComputeCommand)
      (by simpa using congrArg List.length h)

theorem flightPlatform_sha256_injective : Function.Injective flightPlatform.sha256 := by
  have hne (l : List Char) : "14292c8d87d2f8476bdb2666346b07b44a384b8d63e9877939c766a3b18b010b" ≠
      String.ofList ('-' :: l) := fun h => by
    have hhead := congrArg (fun s => s.toList.head?) h
    simp at hhead
  intro b b' h
  simp only [flightPlatform] at h
  split at h <;> split at h
  · next hb hb' => rw [hb, hb']
  · exact absurd h (hne _)
  · exact absurd h.symm (hne _)
  · have hlist := congrArg String.toList h
    simp only [String.toList_ofList, List.cons.injEq, true_and] at hlist
    refine List.map_injective_iff.mpr (fun x y hxy => ?_) hlist
    exact UInt8.toUInt32_inj.mp (congrArg Char.val hxy)

def sampleShared (id : String) (now wakeId : ℕ) : Op :=
  .stageSharedFlightRequest "n"
    { kind := .datasourceSchema
      command := sampleSchema []
      requestId := id
      now
      wakeId }

/-- The result of the first request, one second after its claim. -/
def sampleResult : Op :=
  .finishClaimedRequest "n" (markRequestCompleted "x"
    ⟨.datasourceSchema, 1, "x", .completed, none, .result ""⟩ "w" "t" 1 (none, none, none) none
    (seconds 1))

/-- A request is staged, claimed and completed; its flight is cached until second 301. -/
def sampleCached : List (Action Op) :=
  Action.spawn (sampleShared "x" 0 0) :: List.replicate 9 (.run 0) ++
    Action.spawn (sampleClaim "w" "t") :: List.replicate 7 (.run 1) ++
    Action.tick (seconds 1) :: .spawn sampleResult :: List.replicate 8 (.run 2)

/-- A second caller starts at second 300 and reads the flight at second `t`. -/
def sampleCaller (t : ℕ) : List (Action Op) :=
  sampleCached ++ [Action.tick (seconds 300), .spawn (sampleShared "y" (seconds 300) 1),
    .tick (seconds t), .run 3, .run 3]

/-- The reply of the second caller, if it is handed the cached request. -/
def sampleHandedOut (s' : ComputeSystem) : Bool :=
  s'.calls[3]?.any fun c => match c.op, c.script with
    | .stageSharedFlightRequest "n" args, .done (.staged "x" r false) =>
      args.command = sampleSchema [] && r.status = .completed
    | _, _ => false

theorem sampleHandedOut_spec {s' : ComputeSystem} (h : sampleHandedOut s' = true) :
    ∃ c args r, s'.calls[3]? = some c ∧ c.op = Op.stageSharedFlightRequest "n" args ∧
      c.script = Script.done (.staged "x" r false) ∧ args.command = sampleSchema [] ∧
      r.status = ComputeRequestStatus.completed := by
  obtain ⟨c, hc, hmatch⟩ := (Option.any_eq_true _ _).mp h
  split at hmatch
  · next args r hop hscript =>
    simp only [Bool.and_eq_true, decide_eq_true_eq] at hmatch
    exact ⟨c, args, r, hc, hop, hscript, hmatch.1, hmatch.2⟩
  · cases hmatch

/-- In time, the second caller is handed the cached request for the revision it read. -/
theorem single_flight_cached : ∃ s s' r, Reachable flightPlatform s ∧
    s.step (code flightPlatform) (.run 3) = some s' ∧ requestAt s' "n" "x" = some r ∧
    r.status = .completed ∧ ∃ v, During flightPlatform 3 v s ∧
      r.commandEnvelope.command = snapshotted (v.db.tenants "n") (sampleSchema []) := by
  obtain ⟨s, hreach, htest⟩ := Reachable.of_replay flightPlatform sampleDb_fresh 0
    (sampleCaller 300) (fun s => (s.step (code flightPlatform) (.run 3)).any sampleHandedOut)
    (by decide +kernel)
  obtain ⟨s', hs', hout⟩ := (Option.any_eq_true _ _).mp htest
  obtain ⟨c, args, r, hc, hop, hscript, hcommand, hdone⟩ := sampleHandedOut_spec hout
  obtain ⟨hrow, -, ⟨v, hv, heq, -⟩, -⟩ := (single_flight flightPlatform_sha256_injective
    flightPlatform_serialize_injective hreach).2.2 3 s' c "n" args "x" r hs' hc hop hscript
  exact ⟨s, s', r, hreach, hs', hrow, hdone, v, hv, hcommand ▸ heq⟩

/-- The second caller is handed the cached request after its flight has expired. -/
theorem single_flight_expired : ¬ ∀ (p : Platform) (s : ComputeSystem),
    Function.Injective p.sha256 → Function.Injective p.serialize → Reachable p s →
    ∀ i s' c ns args id r, s.step (code p) (.run i) = some s' → s'.calls[i]? = some c →
      c.op = .stageSharedFlightRequest ns args → c.script = .done (.staged id r false) →
      r.status.active = true ∨ (r.status = .completed ∧ ∃ key f e,
        flightAt s ns key = some f ∧ f.requestId = id ∧ f.expiresAt = some e ∧ s.now < e) := by
  intro hall
  obtain ⟨s, hreach, htest⟩ := Reachable.of_replay flightPlatform sampleDb_fresh 0
    (sampleCaller 302) (fun s =>
      (s.db.tenants "n").flights.rows.all (fun f => f.2.expiresAt.all (· ≤ s.now)) &&
        (s.step (code flightPlatform) (.run 3)).any sampleHandedOut) (by decide +kernel)
  simp only [Bool.and_eq_true, List.all_eq_true] at htest
  obtain ⟨hflights, hstep⟩ := htest
  obtain ⟨s', hs', hout⟩ := (Option.any_eq_true _ _).mp hstep
  obtain ⟨c, args, r, hc, hop, hscript, -, hdone⟩ := sampleHandedOut_spec hout
  rcases hall flightPlatform s flightPlatform_sha256_injective flightPlatform_serialize_injective
    hreach 3 s' c "n" args "x" r hs' hc hop hscript with hact | ⟨-, key, f, e, hf, -, he, hlt⟩
  · rw [hdone] at hact
    cases hact
  · have hexp := hflights (key, f) ((Table.mem_rows_iff _ _ _).mpr hf)
    simp only [he, Option.all_some, decide_eq_true_eq] at hexp
    omega

end DataForge.Compute
