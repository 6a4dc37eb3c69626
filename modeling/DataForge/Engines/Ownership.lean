import DataForge.Engines.Requests
import DataForge.Engines.Scheduling

/-!
# Ownership of admissions

Admissions are queued per identity and carry no owner. The model remembers to whom the loop
granted each admission, on whose behalf it was claimed and on whose behalf it was returned.
These agree as long as no request of an identity is admitted between the admission and the last
release of another one, and no spawn without a request finds an admission in the queue.
-/

namespace DataForge.Engines

open ReadCommitted Monitor

namespace Manager

/-- A queued admission was granted, each of them once, claims and returns are made on behalf of
its grantee, and until one of them is on record it is queued. The claims `c` are on record. -/
structure Owned (c : List (AdmissionId × Option WaiterId)) (m : Manager) : Prop where
  since : c ⊆ m.history.claims
  keys : (m.spawnAdmissions.map Prod.fst).Nodup
  queued : ∀ q ∈ m.spawnAdmissions, ∃ w, (q.2.id, w) ∈ m.history.granted
  fresh : ∀ p ∈ m.history.granted, p.1 < m.nextAdmission
  once : (m.history.granted.map Prod.fst).Nodup
  owns : ∀ w a, m.resolutions w = some (.owns a) → (a, w) ∈ m.history.granted
  claims : ∀ p ∈ m.history.claims, ∃ w, p.2 = some w ∧ (p.1, w) ∈ m.history.granted
  returns : ∀ p ∈ m.history.returns, ∃ w, p.2 = some w ∧ (p.1, w) ∈ m.history.granted
  kept : ∀ p ∈ m.history.granted, (∃ q ∈ m.spawnAdmissions, q.2.id = p.1) ∨
    (p.1, some p.2) ∈ m.history.claims ∨ (p.1, some p.2) ∈ m.history.returns

variable {cfg : Setup} {m m' : Manager} {c : List (AdmissionId × Option WaiterId)} {k : Key}
  {a : CapacityAdmission} {w : SpawnWaiter}

namespace Owned

theorem same (h : m.Owned c) (he : m'.ledger = m.ledger) : m'.Owned c := by
  simp only [ledger, Prod.mk.injEq] at he
  obtain ⟨hq, hans, hnext, hgr, hcl, hret⟩ := he
  constructor
  · rw [hcl]
    exact h.since
  · rw [hq]
    exact h.keys
  · rw [hq, hgr]
    exact h.queued
  · rw [hgr, hnext]
    exact h.fresh
  · rw [hgr]
    exact h.once
  · rw [hans, hgr]
    exact h.owns
  · rw [hcl, hgr]
    exact h.claims
  · rw [hret, hgr]
    exact h.returns
  · rw [hgr, hq, hcl, hret]
    exact h.kept

theorem unique (h : m.Owned c) {i : AdmissionId} {v v' : WaiterId}
    (hv : (i, v) ∈ m.history.granted) (hv' : (i, v') ∈ m.history.granted) : v = v' :=
  congrArg Prod.snd (List.inj_on_of_nodup_map h.once hv hv' rfl)

theorem resolve (h : m.Owned c) {r : Resolution} (hr : ∀ i, r ≠ .owns i) :
    (m.resolveWaiter w r).Owned c :=
  { h with
    owns := by
      intro v i hv
      by_cases he : v = w.id
      · subst he
        simp only [resolveWaiter, Function.update_self, Option.some.injEq] at hv
        exact absurd hv (hr i)
      · simp only [resolveWaiter, Function.update_of_ne he] at hv
        exact h.owns v i hv }

theorem reject (h : m.Owned c) : m.rejectWaiters.Owned c :=
  { h with
    owns := by
      intro v i hv
      simp only [rejectWaiters] at hv
      split at hv
      · cases hv
      · exact h.owns v i hv }

/-- A new admission is queued for a waiter. -/
theorem grant (h : m.Owned c) (hq : m.hasAdmission w.key = false)
    (hr : m.reserveCapacityLocked cfg = some (a, m')) : (m'.grant w a).Owned c := by
  have hsame : m'.spawnAdmissions = m.spawnAdmissions ∧ m'.resolutions = m.resolutions ∧
      m'.nextAdmission = m.nextAdmission + 1 ∧ m'.history.granted = m.history.granted ∧
      m'.history.claims = m.history.claims ∧ m'.history.returns = m.history.returns ∧
      a.id = m.nextAdmission := by
    simp only [reserveCapacityLocked] at hr
    split at hr
    · cases hr
      exact ⟨rfl, rfl, rfl, rfl, rfl, rfl, rfl⟩
    · split at hr <;> cases hr
      exact ⟨rfl, rfl, rfl, rfl, rfl, rfl, rfl⟩
  obtain ⟨hqueue, hans, hnext, hgr, hcl, hret, hid⟩ := hsame
  have hmem : ∀ p, p ∈ (m'.grant w a).history.granted ↔
      p ∈ m.history.granted ∨ p = (a.id, w.id) := by
    simp [Manager.grant, resolveWaiter, hgr]
  have hnew : ∀ v, (a.id, v) ∉ m.history.granted := fun v hv => (h.fresh _ hv).ne hid
  constructor
  · exact fun p hp => (congrArg (p ∈ ·) hcl).mpr (h.since hp)
  · simp only [Manager.grant, resolveWaiter, hqueue, List.map_append, List.map_cons, List.map_nil]
    refine h.keys.append (List.nodup_singleton _) (List.disjoint_singleton.mpr fun hm => ?_)
    obtain ⟨p, hp, he⟩ := List.mem_map.mp hm
    exact (m.hasAdmission_eq_false w.key).mp hq p hp he
  · intro q hm
    simp only [Manager.grant, resolveWaiter, hqueue, List.mem_append, List.mem_singleton] at hm
    rcases hm with hm | rfl
    · obtain ⟨v, hv⟩ := h.queued q hm
      exact ⟨v, (hmem _).mpr (Or.inl hv)⟩
    · exact ⟨w.id, (hmem _).mpr (Or.inr rfl)⟩
  · intro p hp
    have hn : (m'.grant w a).nextAdmission = m.nextAdmission + 1 := hnext
    rw [hn]
    rcases (hmem p).mp hp with hp | rfl
    · exact Nat.lt_succ_of_lt (h.fresh p hp)
    · exact hid ▸ Nat.lt_succ_self _
  · simp only [Manager.grant, resolveWaiter, hgr, List.map_append, List.map_cons, List.map_nil]
    refine h.once.append (List.nodup_singleton _) (List.disjoint_singleton.mpr fun hm => ?_)
    obtain ⟨⟨i, v⟩, hp, rfl⟩ := List.mem_map.mp hm
    exact hnew v hp
  · intro v i hv
    apply (hmem _).mpr
    by_cases he : v = w.id
    · subst he
      simp only [Manager.grant, resolveWaiter, Function.update_self, Option.some.injEq,
        Resolution.owns.injEq] at hv
      exact Or.inr (by rw [hv])
    · simp only [Manager.grant, resolveWaiter, Function.update_of_ne he, hans] at hv
      exact Or.inl (h.owns v i hv)
  · intro p hp
    obtain ⟨v, hv, hg⟩ := h.claims p ((congrArg (p ∈ ·) hcl).mp hp)
    exact ⟨v, hv, (hmem _).mpr (Or.inl hg)⟩
  · intro p hp
    obtain ⟨v, hv, hg⟩ := h.returns p ((congrArg (p ∈ ·) hret).mp hp)
    exact ⟨v, hv, (hmem _).mpr (Or.inl hg)⟩
  · intro p hp
    simp only [Manager.grant, resolveWaiter, hqueue, hcl, hret, List.mem_append,
      List.mem_singleton]
    rcases (hmem p).mp hp with hp | rfl
    · rcases h.kept p hp with ⟨q, hq, he⟩ | hk
      · exact Or.inl ⟨q, Or.inl hq, he⟩
      · exact Or.inr hk
    · exact Or.inl ⟨_, Or.inr rfl, rfl⟩

theorem admitRound {now : ℕ} (h : m.Owned c) (hr : m.admitRound cfg now = some m') :
    m'.Owned c := by
  simp only [Manager.admitRound] at hr
  split at hr
  · cases hr
  case h_2 w hp =>
    split at hr
    · cases hr
      unfold admitExisting
      dsimp only
      split
      · exact (h.resolve (by simp)).same rfl
      · exact h.resolve (by simp)
    · obtain ⟨⟨a, m1⟩, hres, rfl⟩ := Option.map_eq_some_iff.mp hr
      exact h.grant (pickWaiter_spec hp).2.2 hres

theorem admitAll {now : ℕ} (h : m.Owned c) : (m.admitSpawnWaitersLocked cfg now).Owned c := by
  have hrounds : ∀ (rounds : ℕ) (m : Manager), m.Owned c →
      (admitRounds cfg now rounds m).Owned c := by
    intro rounds
    induction rounds with
    | zero => exact fun _ h => h
    | succ rounds ih =>
      intro m h
      simp only [admitRounds]
      split
      · exact h
      case h_2 m' hm' => exact ih m' (h.admitRound hm')
  unfold admitSpawnWaitersLocked
  split
  · exact h.reject
  · exact hrounds _ m h

theorem reserve (h : m.Owned c) (hr : m.reserveCapacityLocked cfg = some (a, m')) :
    m'.Owned c := by
  have hn : ∀ p ∈ m.history.granted, p.1 < m.nextAdmission + 1 :=
    fun p hp => Nat.lt_succ_of_lt (h.fresh p hp)
  simp only [reserveCapacityLocked] at hr
  split at hr
  · cases hr
    exact { h with fresh := hn }
  · split at hr <;> cases hr
    exact { h with fresh := hn }

theorem pop (h : m.Owned c) (hd : m.headAdmission k = some a)
    (hrec : ∀ v, (a.id, v) ∈ m.history.granted →
      (a.id, some v) ∈ m.history.claims ∨ (a.id, some v) ∈ m.history.returns) :
    (m.popAdmission k).Owned c :=
  { h with
    keys := h.keys.sublist (List.Sublist.map _ List.eraseP_sublist)
    queued := fun q hq => h.queued q (List.mem_of_mem_eraseP hq)
    kept := by
      intro p hp
      by_cases he : p.1 = a.id
      · exact Or.inr (he ▸ hrec p.2 (he ▸ hp))
      · rcases h.kept p hp with ⟨q, hq, hid⟩ | hk
        · refine Or.inl ⟨q, ?_, hid⟩
          rcases List.mem_cons.mp ((m.perm_popAdmission hd).subset hq) with rfl | hq
          · exact absurd hid.symm he
          · exact hq
        · exact Or.inr hk }

/-- A claim on behalf of the grantee goes on record. -/
theorem claim {call : SpawnCall} (h : m.Owned c)
    (hown : ∀ a ∈ m.headAdmission call.key, ∃ w ∈ call.onBehalf,
      (a.id, w) ∈ m.history.granted) : (claimHead m call).Owned c := by
  have hmem : ∀ p, p ∈ (claimHead m call).history.claims ↔ p ∈ m.history.claims ∨
      ∃ a ∈ m.headAdmission call.key, p = (a.id, call.onBehalf) := by
    intro p
    simp only [claimHead, installEvent, List.mem_append, List.mem_map, Option.mem_toList]
    refine or_congr_right ⟨?_, ?_⟩
    · rintro ⟨i, ⟨a, ha, rfl⟩, rfl⟩
      exact ⟨a, ha, rfl⟩
    · rintro ⟨a, ha, rfl⟩
      exact ⟨a.id, ⟨a, ha, rfl⟩, rfl⟩
  exact
    { h with
      since := fun p hp => (hmem p).mpr (Or.inl (h.since hp))
      claims := by
        intro p hp
        rcases (hmem p).mp hp with hp | ⟨a, ha, rfl⟩
        · exact h.claims p hp
        · exact hown a ha
      kept := by
        intro p hp
        rcases h.kept p hp with hk | hk | hk
        · exact Or.inl hk
        · exact Or.inr (Or.inl ((hmem _).mpr (Or.inl hk)))
        · exact Or.inr (Or.inr hk) }

theorem giveBack (h : m.Owned c) (hd : m.headAdmission k = some a) {v : WaiterId}
    (hv : (a.id, v) ∈ m.history.granted) : ((m.popAdmission k).giveBack a (some v)).Owned c := by
  let m1 : Manager :=
    { m with history := { m.history with returns := m.history.returns ++ [(a.id, some v)] } }
  have h1 : m1.Owned c :=
    { h with
      returns := by
        intro p hp
        rcases List.mem_append.mp hp with hp | hp
        · exact h.returns p hp
        · rw [List.mem_singleton.mp hp]
          exact ⟨v, rfl, hv⟩
      kept := fun p hp => (h.kept p hp).imp_right (Or.imp_right (List.mem_append_left _)) }
  have hpop : (m1.popAdmission k).Owned c := by
    refine h1.pop hd fun v' hv' => Or.inr ?_
    rw [h.unique hv' hv]
    exact List.mem_append_right _ (List.mem_singleton_self _)
  refine hpop.same ?_
  simp only [Manager.giveBack]
  cases a.warmClaim <;> cases a.coldStart <;> rfl

end Owned
end Manager

/-! ## Conditions -/

/-- A spawn gets through its identity gate and does not reuse an engine. -/
def Manager.gateOpens (cfg : Setup) (m : Manager) (call : SpawnCall) : Prop :=
  m.engineEvents.get call.key = none ∧ (m.engines.get call.key = none ∨ m.restarts cfg call)

/-- The identity and the waiter for which a frame may still claim or return an admission: those
of an admitted request, and of a spawn or a release on its behalf. -/
def Frame.actsFor (m : Manager) : Frame → Option (Key × WaiterId)
  | .admission (.parked v) call | .admission (.cancelled v) call
  | .admission (.releasing v) call =>
    match m.resolutions v.id with
    | some (.owns _) => some (call.key, v.id)
    | _ => none
  | .request _ l => l.owner.map fun w => (l.key, w)
  | .acquire call | .spawnGate call | .spawnWait call _ =>
    call.onBehalf.map fun w => (call.key, w)
  | .spawn _ l => l.call.onBehalf.map fun w => (l.call.key, w)
  | .releaseSpawnAdmission k b => b.map fun w => (k, w)
  | _ => none

/-- A spawn on behalf of no request gets through the gate of an identity only while no admission
of it is queued. -/
def Frame.Unassigned (cfg : Setup) (m : Manager) : Frame → Prop
  | .spawnGate call => call.onBehalf = none → m.gateOpens cfg call →
      m.hasAdmission call.key = false
  | _ => True

/-- An admission that the step from `s` to `s'` grants is granted while no other request of the
identity is between its admission and its last release. -/
def System.GrantsApart (s s' : System) : Prop :=
  ∀ q ∈ s'.shared.spawnAdmissions, q ∉ s.shared.spawnAdmissions →
    ∀ p ∈ s'.shared.history.granted, p.1 = q.2.id →
      ∀ f ∈ s'.frames, ∀ o ∈ f.actsFor s'.shared, o.1 = q.1 → o.2 = p.2

/-- Any operation may be called at any time, except that `release_engine_request` and
`release_spawn_admission` are left to requests, cancelled admissions and spawns. The requests of
an identity are admitted one after the other, and a spawn without a request takes nobody's
admission. -/
def Separate (cfg : Setup) (s : System) : Act → Prop
  | .call f => Matched s (.call f) ∧ f.family ≠ .release
  | .run i c => (∀ f rest r, s.threads[i]? = some ⟨f :: rest, r⟩ → f.Unassigned cfg s.shared) ∧
      ∀ s' ∈ s.step (code cfg) (.run i c), s.GrantsApart s'
  | .outside _ => True

/-- A frame that is about to take an admission out of its queue acts for its grantee. -/
def Frame.Rightful (cfg : Setup) (m : Manager) : Frame → Prop
  | .spawnGate call => m.gateOpens cfg call → ∀ a ∈ m.headAdmission call.key,
      ∃ w ∈ call.onBehalf, (a.id, w) ∈ m.history.granted
  | .releaseSpawnAdmission k b => ∀ a ∈ m.headAdmission k,
      ∃ w ∈ b, (a.id, w) ∈ m.history.granted
  | _ => True

/-- The admission that a spawn has claimed is on record, a spawn that hands one back has claimed
it, and releases are made on behalf of requests. -/
def Frame.Claims (m : Manager) : Frame → Prop
  | .spawn pc l => (∀ a ∈ l.admission, (a.id, l.call.onBehalf) ∈ m.history.claims) ∧
      (pc = .failed → l.admission.isSome = true)
  | .releaseSpawnAdmission _ b => b.isSome = true
  | _ => True

variable {cfg : Setup} {m : Manager} {c : List (AdmissionId × Option WaiterId)}

/-! ## Sections -/

variable {r : Option Outcome} {ch : Choice}

private theorem owned_release {k : Key} {b : Option WaiterId} (h : m.Owned c)
    (hq : (Frame.releaseSpawnAdmission k b).Rightful cfg m) :
    (releaseSection cfg ch m r k b).1.Owned c := by
  unfold releaseSection
  split
  · exact h
  case h_2 a hd =>
    split
    · exact h
    case isFalse =>
      obtain ⟨v, hv, hg⟩ := hq a hd
      have hb := h.giveBack hd hg
      rw [Option.mem_def] at hv
      subst hv
      dsimp only
      split
      · exact Manager.Owned.admitAll (hb.same rfl)
      · exact hb

private theorem owned_gate {call : SpawnCall} (h : m.Owned c)
    (hq : (Frame.spawnGate call).Rightful cfg m) : (gateSection cfg ch m call).1.Owned c := by
  have hopen : ∀ target, m.gateOpens cfg call → (openSpawn m call target).1.Owned c := by
    intro target ho
    have hc := h.claim (hq ho)
    unfold openSpawn
    cases target with
    | none => exact hc
    | some e => cases m.headAdmission call.key <;> exact hc.same rfl
  unfold gateSection
  split
  · exact h
  · split
    · exact h
    case h_2 hev =>
      split
      case h_1 he => exact hopen none ⟨hev, Or.inl he⟩
      case h_2 e he =>
        split
        case isTrue hr => exact hopen (some e) ⟨hev, Or.inr ⟨e, he, hr⟩⟩
        case isFalse =>
          refine h.same ?_
          unfold reuseEngine
          dsimp only
          split <;> rfl

private theorem owned_spawn {l : SpawnLocals} {pc : SpawnPc} (h : m.Owned c)
    (hf : (Frame.spawn pc l).Claims m) : (spawnSection cfg ch m l pc).1.Owned c := by
  by_cases hpc : pc = .claim
  · subst hpc
    simp only [spawnSection, claimSection]
    split
    case h_1 a ha =>
      split
      case isTrue hd =>
        refine h.pop hd fun v hv => Or.inl ?_
        obtain ⟨v', hb, hg⟩ := h.claims _ (hf.1 a ha)
        have hb : l.call.onBehalf = some v' := hb
        rw [h.unique hv hg, ← hb]
        exact hf.1 a ha
      case isFalse => exact h
    case h_2 =>
      repeat' split
      case h_2 hr => exact h.reserve hr
      all_goals exact h
  · exact h.same (congrArg (fun v => v.2.1) (spawnSection_frame hpc))

variable {x : Next}

private theorem owned_admission {pc : AdmissionPc} {call : AdmissionCall} (h : m.Owned c)
    (hx : admissionSection cfg ch m r call pc = some x) : x.1.Owned c := by
  cases pc with
  | enqueue =>
    cases hx
    unfold enqueueSection
    repeat' split
    all_goals first | exact h | exact h.same rfl | exact Manager.Owned.admitAll (h.same rfl)
  | cancelled w =>
    cases hx
    exact Manager.Owned.admitAll (h.same rfl)
  | _ =>
    simp only [admissionSection] at hx
    repeat' split at hx
    all_goals
      cases hx
      try exact h

variable {f : Frame}

/-- Every rightful section keeps ownership. -/
theorem owned_advance (h : m.Owned c) (hf : f.Claims m) (hq : f.Rightful cfg m)
    (hx : f.advance cfg ch m r = some x) :
    x.1.Owned c := by
  cases f with
  | admission pc call => exact owned_admission h hx
  | spawnGate call =>
    cases hx
    exact owned_gate h hq
  | spawn pc l =>
    cases hx
    exact owned_spawn h hf
  | releaseSpawnAdmission k b =>
    cases hx
    exact owned_release h hq
  | notifyCapacityChanged =>
    cases hx
    exact h.admitAll
  | releaseProbe e =>
    cases hx
    simp only [releaseProbeSection]
    split
    · exact Manager.Owned.admitAll (h.same rfl)
    · exact h
  | releaseStop e =>
    cases hx
    exact Manager.Owned.admitAll (h.same rfl)
  | reserveEngineRequest k =>
    cases hx
    refine h.same ?_
    simp only [Manager.reserveEngineRequest]
    repeat' split
    all_goals rfl
  | request pc l =>
    cases hx
    refine h.same ?_
    cases pc <;> simp only [requestSection, Manager.reserveEngineRequest] <;> repeat' split
    all_goals rfl
  | releaseEngineRequest k =>
    cases hx
    exact h.same rfl
  | replenish pc =>
    cases hx
    exact h.same (congrArg (fun v => v.2.1) (replenishSection_frame pc))
  | _ => exact h.same (congrArg (fun v => v.2.1) (quiet_advance rfl hx))

/-- What the frames of a section have claimed is on record. -/
theorem claims_advance (h : m.Owned c) (hsub : m.history.claims ⊆ x.1.history.claims)
    (hf : f.Claims m) (hx : f.advance cfg ch m r = some x) : ∀ g ∈ x.2.2, g.Claims x.1 := by
  intro g hg
  cases f with
  | spawn pc l =>
    cases hx
    have hfollows := follows_spawn g hg
    cases g with
    | spawn pc' l' =>
      obtain ⟨hcall, hadm, hfailed⟩ := hfollows
      refine ⟨fun a ha => ?_, fun hpc => hadm ▸ hfailed hpc⟩
      rw [hadm] at ha
      rw [hcall]
      exact hsub (hf.1 a ha)
    | releaseSpawnAdmission k b =>
      obtain ⟨hpc, -, rfl⟩ := hfollows
      obtain ⟨a, ha⟩ := Option.isSome_iff_exists.mp (hf.2 hpc)
      obtain ⟨v, hv, -⟩ := h.claims _ (hf.1 a ha)
      exact Option.isSome_iff_exists.mpr ⟨v, hv⟩
    | _ => trivial
  | spawnGate call =>
    have hopen : ∀ target, g ∈ (openSpawn m call target).2.2 →
        g.Claims (openSpawn m call target).1 := by
      intro target hm
      obtain ⟨pc, l, hl, hpc, hcall, hadm⟩ := openSpawn_frames m call target
      rw [hl, List.mem_singleton] at hm
      subst hm
      refine ⟨fun a ha => ?_, fun hfailed => by rcases hpc with rfl | rfl <;> cases hfailed⟩
      rw [hadm] at ha
      have hclaim : (a.id, call.onBehalf) ∈ (claimHead m call).history.claims := by
        simp only [claimHead, Manager.installEvent, List.mem_append, List.mem_map]
        exact Or.inr ⟨a.id, ⟨a, Option.mem_toList.mpr ha, rfl⟩, rfl⟩
      have hkeep : (openSpawn m call target).1.history.claims =
          (claimHead m call).history.claims := by
        unfold openSpawn
        cases target with
        | none => rfl
        | some e => cases m.headAdmission call.key <;> rfl
      rw [hkeep, hcall]
      exact hclaim
    simp only [Frame.advance, Option.some.injEq] at hx
    subst hx
    revert hg
    unfold gateSection
    repeat' split
    all_goals first | exact hopen _ | (intro hg; simp [reuseEngine] at hg; try (rw [hg]; trivial))
  | admission pc call =>
    simp only [Frame.advance] at hx
    cases pc <;> simp only [admissionSection, enqueueSection, AdmissionCall.resume] at hx
    all_goals
      repeat' split at hx
      all_goals
        cases hx
        try
          revert g
          simp [Frame.Claims]
  | request pc l =>
    cases hx
    revert g
    cases pc <;> simp only [requestSection] <;> repeat' split
    all_goals simp [Frame.Claims]
  | releaseSpawnAdmission k b | releaseProbe e | releaseStop e =>
    cases hx
    revert g
    simp only [releaseSection, releaseProbeSection, releaseStopSection]
    repeat' split
    all_goals simp [Frame.Claims]
  | _ =>
    have hlead := family_advance hx _ hg
    cases g with
    | spawn | releaseSpawnAdmission => simp [Frame.family, Family.leads] at hlead
    | _ => trivial

/-! ## Grants -/

/-- What the admission loop does: waiters leave the queue, admissions are queued, and a waiter
that is told that it owns one was queued and is granted it under its identity. -/
structure Manager.Serves (m m' : Manager) : Prop where
  queue : m'.spawnWaiters ⊆ m.spawnWaiters
  kept : m.spawnAdmissions ⊆ m'.spawnAdmissions
  granted : m.history.granted ⊆ m'.history.granted
  owns : ∀ i b, m'.resolutions i = some (.owns b) → m.resolutions i = some (.owns b) ∨
    ∃ v ∈ m.spawnWaiters, v.id = i ∧ ∃ a, (v.key, a) ∈ m'.spawnAdmissions ∧ a.id = b

namespace Manager.Serves

variable {m m1 m' : Manager} {now : ℕ}

theorem refl (m : Manager) : m.Serves m where
  queue := List.Subset.refl _
  kept := List.Subset.refl _
  granted := List.Subset.refl _
  owns _ _ := Or.inl

theorem trans (h : m.Serves m1) (h' : m1.Serves m') : m.Serves m' where
  queue := List.Subset.trans h'.queue h.queue
  kept := List.Subset.trans h.kept h'.kept
  granted := List.Subset.trans h.granted h'.granted
  owns i b hb := by
    rcases h'.owns i b hb with hb | ⟨v, hv, hid, a, ha, hab⟩
    · refine (h.owns i b hb).imp_right ?_
      rintro ⟨v, hv, hid, a, ha, hab⟩
      exact ⟨v, hv, hid, a, h'.kept ha, hab⟩
    · exact Or.inr ⟨v, h.queue hv, hid, a, ha, hab⟩

theorem resolve (m : Manager) (w : SpawnWaiter) {r : Resolution} (hr : ∀ b, r ≠ .owns b) :
    m.Serves (m.resolveWaiter w r) where
  queue := List.erase_subset
  kept := List.Subset.refl _
  granted := List.Subset.refl _
  owns i b hb := by
    by_cases hi : i = w.id
    · subst hi
      simp only [Manager.resolveWaiter, Function.update_self, Option.some.injEq] at hb
      exact absurd hb (hr b)
    · simp only [Manager.resolveWaiter, Function.update_of_ne hi] at hb
      exact Or.inl hb

theorem round (h : m.admitRound cfg now = some m') : m.Serves m' := by
  obtain ⟨v, hv, -, ⟨e, -, rfl⟩ | ⟨-, a, m1, hres, rfl⟩⟩ := Manager.admitRound_cases h
  · have hexisting := resolve m v (r := .existing v.reserveExistingRequest) (by simp)
    unfold Manager.admitExisting
    dsimp only
    split
    · exact ⟨hexisting.queue, hexisting.kept, hexisting.granted, hexisting.owns⟩
    · exact hexisting
  · obtain ⟨hturn, hqueue⟩ := Manager.reserveCapacityLocked_turn hres
    have hadmissions : m1.spawnAdmissions = m.spawnAdmissions := by
      unfold Manager.reserveCapacityLocked at hres
      dsimp only at hres
      split at hres
      · cases hres
        rfl
      · split at hres <;> cases hres
        rfl
    simp only [Manager.turn, Prod.mk.injEq] at hturn
    constructor
    · exact hqueue ▸ List.erase_subset
    · exact hadmissions ▸ List.subset_append_left _ _
    · exact hturn.2.2.1 ▸ List.subset_append_left _ _
    · intro i b hb
      by_cases hi : i = v.id
      · subst hi
        simp only [Manager.grant, Manager.resolveWaiter, Function.update_self, Option.some.injEq,
          Resolution.owns.injEq] at hb
        exact Or.inr ⟨v, (Manager.pickWaiter_spec hv).1, rfl, a,
          List.mem_append_right _ (List.mem_singleton_self _), hb⟩
      · simp only [Manager.grant, Manager.resolveWaiter, Function.update_of_ne hi,
          hturn.2.2.2] at hb
        exact Or.inl hb

theorem rounds (n : ℕ) (m : Manager) : m.Serves (m.admitRounds cfg now n) := by
  induction n generalizing m with
  | zero => exact refl m
  | succ n ih =>
    rw [Manager.admitRounds]
    cases hround : m.admitRound cfg now with
    | none => exact refl m
    | some m1 => exact (round hround).trans (ih m1)

theorem loop (m : Manager) : m.Serves (m.admitSpawnWaitersLocked cfg now) := by
  unfold Manager.admitSpawnWaitersLocked
  split
  · refine ⟨List.nil_subset _, List.Subset.refl _, List.Subset.refl _, fun i b hb => ?_⟩
    simp only [Manager.rejectWaiters] at hb
    split at hb
    · cases hb
    · exact Or.inl hb
  · exact rounds _ m

end Manager.Serves

/-- A waiter that a section tells that it owns an admission was queued or has just come, and the
admission is queued under its identity. Grants stay on record. -/
theorem owns_advance (hx : f.advance cfg ch m r = some x) :
    m.history.granted ⊆ x.1.history.granted ∧
    ∀ i b, x.1.resolutions i = some (.owns b) → m.resolutions i = some (.owns b) ∨
      ∃ v ∈ m.spawnWaiters ++ f.arrivals m, v.id = i ∧
        ∃ a, (v.key, a) ∈ x.1.spawnAdmissions ∧ a.id = b := by
  obtain ⟨m1, hturn, hloop⟩ := turned_advance hx
  simp only [Manager.turn, Prod.mk.injEq] at hturn
  obtain ⟨-, -, hgranted, hanswers⟩ := hturn
  rw [← hgranted, ← hanswers]
  rcases hloop with rfl | ⟨hqueue, now, hloop⟩
  · exact ⟨List.Subset.refl _, fun i b => Or.inl⟩
  · have hserves : m1.Serves (m1.admitSpawnWaitersLocked cfg now) := .loop m1
    rw [← hloop] at hserves
    refine ⟨hserves.granted, fun i b hb => (hserves.owns i b hb).imp_right ?_⟩
    rintro ⟨v, hv, hrest⟩
    exact ⟨v, hqueue hv, hrest⟩

theorem arrivals_spec {v v' : SpawnWaiter} (hv : v ∈ f.arrivals m) (hv' : v' ∈ f.arrivals m) :
    v.id = m.nextWaiter ∧ v' = v := by
  cases f with
  | admission pc call =>
    cases pc with
    | enqueue =>
      obtain rfl := List.mem_singleton.mp hv
      exact ⟨rfl, List.mem_singleton.mp hv'⟩
    | _ => cases hv
  | _ => cases hv

theorem actsFor_changes {m' : Manager} {g : Frame} {o : Key × WaiterId}
    (ho : o ∈ g.actsFor m') : o ∈ g.actsFor m ∨ ∃ pc call, g = .admission pc call ∧
      ∃ v ∈ g.waiters, o = (call.key, v.id) ∧ ∃ b, m'.resolutions v.id = some (.owns b) ∧
        m.resolutions v.id ≠ some (.owns b) := by
  cases g with
  | admission pc call =>
    cases pc with
    | parked v | cancelled v | releasing v =>
      simp only [Frame.actsFor] at ho ⊢
      split at ho
      case h_1 b hb =>
        cases ho
        by_cases hold : m.resolutions v.id = some (.owns b)
        · exact Or.inl (by rw [hold]; rfl)
        · exact Or.inr ⟨_, call, rfl, v, Multiset.mem_singleton_self v, rfl, b, hb, hold⟩
      case h_2 => cases ho
    | _ => cases ho
  | _ => exact Or.inl ho

/-- The frames that a section leaves act for the request that the running frame acts for, or for
a waiter that has just come. -/
theorem actsFor_advance (hx : f.advance cfg ch m r = some x) : ∀ g ∈ x.2.2, ∀ o ∈ g.actsFor x.1,
      o ∈ f.actsFor x.1 ∨ ∃ v ∈ f.arrivals m, o = (v.key, v.id) ∧
        ∃ b, x.1.resolutions v.id = some (.owns b) := by
  intro g hg o ho
  cases f with
  | spawn pc l =>
    cases hx
    have hfollows := follows_spawn g hg
    cases g with
    | spawn pc' l' =>
      simp only [Frame.actsFor, hfollows.1] at ho
      exact Or.inl ho
    | releaseSpawnAdmission k b =>
      obtain ⟨-, rfl, rfl⟩ := hfollows
      exact Or.inl ho
    | notifyCapacityChanged | finishEngineEvent => cases ho
    | _ => cases hfollows
  | spawnGate call =>
    have hopen : ∀ target, g ∈ (openSpawn m call target).2.2 → o ∈ (Frame.spawnGate call).actsFor
        x.1 := by
      intro target hm
      obtain ⟨pc, l, hl, -, hcall, -⟩ := openSpawn_frames m call target
      rw [hl, List.mem_singleton] at hm
      subst hm
      simpa only [Frame.actsFor, hcall] using ho
    refine Or.inl ?_
    simp only [Frame.advance, Option.some.injEq] at hx
    subst hx
    revert hg
    unfold gateSection
    repeat' split
    all_goals first | exact hopen _ | skip
    all_goals
      intro hg
      simp only [reuseEngine, List.mem_singleton, List.not_mem_nil] at hg
    rw [hg] at ho
    exact ho
  | admission pc call =>
    have hresume : ∀ owner, g ∈ call.resume owner → ∃ w ∈ owner, o = (call.key, w) := by
      intro owner hm
      unfold AdmissionCall.resume at hm
      split at hm
      · rw [List.mem_singleton.mp hm] at ho
        obtain ⟨w, hw, he⟩ := Option.map_eq_some_iff.mp ho
        exact ⟨w, hw, he.symm⟩
      · cases hm
    cases pc with
    | enqueue =>
      simp only [Frame.advance, admissionSection, enqueueSection] at hx
      repeat' split at hx
      all_goals cases hx
      · cases hg
      iterate 2
        obtain ⟨w, hw, -⟩ := hresume none hg
        cases hw
      · rw [List.mem_singleton.mp hg] at ho
        cases ho
      · rw [List.mem_singleton.mp hg] at ho
        simp only [Frame.actsFor] at ho
        split at ho
        case h_1 b hb =>
          cases ho
          exact Or.inr ⟨_, List.mem_singleton_self _, rfl, b, hb⟩
        case h_2 => cases ho
    | parked v =>
      simp only [Frame.advance, admissionSection] at hx
      repeat' split at hx
      all_goals cases hx
      case h_2.refl hanswer =>
        obtain ⟨w, hw, rfl⟩ := hresume _ hg
        cases hw
        simp [Frame.actsFor, hanswer]
      case h_3.refl =>
        obtain ⟨w, hw, -⟩ := hresume _ hg
        cases hw
      all_goals
        rw [List.mem_singleton.mp hg] at ho
        exact Or.inl ho
    | cancelled v =>
      cases hx
      rw [List.mem_singleton.mp hg] at ho
      exact Or.inl ho
    | releasing v =>
      simp only [Frame.advance, admissionSection] at hx
      repeat' split at hx
      all_goals cases hx
      case h_1.refl hanswer =>
        simp only [List.mem_cons, List.not_mem_nil, or_false] at hg
        rcases hg with rfl | rfl
        · refine Or.inl ?_
          simpa [Frame.actsFor, hanswer] using ho
        · cases ho
      · cases hg
      · rw [List.mem_singleton.mp hg] at ho
        cases ho
    | turn | unreserving v | ended =>
      simp only [Frame.advance, admissionSection] at hx
      repeat' split at hx
      all_goals
        cases hx
        simp only [List.mem_cons, List.not_mem_nil, or_false] at hg
      all_goals
        rcases hg with rfl | rfl <;> cases ho
  | request pc l =>
    cases hx
    revert g
    cases pc <;> simp only [requestSection] <;> repeat' split
    all_goals simp_all [Frame.actsFor]
  | releaseSpawnAdmission k b | releaseProbe e | releaseStop e =>
    cases hx
    revert g
    simp only [releaseSection, releaseProbeSection, releaseStopSection]
    repeat' split
    all_goals simp [Frame.actsFor]
  | acquire call =>
    cases hx
    simp only [List.mem_cons, List.not_mem_nil, or_false] at hg
    rcases hg with rfl | rfl
    · exact Or.inl ho
    · cases ho
  | holding k e =>
    cases hx
    rw [List.mem_singleton.mp hg] at ho
    cases ho
  | spawnWait call ev =>
    simp only [Frame.advance] at hx
    split at hx <;> cases hx
    rw [List.mem_singleton.mp hg] at ho
    exact Or.inl ho
  | acquired k =>
    simp only [Frame.advance] at hx
    split at hx <;> cases hx
    · rw [List.mem_singleton.mp hg] at ho
      cases ho
    · cases hg
  | _ =>
    have hlead := family_advance hx _ hg
    cases g with
    | admission | request | acquire | spawnGate | spawnWait | spawn | releaseSpawnAdmission =>
      simp [Frame.family, Family.leads] at hlead
    | _ => cases ho

/-- Ownership next to all frames: while an admission is queued, all frames that act for its
identity act for its grantee. -/
structure Entitled (m : Manager) (F : Multiset Frame) : Prop where
  reserved : Reserved m F
  owned : m.Owned []
  claims : ∀ f ∈ F, f.Claims m
  sole : ∀ q ∈ m.spawnAdmissions, ∀ p ∈ m.history.granted, p.1 = q.2.id →
    ∀ f ∈ F, ∀ o ∈ f.actsFor m, o.1 = q.1 → o.2 = p.2

/-! ## Runs -/

/-- An invariant frame takes admissions of its own request only. -/
theorem Entitled.rightful {F : Multiset Frame} (h : Entitled m (f ::ₘ F)) (hq : f.Unassigned cfg m)
    : f.Rightful cfg m := by
  have hself := Multiset.mem_cons_self f F
  have hgrantee : ∀ k w a, (k, w) ∈ f.actsFor m → m.headAdmission k = some a →
      (a.id, w) ∈ m.history.granted := by
    intro k w a ho hd
    have hmem := m.head_mem hd
    obtain ⟨v, hv⟩ := h.owned.queued _ hmem
    have he : w = v := h.sole _ hmem _ hv rfl f hself _ ho rfl
    exact he ▸ hv
  cases f with
  | spawnGate call =>
    intro hgate a ha
    cases hb : call.onBehalf with
    | none =>
      have hfree := (m.hasAdmission_eq_false call.key).mp (hq hb hgate)
      exact absurd rfl (hfree _ (m.head_mem ha))
    | some w => exact ⟨w, rfl, hgrantee call.key w a (by simp [Frame.actsFor, hb]) ha⟩
  | releaseSpawnAdmission k b =>
    intro a ha
    obtain ⟨w, hw⟩ := Option.isSome_iff_exists.mp (h.claims _ hself)
    subst hw
    exact ⟨w, rfl, hgrantee k w a rfl ha⟩
  | _ => trivial

/-- Behind a section, an admission that was queued before is still that of the one request that
frames act for: a waiter of the identity that is granted another one meanwhile would have it
queued as well. -/
theorem Entitled.sole_advance {F : Multiset Frame} (h : Entitled m (f ::ₘ F)) (ha : x.1.Owned c)
    (hx : f.advance cfg ch m r = some x) {q : Key × CapacityAdmission} (hq : q ∈ m.spawnAdmissions)
    (hq' : q ∈ x.1.spawnAdmissions) {p : AdmissionId × WaiterId} (hp : p ∈ x.1.history.granted)
    (hpq : p.1 = q.2.id) :
    ∀ g ∈ (x.2.2 : Multiset Frame) + F, ∀ o ∈ g.actsFor x.1, o.1 = q.1 → o.2 = p.2 := by
  obtain ⟨hgranted, hanswer⟩ := owns_advance hx
  -- An answer that is new names an admission of the identity, which can only be `q`.
  have hnew : ∀ v b, x.1.resolutions v.id = some (.owns b) → m.resolutions v.id ≠ some (.owns b) →
      (∀ v' ∈ m.spawnWaiters ++ f.arrivals m, v'.id = v.id → v' = v) → v.key = q.1 →
      v.id = p.2 := by
    intro v b hb hold hunique hkey
    obtain ⟨v', hv', hid, a, hadm, rfl⟩ := (hanswer v.id b hb).resolve_left hold
    obtain rfl := hunique v' hv' hid
    have hqa : q = (v'.key, a) := List.inj_on_of_nodup_map ha.keys hq' hadm hkey.symm
    have hown := ha.owns v'.id a.id hb
    have hpa : p.1 = a.id := by rw [hpq, hqa]
    exact ha.unique hown (hpa ▸ hp)
  have hwaiter : ∀ g ∈ f ::ₘ F, ∀ v ∈ g.waiters,
      ∀ v' ∈ m.spawnWaiters ++ f.arrivals m, v'.id = v.id → v' = v := by
    intro g hg v hv v' hv' hid
    have hmem : v ∈ total Frame.waiters (f ::ₘ F) := by
      obtain ⟨G, hG⟩ := Multiset.exists_cons_of_mem hg
      rw [hG, total_cons]
      exact Multiset.mem_add.mpr (Or.inl hv)
    rcases List.mem_append.mp hv' with hv' | hv'
    · exact (h.reserved.holders.own v' hv' v hmem hid.symm).symm
    · have hfresh := h.reserved.holders.fresh v hmem
      exact absurd ((arrivals_spec hv' hv').1.symm.trans hid) hfresh.ne'
  have hbefore : ∀ g ∈ f ::ₘ F, ∀ o ∈ g.actsFor x.1, o.1 = q.1 → o.2 = p.2 := by
    intro g hg o ho hkey
    rcases actsFor_changes (m := m) ho with ho | ⟨pc, call, rfl, v, hv, rfl, b, hb, hold⟩
    · obtain ⟨w, hw⟩ := h.owned.queued q hq
      have he : p = (q.2.id, w) := Prod.ext hpq (ha.unique (hpq ▸ hp) (hgranted hw))
      exact h.sole q hq p (he ▸ hw) hpq g hg o ho hkey
    · have hfair := ((h.reserved.fair _ hg).2 v hv).1
      exact hnew v b hb hold (hwaiter _ hg v hv) (hfair.trans hkey)
  intro g hg o ho hkey
  rcases Multiset.mem_add.mp hg with hg | hg
  · rcases actsFor_advance hx g hg o ho with ho | ⟨v, hv, rfl, b, hb⟩
    · exact hbefore f (Multiset.mem_cons_self f F) o ho hkey
    · have hid := (arrivals_spec hv hv).1
      refine hnew v b hb ?_ (fun v' hv' he => ?_) hkey
      · rw [h.reserved.holders.unresolved v.id hid.ge]
        nofun
      · rcases List.mem_append.mp hv' with hv' | hv'
        · exact absurd (he.trans hid) (h.reserved.holders.pending v' hv').2.ne
        · exact (arrivals_spec hv hv').2
  · exact hbefore g (Multiset.mem_cons_of_mem hg) o ho hkey

/-- Ownership is kept along every run whose requests are admitted one after the other. -/
theorem steady_entitled (cfg : Setup) : Steady (code cfg) (Separate cfg) Entitled where
  call s f hq h := by
    have hidle : f.Claims s.shared ∧ f.actsFor s.shared = none := by
      obtain ⟨⟨hopens, -⟩, hfamily⟩ := hq
      cases f with
      | releaseSpawnAdmission => exact absurd rfl hfamily
      | admission pc call =>
        simp only [Frame.opens, Bool.and_eq_true, decide_eq_true_eq] at hopens
        obtain ⟨rfl, -⟩ := hopens
        exact ⟨trivial, rfl⟩
      | acquire call | spawnGate call =>
        exact ⟨trivial, by simpa [Frame.actsFor, Frame.opens] using hopens⟩
      | spawn | request | spawnWait => cases hopens
      | _ => exact ⟨trivial, rfl⟩
    refine ⟨(steady_reserved cfg).call s f hq.1 h.reserved, h.owned, fun g hg => ?_,
      fun q hm p hp hpq g hg => ?_⟩
    · rcases Multiset.mem_cons.mp hg with rfl | hg
      · exact hidle.1
      · exact h.claims g hg
    · rcases Multiset.mem_cons.mp hg with rfl | hg
      · simp [hidle.2]
      · exact h.sole q hm p hp hpq g hg
  run s i ch f rest r F hi hq hF h m' r' fs hx := by
    have hself : s.shared.Owned s.shared.history.claims := { h.owned with since := fun _ => id }
    have hf := h.claims f (Multiset.mem_cons_self f F)
    have ha := owned_advance hself hf (h.rightful (hq.1 f rest r hi)) hx
    refine ⟨(steady_reserved cfg).run s i ch f rest r F hi trivial hF h.reserved m' r' fs hx,
      { ha with since := List.nil_subset _ }, fun g hg => ?_, fun q hm p hp hpq => ?_⟩
    · rcases Multiset.mem_add.mp hg with hg | hg
      · exact claims_advance hself ha.since hf hx g hg
      · have hg := h.claims g (Multiset.mem_cons_of_mem hg)
        cases g with
        | spawn pc l => exact ⟨fun a hm => ha.since (hg.1 a hm), hg.2⟩
        | releaseSpawnAdmission => exact hg
        | _ => trivial
    · by_cases hold : q ∈ s.shared.spawnAdmissions
      · exact h.sole_advance ha hx hold hm hp hpq
      · obtain ⟨G, hG, hset⟩ := Config.frames_run hi
        obtain rfl := (Multiset.cons_inj_right f).mp (hF.symm.trans hG)
        have hframes := hset m' r' fs
        intro g hg
        exact hq.2 _ (step_run hi hx) q hm hold p hp hpq g (hframes ▸ hg)
  outside s o _ h := by
    refine ⟨(steady_reserved cfg).outside s o trivial h.reserved, h.owned.same rfl,
      fun g hg => ?_, fun q hm p hp hpq g hg => ?_⟩
    · have hc := h.claims g hg
      cases g <;> exact hc
    · have hs := h.sole q hm p hp hpq g hg
      cases g <;> exact hs

theorem entitled_start : Entitled System.start.shared System.start.frames where
  reserved := reserved_start
  owned := by constructor <;> simp [System.start, Manager.init]
  claims := by simp [System.start, Config.frames]
  sole := by simp [System.start, Config.frames]

/-- Admission ownership. In every run in which the requests of an identity are admitted one after
the other and no spawn without a request takes a queued admission, every admission that is
returned is returned on behalf of the one request it was granted to, and an admission stays
queued until a spawn of its grantee claims it or its grantee releases it. -/
theorem admission_ownership (cfg : Setup) {s : System}
    (hr : System.start.Reaches (code cfg) (Separate cfg) s) :
    (∀ a b, (a, b) ∈ s.shared.history.returns →
      ∃ w, b = some w ∧ (a, w) ∈ s.shared.history.granted ∧
        ∀ w', (a, w') ∈ s.shared.history.granted → w' = w) ∧
    ∀ a w, (a, w) ∈ s.shared.history.granted →
      (∃ q ∈ s.shared.spawnAdmissions, q.2.id = a) ∨
      (a, some w) ∈ s.shared.history.claims ∨ (a, some w) ∈ s.shared.history.returns := by
  have h := ((steady_entitled cfg).reaches hr entitled_start).owned
  refine ⟨fun a b hb => ?_, fun a w hg => h.kept (a, w) hg⟩
  obtain ⟨w, hw, hg⟩ := h.returns (a, b) hb
  exact ⟨w, hw, hg, fun w' hg' => h.unique hg' hg⟩

instance (cfg : Setup) (m : Manager) (f : Frame) : Decidable (f.Unassigned cfg m) := by
  unfold Frame.Unassigned Manager.gateOpens Manager.restarts
  split <;> infer_instance

instance (s s' : System) : Decidable (s.GrantsApart s') := by
  unfold System.GrantsApart
  infer_instance

instance (cfg : Setup) (s : System) (a : Act) : Decidable (Separate cfg s a) :=
  match a with
  | .call f => inferInstanceAs (Decidable (Matched s (.call f) ∧ f.family ≠ .release))
  | .run i c =>
    match hi : s.threads[i]? with
    | some ⟨f :: rest, r⟩ =>
      decidable_of_iff (f.Unassigned cfg s.shared ∧
        ∀ s' ∈ s.step (code cfg) (.run i c), s.GrantsApart s') (by simp [Separate, hi])
    | some ⟨[], _⟩ | none => isTrue (by simp [Separate, hi, Config.step])
  | .outside _ => isTrue trivial

/-- A new task calls `await_engine_request_admission` for a request. -/
def callRequest (resourceId : String) : Act :=
  .call (.admission .turn ⟨analysisKey resourceId, .interactive, true, true⟩)

/-- Request `i`, once it is called, is admitted, spawns its engine with `n` sections, executes
and gives up its reservation. Its last release is still to come. -/
def executes (i n : ℕ) : List Act :=
  sections i 4 ++ .run i { spawn := some (⟨none, none, none⟩, false) } :: sections i n ++
    sections i 4

/-- Two requests, the second of which evicts the engine of the first. -/
def evictionScript : List Act :=
  callRequest "a" :: executes 0 13 ++ sections 0 2 ++ callRequest "b" :: executes 1 16 ++
    sections 1 2

/-- Both admissions were claimed by the spawn of the request they were granted to. -/
theorem admission_ownership_of_eviction :
    ∃ s, System.start.Reaches (code (plainSetup 1)) (Separate (plainSetup 1)) s ∧
      s.shared.history.granted = [(0, 0), (1, 1)] ∧
      ((1, some 1) ∈ s.shared.history.claims ∨ (1, some 1) ∈ s.shared.history.returns) := by
  obtain ⟨s, hr, hs⟩ : ∃ s, System.start.Reaches (code (plainSetup 1))
      (Separate (plainSetup 1)) s ∧ s.shared.history.granted = [(0, 0), (1, 1)] ∧
      s.shared.spawnAdmissions = [] :=
    exists_of_script evictionScript (by decide +kernel)
  refine ⟨s, hr, hs.1, ?_⟩
  rcases (admission_ownership (plainSetup 1) hr).2 1 1 (by simp [hs.1]) with ⟨q, hq, -⟩ | h
  · simp [hs.2] at hq
  · exact h

/-- The engine of the first request is evicted for the second one before the first one makes its
last release, and a third request, of the same engine as the first, evicts in turn. -/
def strangerScript : List Act :=
  callRequest "a" :: executes 0 13 ++ callRequest "b" :: executes 1 16 ++ callRequest "a" ::
    sections 2 2 ++ sections 0 2

/-- The last release of the first request returns the admission of the third one. -/
theorem admission_returned_by_stranger :
    ∃ s, System.start.Reaches (code (plainSetup 1)) Called s ∧
      (2, some 0) ∈ s.shared.history.returns ∧ (2, 2) ∈ s.shared.history.granted ∧
      (2, some 2) ∉ s.shared.history.claims ∧ (2, some 2) ∉ s.shared.history.returns :=
  exists_of_script strangerScript (by decide +kernel)

end DataForge.Engines
