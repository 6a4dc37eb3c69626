import DataForge.ReadCommitted.Table
import DataForge.Monitor.Pool
import Mathlib.Data.Finset.Card

/-!
# Placement of containers on Docker hosts

`src/packages/worker/runtime/docker_hosts.py:200-420` and
`docker_compute_worker.py:225-245,486-544,655-820,1290-1345`. The registry counts the containers
placed on each host. A launch selects a host under the registry's lock, creates the container
without it, and records the placement under the lock again. Each lock-protected section is one
step, together with the Docker calls before it; its `Choice` says how they ended.
-/

namespace DataForge.Hosts

open ReadCommitted Monitor

abbrev ContainerId := ℕ

/-- `_HostState` (`docker_hosts.py:101-110`) and the cap of its spec. -/
structure HostState where
  maxWorkers : ℕ
  healthy : Bool := false
  unavailableUntil : ℕ := 0
  cpuCount : Option ℕ := none
  placements : Finset ContainerId := ∅

/-- `DockerHostRegistry`. The last three fields are not the registry's: `nextContainer` names
the next container that a daemon creates, `created` and `gone` remember on which host which
container was created and which of them are known to be gone. -/
structure Registry where
  states : Table String HostState
  cooldown : ℕ
  nextContainer : ContainerId := 0
  created : Finset (String × ContainerId) := ∅
  gone : Finset (String × ContainerId) := ∅

namespace HostState

/-- `_eligible_locked` (`docker_hosts.py:347-352`). -/
def eligible (now : ℕ) (exclude : List String) (name : String) (st : HostState) : Bool :=
  !exclude.contains name && (st.healthy && !decide (now < st.unavailableUntil)) &&
    !(st.maxWorkers != 0 && decide (st.maxWorkers ≤ st.placements.card))

/-- `max(state.cpu_count or 1, 1)`. -/
def cpus (st : HostState) : ℕ := max (st.cpuCount.getD 1) 1

/-- The score of one host is below that of another: placements per CPU, then placements. -/
def lighter (a b : HostState) : Bool :=
  let x := a.placements.card * b.cpus
  let y := b.placements.card * a.cpus
  decide (x < y) || (decide (x = y) && decide (a.placements.card < b.placements.card))

end HostState

namespace Registry

/-- `min(candidates, key=score)`: the first of the lightest hosts. -/
def lightest : List (String × HostState) → Option (String × HostState)
  | [] => none
  | p :: rest =>
    match lightest rest with
    | none => some p
    | some q => if q.2.lighter p.2 then some q else some p

/-- `select` (`docker_hosts.py:354-368`). -/
def select (r : Registry) (now : ℕ) (exclude : List String) : Option String :=
  (lightest (r.states.rows.filter fun p => p.2.eligible now exclude p.1)).map Prod.fst

/-- Assign to the state of a host. -/
def update (r : Registry) (name : String) (f : HostState → HostState) : Registry :=
  match r.states.get name with
  | none => r
  | some st => { r with states := r.states.put name (some (f st)) }

/-- `containers.create` on a host succeeds. -/
def createContainer (r : Registry) (name : String) : Registry :=
  { r with
    nextContainer := r.nextContainer + 1
    created := insert (name, r.nextContainer) r.created }

/-- The removal of a container succeeds or does not find it any more. -/
def removeContainer (r : Registry) (name : String) (c : ContainerId) : Registry :=
  { r with gone := if (name, c) ∈ r.created then insert (name, c) r.gone else r.gone }

/-- `record_placement` (`docker_hosts.py:339-341`). -/
def recordPlacement (r : Registry) (name : String) (c : ContainerId) : Registry :=
  r.update name fun st => { st with placements := insert c st.placements }

/-- `release_placement` (`docker_hosts.py:343-345`). -/
def releasePlacement (r : Registry) (name : String) (c : ContainerId) : Registry :=
  r.update name fun st => { st with placements := st.placements.erase c }

/-- `_record_failure` (`docker_hosts.py:300-308`). -/
def recordFailure (r : Registry) (now : ℕ) (name : String) : Registry :=
  r.update name fun st => { st with healthy := false, unavailableUntil := now + r.cooldown }

/-- The containers placed on a host. -/
def placements (r : Registry) (name : String) : Finset ContainerId :=
  ((r.states.get name).map HostState.placements).getD ∅

/-- The cap of a host; 0 for none. -/
def maxWorkers (r : Registry) (name : String) : ℕ :=
  ((r.states.get name).map HostState.maxWorkers).getD 0

end Registry

/-- How the Docker calls before a section ended. -/
structure Choice where
  ok : Bool := true
  /-- An error is one of `_HOST_FAILURE_TYPES`, or a start timeout that is a host failure. -/
  hostFailure : Bool := false
  /-- The coordinator still owns the container, and its removal succeeded or found it gone. -/
  removed : Bool := true
  now : ℕ := 0
  cpuCount : Option ℕ := none

/-- Launches, running workers and the sweep. `attempted` holds the hosts tried so far. -/
inductive Frame where
  | select (attempted : List String)
  | context (host : String) (attempted : List String)
  | create (host : String) (attempted : List String)
  | ready (host : String) (c : ContainerId) (attempted : List String)
  | report (host : String) (attempted : List String)
  | running (host : String) (c : ContainerId)
  | sweep (host : String) (c : ContainerId)
deriving DecidableEq, Repr

/-- How a launch ended. -/
inductive Outcome where
  | launched
  | raised
deriving DecidableEq, Repr

/-- After a failed launch on a host: try another one, or raise
(`docker_compute_worker.py:722-731`). -/
def failOver (c : Choice) (host : String) (attempted : List String) : List Frame :=
  if c.hostFailure then [.report host attempted] else []

/-- One section of `_launch_with_failover` and `_launch_on_host`
(`docker_compute_worker.py:692-820`), of `shutdown` (`1289-1345`), or of the sweep
(`225-245`). -/
def Frame.advance (c : Choice) (r : Registry) : Frame → Registry × Option Outcome × List Frame
  | .select attempted =>
    match r.select c.now attempted with
    | none => (r, some .raised, [])
    | some host => (r, none, [.context host (host :: attempted)])
  | .context host attempted =>
    if c.ok then
      (r.update host fun st => { st with cpuCount := c.cpuCount }, none, [.create host attempted])
    else (r, some .raised, failOver c host attempted)
  | .create host attempted =>
    if c.ok then
      ((r.createContainer host).recordPlacement host r.nextContainer, none,
        [.ready host r.nextContainer attempted])
    else (r, some .raised, failOver c host attempted)
  | .ready host id attempted =>
    if c.ok then (r, some .launched, [.running host id])
    else (if c.removed then (r.removeContainer host id).releasePlacement host id else r,
      some .raised, failOver c host attempted)
  | .report host attempted => (r.recordFailure c.now host, none, [.select attempted])
  | .running host id | .sweep host id =>
    (if c.removed then (r.removeContainer host id).releasePlacement host id else r, none, [])

/-- What happens to hosts by themselves: a probe that succeeds or fails. -/
inductive HostChange where
  | probed (host : String) (cpuCount : Option ℕ)
  | failed (host : String) (now : ℕ)

/-- The record of a probe (`docker_hosts.py:268-299`). -/
def HostChange.apply (r : Registry) : HostChange → Registry
  | .probed host cpuCount => r.update host fun st =>
      { st with healthy := true, unavailableUntil := 0, cpuCount }
  | .failed host now => r.recordFailure now host

/-- The placement of compute containers. -/
def code : Monitor.Code Registry Frame Outcome Choice HostChange where
  run c r _ f := some (f.advance c r)
  outside x r := x.apply r

/-- The registry and the launches in progress. -/
abbrev System := Config Registry Frame Outcome

/-- One scheduling decision. -/
abbrev Act := Action Frame Choice HostChange

/-- A new registry (`docker_hosts.py:213-231`). -/
def System.start (hosts : Table String ℕ) (cooldown : ℕ) : System :=
  ⟨⟨⟨hosts.rows.map fun p => (p.1, { maxWorkers := p.2 }), by
    simpa [Function.comp_def] using hosts.nodup⟩, cooldown, 0, ∅, ∅⟩, []⟩

/-! ## Assignments -/

namespace Registry

variable {r : Registry} {name : String}

theorem get_update (r : Registry) (name k : String) (f : HostState → HostState) :
    (r.update name f).states.get k =
      if k = name then (r.states.get name).map f else r.states.get k := by
  unfold update
  split
  case h_1 hn =>
    split
    case isTrue hk => rw [hk, hn, Option.map_none]
    case isFalse => rfl
  case h_2 st hs => rw [Table.get_put, hs, Option.map_some]

theorem isSome_update (r : Registry) (name k : String) (f : HostState → HostState) :
    ((r.update name f).states.get k).isSome = (r.states.get k).isSome := by
  rw [get_update]
  split
  case isTrue hk => rw [hk, Option.isSome_map]
  case isFalse => rfl

theorem containers_update (r : Registry) (name : String) (f : HostState → HostState) :
    (r.update name f).created = r.created ∧ (r.update name f).gone = r.gone ∧
      (r.update name f).nextContainer = r.nextContainer := by
  unfold update
  split <;> exact ⟨rfl, rfl, rfl⟩

theorem length_update (r : Registry) (name : String) (f : HostState → HostState) :
    (r.update name f).states.rows.length = r.states.rows.length := by
  unfold update
  split
  · rfl
  case h_2 st hs =>
    have hput := (r.states.perm_put_some name (f st)).length_eq
    have hdel := (r.states.perm_delete hs).length_eq
    simp only [List.length_cons] at hput hdel ⊢
    omega

theorem placements_update {f : HostState → HostState}
    (hf : ∀ st, (f st).placements = st.placements) (k : String) :
    (r.update name f).placements k = r.placements k := by
  unfold placements
  rw [get_update]
  split
  case isTrue hk =>
    subst hk
    cases r.states.get k <;> simp [hf]
  case isFalse => rfl

theorem maxWorkers_update {f : HostState → HostState}
    (hf : ∀ st, (f st).maxWorkers = st.maxWorkers) (k : String) :
    (r.update name f).maxWorkers k = r.maxWorkers k := by
  unfold maxWorkers
  rw [get_update]
  split
  case isTrue hk =>
    subst hk
    cases r.states.get k <;> simp [hf]
  case isFalse => rfl

end Registry

/-! ## The invariant -/

namespace Frame

/-- Launches that have selected the host and not yet recorded a container on it. -/
def inFlight (name : String) : Frame → ℕ
  | .context host _ | .create host _ => if host = name then 1 else 0
  | _ => 0

/-- The hosts that a launch has tried. -/
def attempted : Frame → List String
  | .select l | .context _ l | .create _ l | .ready _ _ l | .report _ l => l
  | .running _ _ | .sweep _ _ => []

/-- The host and the container of a frame are known to the registry. -/
def Known (r : Registry) : Frame → Prop
  | .context host _ | .create host _ | .report host _ => (r.states.get host).isSome = true
  | .ready host c _ | .running host c =>
    (r.states.get host).isSome = true ∧ (host, c) ∈ r.created
  | .select _ | .sweep _ _ => True

/-- What is left of a launch among `n` hosts, in sections. -/
def rank (n : ℕ) : Frame → ℕ
  | .select l => 5 * (n - l.length) + 1
  | .context _ l => 5 * (n - l.length) + 5
  | .create _ l => 5 * (n - l.length) + 4
  | .ready _ _ l => 5 * (n - l.length) + 3
  | .report _ l => 5 * (n - l.length) + 2
  | .running _ _ | .sweep _ _ => 1

end Frame

/-- A registry of `n` hosts whose placements are the containers created and not known to be
gone, next to launches that try each host at most once. -/
structure Exact (n : ℕ) (r : Registry) (F : Multiset Frame) : Prop where
  size : r.states.rows.length = n
  exact : ∀ h c, c ∈ r.placements h ↔ (h, c) ∈ r.created ∧ (h, c) ∉ r.gone
  fresh : ∀ p ∈ r.created, p.2 < r.nextContainer
  gone : r.gone ⊆ r.created
  known : ∀ f ∈ F, f.Known r
  once : ∀ f ∈ F, f.attempted.Nodup ∧ ∀ h ∈ f.attempted, (r.states.get h).isSome = true

variable {n : ℕ} {r : Registry} {F : Multiset Frame}

theorem Exact.update (h : Exact n r F) (name : String) {f : HostState → HostState}
    (hf : ∀ st, (f st).placements = st.placements) : Exact n (r.update name f) F := by
  have hsome := fun k => r.isSome_update name k f
  obtain ⟨hc, hg, hn⟩ := r.containers_update name f
  constructor
  · rw [r.length_update, h.size]
  · intro k c
    rw [Registry.placements_update hf, hc, hg]
    exact h.exact k c
  · rw [hc, hn]
    exact h.fresh
  · rw [hg, hc]
    exact h.gone
  · intro g hm
    have hk := h.known g hm
    cases g with
    | select | sweep => trivial
    | _ => simpa only [Frame.Known, hsome, hc] using hk
  · intro g hm
    refine ⟨(h.once g hm).1, fun k hk => ?_⟩
    rw [hsome]
    exact (h.once g hm).2 k hk

theorem mem_recordPlacement {name : String} (hs : (r.states.get name).isSome = true)
    (c : ContainerId) (k : String) (c' : ContainerId) :
    c' ∈ (r.recordPlacement name c).placements k ↔
      c' ∈ r.placements k ∨ (k = name ∧ c' = c) := by
  obtain ⟨st, hst⟩ := Option.isSome_iff_exists.mp hs
  unfold Registry.recordPlacement Registry.placements
  simp only [Registry.get_update]
  by_cases hk : k = name
  · subst hk
    simp [hst, or_comm]
  · simp [hk]

theorem mem_releasePlacement (name : String) (c : ContainerId) (k : String) (c' : ContainerId) :
    c' ∈ (r.releasePlacement name c).placements k ↔
      c' ∈ r.placements k ∧ ¬ (k = name ∧ c' = c) := by
  unfold Registry.releasePlacement Registry.placements
  simp only [Registry.get_update]
  by_cases hk : k = name
  · subst hk
    cases r.states.get k <;> simp [and_comm]
  · simp [hk]

/-- A container is created and recorded. -/
theorem Exact.record (h : Exact n r F) {name : String}
    (hs : (r.states.get name).isSome = true) :
    Exact n ((r.createContainer name).recordPlacement name r.nextContainer) F := by
  have hsome : ∀ k, (((r.createContainer name).recordPlacement name r.nextContainer).states.get
      k).isSome = (r.states.get k).isSome := fun k => Registry.isSome_update _ name k _
  have hnew : (name, r.nextContainer) ∉ r.created := fun hm => (h.fresh _ hm).false
  obtain ⟨hcreated, hgone, hnext⟩ := Registry.containers_update (r.createContainer name) name
    fun st => { st with placements := insert r.nextContainer st.placements }
  change Registry.created (Registry.recordPlacement _ _ _) =
    insert (name, r.nextContainer) r.created at hcreated
  change Registry.gone (Registry.recordPlacement _ _ _) = r.gone at hgone
  change Registry.nextContainer (Registry.recordPlacement _ _ _) = r.nextContainer + 1 at hnext
  constructor
  · rw [Registry.recordPlacement, Registry.length_update]
    exact h.size
  · intro k c
    have hbefore : (r.createContainer name).placements k = r.placements k := rfl
    rw [mem_recordPlacement (r := r.createContainer name) hs, hbefore, h.exact, hcreated, hgone,
      Finset.mem_insert, Prod.mk.injEq]
    constructor
    · rintro (hk | ⟨rfl, rfl⟩)
      · exact ⟨Or.inr hk.1, hk.2⟩
      · exact ⟨Or.inl ⟨rfl, rfl⟩, fun hm => hnew (h.gone hm)⟩
    · rintro ⟨hk | hk, hg⟩
      · exact Or.inr hk
      · exact Or.inl ⟨hk, hg⟩
  · intro p hp
    rw [hcreated, Finset.mem_insert] at hp
    rw [hnext]
    rcases hp with rfl | hp
    · exact Nat.lt_succ_self _
    · exact Nat.lt_succ_of_lt (h.fresh p hp)
  · rw [hgone, hcreated]
    exact h.gone.trans (Finset.subset_insert _ _)
  · intro g hm
    have hk := h.known g hm
    cases g with
    | select | sweep => trivial
    | context | create | report => simpa only [Frame.Known, hsome] using hk
    | ready | running =>
      simp only [Frame.Known, hsome, hcreated] at hk ⊢
      exact ⟨hk.1, Finset.mem_insert_of_mem hk.2⟩
  · intro g hm
    refine ⟨(h.once g hm).1, fun k hk => ?_⟩
    rw [hsome]
    exact (h.once g hm).2 k hk

/-- A container is gone and released. One that nobody created holds no placement. -/
theorem Exact.release (h : Exact n r F) (name : String) (c : ContainerId) :
    Exact n ((r.removeContainer name c).releasePlacement name c) F := by
  have hsome : ∀ k, (((r.removeContainer name c).releasePlacement name c).states.get k).isSome =
      (r.states.get k).isSome := fun k => Registry.isSome_update _ name k _
  obtain ⟨hcreated, hgone, hnext⟩ := Registry.containers_update (r.removeContainer name c) name
    fun st => { st with placements := st.placements.erase c }
  change Registry.created (Registry.releasePlacement _ _ _) = r.created at hcreated
  change Registry.gone (Registry.releasePlacement _ _ _) =
    (if (name, c) ∈ r.created then insert (name, c) r.gone else r.gone) at hgone
  constructor
  · rw [Registry.releasePlacement, Registry.length_update]
    exact h.size
  · intro k c'
    have hbefore : (r.removeContainer name c).placements k = r.placements k := rfl
    rw [mem_releasePlacement, hbefore, h.exact, hcreated, hgone]
    split
    · rw [Finset.mem_insert, Prod.mk.injEq, not_or]
      tauto
    case isFalse hc =>
      refine and_iff_left_of_imp ?_
      rintro hk ⟨rfl, rfl⟩
      exact hc hk.1
  · rw [hcreated]
    exact fun p hp => (h.fresh p hp).trans_eq hnext.symm
  · rw [hgone, hcreated]
    split
    case isTrue hc => exact Finset.insert_subset hc h.gone
    case isFalse => exact h.gone
  · intro g hm
    have hk := h.known g hm
    cases g with
    | select | sweep => trivial
    | _ => simpa only [Frame.Known, hsome, hcreated] using hk
  · intro g hm
    refine ⟨(h.once g hm).1, fun k hk => ?_⟩
    rw [hsome]
    exact (h.once g hm).2 k hk

variable {f : Frame}

theorem Exact.replace {fs : List Frame} (h : Exact n r (f ::ₘ F)) (hk : ∀ g ∈ fs, g.Known r)
    (ho : ∀ g ∈ fs, g.attempted.Nodup ∧ ∀ h ∈ g.attempted, (r.states.get h).isSome = true) :
    Exact n r (fs + F) :=
  { h with
    known := by
      intro g hg
      rcases Multiset.mem_add.mp hg with hg | hg
      · exact hk g hg
      · exact h.known g (Multiset.mem_cons_of_mem hg)
    once := by
      intro g hg
      rcases Multiset.mem_add.mp hg with hg | hg
      · exact ho g hg
      · exact h.once g (Multiset.mem_cons_of_mem hg) }

/-! ## Sections -/

private theorem lightest_mem {l : List (String × HostState)} {p : String × HostState}
    (h : Registry.lightest l = some p) : p ∈ l := by
  induction l generalizing p with
  | nil => cases h
  | cons q rest ih =>
    simp only [Registry.lightest] at h
    split at h
    · cases h
      exact List.mem_cons_self
    case h_2 q' hq =>
      split at h <;> cases h
      · exact List.mem_cons_of_mem _ (ih hq)
      · exact List.mem_cons_self

variable {host : String}

theorem select_spec {now : ℕ} {exclude : List String} (h : r.select now exclude = some host) :
    host ∉ exclude ∧ (r.states.get host).isSome = true ∧
      (r.maxWorkers host ≠ 0 → (r.placements host).card < r.maxWorkers host) := by
  obtain ⟨⟨k, st⟩, hl, rfl⟩ := Option.map_eq_some_iff.mp h
  obtain ⟨hm, he⟩ := List.mem_filter.mp (lightest_mem hl)
  have hget := (r.states.mem_rows_iff k st).mp hm
  simp only [HostState.eligible, Bool.and_eq_true, Bool.not_eq_true', List.contains_eq_mem,
    decide_eq_false_iff_not, Bool.and_eq_false_iff, bne_eq_false_iff_eq, not_le] at he
  refine ⟨he.1.1, by rw [hget]; rfl, fun hz => ?_⟩
  simp only [Registry.maxWorkers, Registry.placements, hget, Option.map_some,
    Option.getD_some] at hz ⊢
  exact he.2.resolve_left hz

private theorem length_le (hn : r.states.rows.length = n) {l : List String} (hd : l.Nodup)
    (hl : ∀ h ∈ l, (r.states.get h).isSome = true) : l.length ≤ n := by
  have hsub : l ⊆ r.states.rows.map Prod.fst := by
    intro h hh
    obtain ⟨st, hst⟩ := Option.isSome_iff_exists.mp (hl h hh)
    exact List.mem_map.mpr ⟨(h, st), (r.states.mem_rows_iff h st).mpr hst, rfl⟩
  calc l.length ≤ (r.states.rows.map Prod.fst).length :=
        (List.subperm_of_subset hd hsub).length_le
    _ = n := by rw [List.length_map, hn]

variable {c : Choice}

private theorem failOver_spec {l : List String} :
    ∀ g ∈ failOver c host l, g = .report host l := by
  unfold failOver
  split <;> simp

/-- Every section keeps the record of placements. -/
theorem exact_advance (h : Exact n r (f ::ₘ F)) :
    Exact n (f.advance c r).1 ((f.advance c r).2.2 + F) := by
  have hk := h.known f (Multiset.mem_cons_self f F)
  have ho := h.once f (Multiset.mem_cons_self f F)
  have hfail : ∀ host l, f.attempted = l → (r.states.get host).isSome = true →
      Exact n r ((failOver c host l : List Frame) + F) := by
    intro host l hl hs
    refine h.replace (fun g hg => ?_) (fun g hg => ?_)
    · rw [failOver_spec g hg]
      exact hs
    · rw [failOver_spec g hg]
      exact hl ▸ ho
  have hend : Exact n r (([] : List Frame) + F) := h.replace (by simp) (by simp)
  cases f with
  | select l =>
    simp only [Frame.advance]
    split
    · exact hend
    case h_2 host hs =>
      obtain ⟨hne, hsome, -⟩ := select_spec hs
      refine h.replace (by simpa [Frame.Known] using hsome) ?_
      have ho : l.Nodup ∧ ∀ h ∈ l, (r.states.get h).isSome = true := ho
      simpa [Frame.attempted, hne, hsome] using ho
  | context host l =>
    simp only [Frame.advance]
    split
    · have hu := h.update host (f := fun st => { st with cpuCount := c.cpuCount }) fun _ => rfl
      refine hu.replace ?_ ?_
      · simpa [Frame.Known, r.isSome_update] using hk
      · simpa [Frame.attempted, r.isSome_update] using ho
    · exact hfail host l rfl hk
  | create host l =>
    simp only [Frame.advance]
    split
    · have hr := h.record hk
      refine hr.replace ?_ ?_
      · intro g hg
        rw [List.mem_singleton.mp hg]
        refine ⟨(Registry.isSome_update _ host host _).trans hk, ?_⟩
        rw [Registry.recordPlacement, (Registry.containers_update _ _ _).1]
        exact Finset.mem_insert_self _ _
      · intro g hg
        rw [List.mem_singleton.mp hg]
        exact hr.once (.create host l) (Multiset.mem_cons_self _ F)
    · exact hfail host l rfl hk
  | ready host id l =>
    simp only [Frame.advance]
    split
    · exact h.replace (by simpa [Frame.Known] using hk) (by simp [Frame.attempted])
    · split
      · have hr := h.release host id
        refine hr.replace (fun g hg => ?_) (fun g hg => ?_)
        · rw [failOver_spec g hg]
          exact (Registry.isSome_update _ host host _).trans hk.1
        · rw [failOver_spec g hg]
          exact hr.once (.ready host id l) (Multiset.mem_cons_self _ F)
      · exact hfail host l rfl hk.1
  | report host l =>
    have hu := h.update host
      (f := fun st => { st with healthy := false, unavailableUntil := c.now + r.cooldown })
      fun _ => rfl
    refine hu.replace (fun g hg => ?_) (fun g hg => ?_)
    · rw [List.mem_singleton.mp hg]
      trivial
    · rw [List.mem_singleton.mp hg]
      exact hu.once (.report host l) (Multiset.mem_cons_self _ F)
  | running host id | sweep host id =>
    simp only [Frame.advance]
    split
    · exact (h.release host id).replace (by simp) (by simp)
    · exact hend

/-- Every section of a launch leaves less to do. -/
theorem rank_advance (h : Exact n r (f ::ₘ F)) :
    (((f.advance c r).2.2).map (Frame.rank n)).sum < f.rank n := by
  have hfail : ∀ host l, ((failOver c host l).map (Frame.rank n)).sum ≤
      5 * (n - l.length) + 2 := by
    intro host l
    unfold failOver
    split <;> simp [Frame.rank]
  cases f with
  | select l =>
    have ho := h.once _ (Multiset.mem_cons_self _ F)
    simp only [Frame.advance]
    split
    · simp [Frame.rank]
    case h_2 host hs =>
      obtain ⟨hne, hsome, -⟩ := select_spec hs
      have hlen : (host :: l).length ≤ n := by
        refine length_le h.size (List.nodup_cons.mpr ⟨hne, ho.1⟩) fun k hk => ?_
        rcases List.mem_cons.mp hk with rfl | hk
        · exact hsome
        · exact ho.2 k hk
      simp only [List.length_cons] at hlen
      simp only [List.map_cons, List.map_nil, List.sum_cons, List.sum_nil, Frame.rank,
        List.length_cons]
      omega
  | context host l =>
    have hf := hfail host l
    simp only [Frame.advance]
    split
    · simp [Frame.rank]
    · exact hf.trans_lt (by simp [Frame.rank])
  | create host l =>
    have hf := hfail host l
    simp only [Frame.advance]
    split
    · simp [Frame.rank]
    · exact hf.trans_lt (by simp [Frame.rank])
  | ready host id l =>
    have hf := hfail host l
    simp only [Frame.advance]
    split
    · simp [Frame.rank]
    · exact hf.trans_lt (by simp [Frame.rank])
  | report host l => simp [Frame.advance, Frame.rank]
  | running host id => simp [Frame.advance, Frame.rank]
  | sweep host id => simp [Frame.advance, Frame.rank]

/-! ## The cap -/

/-- Placements and launches in flight are within the cap of every capped host. -/
def Capped (r : Registry) (F : Multiset Frame) : Prop :=
  ∀ h, r.maxWorkers h ≠ 0 → (r.placements h).card + total (Frame.inFlight h) F ≤ r.maxWorkers h

variable {F' : Multiset Frame}

theorem Capped.update {name : String} {f : HostState → HostState} (h : Capped r F)
    (hp : ∀ st, (f st).placements = st.placements) (hm : ∀ st, (f st).maxWorkers = st.maxWorkers)
    (hF : ∀ k, total (Frame.inFlight k) F' ≤ total (Frame.inFlight k) F) :
    Capped (r.update name f) F' := by
  intro k hk
  rw [Registry.maxWorkers_update hm] at hk ⊢
  rw [Registry.placements_update hp]
  have := h k hk
  have := hF k
  omega

theorem Capped.mono (h : Capped r F)
    (hF : ∀ k, total (Frame.inFlight k) F' ≤ total (Frame.inFlight k) F) : Capped r F' :=
  fun k hk => (Nat.add_le_add_left (hF k) _).trans (h k hk)

theorem Capped.record (h : Capped r F)
    (hF : ∀ k, total (Frame.inFlight k) F' + (if host = k then 1 else 0) ≤
      total (Frame.inFlight k) F) (c : ContainerId) :
    Capped ((r.createContainer host).recordPlacement host c) F' := by
  intro k hk
  have hmax : ((r.createContainer host).recordPlacement host c).maxWorkers k = r.maxWorkers k :=
    Registry.maxWorkers_update (f := fun st => { st with placements := insert c st.placements })
      (fun _ => rfl) k
  have hcard : (((r.createContainer host).recordPlacement host c).placements k).card ≤
      (r.placements k).card + if host = k then 1 else 0 := by
    unfold Registry.recordPlacement Registry.createContainer Registry.placements
    simp only [Registry.get_update]
    by_cases hkh : k = host
    · subst hkh
      cases r.states.get k with
      | none => simp
      | some st => simpa using Finset.card_insert_le c st.placements
    · simp [hkh]
  rw [hmax] at hk ⊢
  have := h k hk
  have := hF k
  omega

theorem Capped.release (h : Capped r F)
    (hF : ∀ k, total (Frame.inFlight k) F' ≤ total (Frame.inFlight k) F) (c : ContainerId) :
    Capped ((r.removeContainer host c).releasePlacement host c) F' := by
  intro k hk
  have hmax : ((r.removeContainer host c).releasePlacement host c).maxWorkers k =
      r.maxWorkers k :=
    Registry.maxWorkers_update (f := fun st => { st with placements := st.placements.erase c })
      (fun _ => rfl) k
  have hsub : ((r.removeContainer host c).releasePlacement host c).placements k ⊆
      r.placements k := fun x hx => ((mem_releasePlacement host c k x).mp hx).1
  rw [hmax] at hk ⊢
  have := h k hk
  have := hF k
  have := Finset.card_le_card hsub
  omega

/-- Every section keeps the cap, a selection under its condition. -/
theorem capped_advance (h : Capped r (f ::ₘ F))
    (hq : ∀ l, f = .select l → ∀ host ∈ r.select c.now l, r.maxWorkers host ≠ 0 →
      (r.placements host).card + total (Frame.inFlight host) F < r.maxWorkers host) :
    Capped (f.advance c r).1 ((f.advance c r).2.2 + F) := by
  have hfail : ∀ host l k,
      total (Frame.inFlight k) ((failOver c host l : List Frame) + F) ≤
        total (Frame.inFlight k) (f ::ₘ F) := by
    intro host l k
    unfold failOver
    split <;> simp [Frame.inFlight]
  have hidle : ∀ fs : List Frame, (∀ k, (fs.map (Frame.inFlight k)).sum = 0) →
      ∀ k, total (Frame.inFlight k) (fs + F) ≤ total (Frame.inFlight k) (f ::ₘ F) := by
    intro fs hfs k
    simp [hfs]
  cases f with
  | select l =>
    simp only [Frame.advance]
    split
    · exact h.mono (hidle [] (by simp))
    case h_2 host hs =>
      intro k hk
      by_cases hkh : host = k
      · subst hkh
        have := hq l rfl host hs hk
        simp [Frame.inFlight]
        omega
      · simpa [Frame.inFlight, hkh] using h k hk
  | context host l =>
    simp only [Frame.advance]
    split
    · exact h.update (fun _ => rfl) (fun _ => rfl) fun k => by simp [Frame.inFlight]
    · exact h.mono (hfail host l)
  | create host l =>
    simp only [Frame.advance]
    split
    · refine h.record (fun k => ?_) _
      simp only [total_coe_add, total_cons, List.map_cons, List.map_nil, List.sum_cons,
        List.sum_nil, Frame.inFlight]
      omega
    · exact h.mono (hfail host l)
  | ready host id l =>
    simp only [Frame.advance]
    split
    · exact h.mono (hidle [.running host id] fun _ => rfl)
    · split
      · exact h.release (hfail host l) id
      · exact h.mono (hfail host l)
  | report host l =>
    exact h.update (fun _ => rfl) (fun _ => rfl) (hidle [.select l] fun _ => rfl)
  | running host id | sweep host id =>
    simp only [Frame.advance]
    split
    · exact h.release (hidle [] fun _ => rfl) id
    · exact h.mono (hidle [] fun _ => rfl)

/-! ## Runs -/

/-- The operations that may be called: launches and sweeps. -/
def Frame.opens : Frame → Bool
  | .select l => l.isEmpty
  | .sweep _ _ => true
  | _ => false

/-- Any launch or sweep may be called at any time. -/
def Called (_ : System) : Act → Prop
  | .call f => f.opens = true
  | _ => True

/-- Moreover, a launch selects a capped host only while its placements and the launches in
flight to it are together below the cap. -/
def KeepsCap (s : System) (a : Act) : Prop :=
  Called s a ∧ match a with
    | .run i c => ∀ l rest r, s.threads[i]? = some ⟨.select l :: rest, r⟩ →
        ∀ host ∈ s.shared.select c.now l, s.shared.maxWorkers host ≠ 0 →
        (s.shared.placements host).card + total (Frame.inFlight host) s.frames <
          s.shared.maxWorkers host
    | _ => True

theorem steady_exact (n : ℕ) : Steady code Called (Exact n) where
  call s f hq h := by
    have hf : f.Known s.shared ∧ f.attempted = [] := by
      cases f with
      | select l => exact ⟨trivial, List.isEmpty_iff.mp hq⟩
      | sweep => exact ⟨trivial, rfl⟩
      | _ => cases hq
    refine { h with known := fun g hg => ?_, once := fun g hg => ?_ }
    · rcases Multiset.mem_cons.mp hg with rfl | hg
      · exact hf.1
      · exact h.known g hg
    · rcases Multiset.mem_cons.mp hg with rfl | hg
      · rw [hf.2]
        exact ⟨List.nodup_nil, by simp⟩
      · exact h.once g hg
  run s i c f rest r F _ _ _ h r' o fs hx := by
    have hstep := exact_advance (c := c) h
    rw [Option.some.inj hx] at hstep
    exact hstep
  outside s o _ h := by
    cases o with
    | probed host cpuCount => exact h.update host fun _ => rfl
    | failed host now => exact h.update host fun _ => rfl

theorem steady_capped : Steady code KeepsCap Capped where
  call s f hq h := by
    refine h.mono fun k => ?_
    cases f with
    | select | sweep => simp [Frame.inFlight]
    | _ => cases hq.1
  run s i c f rest r F hi hq hF h r' o fs hx := by
    have hstep := capped_advance (c := c) h fun l hl host hs hm => by
      subst hl
      have hlt := hq.2 l rest r hi host hs hm
      rw [hF, total_cons] at hlt
      simpa [Frame.inFlight] using hlt
    rw [Option.some.inj hx] at hstep
    exact hstep
  outside s o _ h := by
    cases o with
    | probed host cpuCount => exact h.update (fun _ => rfl) (fun _ => rfl) fun _ => le_rfl
    | failed host now => exact h.update (fun _ => rfl) (fun _ => rfl) fun _ => le_rfl

theorem placements_start (hosts : Table String ℕ) (cooldown : ℕ) (h : String) :
    (System.start hosts cooldown).shared.placements h = ∅ := by
  unfold Registry.placements
  cases hg : (System.start hosts cooldown).shared.states.get h with
  | none => rfl
  | some st =>
    rw [← Table.mem_rows_iff] at hg
    obtain ⟨p, -, hp⟩ := List.mem_map.mp hg
    cases hp
    rfl

theorem exact_start (hosts : Table String ℕ) (cooldown : ℕ) :
    Exact hosts.rows.length (System.start hosts cooldown).shared
      (System.start hosts cooldown).frames where
  size := List.length_map ..
  exact h c := by
    rw [placements_start]
    simp [System.start]
  fresh := by simp [System.start]
  gone := by simp [System.start]
  known := by simp [System.start, Config.frames]
  once := by simp [System.start, Config.frames]

theorem capped_start (hosts : Table String ℕ) (cooldown : ℕ) :
    Capped (System.start hosts cooldown).shared (System.start hosts cooldown).frames := by
  intro h _
  rw [placements_start]
  simp [System.start, Config.frames, total]

/-- The sections that a thread has left at most, among `n` hosts. -/
def left (n : ℕ) (t : Thread Frame Outcome) : ℕ := (t.stack.map (Frame.rank n)).sum

theorem left_run {s : System} (h : Exact n s.shared s.frames) {i : ℕ} {rest : List Frame}
    {o : Option Outcome} (hi : s.threads[i]? = some ⟨f :: rest, o⟩) (c : Choice) :
    ∃ s' t', s.step code (.run i c) = some s' ∧ s'.threads[i]? = some t' ∧
      left n t' < left n ⟨f :: rest, o⟩ := by
  obtain ⟨F, hF, -⟩ := Config.frames_run hi
  have hrank := rank_advance (c := c) (hF ▸ h)
  have hstep : s.step code (.run i c) = some ⟨(f.advance c s.shared).1,
      s.threads.set i ⟨(f.advance c s.shared).2.2 ++ rest, (f.advance c s.shared).2.1⟩⟩ := by
    simp only [Config.step, hi]
    rfl
  refine ⟨_, _, hstep, List.getElem?_set_self (List.getElem?_eq_some_iff.mp hi).1, ?_⟩
  simpa [left] using hrank

/-- A step leaves a thread as it is, or takes a section from it. -/
theorem left_step {s s' : System} {a : Act} (h : Exact n s.shared s.frames)
    (hs : s.step code a = some s') {i : ℕ} {t : Thread Frame Outcome}
    (ht : s.threads[i]? = some t) :
    ∃ t', s'.threads[i]? = some t' ∧ (t' = t ∨ left n t' < left n t) := by
  cases a with
  | call f =>
    cases hs
    refine ⟨t, ?_, Or.inl rfl⟩
    rw [List.getElem?_append_left (List.getElem?_eq_some_iff.mp ht).1, ht]
  | outside o =>
    cases hs
    exact ⟨t, ht, Or.inl rfl⟩
  | run j c =>
    by_cases hij : j = i
    · subst hij
      simp only [Config.step, ht] at hs
      split at hs
      case h_2 => cases hs
      case h_1 f rest o heq =>
        rw [Option.some_inj] at heq
        subst heq
        obtain ⟨u, t', hu, ht', hlt⟩ := left_run h ht c
        simp only [Config.step, ht] at hu
        rw [hs, Option.some_inj] at hu
        subst hu
        exact ⟨t', ht', Or.inr hlt⟩
    · simp only [Config.step] at hs
      split at hs
      case h_2 => cases hs
      case h_1 =>
        obtain ⟨x, -, rfl⟩ := Option.map_eq_some_iff.mp hs
        refine ⟨t, ?_, Or.inl rfl⟩
        rw [List.getElem?_set_ne hij, ht]

/-- Docker host cap. In every state of a run in which a launch selects a capped host only while
its placements and the launches in flight to it are below the cap, every capped host has at
most as many placements as its cap; the placements are the containers created and not known to
be gone; and a launch tries each configured host at most once, every section of it is enabled
and leaves it fewer sections. -/
theorem docker_host_cap (hosts : Table String ℕ) (cooldown : ℕ) {s : System}
    (hr : (System.start hosts cooldown).Reaches code KeepsCap s) :
    (∀ h, s.shared.maxWorkers h ≠ 0 → (s.shared.placements h).card ≤ s.shared.maxWorkers h) ∧
    (∀ h c, c ∈ s.shared.placements h ↔ (h, c) ∈ s.shared.created ∧ (h, c) ∉ s.shared.gone) ∧
    (∀ f ∈ s.frames, f.attempted.Nodup ∧
      ∀ h ∈ f.attempted, (s.shared.states.get h).isSome = true) ∧
    (∀ (i : ℕ) t, s.threads[i]? = some t → t.stack ≠ [] → ∀ c, ∃ s' t',
      s.step code (.run i c) = some s' ∧ s'.threads[i]? = some t' ∧
      left hosts.rows.length t' < left hosts.rows.length t) ∧
    (∀ a s', s.step code a = some s' → ∀ (i : ℕ) t, s.threads[i]? = some t →
      ∃ t', s'.threads[i]? = some t' ∧
        (t' = t ∨ left hosts.rows.length t' < left hosts.rows.length t)) := by
  have hcap := steady_capped.reaches hr (capped_start hosts cooldown)
  have hex := (steady_exact hosts.rows.length).reaches (hr.mono fun _ _ h => h.1)
    (exact_start hosts cooldown)
  refine ⟨fun h hm => ?_, hex.exact, hex.once, fun i t ht hne c => ?_, fun a s' hs i t ht => ?_⟩
  · exact (Nat.le_add_right _ _).trans (hcap h hm)
  · obtain ⟨stack, o⟩ := t
    cases stack with
    | nil => exact absurd rfl hne
    | cons f rest => exact left_run hex ht c
  · exact left_step hex hs ht

instance (s : System) (a : Act) : Decidable (Called s a) := by
  unfold Called
  split <;> infer_instance

instance (s : System) (a : Act) : Decidable (KeepsCap s a) := by
  unfold KeepsCap
  cases a with
  | call f => infer_instance
  | outside o => infer_instance
  | run i c =>
    refine @instDecidableAnd _ _ _ ?_
    match hi : s.threads[i]? with
    | some ⟨.select l :: rest, r⟩ =>
      exact decidable_of_iff (∀ host ∈ s.shared.select c.now l, s.shared.maxWorkers host ≠ 0 →
        (s.shared.placements host).card + total (Frame.inFlight host) s.frames <
          s.shared.maxWorkers host) (by simp [hi])
    | some ⟨[], _⟩ | none => exact isTrue (by simp [hi])
    | some ⟨.context .. :: _, _⟩ | some ⟨.create .. :: _, _⟩ | some ⟨.ready .. :: _, _⟩
    | some ⟨.report .. :: _, _⟩ | some ⟨.running .. :: _, _⟩ | some ⟨.sweep .. :: _, _⟩ =>
      exact isTrue (by simp [hi])

/-- One host that takes a single worker. -/
def oneHost : Table String ℕ := ⟨[("local", 1)], by decide⟩

/-- The host is probed; then launches are called. -/
def launches (k : ℕ) : List Act :=
  .outside (.probed "local" (some 4)) :: List.replicate k (.call (.select []))

/-- The first launch records its container before the second one selects. -/
theorem docker_host_cap_of_launch :
    ∃ s, (System.start oneHost 30).Reaches code KeepsCap s ∧
      (s.shared.placements "local").card = 1 ∧
      (s.shared.placements "local").card ≤ s.shared.maxWorkers "local" := by
  obtain ⟨s, hr, hs, hm⟩ : ∃ s, (System.start oneHost 30).Reaches code KeepsCap s ∧
      (s.shared.placements "local").card = 1 ∧ s.shared.maxWorkers "local" ≠ 0 :=
    Config.exists_of_replay (launches 2 ++
      ([.run 0 {}, .run 0 {}, .run 0 {}, .run 1 {}] : List Act)) (by decide +kernel)
  exact ⟨s, hr, hs, (docker_host_cap oneHost 30 hr).1 "local" hm⟩

/-- Two launches select the host before either records its container. -/
theorem docker_host_overfull :
    ∃ s, (System.start oneHost 30).Reaches code Called s ∧ ¬ ∀ h, s.shared.maxWorkers h ≠ 0 →
      (s.shared.placements h).card ≤ s.shared.maxWorkers h := by
  obtain ⟨s, hr, hm, hs⟩ : ∃ s, (System.start oneHost 30).Reaches code Called s ∧
      s.shared.maxWorkers "local" = 1 ∧ (s.shared.placements "local").card = 2 :=
    Config.exists_of_replay (launches 2 ++
      ([.run 0 {}, .run 1 {}, .run 0 {}, .run 0 {}, .run 1 {}, .run 1 {}] : List Act))
      (by decide +kernel)
  refine ⟨s, hr, fun h => ?_⟩
  have hle := h "local" (by omega)
  omega

end DataForge.Hosts
