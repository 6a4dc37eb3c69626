import Mathlib.Data.List.Basic
import Mathlib.Logic.Function.Basic
import DataForge.Entries.Numbered

/-!
# Shared loads

`_shared_load` and `_settle_shared_load` of `ComputeWorkerRegistry`
(`backend_core/compute_worker_live.py:137-195`), as sections of the registry's lock over one
pair of stores: the loads in flight and the cache. A registered load is one that has not
settled, and the other way round, and the cache holds values of the current version
(`Stores.Sound`).
-/

namespace DataForge.Status

/-- Where the task of a load stands: before the first step of `produce`, in `produce`, or with
its future settled, by a value or by an exception. -/
inductive LoadState (α : Type) where
  | created
  | running
  | settled (result : Option α)
deriving DecidableEq, Repr

/-- `future.done()`. -/
def LoadState.done {α : Type} : LoadState α → Bool
  | .settled _ => true
  | _ => false

/-- A load: what its `produce` starts from, its key, and its task. -/
structure Load (ι α : Type) where
  input : ι
  ns : String
  version : ℕ
  state : LoadState α

/-- The loads in flight by key, the cache, and all the load tasks there have been. -/
structure Stores (ι α : Type) where
  registered : String × ℕ → Option ℕ
  cache : String → Option (ℕ × α)
  tasks : List (Load ι α)

/-- What `_shared_load` finds: the cached value, or a load to wait for. -/
inductive Shared (α : Type) where
  | cached (version : ℕ) (value : α)
  | load (k : ℕ)

namespace Stores

variable {ι α : Type}

/-- No load and no cached value. -/
def empty : Stores ι α := ⟨fun _ => none, fun _ => none, []⟩

variable (s : Stores ι α)

/-- Join the load of a key, or start one (lines 153-160). -/
def join (ns : String) (version : ℕ) (input : ι) : Stores ι α × Shared α :=
  match s.registered (ns, version) with
  | some k => (s, .load k)
  | none =>
    ({ s with
      registered := Function.update s.registered (ns, version) (some s.tasks.length)
      tasks := s.tasks ++ [⟨input, ns, version, .created⟩] },
    .load s.tasks.length)

/-- The section of `_shared_load` (lines 147-160). -/
def sharedLoad (ns : String) (version : ℕ) (input : ι) : Stores ι α × Shared α :=
  match s.cache ns with
  | some (v, value) =>
    if v = version then (s, .cached v value) else s.join ns version input
  | none => s.join ns version input

/-- The task of a load changes. -/
def setState (k : ℕ) (l : Load ι α) (state : LoadState α) : Stores ι α :=
  { s with tasks := s.tasks.set k { l with state } }

/-- `produce` starts. -/
def start (k : ℕ) : Option (Stores ι α) :=
  s.tasks[k]?.bind fun l =>
    match l.state with
    | .created => some (s.setState k l .running)
    | _ => none

/-- `produce` has come back or raised: the last section of the load (lines 175-195). -/
def settle (current : String → ℕ) (k : ℕ) (l : Load ι α) (result : Option α) : Stores ι α :=
  let isCurrentLoad := s.registered (l.ns, l.version) = some k
  { registered :=
      if isCurrentLoad then Function.update s.registered (l.ns, l.version) none else s.registered
    cache :=
      match result with
      | some value =>
        if isCurrentLoad ∧ current l.ns = l.version then
          Function.update s.cache l.ns (some (l.version, value))
        else s.cache
      | none => s.cache
    tasks := s.tasks.set k { l with state := .settled result } }

/-- The end of a load. -/
def finish (current : String → ℕ) (k : ℕ) (result : ι → Option α) : Option (Stores ι α) :=
  s.tasks[k]?.bind fun l =>
    match l.state with
    | .running => some (s.settle current k l (result l.input))
    | _ => none

/-- `cache.pop(namespace, None)`. -/
def forget (ns : String) : Stores ι α :=
  { s with cache := Function.update s.cache ns none }

variable {k : ℕ}

theorem start_eq_some {s s' : Stores ι α} (h : s.start k = some s') :
    ∃ l, s.tasks[k]? = some l ∧ l.state = .created ∧ s' = s.setState k l .running := by
  obtain ⟨l, hk, h⟩ := Option.bind_eq_some_iff.mp h
  split at h
  case h_1 hl => exact ⟨l, hk, hl, (Option.some.inj h).symm⟩
  case h_2 => cases h

theorem finish_eq_some {s s' : Stores ι α} {current : String → ℕ} {result : ι → Option α}
    (h : s.finish current k result = some s') :
    ∃ l, s.tasks[k]? = some l ∧ l.state = .running ∧
      s' = s.settle current k l (result l.input) := by
  obtain ⟨l, hk, h⟩ := Option.bind_eq_some_iff.mp h
  split at h
  case h_1 hl => exact ⟨l, hk, hl, (Option.some.inj h).symm⟩
  case h_2 => cases h

/-- Every load keeps its number and its key. -/
def Keeps (s s' : Stores ι α) : Prop :=
  ∀ (k : ℕ) (l : Load ι α), s.tasks[k]? = some l →
    ∃ l' : Load ι α, s'.tasks[k]? = some l' ∧ l'.ns = l.ns

theorem Keeps.refl (s : Stores ι α) : Keeps s s := fun _ l hk => ⟨l, hk, rfl⟩

theorem keeps_sharedLoad (s : Stores ι α) (ns : String) (version : ℕ) (input : ι) :
    Keeps s (s.sharedLoad ns version input).1 := by
  have hjoin : Keeps s (s.join ns version input).1 := by
    unfold join
    split
    case h_1 => exact .refl s
    case h_2 =>
      intro k l hk
      exact ⟨l, Entries.append_old hk, rfl⟩
  unfold sharedLoad
  split
  case h_1 =>
    split
    case isTrue => exact .refl s
    case isFalse => exact hjoin
  case h_2 => exact hjoin

theorem keeps_set {s s' : Stores ι α} {l l' : Load ι α} (hk : s.tasks[k]? = some l)
    (h : s'.tasks = s.tasks.set k l') (hns : l'.ns = l.ns) : Keeps s s' := by
  intro j l0 hj
  rw [h]
  by_cases hkj : k = j
  · subst hkj
    cases hk.symm.trans hj
    exact ⟨l', Entries.set_self hk, hns⟩
  · exact ⟨l0, (List.getElem?_set_ne hkj).trans hj, rfl⟩

variable {l : Load ι α}

theorem running_sharedLoad {s : Stores ι α} {ns : String} {version : ℕ} {input : ι}
    (hk : (s.sharedLoad ns version input).1.tasks[k]? = some l) (hl : l.state = .running) :
    s.tasks[k]? = some l := by
  have hjoin : (s.join ns version input).1.tasks[k]? = some l → s.tasks[k]? = some l := by
    intro hk
    unfold join at hk
    split at hk
    case h_1 => exact hk
    case h_2 =>
      rcases Entries.append_cases hk with hk | ⟨-, rfl⟩
      · exact hk
      · cases hl
  unfold sharedLoad at hk
  split at hk
  case h_1 =>
    split at hk
    case isTrue => exact hk
    case isFalse => exact hjoin hk
  case h_2 => exact hjoin hk

/-- What holds between any two sections. `Good` is what is known of a value of a version, and
`Inp` of the input of a load. -/
structure Sound (s : Stores ι α) (current : String → ℕ) (Inp : String → ℕ → ι → Prop)
    (Good : String → ℕ → α → Prop) : Prop where
  cached : ∀ ns v value, s.cache ns = some (v, value) → v = current ns ∧ Good ns v value
  registered : ∀ ns v k, s.registered (ns, v) = some k →
    ∃ l, s.tasks[k]? = some l ∧ l.ns = ns ∧ l.version = v ∧ l.state.done = false
  unsettled : ∀ (k : ℕ) (l : Load ι α), s.tasks[k]? = some l → l.state.done = false →
    s.registered (l.ns, l.version) = some k
  value : ∀ (k : ℕ) (l : Load ι α) value, s.tasks[k]? = some l →
    l.state = .settled (some value) → Good l.ns l.version value
  input : ∀ (k : ℕ) (l : Load ι α), s.tasks[k]? = some l → Inp l.ns l.version l.input
  bounded : ∀ (k : ℕ) (l : Load ι α), s.tasks[k]? = some l → l.version ≤ current l.ns

variable {s} {current current' : String → ℕ} {Inp Inp' : String → ℕ → ι → Prop}
  {Good Good' : String → ℕ → α → Prop}

theorem Sound.empty : Sound (empty : Stores ι α) current Inp Good :=
  ⟨fun _ _ _ h => (by cases h), fun _ _ _ h => (by cases h), fun _ _ h => (by cases h),
    fun _ _ _ h => (by cases h), fun _ _ h => (by cases h), fun _ _ h => (by cases h)⟩

theorem Sound.mono (h : Sound s current Inp Good) (hle : ∀ ns, current ns ≤ current' ns)
    (hcache : ∀ ns, current ns ≠ current' ns → s.cache ns = none)
    (hinp : ∀ ns v x, Inp ns v x → Inp' ns v x) (hgood : ∀ ns v x, Good ns v x → Good' ns v x) :
    Sound s current' Inp' Good' where
  cached ns v value hc := by
    obtain ⟨hv, hg⟩ := h.cached ns v value hc
    by_cases hsame : current ns = current' ns
    · exact ⟨hv.trans hsame, hgood ns v value hg⟩
    · rw [hcache ns hsame] at hc
      cases hc
  registered := h.registered
  unsettled := h.unsettled
  value k l value hk hs := hgood _ _ _ (h.value k l value hk hs)
  input k l hk := hinp _ _ _ (h.input k l hk)
  bounded k l hk := Nat.le_trans (h.bounded k l hk) (hle l.ns)

theorem Sound.forget (h : Sound s current Inp Good) (ns : String) :
    Sound (s.forget ns) current Inp Good where
  cached ns' v value hc := by
    by_cases hns : ns' = ns
    · subst hns
      simp [Stores.forget] at hc
    · exact h.cached ns' v value (by simpa [Stores.forget, Function.update_of_ne hns] using hc)
  registered := h.registered
  unsettled := h.unsettled
  value := h.value
  input := h.input
  bounded := h.bounded

theorem Sound.bump (h : Sound s current Inp Good) (ns : String) :
    Sound (s.forget ns) (Function.update current ns (current ns + 1)) Inp Good := by
  refine (h.forget ns).mono (fun ns' => ?_) (fun ns' hne => ?_) (fun _ _ _ => id) (fun _ _ _ => id)
  · by_cases hns : ns' = ns
    · subst hns
      rw [Function.update_self]
      omega
    · exact Nat.le_of_eq (Function.update_of_ne hns ..).symm
  · by_cases hns : ns' = ns
    · subst hns
      exact Function.update_self ..
    · exact absurd (Function.update_of_ne hns ..).symm hne

/-- At most one load of a key has not settled. -/
def SingleFlight (s : Stores ι α) : Prop :=
  ∀ (k k' : ℕ) (l l' : Load ι α), s.tasks[k]? = some l → s.tasks[k']? = some l' →
    l.state.done = false → l'.state.done = false → (l.ns, l.version) = (l'.ns, l'.version) → k = k'

theorem Sound.singleFlight (h : Sound s current Inp Good) : s.SingleFlight := by
  intro k k' l l' hk hk' hl hl' hkey
  have hreg := h.unsettled k l hk hl
  have hreg' := h.unsettled k' l' hk' hl'
  rw [hkey] at hreg
  exact Option.some.inj (hreg.symm.trans hreg')

/-- Joining a load keeps the stores sound, and gives a load of the key. -/
theorem Sound.join (h : Sound s current Inp Good) {ns : String} {version : ℕ} {input : ι}
    (hinp : Inp ns version input) (hle : version ≤ current ns) :
    Sound (s.join ns version input).1 current Inp Good ∧
      ∃ k l, (s.join ns version input).2 = .load k ∧
        (s.join ns version input).1.tasks[k]? = some l ∧ l.ns = ns ∧ l.version = version := by
  unfold Stores.join
  cases hreg : s.registered (ns, version) with
  | some k =>
    obtain ⟨l, hk, hns, hv, -⟩ := h.registered ns version k hreg
    exact ⟨h, k, l, rfl, hk, hns, hv⟩
  | none =>
    have hnew : (s.tasks ++ [⟨input, ns, version, .created⟩])[s.tasks.length]? =
        some ⟨input, ns, version, .created⟩ := by simp
    refine ⟨⟨h.cached, fun ns' v k hk => ?_, fun k l hk hopen => ?_, fun k l value hk hs => ?_,
      fun k l hk => ?_, fun k l hk => ?_⟩, s.tasks.length, _, rfl, hnew, rfl, rfl⟩
    · by_cases hkey : (ns', v) = (ns, version)
      · cases hkey
        dsimp only at hk
        rw [Function.update_self] at hk
        cases hk
        exact ⟨_, hnew, rfl, rfl, rfl⟩
      · dsimp only at hk
        rw [Function.update_of_ne hkey] at hk
        obtain ⟨l, hl, hrest⟩ := h.registered ns' v k hk
        exact ⟨l, by rw [List.getElem?_append_left (List.getElem?_eq_some_iff.mp hl).1, hl], hrest⟩
    · rcases Entries.append_cases hk with hk | ⟨rfl, rfl⟩
      · have hlreg := h.unsettled k l hk hopen
        have hkey : (l.ns, l.version) ≠ (ns, version) := by
          intro heq
          rw [heq, hreg] at hlreg
          cases hlreg
        dsimp only
        rw [Function.update_of_ne hkey, hlreg]
      · exact Function.update_self ..
    · rcases Entries.append_cases hk with hk | ⟨rfl, rfl⟩
      · exact h.value k l value hk hs
      · cases hs
    · rcases Entries.append_cases hk with hk | ⟨rfl, rfl⟩
      · exact h.input k l hk
      · exact hinp
    · rcases Entries.append_cases hk with hk | ⟨rfl, rfl⟩
      · exact h.bounded k l hk
      · exact hle

theorem Sound.sharedLoad (h : Sound s current Inp Good) (ns : String) (version : ℕ) (input : ι)
    (hinp : Inp ns version input) (hle : version ≤ current ns) :
    Sound (s.sharedLoad ns version input).1 current Inp Good ∧
      ((∃ value, (s.sharedLoad ns version input).2 = .cached version value ∧
          Good ns version value) ∨
        ∃ k l, (s.sharedLoad ns version input).2 = .load k ∧
          (s.sharedLoad ns version input).1.tasks[k]? = some l ∧ l.ns = ns ∧
          l.version = version) := by
  unfold Stores.sharedLoad
  split
  case h_1 v value hc =>
    split
    case isTrue heq =>
      subst heq
      exact ⟨h, .inl ⟨value, rfl, (h.cached ns v value hc).2⟩⟩
    case isFalse => exact (h.join hinp hle).imp id .inr
  case h_2 => exact (h.join hinp hle).imp id .inr

/-- A load's task starts. -/
theorem Sound.setState (h : Sound s current Inp Good) (hk : s.tasks[k]? = some l)
    {state : LoadState α} (hopen : l.state.done = false) (hopen' : state.done = false) :
    Sound (s.setState k l state) current Inp Good := by
  have hold : ∀ (j : ℕ) (l' : Load ι α), (s.tasks.set k { l with state })[j]? = some l' →
      ∃ l0 : Load ι α, s.tasks[j]? = some l0 ∧ l'.ns = l0.ns ∧ l'.version = l0.version ∧
        l'.input = l0.input ∧ (l' = l0 ∨ l'.state = state ∧ l0.state.done = false) := by
    intro j l' hj
    rcases Entries.set_cases hj with ⟨rfl, rfl⟩ | ⟨-, hj⟩
    · exact ⟨l, hk, rfl, rfl, rfl, .inr ⟨rfl, hopen⟩⟩
    · exact ⟨l', hj, rfl, rfl, rfl, .inl rfl⟩
  refine ⟨h.cached, fun ns v j hj => ?_, fun j l' hj hd => ?_, fun j l' value hj hs => ?_,
    fun j l' hj => ?_, fun j l' hj => ?_⟩
  · obtain ⟨l', hl', hns, hv, hd⟩ := h.registered ns v j hj
    by_cases hkj : k = j
    · subst hkj
      cases hk.symm.trans hl'
      exact ⟨_, Entries.set_self hk, hns, hv, hopen'⟩
    · exact ⟨l', (List.getElem?_set_ne hkj).trans hl', hns, hv, hd⟩
  · obtain ⟨l0, hl0, hns, hv, -, heq⟩ := hold j l' hj
    have hd0 : l0.state.done = false := by
      rcases heq with heq | ⟨-, hd0⟩
      · exact heq ▸ hd
      · exact hd0
    rw [hns, hv]
    exact h.unsettled j l0 hl0 hd0
  · obtain ⟨l0, hl0, -, -, -, heq | ⟨heq, -⟩⟩ := hold j l' hj
    · exact heq ▸ h.value j l0 value hl0 (heq ▸ hs)
    · rw [← heq, hs] at hopen'
      cases hopen'
  · obtain ⟨l0, hl0, hns, hv, hin, -⟩ := hold j l' hj
    rw [hns, hv, hin]
    exact h.input j l0 hl0
  · obtain ⟨l0, hl0, hns, hv, -, -⟩ := hold j l' hj
    rw [hns, hv]
    exact h.bounded j l0 hl0

/-- A load that has not settled is the current one of its key, and settles. -/
theorem Sound.settle (h : Sound s current Inp Good) (hk : s.tasks[k]? = some l)
    (hopen : l.state.done = false) {result : Option α}
    (hgood : ∀ value, result = some value → Good l.ns l.version value) :
    Sound (s.settle current k l result) current Inp Good := by
  have hreg := h.unsettled k l hk hopen
  unfold Stores.settle
  dsimp only
  rw [if_pos hreg]
  refine ⟨fun ns v value hc => ?_, fun ns v j hj => ?_, fun j l' hj hd => ?_,
    fun j l' value hj hs => ?_, fun j l' hj => ?_, fun j l' hj => ?_⟩
  · cases hresult : result with
    | none =>
      rw [hresult] at hc
      exact h.cached ns v value hc
    | some x =>
      rw [hresult] at hc
      dsimp only at hc
      split at hc
      case isTrue hcur =>
        by_cases hns : ns = l.ns
        · subst hns
          rw [Function.update_self] at hc
          cases hc
          exact ⟨hcur.2.symm, hgood _ hresult⟩
        · rw [Function.update_of_ne hns] at hc
          exact h.cached ns v value hc
      case isFalse => exact h.cached ns v value hc
  · by_cases hkey : (ns, v) = (l.ns, l.version)
    · cases hkey
      dsimp only at hj
      rw [Function.update_self] at hj
      cases hj
    · dsimp only at hj
      rw [Function.update_of_ne hkey] at hj
      obtain ⟨l', hl', hns, hv, hd⟩ := h.registered ns v j hj
      have hne : k ≠ j := by
        rintro rfl
        cases hk.symm.trans hl'
        exact hkey (by rw [hns, hv])
      exact ⟨l', (List.getElem?_set_ne hne).trans hl', hns, hv, hd⟩
  · rcases Entries.set_cases hj with ⟨rfl, rfl⟩ | ⟨hne, hj⟩
    · cases hd
    · have hreg' := h.unsettled j l' hj hd
      have hkey : (l'.ns, l'.version) ≠ (l.ns, l.version) := by
        intro heq
        rw [heq, hreg] at hreg'
        exact hne (Option.some.inj hreg').symm
      dsimp only
      rw [Function.update_of_ne hkey, hreg']
  · rcases Entries.set_cases hj with ⟨rfl, rfl⟩ | ⟨-, hj⟩
    · cases hs
      exact hgood value rfl
    · exact h.value j l' value hj hs
  · rcases Entries.set_cases hj with ⟨rfl, rfl⟩ | ⟨-, hj⟩
    · exact h.input j l hk
    · exact h.input j l' hj
  · rcases Entries.set_cases hj with ⟨rfl, rfl⟩ | ⟨-, hj⟩
    · exact h.bounded j l hk
    · exact h.bounded j l' hj

end Stores

end DataForge.Status
