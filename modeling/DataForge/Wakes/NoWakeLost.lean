import Mathlib.Data.List.Nodup
import DataForge.Wakes.Outcomes

/-!
# Version hubs lose no wake

A `wait` on a `VersionHub` does not stay blocked after a publish that `last_seen` is older than
(`hubs_lose_no_wake`). A `KeyedVersionHub` forgets its oldest keys, and a forgotten key starts at
version 1 again: a `wait` stays blocked when the key has the version `last_seen` once more
(`restarted_wait_blocks`).
-/

namespace DataForge.Wakes

open Transitions

section Runs

variable {σ κ π : Type} [DecidableEq κ] {hub : Hub σ κ π}

/-- Some call has ended, with another version than the given one, or cancelled by an
interruption or an eviction. -/
def Answered (ρ : Run (hubStep hub)) (t i v : ℕ) : Prop :=
  ∃ t' ≥ t, ∃ outcome, (ρ.st t').Returned i outcome ∧ outcome ≠ .version v ∧
    (outcome = .cancelled → ∃ n < t', ρ.act n = some (.interrupt i) ∨ (ρ.st n).Evicts i)

/-- After a publish from the time `r` on, a key does not have a version again before a call has
returned. -/
def StaysFresh (ρ : Run (hubStep hub)) (i : ℕ) (key : κ) (v r : ℕ) : Prop :=
  ∀ u ≥ r, ∀ payload, ρ.act u = some (.publish key payload) → ∀ n > u,
    (¬ ∃ outcome, (ρ.st n).Returned i outcome) → hub.version (ρ.st n).values key ≠ v

/-- A call of `wait` on a key, with a `last_seen` that was its version at the time `r` before the
call, and a publish on the key since then. -/
structure Missed (ρ : Run (hubStep hub)) (t i v r : ℕ) (key : κ) : Prop where
  call : ∃ w, (ρ.st t).waits[i]? = some w ∧ w.key = key ∧ w.lastSeen = some v
  later : (ρ.st r).waits.length ≤ i
  read : hub.version (ρ.st r).values key = v
  published : ∃ u ≥ r, ∃ payload, ρ.act u = some (.publish key payload)

variable {ρ : Run (hubStep hub)} {values : σ} {i : ℕ} {w : Wait κ}

theorem misses_of_fresh (h0 : ρ.st 0 = .start values) {t r v : ℕ}
    (hi : (ρ.st t).waits[i]? = some w) (hv : w.lastSeen = some v)
    (hnew : (ρ.st r).waits.length ≤ i) (hfresh : StaysFresh ρ i w.key v r) (n : ℕ) :
    Misses v i (ρ.st n) := by
  induction n with
  | zero =>
    rw [h0]
    exact ⟨fun _ h => (by cases h), fun h => (by cases h), fun _ h => (by cases h),
      fun _ h => (by cases h)⟩
  | succ n ih =>
    cases ha : ρ.act n with
    | none => exact ρ.next_of_pause ha ▸ ih
    | some a =>
      refine ih.step (hubStep_moves (ρ.next_of_act ha))
        (fun x hx => (wait_unique hi hx).2.trans hv) fun key payload hpub hmem => ?_
      subst hpub
      obtain ⟨x, hx, rfl, hreg⟩ := (hubSound_of_start h0 n).listed key i hmem
      have hkey := (wait_unique hi hx).1
      have hrn : r ≤ n := by
        by_contra hlt
        obtain ⟨y, hy, -⟩ := wait_later (Nat.le_of_not_le hlt) hx
        exact absurd (List.getElem?_eq_some_iff.mp hy).1 (Nat.not_lt.mpr hnew)
      have hnext := Option.some.inj (ρ.next_of_act ha)
      have hversion := hfresh n hrn payload (hkey ▸ ha) (n + 1) (Nat.lt_succ_self n) ?_
      · rw [← hnext, ← hkey] at hversion
        exact hversion
      · rintro ⟨o, y, hy, ho⟩
        rw [← hnext] at hy
        cases hx.symm.trans hy
        rw [ho] at hreg
        cases hreg

theorem cancelled_by (h0 : ρ.st 0 = .start values) {n : ℕ} (hc : (ρ.st n).Cancels i) :
    ∃ m < n, ρ.act m = some (.interrupt i) ∨ (ρ.st m).Evicts i := by
  induction n with
  | zero =>
    rw [h0] at hc
    rcases hc with hc | ⟨w, hw, -⟩
    · cases hc
    · cases hw
  | succ n ih =>
    have hearlier : (ρ.st n).Cancels i →
        ∃ m < n + 1, ρ.act m = some (.interrupt i) ∨ (ρ.st m).Evicts i := by
      intro hc
      obtain ⟨m, hm, hend⟩ := ih hc
      exact ⟨m, Nat.lt_succ_of_lt hm, hend⟩
    cases ha : ρ.act n with
    | none => exact hearlier (ρ.next_of_pause ha ▸ hc)
    | some a =>
      rcases (hubStep_moves (ρ.next_of_act ha)).cancels hc with hc | rfl | hev
      · exact hearlier hc
      · exact ⟨n, Nat.lt_succ_self n, .inl ha⟩
      · exact ⟨n, Nat.lt_succ_self n, .inr hev⟩

theorem answered_of_fresh (h0 : ρ.st 0 = .start values) (hfair : Fair ρ) {t v r : ℕ} {key : κ}
    (hm : Missed ρ t i v r key) (hfresh : StaysFresh ρ i key v r) : Answered ρ t i v := by
  obtain ⟨w, hi, rfl, hv⟩ := hm.call
  obtain ⟨u, hru, payload, hpub⟩ := hm.published
  obtain ⟨w', hi', hk', -⟩ := wait_later (Nat.le_max_left t (u + 1)) hi
  have hno : ∀ n > u, ∀ x, (ρ.st n).waits[i]? = some x → i ∉ (ρ.st n).waiters x.key := by
    intro n hn x hx
    rw [(wait_unique hi hx).1]
    exact unlisted_of_fresh hi hv hpub (hfresh u hru payload hpub) hn
  obtain ⟨t', ht', o, hret⟩ := returns_of_unlisted h0 hfair hno (Nat.le_max_right t (u + 1)) hi'
  refine ⟨t', (Nat.le_max_left ..).trans ht', o, hret, ?_, ?_⟩
  · rintro rfl
    obtain ⟨x, hx, hp⟩ := hret
    exact (misses_of_fresh h0 hi hv hm.later hfresh t').outcome x hx (.inr hp)
  · rintro rfl
    obtain ⟨x, hx, hp⟩ := hret
    exact cancelled_by h0 (.inr ⟨x, hx, .inr (.inr hp)⟩)

theorem returns_of_registered (h0 : ρ.st 0 = .start values) (hfair : Fair ρ) {r u : ℕ}
    {payload : π} (hi : (ρ.st r).waits[i]? = some w) (hr : w.phase.registered = true)
    (hru : r ≤ u) (hpub : ρ.act u = some (.publish w.key payload)) :
    ∃ t' ≥ u, ∃ outcome, (ρ.st t').Returned i outcome := by
  obtain ⟨w', hi', hk', -⟩ := wait_later (hru.trans (Nat.le_succ u)) hi
  have hno : ∀ n > u, ∀ x, (ρ.st n).waits[i]? = some x → i ∉ (ρ.st n).waiters x.key := by
    intro n hn x hx
    rw [(wait_unique hi hx).1]
    exact unlisted_of_registered hi hr hru hpub hn
  obtain ⟨t', ht', hret⟩ := returns_of_unlisted h0 hfair hno (Nat.lt_succ_self u) hi'
  exact ⟨t', (Nat.le_succ u).trans ht', hret⟩

theorem unlisted_of_returned (h0 : ρ.st 0 = .start values) {t : ℕ} {outcome : Outcome}
    (h : (ρ.st t).Returned i outcome) (key : κ) : i ∉ (ρ.st t).waiters key := by
  intro hmem
  obtain ⟨w, hi, -, hreg⟩ := (hubSound_of_start h0 t).listed key i hmem
  obtain ⟨x, hx, hp⟩ := h
  cases hi.symm.trans hx
  rw [hp] at hreg
  cases hreg

theorem HubMoves.versions {s s' : World σ κ} {a : HubAction κ π} (h : HubMoves hub s a s') :
    (∃ key payload, a = .publish key payload ∧ s'.values = hub.publish key payload s.values) ∨
      (∀ key payload, a ≠ .publish key payload) ∧ s'.values = s.values := by
  cases h with
  | publish key payload => exact .inl ⟨key, payload, rfl, rfl⟩
  | callback c =>
    refine .inr ⟨fun _ _ h => (by cases h), ?_⟩
    rw [c.run_eq]
    rcases settle_cases { s with callbacks := s.callbacks.erase c } c.future c.result with
      heq | ⟨w', -, -, heq⟩
    · rw [heq]
    · rw [heq]
      rfl
  | call | interrupt | early | pass | register | evict | settleDown | wake | leave | notify =>
    exact .inr ⟨fun _ _ h => (by cases h), rfl⟩

end Runs

namespace KeyedVersions

theorem version_publish (h : KeyedVersions) (key : String) :
    (h.publish key).version key = h.version key + 1 := by
  unfold publish
  dsimp only
  rw [List.drop_append_of_le_length (by simp [maxKeyedVersions])]
  generalize h.version key + 1 = n
  unfold version
  rw [List.find?_append]
  have hnone : (List.drop ((h.filter (·.1 ≠ key) ++ [(key, n)]).length - maxKeyedVersions)
      (h.filter (·.1 ≠ key))).find? (·.1 = key) = none := by
    rw [List.find?_eq_none]
    intro e he
    simpa using (List.mem_filter.mp (List.mem_of_mem_drop he)).2
  rw [hnone]
  simp

theorem version_of_notMem {h : KeyedVersions} {key : String} (hnew : key ∉ h.map (·.1)) :
    h.version key = 0 := by
  have hnone : h.find? (·.1 = key) = none := by
    rw [List.find?_eq_none]
    intro e he heq
    exact hnew (List.mem_map.mpr ⟨e, he, by simpa using heq⟩)
  rw [version, hnone]
  rfl

/-- Keys that are not there are added with version 1, and the oldest keys are forgotten. -/
theorem foldl_publish (keys : List String) (h : KeyedVersions)
    (hnodup : (h.map (·.1) ++ keys).Nodup) (hlen : h.length ≤ maxKeyedVersions) :
    keys.foldl publish h =
      (h ++ keys.map (·, 1)).drop (h.length + keys.length - maxKeyedVersions) := by
  induction keys generalizing h with
  | nil => simp [Nat.sub_eq_zero_of_le hlen]
  | cons key rest ih =>
    have hnew : key ∉ h.map (·.1) := by
      intro hmem
      exact (List.nodup_append.mp hnodup).2.2 key hmem key List.mem_cons_self rfl
    have hpublish : h.publish key = (h ++ [(key, 1)]).drop (h.length + 1 - maxKeyedVersions) := by
      have hfilter : h.filter (·.1 ≠ key) = h := by
        rw [List.filter_eq_self]
        intro e he
        simpa using fun heq => hnew (List.mem_map.mpr ⟨e, he, heq⟩)
      unfold publish
      rw [hfilter, version_of_notMem hnew]
      simp
    have hsub : List.Sublist
        (((h ++ [(key, 1)] : KeyedVersions).drop (h.length + 1 - maxKeyedVersions)).map (·.1) ++
          rest)
        (h.map (·.1) ++ key :: rest) := by
      have hall : h.map (·.1) ++ key :: rest =
          (h ++ [(key, 1)] : KeyedVersions).map (·.1) ++ rest := by simp
      rw [hall]
      exact ((List.drop_sublist _ _).map _).append_right rest
    have hlen' : ((h ++ [(key, 1)]).drop (h.length + 1 - maxKeyedVersions)).length =
        h.length + 1 - (h.length + 1 - maxKeyedVersions) := by simp
    have htotal : (h.length + 1 - maxKeyedVersions) +
        (h.length + 1 - (h.length + 1 - maxKeyedVersions) + rest.length - maxKeyedVersions) =
        h.length + (key :: rest).length - maxKeyedVersions := by
      rw [List.length_cons]
      omega
    rw [List.foldl_cons, hpublish, ih _ (hnodup.sublist hsub) (by omega), hlen',
      ← List.drop_append_of_le_length (by simp), List.drop_drop, htotal, List.map_cons,
      List.append_assoc, List.singleton_append]

end KeyedVersions

section VersionHub

variable {maxWaiters : ℕ} {ρ : Run (hubStep (versionHub maxWaiters))}

/-- The payloads published before a time. -/
def hubLog (ρ : Run (hubStep (versionHub maxWaiters))) : ℕ → List (Option String)
  | 0 => []
  | t + 1 =>
    match ρ.act t with
    | some (.publish _ payload) => hubLog ρ t ++ [payload]
    | _ => hubLog ρ t

theorem values_eq (h0 : ρ.st 0 = .start .empty) (t : ℕ) :
    (ρ.st t).values = .ofLog (hubLog ρ t) := by
  induction t with
  | zero => rw [h0]; rfl
  | succ t ih =>
    unfold hubLog
    cases ha : ρ.act t with
    | none => rw [ρ.next_of_pause ha, ih]
    | some a =>
      rcases (hubStep_moves (ρ.next_of_act ha)).versions with ⟨key, payload, rfl, hv⟩ | ⟨hno, hv⟩
      · rw [hv, ih, VersionHub.ofLog_append]
        rfl
      · rw [hv, ih]
        cases a with
        | publish key payload => exact absurd rfl (hno key payload)
        | call | interrupt | run => rfl

theorem version_mono {t t' : ℕ} (h : t ≤ t') :
    (ρ.st t).values.version ≤ (ρ.st t').values.version := by
  induction t', h using Nat.le_induction with
  | base => exact le_rfl
  | succ t' _ ih =>
    refine ih.trans ?_
    cases ha : ρ.act t' with
    | none => rw [ρ.next_of_pause ha]
    | some a =>
      rcases (hubStep_moves (ρ.next_of_act ha)).versions with ⟨key, payload, -, hv⟩ | ⟨-, hv⟩
      · rw [hv]
        exact Nat.le_succ _
      · rw [hv]

theorem staysFresh_of_read {i v r : ℕ} (hread : (ρ.st r).values.version = v) :
    StaysFresh ρ i () v r := by
  intro u hu payload hpub n hn _
  have hnext := Option.some.inj (ρ.next_of_act hpub)
  have hlater : (ρ.st (u + 1)).values.version ≤ (ρ.st n).values.version := version_mono hn
  rw [← hnext] at hlater
  have hbefore : (ρ.st r).values.version ≤ (ρ.st u).values.version := version_mono hu
  have hlt : v < (ρ.st n).values.version := by
    rw [← hread]
    exact Nat.lt_of_lt_of_le (Nat.lt_succ_of_le hbefore) hlater
  exact hlt.ne'

end VersionHub

/-- In every fair run of a `VersionHub` a call of `wait` with a version that was read before
another publish is answered; in one of a `KeyedVersionHub` it is, unless after such a publish the
key has the version again while the call goes on. A registered call ends after a publish on its
key. A call that returned is on no list, and `payloads_since` returns the payloads published
since a version, each once and in the order of their first publish, when these are at most 2048
publishes. -/
theorem hubs_lose_no_wake :
    (∀ (maxWaiters : ℕ) (ρ : Run (hubStep (versionHub maxWaiters))), ρ.st 0 = .start .empty →
      (Fair ρ → ∀ t i v r, Missed ρ t i v r () → Answered ρ t i v) ∧
      (Fair ρ → ∀ r i w u payload, (ρ.st r).waits[i]? = some w → w.phase.registered = true →
        r ≤ u → ρ.act u = some (.publish () payload) →
        ∃ t ≥ u, ∃ outcome, (ρ.st t).Returned i outcome) ∧
      (∀ t i outcome, (ρ.st t).Returned i outcome → i ∉ (ρ.st t).waiters ()) ∧
      ∀ t v, (hubLog ρ t).length ≤ v + historyLength →
        (ρ.st t).values.payloadsSince v = ((hubLog ρ t).drop v).eraseDups) ∧
    ∀ ρ : Run (hubStep keyedVersionHub), ρ.st 0 = .start [] →
      (Fair ρ → ∀ t i v r key, Missed ρ t i v r key → StaysFresh ρ i key v r →
        Answered ρ t i v) ∧
      (Fair ρ → ∀ r i w u payload, (ρ.st r).waits[i]? = some w → w.phase.registered = true →
        r ≤ u → ρ.act u = some (.publish w.key payload) →
        ∃ t ≥ u, ∃ outcome, (ρ.st t).Returned i outcome) ∧
      ∀ t i outcome, (ρ.st t).Returned i outcome → ∀ key, i ∉ (ρ.st t).waiters key := by
  refine ⟨fun maxWaiters ρ h0 => ⟨?_, ?_, ?_, ?_⟩, fun ρ h0 => ⟨?_, ?_, ?_⟩⟩
  · intro hfair t i v r hm
    exact answered_of_fresh h0 hfair hm (staysFresh_of_read hm.read)
  · intro hfair r i w u payload hi hr hru hpub
    exact returns_of_registered h0 hfair hi hr hru hpub
  · intro t i outcome h
    exact unlisted_of_returned h0 h ()
  · intro t v hlen
    rw [values_eq h0 t, VersionHub.payloadsSince_ofLog hlen]
  · intro hfair t i v r key hm hfresh
    exact answered_of_fresh h0 hfair hm hfresh
  · intro hfair r i w u payload hi hr hru hpub
    exact returns_of_registered h0 hfair hi hr hru hpub
  · intro t i outcome h key
    exact unlisted_of_returned h0 h key

theorem not_enabled {σ κ π : Type} [DecidableEq κ] {hub : Hub σ κ π} {s : World σ κ}
    (hwaits : ∀ w ∈ s.waits, (w.phase = .awaiting ∧ w.future = .pending) ∨
      ∃ outcome, w.phase = .returned outcome)
    (hpublishers : ∀ p ∈ s.publishers, p.rest = []) (hcallbacks : s.callbacks = []) (g : Agent) :
    ¬ Enabled hub s g := by
  unfold Enabled
  cases g with
  | wait i =>
    cases hi : s.waits[i]? with
    | none => simp [runAgent, hi]
    | some w =>
      rcases hwaits w (List.mem_of_getElem? hi) with ⟨hp, hx⟩ | ⟨o, hp⟩
      · simp [runAgent, hi, runWait, hp, hx]
      · simp [runAgent, hi, runWait, hp]
  | publisher p =>
    cases hp : s.publishers[p]? with
    | none => simp [runAgent, hp]
    | some x =>
      have hrest := hpublishers x (List.mem_of_getElem? hp)
      obtain ⟨version, rest⟩ := x
      dsimp only at hrest
      subst hrest
      simp [runAgent, hp]
  | callback c => simp [runAgent, hcallbacks]

theorem fair_of_end {σ κ π : Type} [DecidableEq κ] {hub : Hub σ κ π} {s e : World σ κ}
    {acts : List (HubAction κ π)} (h : acts.foldlM (hubStep hub) s = some e)
    (hend : ∀ g, ¬ Enabled hub e g) : Fair (Run.ofReplay s acts h) := by
  intro t g _
  refine ⟨max t acts.length, le_max_left .., .inr ?_⟩
  rw [Run.ofReplay_end h (le_max_right ..)]
  exact hend g

/-- A call of `wait` registers, and its key is published to. -/
def wakingActs {κ π : Type} (key : κ) (payload : π) : List (HubAction κ π) :=
  [.call key (some 0), .run (.wait 0), .run (.wait 0), .run (.wait 0), .publish key payload,
    .run (.publisher 0), .run (.callback (.resolve 0 1)), .run (.wait 0), .run (.wait 0)]

def wakingRun : Run (hubStep (versionHub 1024)) :=
  .ofReplay (.start .empty) (wakingActs () (some "sales")) (Option.some_get (by rfl)).symm

def keyedWakingRun : Run (hubStep keyedVersionHub) :=
  .ofReplay (.start []) (wakingActs "k" ()) (Option.some_get (by rfl)).symm

theorem hubs_lose_no_wake_waking : Answered wakingRun 4 0 0 ∧ Answered keyedWakingRun 4 0 0 := by
  have hfair : Fair wakingRun := by
    refine fair_of_end _ (not_enabled ?_ ?_ rfl)
    · intro w hw
      cases List.mem_singleton.mp hw
      exact .inr ⟨.version 1, rfl⟩
    · intro p hp
      cases List.mem_singleton.mp hp
      rfl
  have hkeyed : Fair keyedWakingRun := by
    refine fair_of_end _ (not_enabled ?_ ?_ rfl)
    · intro w hw
      cases List.mem_singleton.mp hw
      exact .inr ⟨.version 1, rfl⟩
    · intro p hp
      cases List.mem_singleton.mp hp
      rfl
  have hfresh : StaysFresh keyedWakingRun 0 "k" 0 0 := by
    intro u _ payload hpub n hn _
    have hu : 4 ≤ u := by
      by_contra hlt
      obtain rfl | rfl | rfl | rfl : u = 0 ∨ u = 1 ∨ u = 2 ∨ u = 3 := by omega
      all_goals cases hpub
    obtain rfl | rfl | rfl | rfl | hend : n = 5 ∨ n = 6 ∨ n = 7 ∨ n = 8 ∨ 9 ≤ n := by omega
    case inr.inr.inr.inr =>
      rw [keyedWakingRun, Run.ofReplay_end _ hend]
      exact Nat.one_ne_zero
    all_goals exact Nat.one_ne_zero
  exact ⟨(hubs_lose_no_wake.1 1024 wakingRun rfl).1 hfair 4 0 0 0
      ⟨⟨_, rfl, rfl, rfl⟩, Nat.le_refl 0, rfl, 4, Nat.zero_le 4, some "sales", rfl⟩,
    (hubs_lose_no_wake.2 keyedWakingRun rfl).1 hkeyed 4 0 0 0 "k"
      ⟨⟨_, rfl, rfl, rfl⟩, Nat.le_refl 0, rfl, 4, Nat.zero_le 4, (), rfl⟩ hfresh⟩

/-- 4096 keys of different lengths. -/
def otherKeys : List String :=
  (List.range maxKeyedVersions).map fun n => .ofList (List.replicate (n + 2) 'a')

theorem nodup_otherKeys : ("k" :: otherKeys).Nodup := by
  have hlen : ∀ n, (String.ofList (List.replicate n 'a')).length = n := by simp
  refine List.nodup_cons.mpr ⟨fun hmem => ?_, ?_⟩
  · obtain ⟨n, -, hn⟩ := List.mem_map.mp hmem
    have hlong := congrArg String.length hn
    rw [hlen] at hlong
    have hshort : "k".length = 1 := by decide
    omega
  · refine List.Nodup.map (fun m n heq => ?_) List.nodup_range
    have hlong := congrArg String.length heq
    simpa only [hlen, Nat.add_right_cancel_iff] using hlong

/-- The versions after a publish of a key, of 4096 other keys, and of the key again. -/
def restartedVersions : KeyedVersions :=
  ("k" :: otherKeys ++ ["k"]).foldl KeyedVersions.publish []

theorem version_restarted : restartedVersions.version "k" = 1 := by
  have hlen : otherKeys.length = maxKeyedVersions := by simp [otherKeys]
  have hothers : ("k" :: otherKeys).foldl KeyedVersions.publish [] = otherKeys.map (·, 1) := by
    rw [KeyedVersions.foldl_publish _ [] nodup_otherKeys (by simp)]
    simp [hlen]
  have hnew : "k" ∉ (otherKeys.map fun key => (key, 1)).map (·.1) := by
    simpa using (List.nodup_cons.mp nodup_otherKeys).1
  rw [restartedVersions, List.foldl_append, hothers, List.foldl_cons, List.foldl_nil,
    KeyedVersions.version_publish, KeyedVersions.version_of_notMem hnew]

/-- Publishes on a hub that nobody waits on. -/
theorem foldlM_publish (keys : List String) (versions : KeyedVersions) (publishers : List Publisher)
    (hidle : ∀ p ∈ publishers, p.rest = []) : ∃ publishers' : List Publisher,
      (∀ p ∈ publishers', p.rest = []) ∧
      (keys.map fun key => HubAction.publish key ()).foldlM (hubStep keyedVersionHub)
        ⟨versions, fun _ => [], [], publishers, []⟩ =
      some ⟨keys.foldl KeyedVersions.publish versions, fun _ => [], [], publishers', []⟩ := by
  induction keys generalizing versions publishers with
  | nil => exact ⟨publishers, hidle, rfl⟩
  | cons key rest ih =>
    have hidle' : ∀ p ∈ publishers ++ [Publisher.mk ((versions.publish key).version key) []],
        p.rest = [] := by
      intro p hp
      rcases List.mem_append.mp hp with hp | hp
      · exact hidle p hp
      · rw [List.mem_singleton.mp hp]
    obtain ⟨publishers', hidle'', heq⟩ := ih (versions.publish key) _ hidle'
    refine ⟨publishers', hidle'', ?_⟩
    rw [List.map_cons, List.foldlM_cons, List.foldl_cons, ← heq]
    have hnone : Function.update (fun _ : String => ([] : List ℕ)) key [] = fun _ => [] :=
      Function.update_eq_self key fun _ => []
    simp only [hubStep, keyedVersionHub, hnone, Option.bind_eq_bind, Option.bind_some]

/-- The publishes, and a call of `wait` with the version from before the key was forgotten. -/
def restartedActs : List (HubAction String Unit) :=
  ("k" :: otherKeys ++ ["k"]).map (fun key => HubAction.publish key ()) ++
    [HubAction.call "k" (some 1), .run (.wait 0), .run (.wait 0), .run (.wait 0)]

/-- The call that awaits its future. -/
def blockedWorld (versions : KeyedVersions) (publishers : List Publisher) :
    World KeyedVersions String where
  values := versions
  waiters := Function.update (fun _ => []) "k" [0]
  waits := [⟨"k", some 1, .pending, .awaiting⟩]
  publishers
  callbacks := []

theorem blocked_replay {versions : KeyedVersions} (h : versions.version "k" = 1)
    (publishers : List Publisher) :
    [.call "k" (some 1), .run (.wait 0), .run (.wait 0), .run (.wait 0)].foldlM
      (hubStep keyedVersionHub) ⟨versions, fun _ => [], [], publishers, []⟩ =
      some (blockedWorld versions publishers) := by
  simp [hubStep, runAgent, runWait, h, Wait.stale, World.setWait, keyedVersionHub, evictOverflow,
    blockedWorld]

theorem restarted_replay : ∃ publishers : List Publisher, (∀ p ∈ publishers, p.rest = []) ∧
    restartedActs.foldlM (hubStep keyedVersionHub) (.start []) =
      some (blockedWorld restartedVersions publishers) := by
  obtain ⟨publishers, hidle, heq⟩ :=
    foldlM_publish ("k" :: otherKeys ++ ["k"]) [] [] fun _ h => (by cases h)
  refine ⟨publishers, hidle, ?_⟩
  rw [← restartedVersions] at heq
  rw [restartedActs, List.foldlM_append, World.start, heq, Option.bind_eq_bind, Option.bind_some,
    blocked_replay version_restarted publishers]

/-- A key is published, forgotten, and published again: a `wait` with the version 1 that was read
after the first publish stays blocked. -/
theorem restarted_wait_blocks : ∃ ρ : Run (hubStep keyedVersionHub), ρ.st 0 = .start [] ∧
    Fair ρ ∧ ∃ t i v r key, Missed ρ t i v r key ∧ ¬ Answered ρ t i v := by
  obtain ⟨publishers, hidle, hreplay⟩ := restarted_replay
  have hlen : otherKeys.length = maxKeyedVersions := by simp [otherKeys]
  refine ⟨.ofReplay (.start []) restartedActs hreplay, rfl, fair_of_end hreplay ?_,
    restartedActs.length, 0, 1, 1, "k", ⟨?_, ?_, ?_, ?_⟩, ?_⟩
  · refine not_enabled ?_ hidle rfl
    intro w hw
    cases List.mem_singleton.mp hw
    exact .inl ⟨rfl, rfl⟩
  · refine ⟨⟨"k", some 1, .pending, .awaiting⟩, ?_, rfl, rfl⟩
    rw [Run.ofReplay_end hreplay le_rfl]
    rfl
  · exact Nat.zero_le 0
  · rfl
  · refine ⟨otherKeys.length + 1, by omega, (), ?_⟩
    change restartedActs[otherKeys.length + 1]? = _
    rw [restartedActs, List.getElem?_append_left (by simp), List.getElem?_map,
      List.getElem?_append_right (by simp)]
    simp
  · rintro ⟨t', ht', o, ⟨w, hw, hp⟩, -⟩
    rw [Run.ofReplay_end hreplay ht'] at hw
    cases hw
    cases hp

end DataForge.Wakes
