import DataForge.Status.Fresh

/-!
# The engine status stream shows the latest publish

A snapshot that the registry hands out under a version was read by a load that started at that
version or later, the caches hold the current version only, loads of one key do not overlap, and
a socket does not stay at its `wait` with a snapshot from before a publish
(`status_stream_fresh`).
-/

namespace DataForge.Status

open Transitions

variable {S T : Type} {serialize : S → T}

/-- Whether a task is in `wait_for_namespace`. -/
def Phase.waits : Phase S T → Bool
  | .entered _ | .waiting _ | .leaving _ _ => true
  | _ => false

/-- What the socket was last sent was read by a load that started after a time. -/
def Caller.SentAfter (ρ : Run (statusStep serialize)) (t : ℕ) (c : Caller S T) (u : ℕ) : Prop :=
  ∃ v x, c.sent = some (v, serialize x) ∧ ∃ t0 > u, ReadBy ρ t t0 c.ns x

/-- The tasks are scheduled: one that can go on does so sometime, or is cancelled. -/
def Fair (ρ : Run (statusStep serialize)) : Prop :=
  ∀ t i, (statusStep serialize (ρ.st t) (.run i)).isSome = true → ∃ t' ≥ t,
    ρ.act t' = some (.run i) ∨ ρ.act t' = some (.interrupt i) ∨
      (statusStep serialize (ρ.st t') (.run i)).isSome = false

/-- The task that an action is a step of. -/
def StatusAction.task : StatusAction S → Option ℕ
  | .run i => some i
  | .interrupt i => some i
  | _ => none

/-- A task that will leave `wait_for_namespace` by itself: its `last_seen` is not the version any
more, its future is done, or it is in its `finally`. -/
inductive Leaves (s : Registry S T) (c : Caller S T) : ℕ → Prop where
  | stale (v : ℕ) (hp : c.phase = .entered (some (toString v))) (hv : v ≠ s.version c.ns)
      (hle : v ≤ s.version c.ns) : Leaves s c 2
  | done (f : ℕ) (x : Future) (hp : c.phase = .waiting f) (hf : s.futures[f]? = some x)
      (hx : x ≠ .pending) : Leaves s c 1
  | leaving (f : ℕ) (token : Option String) (hp : c.phase = .leaving f token) : Leaves s c 0

/-- The task of a number leaves by itself. -/
def Charged (i : ℕ) (s : Registry S T) (g b : ℕ) : Prop :=
  g = i ∧ ∃ c, s.callers[i]? = some c ∧ Leaves s c b

/-- The task of a number is not in `wait_for_namespace`. -/
def Registry.Left (s : Registry S T) (i : ℕ) : Prop :=
  ∃ c, s.callers[i]? = some c ∧ c.phase.waits = false

section Steps

variable {s s' : Registry S T} {a : StatusAction S} {c : Caller S T} {i b : ℕ}

theorem Leaves.waits (h : Leaves s c b) : c.phase.waits = true := by
  cases h with
  | stale v hp | done f x hp | leaving f token hp =>
    rw [hp]
    rfl

theorem Leaves.enabled (hi : s.callers[i]? = some c) (h : Leaves s c b) :
    (statusStep serialize s (.run i)).isSome = true := by
  simp only [statusStep, hi, Option.bind_some, Registry.runCaller]
  cases h with
  | stale v hp hv hle =>
    rw [hp]
    dsimp only
    split <;> rfl
  | done f x hp hf hx =>
    rw [hp]
    cases x with
    | pending => exact absurd rfl hx
    | resolved token => simp [hf]
    | cancelled => simp [hf]
  | leaving f token hp =>
    rw [hp]
    rfl

theorem Moves.caller_of_ne (h : Moves serialize s a s') (hi : s.callers[i]? = some c)
    (ha : a.task ≠ some i) : s'.callers[i]? = some c := by
  have hset : ∀ (j : ℕ) (d : Caller S T), j ≠ i → (s.callers.set j d)[i]? = some c :=
    fun j d hji => (List.getElem?_set_ne hji).trans hi
  cases h with
  | called ns call =>
    exact Entries.append_old hi
  | stepped j d d' _ hj hact =>
    rcases hact with rfl | rfl <;> exact hset j d' fun heq => ha (heq ▸ rfl)
  | loading j | serializing j | registered j | left j | interrupted j =>
    exact hset j _ fun heq => ha (heq ▸ rfl)
  | _ => exact hi

theorem Leaves.other (h : Leaves s c b) (hm : Moves serialize s a s') (hs : s.Listed) :
    Leaves s' c b := by
  cases h with
  | stale v hp hv hle =>
    have hgrow := hm.version_le c.ns
    exact .stale v hp (by omega) (by omega)
  | done f x hp hf hx =>
    obtain ⟨x', hf', hx'⟩ := hm.futures hs c.ns f x hf
    exact .done f x' hp hf' fun hpend => hx (hx' hpend).1
  | leaving f token hp => exact .leaving f token hp

/-- A step of the task itself brings it nearer to the end of its wait. -/
theorem Leaves.own (h : Leaves s c b) (hm : Moves serialize s a s') (hi : s.callers[i]? = some c)
    (ha : a.task = some i) :
    s'.Left i ∨ ∃ b' < b, ∃ c', s'.callers[i]? = some c' ∧ Leaves s' c' b' := by
  have hwaits := h.waits
  have hself : ∀ (c' : Caller S T), (s.callers.set i c')[i]? = some c' :=
    fun c' => Entries.set_self hi
  cases hm with
  | counted ns n _ hact => rcases hact with rfl | rfl <;> cases ha
  | loading j d hj hp =>
    cases ha
    cases hi.symm.trans hj
    rw [hp] at hwaits
    cases hwaits
  | serializing j d v x hj hp =>
    cases ha
    cases hi.symm.trans hj
    rw [hp] at hwaits
    cases hwaits
  | stepped j d d' _ hj hact hd =>
    obtain rfl : j = i := by rcases hact with rfl | rfl <;> exact Option.some.inj ha
    cases hi.symm.trans hj
    cases hd with
    | loaded k l x hp | serialized k l y hp | sent v y hp =>
      rw [hp] at hwaits
      cases hwaits
    | resumed f x token hp hf hx =>
      cases h with
      | stale v hp' => cases hp.symm.trans hp'
      | done => exact .inr ⟨0, Nat.zero_lt_one, _, hself _, .leaving f token rfl⟩
      | leaving f' token' hp' => cases hp.symm.trans hp'
    | called | woken | failed => exact .inl ⟨_, hself _, rfl⟩
  | registered j d lastSeen hj hp hv =>
    cases ha
    cases hi.symm.trans hj
    cases h with
    | stale v hp' hne hle =>
      cases hp.symm.trans hp'
      exact absurd (Texts.toString_inj (hv _ rfl)).symm hne
    | done f x hp' => cases hp.symm.trans hp'
    | leaving f token hp' => cases hp.symm.trans hp'
  | left j d f token hj hp =>
    cases ha
    cases hi.symm.trans hj
    refine .inl ⟨_, hself _, ?_⟩
    cases token <;> rfl
  | interrupted j d f hj hp =>
    cases ha
    cases hi.symm.trans hj
    cases h with
    | stale v hp' => cases hp.symm.trans hp'
    | done => exact .inr ⟨0, Nat.zero_lt_one, _, hself _, .leaving f none rfl⟩
    | leaving f' token hp' => cases hp.symm.trans hp'
  | _ => cases ha

end Steps

section Runs

variable {ρ : Run (statusStep serialize)} {t i : ℕ} {c : Caller S T}

/-- In a fair run a task that leaves `wait_for_namespace` by itself has left it sometime. -/
theorem left_of_leaves (h0 : ρ.st 0 = .empty) (hfair : Fair ρ) {b : ℕ}
    (hi : (ρ.st t).callers[i]? = some c) (h : Leaves (ρ.st t) c b) :
    ∃ t' ≥ t, (ρ.st t').Left i := by
  refine Run.leadsTo_of_charge (Q := fun s => s.Left i) StatusAction.task (Charged i) 0 ?_ ?_
    (Nat.zero_le t) (g := i) (b := b) ⟨rfl, c, hi, h⟩
  · rintro t g b ⟨rfl, d, hd, hleaves⟩
    obtain ⟨t', ht', hrun | hint | hstop⟩ := hfair t g (hleaves.enabled hd)
    · exact ⟨t', ht', .inl ⟨_, hrun, rfl⟩⟩
    · exact ⟨t', ht', .inl ⟨_, hint, rfl⟩⟩
    · refine ⟨t', ht', .inr ?_⟩
      rintro b' ⟨-, d', hd', hleaves'⟩
      rw [hleaves'.enabled hd'] at hstop
      cases hstop
  · rintro t - a ha g b ⟨rfl, d, hd, hleaves⟩
    have hm := statusStep_moves (ρ.next_of_act ha)
    by_cases htask : a.task = some g
    · rcases hleaves.own hm hd htask with hq | ⟨b', hb, d', hd', hleaves'⟩
      · exact .inl hq
      · exact .inr (.inl ⟨g, b', hb, rfl, d', hd', hleaves'⟩)
    · exact .inr (.inr ⟨htask, rfl, d, hm.caller_of_ne hd htask,
        hleaves.other hm (tracked_of_empty h0 t).listed⟩)

theorem sentAfter_of_pending (h0 : ρ.st 0 = .empty) (hi : (ρ.st t).callers[i]? = some c)
    (hcall : c.call = .stream) {f : ℕ} (hp : c.phase = .waiting f)
    (hf : (ρ.st t).futures[f]? = some .pending) {u : ℕ} (hu : u < t)
    (hpub : ρ.act u = some (.publish c.ns)) : c.SentAfter ρ t u := by
  obtain ⟨hgood, hsent⟩ := (tracked_of_empty h0 t).callers i c hi
  rw [Caller.Good, hp] at hgood
  obtain ⟨v, y, hvy, hv⟩ := hgood hf hcall
  obtain ⟨x, rfl, t0, hread, hle⟩ := hsent v y hvy
  exact ⟨v, x, hvy, t0, publish_lt hpub (hv u hu hpub) hle, hread⟩

/-- A socket at its `wait` with a snapshot from before a publish leaves by itself. -/
theorem leaves_of_stale (h0 : ρ.st 0 = .empty) (hi : (ρ.st t).callers[i]? = some c)
    (hcall : c.call = .stream) (hw : c.phase.waits = true) {u : ℕ} (hu : u < t)
    (hpub : ρ.act u = some (.publish c.ns)) (hstale : ¬ c.SentAfter ρ t u) :
    ∃ b, Leaves (ρ.st t) c b := by
  have htracked := tracked_of_empty h0 t
  have hlisted := htracked.listed i c hi
  cases hp : c.phase with
  | entered lastSeen =>
    rw [Caller.Listed, hp] at hlisted
    obtain ⟨v, y, hvy, rfl⟩ := hlisted hcall
    obtain ⟨x, rfl, t0, hread, hle⟩ := (htracked.callers i c hi).2 v y hvy
    have hlt : v < (ρ.st (u + 1)).version c.ns := by
      refine Nat.lt_of_not_le fun hv => hstale ?_
      exact ⟨v, x, hvy, t0, publish_lt hpub hv hle, hread⟩
    have hgrow := version_mono ρ (by omega : u + 1 ≤ t) c.ns
    exact ⟨2, .stale v hp (by omega) (by omega)⟩
  | waiting f =>
    rw [Caller.Listed, hp] at hlisted
    obtain ⟨x, hf, -⟩ := hlisted
    refine ⟨1, .done f x hp hf ?_⟩
    rintro rfl
    exact hstale (sentAfter_of_pending h0 hi hcall hp hf hu hpub)
  | leaving f token => exact ⟨0, .leaving f token hp⟩
  | called | loading | loaded | serializing | returned | woken | failed =>
    rw [hp] at hw
    cases hw

/-- The engine status stream (lines 46-206): what is handed out under a version was read at that
version or later, the caches hold the current version, loads of one key do not overlap, and a
socket that waits was sent what was read after the latest publish or stops waiting. -/
theorem status_stream_fresh (ρ : Run (statusStep serialize)) (h0 : ρ.st 0 = .empty) :
    (∀ (t i : ℕ) (c : Caller S T), (ρ.st t).callers[i]? = some c →
      (∀ v x, c.phase = .loaded v x → Fresh ρ t c.ns v x) ∧
      ∀ v y, c.phase = .returned v y → FreshText ρ t c.ns v y) ∧
    (∀ t ns v, (∀ x, (ρ.st t).snapshots.cache ns = some (v, x) → v = (ρ.st t).version ns) ∧
      ∀ y, (ρ.st t).serialized.cache ns = some (v, y) → v = (ρ.st t).version ns) ∧
    (∀ t, (ρ.st t).snapshots.SingleFlight ∧ (ρ.st t).serialized.SingleFlight) ∧
    (∀ (t i f u : ℕ) (c : Caller S T), (ρ.st t).callers[i]? = some c → c.call = .stream →
      c.phase = .waiting f → (ρ.st t).futures[f]? = some .pending → u < t →
      ρ.act u = some (.publish c.ns) → c.SentAfter ρ t u) ∧
    (Fair ρ → ∀ (t i u : ℕ) (c : Caller S T), (ρ.st t).callers[i]? = some c → c.call = .stream →
      c.phase.waits = true → u < t → ρ.act u = some (.publish c.ns) → ¬ c.SentAfter ρ t u →
      ∃ t' ≥ t, (ρ.st t').Left i) := by
  refine ⟨fun t i c hi => ⟨fun v x hp => ?_, fun v y hp => ?_⟩, fun t ns v => ⟨?_, ?_⟩,
    fun t => ?_, ?_, ?_⟩
  · have hgood := ((tracked_of_empty h0 t).callers i c hi).1
    rw [Caller.Good, hp] at hgood
    exact hgood.1
  · have hgood := ((tracked_of_empty h0 t).callers i c hi).1
    rwa [Caller.Good, hp] at hgood
  · exact fun x hx => ((tracked_of_empty h0 t).snapshots.cached ns v x hx).1
  · exact fun y hy => ((tracked_of_empty h0 t).serialized.cached ns v y hy).1
  · exact ⟨(tracked_of_empty h0 t).snapshots.singleFlight,
      (tracked_of_empty h0 t).serialized.singleFlight⟩
  · intro t i f u c hi hcall hp hf hu hpub
    exact sentAfter_of_pending h0 hi hcall hp hf hu hpub
  · intro hfair t i u c hi hcall hw hu hpub hstale
    obtain ⟨b, hleaves⟩ := leaves_of_stale h0 hi hcall hw hu hpub hstale
    exact left_of_leaves h0 hfair hi hleaves

end Runs

/-- A socket reads at version 1 while a publish installs version 2, and then reads again. -/
def rereadActs : List (StatusAction ℕ) :=
  [.subscribe "default", .call "default" .stream, .run 0, .startLoad 0, .publish "default",
    .finishLoad 0 (some 7), .run 0, .run 0, .startSerialize 0, .finishSerialize 0 false, .run 0,
    .run 0, .run 0, .run 0, .run 0, .startLoad 1, .finishLoad 1 (some 8), .run 0, .run 0,
    .startSerialize 1, .finishSerialize 1 false, .run 0, .run 0, .run 0]

def rereadRun : Run (statusStep (toString : ℕ → String)) :=
  .ofReplay .empty rereadActs (Option.some_get (by decide +kernel)).symm

theorem status_stream_fresh_reread :
    (∃ c, (rereadRun.st 24).callers[0]? = some c ∧ c.SentAfter rereadRun 24 4) ∧
      ∃ t ≥ 12, (rereadRun.st t).Left 0 := by
  have hpending : (rereadRun.st 24).callers[0]? =
      some ⟨.stream, "default", some (2, "8"), .waiting 0⟩ := by rfl
  have hsent : (rereadRun.st 12).callers[0]? =
      some ⟨.stream, "default", some (1, "7"), .entered (some "1")⟩ := by rfl
  have hfair : Fair rereadRun := by
    intro t i _
    refine ⟨max t rereadActs.length, Nat.le_max_left .., .inr (.inr ?_)⟩
    rw [rereadRun, Run.ofReplay_end _ (Nat.le_max_right ..)]
    cases i <;> rfl
  have hstale : ¬ Caller.SentAfter rereadRun 12
      ⟨.stream, "default", some (1, "7"), .entered (some "1")⟩ 4 := by
    rintro ⟨v, x, -, t0, h0, k, -, -, t1, h1, hlt, hfinish⟩
    obtain rfl | rfl | rfl | rfl | rfl | rfl :
      t1 = 6 ∨ t1 = 7 ∨ t1 = 8 ∨ t1 = 9 ∨ t1 = 10 ∨ t1 = 11 := by omega
    all_goals cases hfinish
  obtain ⟨-, -, -, hsafe, hlive⟩ := status_stream_fresh rereadRun rfl
  exact ⟨⟨_, hpending, hsafe 24 0 0 4 _ hpending rfl rfl rfl (by decide) rfl⟩,
    hlive hfair 12 0 4 _ hsent rfl rfl (by decide) rfl hstale⟩

end DataForge.Status
