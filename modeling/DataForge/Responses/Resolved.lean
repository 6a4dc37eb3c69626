import DataForge.Responses.Invariant

/-!
# Waiters miss nothing

A call that waits while its request becomes terminal is woken by a notification or by a recovery
pass that starts afterwards. Once it is awake nothing can put it to sleep again, and its own steps
lead to the terminal response.
-/

namespace DataForge.Responses

open Transitions (Run)

variable {ρ : Type} {s s' : System ρ} {w w' : Waiter ρ} {g : Registry ρ} {row : Option (Row ρ)}
  {i : ℕ} {id ns : String} {x : ρ}

/-- The call is registered and still waits for its response. -/
def Waiter.waits (w : Waiter ρ) : Bool :=
  match w.phase with
  | .reading | .read _ | .starting | .waiting _ _ | .woke _ => true
  | _ => false

/-- The call goes to sleep, or sleeps, unless the version is no longer the one it has seen. -/
def Waiter.sleepy (w : Waiter ρ) : Bool :=
  match w.phase with
  | .read none | .read (some .active) | .starting | .waiting _ _ => true
  | _ => false

/-- Nothing more is needed to resolve the call. -/
def Awake (g : Registry ρ) (w : Waiter ρ) : Prop :=
  w.sleepy = true → ∀ sg ∈ g.signal w.requestId, w.seen ≠ sg.version

/-- How many of its own steps an awake call may still need. -/
def Phase.rank : Phase ρ → ℕ
  | .read none | .read (some .active) => 9
  | .starting | .waiting _ _ => 8
  | .woke _ => 6
  | .reading => 5
  | .read (some (.terminal _)) => 1
  | _ => 0

theorem registered_of_waits (h : w.waits = true) : w.registered = true := by
  cases w with
  | mk id ns shared seen phase =>
    cases phase <;> simp_all [Waiter.waits, Waiter.registered]

theorem listens_of_sleepy (h : w.sleepy = true) : w.listens = true := by
  unfold Waiter.sleepy at h
  unfold Waiter.listens
  split at h
  case h_1 hph | h_2 hph | h_3 hph | h_4 hph => simp [hph]
  case h_5 => cases h

theorem Awake.of_not_sleepy (h : w.sleepy = false) : Awake g w := fun hs => by
  rw [h] at hs
  cases hs

/-- A call that goes on: it has its response, or it still waits; an awake one stays awake and has
fewer steps to go. -/
def GoesOn (x : ρ) (g : Registry ρ) (w : Waiter ρ) (y : Registry ρ × Waiter ρ) : Prop :=
  y.2.phase = .returned (.completed x) ∨
    y.2.waits = true ∧ (Awake g w → Awake y.1 y.2 ∧ y.2.phase.rank < w.phase.rank)

theorem Known.check_waits (h : Known g row w) (hreg : w.registered = true)
    (hrow : row = some (.terminal x)) (v : ℕ) :
    ({ w with seen := v }.check g).2.phase = .returned (.completed x) ∨
      ({ w with seen := v }.check g) = (g, { w with seen := v, phase := .reading }) := by
  obtain ⟨sg, hsg, -, -, ht⟩ := h.entry hreg
  unfold Waiter.check
  dsimp only
  split
  case h_1 y hy =>
    refine .inl ?_
    unfold Registry.signal at hsg
    obtain ⟨p, hp, rfl⟩ := Option.map_eq_some_iff.mp hsg
    have hterm : p.terminal = some y := by simpa [Registry.terminalRequest, hp] using hy
    have hy' := ht p.signal (by simp [Registry.signal, hp]) y hterm
    rw [hrow] at hy'
    cases hy'
    rfl
  case h_2 => exact .inr rfl

theorem Known.wake_waits (h : Known g row w) (hreg : w.registered = true)
    (hrow : row = some (.terminal x)) (hrank : 6 < w.phase.rank) (v : ℕ) :
    GoesOn x g w (w.wake g v) := by
  unfold Waiter.wake
  split
  · cases h.check_waits hreg hrow v with
    | inl hx => exact .inl hx
    | inr hx =>
      rw [hx]
      exact .inr ⟨rfl, fun _ => ⟨.of_not_sleepy rfl, Nat.lt_trans (by decide : 5 < 6) hrank⟩⟩
  · exact .inr ⟨rfl, fun _ => ⟨.of_not_sleepy rfl, hrank⟩⟩

theorem Known.waitForWake_waits (h : Known g row w) (hreg : w.registered = true)
    (hrow : row = some (.terminal x)) (hs : w.sleepy = true) (hrank : 6 < w.phase.rank) :
    GoesOn x g w (w.waitForWake g) := by
  unfold Waiter.waitForWake
  split
  · exact h.wake_waits hreg hrow hrank _
  case h_2 p hp =>
    split
    · exact h.wake_waits hreg hrow hrank _
    case isFalse hv =>
      refine .inr ⟨rfl, fun ha => ?_⟩
      have hne := ha hs p.signal (by simp [Registry.signal, hp])
      exact absurd (not_ne_iff.mp hv).symm hne

theorem Known.resume_waits (h : Known g row w) (hw : w.waits = true)
    (hrow : row = some (.terminal x)) {y : Registry ρ × Waiter ρ} (hs : w.resume g = some y) :
    GoesOn x g w y := by
  have hreg := registered_of_waits hw
  unfold Waiter.resume at hs
  split at hs
  case h_1 hph => simp [Waiter.waits, hph] at hw
  case h_2 hph => exact absurd hph h.fits.found
  case h_3 r hph =>
    cases hs
    have hr := h.fits.truthful r (.inl hph)
    rw [hrow] at hr
    cases hr
    exact .inl rfl
  case h_4 hph =>
    split at hs <;> cases hs
    · exact h.waitForWake_waits hreg hrow (by simp [Waiter.sleepy, hph]) (by simp [hph, Phase.rank])
    · refine .inr ⟨rfl, fun ha => ⟨fun _ => ha (by simp [Waiter.sleepy, hph]), ?_⟩⟩
      simp [hph, Phase.rank]
  case h_5 hph => simp [Waiter.waits, hph] at hw
  case h_6 hph =>
    cases hs
    exact h.waitForWake_waits hreg hrow (by simp [Waiter.sleepy, hph]) (by simp [hph, Phase.rank])
  case h_7 hph =>
    cases hs
    exact h.waitForWake_waits hreg hrow (by simp [Waiter.sleepy, hph]) (by simp [hph, Phase.rank])
  case h_8 v hph =>
    cases hs
    cases h.check_waits hreg hrow v with
    | inl hx => exact .inl hx
    | inr hx =>
      rw [hx]
      exact .inr ⟨rfl, fun _ => ⟨.of_not_sleepy rfl, by simp [hph, Phase.rank]⟩⟩
  case h_9 hph => simp [Waiter.waits, hph] at hw
  case h_10 => cases hs
  case h_11 => cases hs
  case h_12 => cases hs

/-- Call `i` waits for the request, whose row is terminal. -/
structure Await (i : ℕ) (ns id : String) (x : ρ) (s : System ρ) : Prop where
  sound : Sound s
  row : s.rows ns id = some (.terminal x)
  waits : ∃ w, s.waiters[i]? = some w ∧ w.requestId = id ∧ w.ns = ns ∧ w.waits = true

/-- Call `i` is awake. -/
def AwakeAt (i : ℕ) (s : System ρ) : Prop := ∀ w ∈ s.waiters[i]?, Awake s.registry w

/-- The rank of call `i`. -/
def rankAt (i : ℕ) (s : System ρ) : ℕ := ((s.waiters[i]?).map (·.phase.rank)).getD 0

/-- Call `i` has the response. -/
def HasResponse (i : ℕ) (x : ρ) (s : System ρ) : Prop :=
  ∃ w, s.waiters[i]? = some w ∧ w.phase = .returned (.completed x)

/-- What a step of anybody else leaves of a call `i` that waits. -/
def Undisturbed (i : ℕ) (s s' : System ρ) : Prop :=
  ∀ w, s.waiters[i]? = some w → w.waits = true →
    ∃ w', s'.waiters[i]? = some w' ∧ w'.requestId = w.requestId ∧ w'.ns = w.ns ∧
      w'.waits = true ∧ w'.phase.rank = w.phase.rank ∧
      (Awake s.registry w → Awake s'.registry w')

theorem Undisturbed.of_same (hr : s'.registry = s.registry)
    (hw : ∀ w, s.waiters[i]? = some w → s'.waiters[i]? = some w) : Undisturbed i s s' :=
  fun w hi hwaits => ⟨w, hw w hi, rfl, rfl, hwaits, rfl, fun ha => hr ▸ ha⟩

theorem Undisturbed.trans {s1 s2 : System ρ} (h : Undisturbed i s s1)
    (h' : Undisturbed i s1 s2) : Undisturbed i s s2 := by
  intro w hi hwaits
  obtain ⟨w1, h1, hid, hns, hwaits₁, hrank, ha⟩ := h w hi hwaits
  obtain ⟨w2, h2, hid', hns', hwaits₂, hrank', ha'⟩ := h' w1 h1 hwaits₁
  exact ⟨w2, h2, hid'.trans hid, hns'.trans hns, hwaits₂, hrank'.trans hrank,
    fun hx => ha' (ha hx)⟩

theorem Sound.undisturbed_update (h : Sound s) {j : ℕ} (hj : s.waiters[j]? = some w) (hne : i ≠ j)
    {y : Registry ρ × Waiter ρ} (hown : OwnStep s.registry w y.1 y.2) :
    Undisturbed i s (s.update j y) := by
  intro w2 hi hwaits
  obtain ⟨before, after, hlist, -, hothers⟩ := exists_split hj
  refine ⟨w2, ?_, rfl, rfl, hwaits, rfl, fun ha hs sg hsg => ha hs sg ?_⟩
  · exact (List.getElem?_set_ne hne.symm).trans hi
  · rw [← h.signal_kept hlist hown (hothers i hne w2 hi) (registered_of_waits hwaits)]
    exact hsg

theorem signalled_waits (requestId : String) (e : ℕ) (w : Waiter ρ) :
    (w.signalled requestId e).waits = w.waits ∧
      (w.signalled requestId e).sleepy = w.sleepy ∧
      (w.signalled requestId e).phase.rank = w.phase.rank := by
  obtain hsame | ⟨-, ⟨woken, hph⟩, hwait⟩ := signalled_phase requestId e w
  · simp [Waiter.waits, Waiter.sleepy, hsame]
  · simp [Waiter.waits, Waiter.sleepy, hwait, hph, Phase.rank]

/-- Waking the followers of a request leaves the other calls, and wakes those of the request. -/
theorem Sound.undisturbed_signal (h : Sound s) {p0 p : Pending ρ}
    (hget : s.registry.pending.get id = some p0) (hver : p.wakeVersion = p0.wakeVersion) :
    Undisturbed i s (s.signal id p) ∧
      ((∃ w, s.waiters[i]? = some w ∧ w.requestId = id) → AwakeAt i (s.signal id p)) := by
  have hat : ∀ w, s.waiters[i]? = some w →
      (s.signal id p).waiters[i]? = some (w.signalled id p.event) := fun w hw => by
    simp [System.signal, hw]
  have hwakes : ∀ w, s.waiters[i]? = some w → w.requestId = id →
      Awake (s.signal id p).registry (w.signalled id p.event) := by
    intro w hw hid hs sg hsg
    obtain ⟨hid', -, hseen, -, -⟩ := signalled_same id p.event w
    rw [(signalled_waits id p.event w).2.1] at hs
    have hle := (h.fits w (List.mem_of_getElem? hw)).follows (listens_of_sleepy hs) p0.signal
      (by simp [Registry.signal, hid, hget])
    have hsg' : sg.version = p.wakeVersion + 1 := by
      rw [hid', hid] at hsg
      have heq : (s.signal id p).registry.signal id =
          some ⟨p.ns, p.wakeVersion + 1, p.terminal, p.event⟩ := by
        simp [System.signal, Registry.signal, Registry.set, Pending.signal]
      cases heq.symm.trans hsg
      rfl
    have hle1 : w.seen ≤ p0.wakeVersion := hle.1
    rw [hseen, hsg', hver]
    omega
  refine ⟨fun w hi hwaits => ?_, fun hex w' hw' => ?_⟩
  · obtain ⟨hid, hns, hseen, -, -⟩ := signalled_same id p.event w
    obtain ⟨hsw, hsl, hsr⟩ := signalled_waits id p.event w
    refine ⟨_, hat w hi, hid, hns, hsw.trans hwaits, hsr, fun ha => ?_⟩
    by_cases heq : w.requestId = id
    · exact hwakes w hi heq
    · intro hs sg hsg
      rw [hid] at hsg
      rw [hseen]
      refine ha (hsl ▸ hs) sg ?_
      have hkept : (s.signal id p).registry.signal w.requestId =
          s.registry.signal w.requestId := by
        simp [System.signal, Registry.signal, Registry.set, heq]
      exact hkept ▸ hsg
  · obtain ⟨w, hw, hid⟩ := hex
    rw [hat w hw] at hw'
    cases hw'
    exact hwakes w hw hid

/-- A recovered response wakes the calls of its request. -/
theorem Sound.undisturbed_deliver (h : Sound s) (ns : String) (e : String × ρ) :
    Undisturbed i s (System.deliver ns s e) ∧
      ((∃ w, s.waiters[i]? = some w ∧ w.requestId = e.1 ∧ w.ns = ns ∧ w.waits = true) →
        AwakeAt i (System.deliver ns s e)) := by
  unfold System.deliver
  cases hget : s.registry.pending.get e.1 with
  | none =>
    refine ⟨.of_same rfl fun _ hw => hw, ?_⟩
    rintro ⟨w, hw, hid, -, hwaits⟩
    obtain ⟨sg, hsg, -⟩ := (h.fits w (List.mem_of_getElem? hw)).held (registered_of_waits hwaits)
    simp [Registry.signal, hid, hget] at hsg
  | some p =>
    dsimp only
    split
    case isTrue hns =>
      obtain ⟨hund, hwake⟩ := h.undisturbed_signal (i := i) (p := { p with terminal := some e.2 })
        hget rfl
      refine ⟨hund, ?_⟩
      rintro ⟨w, hw, hid, -, -⟩
      exact hwake ⟨w, hw, hid⟩
    case isFalse hns =>
      refine ⟨.of_same rfl fun _ hw => hw, ?_⟩
      rintro ⟨w, hw, hid, hwns, hwaits⟩
      obtain ⟨sg, hsg, hsgns⟩ :=
        (h.fits w (List.mem_of_getElem? hw)).held (registered_of_waits hwaits)
      simp only [Registry.signal, hid, hget, Option.map_some, Option.some.injEq] at hsg
      rw [← hsg, hwns] at hsgns
      exact absurd hsgns hns

theorem Undisturbed.keeps (h : Undisturbed i s s')
    (hw : ∃ w, s.waiters[i]? = some w ∧ w.requestId = id ∧ w.ns = ns ∧ w.waits = true) :
    (∃ w, s'.waiters[i]? = some w ∧ w.requestId = id ∧ w.ns = ns ∧ w.waits = true) ∧
      rankAt i s' = rankAt i s ∧ (AwakeAt i s → AwakeAt i s') := by
  obtain ⟨w, hi, hid, hns, hwaits⟩ := hw
  obtain ⟨w', hi', hid', hns', hwaits', hrank, ha⟩ := h w hi hwaits
  refine ⟨⟨w', hi', hid'.trans hid, hns'.trans hns, hwaits'⟩, ?_, fun hat w2 hw2 => ?_⟩
  · simp [rankAt, hi, hi', hrank]
  · rw [hi'] at hw2
    cases hw2
    exact ha (hat w hi)

/-- All responses of a batch are delivered: by induction on the batch. -/
theorem Sound.undisturbed_deliverAll (id hns : String) (found : List (String × ρ)) :
    ∀ s : System ρ, Sound s → (∀ e ∈ found, s.rows hns e.1 = some (.terminal e.2)) →
      Undisturbed i s (found.foldl (System.deliver hns) s) ∧
        ((∃ w, s.waiters[i]? = some w ∧ w.requestId = id ∧ w.ns = hns ∧ w.waits = true) →
          (∃ y, (id, y) ∈ found) → AwakeAt i (found.foldl (System.deliver hns) s)) := by
  induction found with
  | nil =>
    refine fun s _ _ => ⟨.of_same rfl fun _ hw => hw, fun _ hy => ?_⟩
    obtain ⟨y, hy⟩ := hy
    cases hy
  | cons e rest ih =>
    intro s h he
    obtain ⟨hund, hwake⟩ := h.undisturbed_deliver (i := i) hns e
    have hrest : ∀ e' ∈ rest, (System.deliver hns s e).rows hns e'.1 = some (.terminal e'.2) := by
      intro e' he'
      rw [(deliver_rows hns s e).1]
      exact he e' (List.mem_cons_of_mem _ he')
    obtain ⟨hund', hwake'⟩ := ih _ (h.deliver (he e (List.mem_cons_self ..))) hrest
    refine ⟨hund.trans hund', fun hw hex => ?_⟩
    obtain ⟨y, hy⟩ := hex
    have hw1 := (hund.keeps hw).1
    cases List.mem_cons.mp hy with
    | inl heq =>
      cases heq
      exact (hund'.keeps hw1).2.2 (hwake hw)
    | inr hmem => exact hwake' hw1 ⟨y, hmem⟩

/-- A step of anybody else. -/
theorem Sound.undisturbed (h : Sound s) {a : Action ρ} (hs : Responses.step s a = some s')
    (ha : a ≠ .resume i ∧ a ≠ .interrupt i ∧ a ≠ .readRow i ∧ a ≠ .readFails i) :
    Undisturbed i s s' := by
  cases a with
  | stage ns id =>
    simp only [Responses.step] at hs
    split at hs <;> cases hs
    exact .of_same rfl fun _ hw => hw
  | commit ns id x =>
    simp only [Responses.step] at hs
    split at hs <;> cases hs
    exact .of_same rfl fun _ hw => hw
  | submit ns id shared =>
    simp only [Responses.step] at hs
    split at hs <;> cases hs
    refine .of_same rfl fun w hw => ?_
    exact (List.getElem?_append_left (List.getElem?_eq_some_iff.mp hw).1).trans hw
  | resume j =>
    obtain ⟨w, hw, hs⟩ := Option.bind_eq_some_iff.mp hs
    obtain ⟨y, hy, rfl⟩ := Option.map_eq_some_iff.mp hs
    have hne : i ≠ j := fun he => ha.1 (he ▸ rfl)
    exact h.undisturbed_update hw hne ((h.known (List.mem_of_getElem? hw)).resume hy).1
  | interrupt j =>
    obtain ⟨w, hw, hs⟩ := Option.bind_eq_some_iff.mp hs
    obtain ⟨y, hy, rfl⟩ := Option.map_eq_some_iff.mp hs
    have hne : i ≠ j := fun he => ha.2.1 (he ▸ rfl)
    exact h.undisturbed_update hw hne ((h.known (List.mem_of_getElem? hw)).interrupt hy).1
  | readRow j =>
    obtain ⟨w, hw, hs⟩ := Option.bind_eq_some_iff.mp hs
    obtain ⟨w', hy, rfl⟩ := Option.map_eq_some_iff.mp hs
    have hne : i ≠ j := fun he => ha.2.2.1 (he ▸ rfl)
    have hown := ((h.known (List.mem_of_getElem? hw)).threadDone (.inl rfl) hy).1
    exact h.undisturbed_update (y := (s.registry, w')) hw hne hown
  | readFails j =>
    obtain ⟨w, hw, hs⟩ := Option.bind_eq_some_iff.mp hs
    obtain ⟨w', hy, rfl⟩ := Option.map_eq_some_iff.mp hs
    have hne : i ≠ j := fun he => ha.2.2.2 (he ▸ rfl)
    have hown := ((h.known (List.mem_of_getElem? hw)).threadDone (.inr rfl) hy).1
    exact h.undisturbed_update (y := (s.registry, w')) hw hne hown
  | notify id =>
    cases hs
    unfold System.notify
    cases hget : s.registry.pending.get id with
    | none => exact .of_same rfl fun _ hw => hw
    | some p => exact (h.undisturbed_signal hget rfl).1
  | passStart | passRead | passFails =>
    simp only [Responses.step] at hs
    split at hs <;> cases hs
    exact .of_same rfl fun _ hw => hw
  | passResume =>
    simp only [Responses.step] at hs
    split at hs
    case h_1 ns found rest hp =>
      cases hs
      have hund : Undisturbed i s (found.foldl (System.deliver ns) s) :=
        (Sound.undisturbed_deliverAll (i := i) "" ns found s h (h.found ns found rest hp)).1
      exact hund.trans (.of_same rfl fun _ hw => hw)
    case h_2 => cases hs

/-- A row that is terminal stays so. -/
theorem row_step {a : Action ρ} (hs : Responses.step s a = some s')
    (hrow : s.rows ns id = some (.terminal x)) : s'.rows ns id = some (.terminal x) := by
  cases a with
  | stage ns' id' =>
    simp only [Responses.step] at hs
    split at hs
    case isTrue hnone =>
      cases hs
      refine (grows_setRow (fun y hy => ?_) ns id).2 x hrow
      rw [hy] at hnone
      cases hnone
    case isFalse => cases hs
  | commit ns' id' y =>
    simp only [Responses.step] at hs
    split at hs
    case h_1 hact =>
      cases hs
      refine (grows_setRow (fun z hz => ?_) ns id).2 x hrow
      rw [hact] at hz
      cases hz
    case h_2 => cases hs
  | submit =>
    simp only [Responses.step] at hs
    split at hs <;> cases hs
    exact hrow
  | resume j | interrupt j | readRow j | readFails j =>
    obtain ⟨w, hw, hs⟩ := Option.bind_eq_some_iff.mp hs
    obtain ⟨y, hy, rfl⟩ := Option.map_eq_some_iff.mp hs
    exact hrow
  | notify id' =>
    cases hs
    unfold System.notify
    split <;> exact hrow
  | passStart | passRead | passFails =>
    simp only [Responses.step] at hs
    split at hs <;> cases hs
    exact hrow
  | passResume =>
    simp only [Responses.step] at hs
    split at hs
    case h_1 ns' found rest hp =>
      cases hs
      have hkeep : ∀ (l : List (String × ρ)) (u : System ρ),
          (l.foldl (System.deliver ns') u).rows = u.rows := by
        intro l
        induction l with
        | nil => exact fun _ => rfl
        | cons e rest ih => exact fun u => (ih _).trans (deliver_rows ns' u e).1
      change (found.foldl (System.deliver ns') s).rows ns id = _
      rw [hkeep]
      exact hrow
    case h_2 => cases hs

/-- A step while call `i` waits: it has the response, or it still waits, and an awake call stays
awake and comes closer to its response by its own steps. -/
theorem Await.step (h : Await i ns id x s) {a : Action ρ} (hs : Responses.step s a = some s')
    (hint : a ≠ .interrupt i) (hfail : a ≠ .readFails i) :
    HasResponse i x s' ∨ Await i ns id x s' ∧ (AwakeAt i s → AwakeAt i s' ∧
      rankAt i s' ≤ rankAt i s ∧ (a = .resume i ∨ a = .readRow i → rankAt i s' < rankAt i s)) := by
  have hsound := h.sound.step hs
  have hrow := row_step hs h.row
  obtain ⟨w, hi, hid, hns, hwaits⟩ := h.waits
  have hlt : i < s.waiters.length := (List.getElem?_eq_some_iff.mp hi).1
  have hknown := h.sound.known (List.mem_of_getElem? hi)
  have hrow' : s.rows w.ns w.requestId = some (.terminal x) := by rw [hns, hid, h.row]
  have hrank : rankAt i s = w.phase.rank := by simp [rankAt, hi]
  by_cases hres : a = .resume i
  · cases hres
    obtain ⟨w1, hw1, hs⟩ := Option.bind_eq_some_iff.mp hs
    cases hi.symm.trans hw1
    obtain ⟨y, hy, rfl⟩ := Option.map_eq_some_iff.mp hs
    have hat : (s.update i y).waiters[i]? = some y.2 := List.getElem?_set_self hlt
    have hown := (hknown.resume hy).1
    cases hknown.resume_waits hwaits hrow' hy with
    | inl hx => exact .inl ⟨y.2, hat, hx⟩
    | inr hx =>
      refine .inr ⟨⟨hsound, hrow, y.2, hat, hown.request.trans hid, hown.ns.trans hns, hx.1⟩,
        fun ha => ?_⟩
      obtain ⟨hawake, hlt'⟩ := hx.2 (ha w hi)
      have hrank' : rankAt i (s.update i y) = y.2.phase.rank := by simp [rankAt, hat]
      refine ⟨fun w' hw' => ?_, ?_, fun _ => ?_⟩
      · rw [hat] at hw'
        cases hw'
        exact hawake
      · omega
      · omega
  · by_cases hread : a = .readRow i
    · cases hread
      obtain ⟨w1, hw1, hs⟩ := Option.bind_eq_some_iff.mp hs
      cases hi.symm.trans hw1
      obtain ⟨w', hy, rfl⟩ := Option.map_eq_some_iff.mp hs
      have hat : (s.update i (s.registry, w')).waiters[i]? = some w' := List.getElem?_set_self hlt
      unfold Waiter.threadDone at hy
      split at hy
      case h_1 hph =>
        cases hy
        refine .inr ⟨⟨hsound, hrow, _, hat, hid, hns, rfl⟩, fun _ => ?_⟩
        have hrank' : rankAt i (s.update i (s.registry,
            { w with phase := .read (s.rows w.ns w.requestId) })) = 1 := by
          rw [rankAt, hat, hrow']
          rfl
        rw [hrank, hrank', hph]
        refine ⟨fun w' hw' => ?_, (by decide : 1 ≤ 5), fun _ => (by decide : 1 < 5)⟩
        rw [hat] at hw'
        cases hw'
        exact .of_not_sleepy (by simp [Waiter.sleepy, hrow'])
      case h_2 => cases hy
    · have hund := h.sound.undisturbed hs ⟨hres, hint, hread, hfail⟩
      obtain ⟨hw, hr, ha⟩ := hund.keeps h.waits
      refine .inr ⟨⟨hsound, hrow, hw⟩, fun hat => ⟨ha hat, hr.le, fun hown => ?_⟩⟩
      exact absurd hown (not_or.mpr ⟨hres, hread⟩)

theorem Await.notify (h : Await i ns id x s)
    (hs : Responses.step s (.notify id) = some s') : AwakeAt i s' := by
  cases hs
  obtain ⟨w, hi, hid, hns, hwaits⟩ := h.waits
  unfold System.notify
  cases hget : s.registry.pending.get id with
  | none =>
    obtain ⟨sg, hsg, -⟩ :=
      (h.sound.fits w (List.mem_of_getElem? hi)).held (registered_of_waits hwaits)
    simp [Registry.signal, hid, hget] at hsg
  | some p => exact (h.sound.undisturbed_signal hget rfl).2 ⟨w, hi, hid⟩

theorem Await.entry (h : Await i ns id x s) (hn : ¬ AwakeAt i s) :
    ∃ p, s.registry.pending.get id = some p ∧ p.ns = ns ∧ p.terminal = none := by
  obtain ⟨w, hi, hid, hns, hwaits⟩ := h.waits
  have hfit := h.sound.fits w (List.mem_of_getElem? hi)
  obtain ⟨sg, hsg, hsgns⟩ := hfit.held (registered_of_waits hwaits)
  have hasleep : w.sleepy = true ∧ w.seen = sg.version := by
    by_contra hno
    refine hn fun w' hw' hs sg' hsg' heq => hno ?_
    rw [hi] at hw'
    cases hw'
    cases hsg.symm.trans hsg'
    exact ⟨hs, heq⟩
  have hnone := (hfit.follows (listens_of_sleepy hasleep.1) sg hsg).2 hasleep.2
  unfold Registry.signal at hsg
  obtain ⟨p, hp, rfl⟩ := Option.map_eq_some_iff.mp hsg
  exact ⟨p, hid ▸ hp, hsgns.trans hns, hnone⟩

theorem exists_mem_batched {α : Type} {n : ℕ} (hn : 0 < n) {l : List α} {a : α} (ha : a ∈ l) :
    ∃ b ∈ batched n l, a ∈ b := by
  obtain ⟨j, hj, rfl⟩ := List.mem_iff_getElem.mp ha
  refine ⟨_, List.mem_map.mpr ⟨j / n, List.mem_range.mpr ?_, rfl⟩, ?_⟩
  · rw [Nat.lt_div_iff_mul_lt hn]
    have := Nat.div_mul_le_self j n
    have := Nat.div_add_mod j n
    omega
  · have hlt := Nat.mod_lt j hn
    have hsum : j / n * n + j % n = j := Nat.div_add_mod' j n
    rw [List.mem_iff_getElem]
    refine ⟨j % n, ?_, ?_⟩
    · simp only [List.length_take, List.length_drop]
      omega
    · simp only [List.getElem_take, List.getElem_drop, hsum]

theorem exists_mem_batches {p : Pending ρ} (hget : g.pending.get id = some p)
    (hnone : p.terminal = none) : ∃ e ∈ g.batches, e.1 = p.ns ∧ id ∈ e.2 := by
  have hmem : (id, p) ∈ g.pending.rows.filter fun e => e.2.terminal.isNone := by
    rw [List.mem_filter]
    exact ⟨(g.pending.mem_rows_iff id p).mpr hget, by simp [hnone]⟩
  have hids : id ∈ ((g.pending.rows.filter fun e => e.2.terminal.isNone).filter
      (·.2.ns = p.ns)).map (·.1) :=
    List.mem_map.mpr ⟨(id, p), List.mem_filter.mpr ⟨hmem, by simp⟩, rfl⟩
  obtain ⟨b, hb, hidb⟩ := exists_mem_batched (n := batchSize) (by decide) hids
  refine ⟨(p.ns, b), ?_, rfl, hidb⟩
  unfold Registry.batches
  refine List.mem_flatMap.mpr ⟨p.ns, ?_, List.mem_map.mpr ⟨b, hb, rfl⟩⟩
  rw [List.mem_eraseDups]
  exact List.mem_map.mpr ⟨(id, p), hmem, rfl⟩

end DataForge.Responses
