import DataForge.Responses.Model

/-!
# Registrations and what a waiter knows

The registry counts the calls that are registered and not gone, so the entry of a call lives as
long as the call. A call that listens for a version that is still the current one has seen
everything: its request has no recovered response yet.
-/

namespace DataForge.Responses

variable {ρ : Type}

/-- What a call sees of its entry. -/
structure Signal (ρ : Type) where
  ns : String
  version : ℕ
  terminal : Option ρ
  event : ℕ

def Pending.signal (p : Pending ρ) : Signal ρ := ⟨p.ns, p.wakeVersion, p.terminal, p.event⟩

/-- The signal of a request, if it is registered. -/
def Registry.signal (g : Registry ρ) (requestId : String) : Option (Signal ρ) :=
  (g.pending.get requestId).map Pending.signal

/-- How many calls the registry counts for a request. -/
def Registry.count (g : Registry ρ) (requestId : String) : ℕ :=
  ((g.pending.get requestId).map Pending.waiterCount).getD 0

/-- The call is registered and has not left. -/
def Waiter.registered (w : Waiter ρ) : Bool :=
  match w.phase with
  | .staged => false
  | .returned _ => false
  | _ => true

/-- The call reads its row, or waits to be woken: it listens for versions after `seen`. -/
def Waiter.listens (w : Waiter ρ) : Bool :=
  match w.phase with
  | .reading | .read _ | .starting | .waiting _ _ => true
  | _ => false

/-- What a call relies on: `c` is the signal of its request and `row` its durable row. -/
structure Fits (c : Option (Signal ρ)) (row : Option (Row ρ)) (w : Waiter ρ) : Prop where
  present : row ≠ none
  held : w.registered = true → ∃ g, c = some g ∧ g.ns = w.ns
  follows : w.listens = true → ∀ g ∈ c,
    w.seen ≤ g.version ∧ (w.seen = g.version → g.terminal = none)
  event : ∀ e woken, w.phase = .waiting e woken → ∀ g ∈ c,
    g.event = e ∧ (woken = true ↔ w.seen ≠ g.version)
  woke : ∀ v, w.phase = .woke v → ∀ g ∈ c, v ≤ g.version
  truthful : ∀ x, w.phase = .read (some (.terminal x)) ∨ w.phase = .returned (.completed x) →
    row = some (.terminal x)
  found : w.phase ≠ .read none

variable {g g' : Registry ρ} {w : Waiter ρ} {c c' : Option (Signal ρ)} {row : Option (Row ρ)}
  {sg : Signal ρ} {requestId : String}

/-- A recovered response is that of the durable row. -/
def Truthful (c : Option (Signal ρ)) (row : Option (Row ρ)) : Prop :=
  ∀ g ∈ c, ∀ x, g.terminal = some x → row = some (.terminal x)

theorem Fits.returned {o : Outcome ρ} (hrow : row ≠ none)
    (ho : ∀ x, o = .completed x → row = some (.terminal x)) :
    Fits c row { w with phase := .returned o } where
  present := hrow
  held := nofun
  follows := nofun
  event := nofun
  woke := nofun
  truthful x hx := by
    cases hx with
    | inl h => cases h
    | inr h => exact ho x (Phase.returned.inj h)
  found := nofun

theorem Fits.check (hrow : row ≠ none) (hsg : g.signal w.requestId = some sg)
    (hns : sg.ns = w.ns) (hle : w.seen ≤ sg.version)
    (ht : Truthful (g.signal w.requestId) row) :
    Fits ((w.check g).1.signal w.requestId) row (w.check g).2 := by
  have hterm : g.terminalRequest w.requestId = sg.terminal := by
    unfold Registry.signal at hsg
    obtain ⟨p, hp, rfl⟩ := Option.map_eq_some_iff.mp hsg
    simp [Registry.terminalRequest, hp, Pending.signal]
  unfold Waiter.check
  rw [hterm]
  cases hx : sg.terminal with
  | some x =>
    refine .returned hrow fun y hy => ?_
    cases hy
    exact ht sg hsg x hx
  | none =>
    refine ⟨hrow, fun _ => ⟨sg, hsg, hns⟩, fun _ g' hg' => ?_, nofun, nofun, nofun, nofun⟩
    rw [show g.signal w.requestId = some g' from hg'] at hsg
    cases hsg
    exact ⟨hle, fun _ => hx⟩

theorem Fits.wake {v : ℕ} (hrow : row ≠ none) (hsg : g.signal w.requestId = some sg)
    (hns : sg.ns = w.ns) (hle : v ≤ sg.version) (ht : Truthful (g.signal w.requestId) row) :
    Fits ((w.wake g v).1.signal w.requestId) row (w.wake g v).2 := by
  unfold Waiter.wake
  split
  · exact Fits.check (w := { w with seen := v }) hrow hsg hns hle ht
  · refine ⟨hrow, fun _ => ⟨sg, hsg, hns⟩, nofun, nofun, fun v' hv g' hg' => ?_, nofun, nofun⟩
    rw [show g.signal w.requestId = some g' from hg'] at hsg
    cases hsg
    cases hv
    exact hle

theorem Fits.waitForWake (hrow : row ≠ none) (hsg : g.signal w.requestId = some sg)
    (hns : sg.ns = w.ns) (hle : w.seen ≤ sg.version)
    (hnone : w.seen = sg.version → sg.terminal = none)
    (ht : Truthful (g.signal w.requestId) row) :
    Fits ((w.waitForWake g).1.signal w.requestId) row (w.waitForWake g).2 := by
  have hsg' := hsg
  unfold Registry.signal at hsg'
  obtain ⟨p, hp, rfl⟩ := Option.map_eq_some_iff.mp hsg'
  unfold Waiter.waitForWake
  rw [hp]
  dsimp only
  split
  · exact .wake hrow hsg hns le_rfl ht
  case isFalse hv =>
    have heq : w.seen = p.wakeVersion := (not_ne_iff.mp hv).symm
    refine ⟨hrow, fun _ => ⟨_, hsg, hns⟩, fun _ g' hg' => ?_, fun e woken hph g' hg' => ?_, nofun,
      nofun, nofun⟩ <;> rw [show g.signal w.requestId = some g' from hg'] at hsg <;> cases hsg
    · exact ⟨hle, hnone⟩
    · cases hph
      exact ⟨rfl, by simp [Pending.signal, heq]⟩

/-- Registering: the entry is there with the caller's namespace, a new one without a response. -/
theorem Registry.register_cases {ns : String} (h : g.register requestId ns = some g') :
    g'.count requestId = g.count requestId + 1 ∧
      (∀ id ≠ requestId, g'.pending.get id = g.pending.get id) ∧
      ((∃ sg, g.signal requestId = some sg ∧ g'.signal requestId = some sg ∧ sg.ns = ns) ∨
        g.signal requestId = none ∧ ∃ sg, g'.signal requestId = some sg ∧ sg.ns = ns ∧
          sg.terminal = none) := by
  unfold Registry.register at h
  cases hp : g.pending.get requestId with
  | none =>
    rw [hp] at h
    cases h
    refine ⟨?_, fun id hid => ?_, .inr ⟨?_, ?_⟩⟩
    · simp [Registry.count, Registry.set, hp]
    · simp [Registry.set, hid]
    · simp [Registry.signal, hp]
    · exact ⟨⟨ns, 0, none, g.nextEvent⟩, by simp [Registry.signal, Registry.set, Pending.signal],
        rfl, rfl⟩
  | some p =>
    rw [hp] at h
    dsimp only at h
    split at h
    · cases h
      refine ⟨?_, fun id hid => ?_, .inl ⟨p.signal, ?_, ?_, ‹_›⟩⟩
      · simp [Registry.count, Registry.set, hp]
      · simp [Registry.set, hid]
      · simp [Registry.signal, hp]
      · simp [Registry.signal, Registry.set, Pending.signal]
    · cases h

/-- Unregistering: the last call removes the entry, another leaves it as it is. -/
theorem Registry.unregister_cases (requestId : String) (hpos : 0 < g.count requestId) :
    (g.unregister requestId).count requestId + 1 = g.count requestId ∧
      (∀ id ≠ requestId, (g.unregister requestId).pending.get id = g.pending.get id) ∧
      (g.count requestId = 1 ∧ (g.unregister requestId).signal requestId = none ∨
        1 < g.count requestId ∧
          (g.unregister requestId).signal requestId = g.signal requestId) := by
  unfold Registry.unregister
  cases hp : g.pending.get requestId with
  | none => simp [Registry.count, hp] at hpos
  | some p =>
    have hc : g.count requestId = p.waiterCount := by simp [Registry.count, hp]
    dsimp only
    split
    · refine ⟨?_, fun id hid => ?_, .inl ⟨by omega, ?_⟩⟩
      · simp [Registry.count, Registry.set, hp]
        omega
      · simp [Registry.set, hid]
      · simp [Registry.signal, Registry.set]
    · refine ⟨?_, fun id hid => ?_, .inr ⟨by omega, ?_⟩⟩
      · simp [Registry.count, Registry.set, hp]
        omega
      · simp [Registry.set, hid]
      · simp [Registry.signal, Registry.set, hp, Pending.signal]

/-- An entry counts a call. -/
def Counting (g : Registry ρ) (requestId : String) : Prop :=
  g.signal requestId ≠ none → 0 < g.count requestId

/-- What a step of a call does to the registry: it counts the call in or out, and the entry of
its request stays as it is, is new, or goes with the last call. -/
structure OwnStep (g : Registry ρ) (w : Waiter ρ) (g' : Registry ρ) (w' : Waiter ρ) : Prop where
  request : w'.requestId = w.requestId
  ns : w'.ns = w.ns
  others : ∀ id ≠ w.requestId, g'.pending.get id = g.pending.get id
  counted : g'.count w.requestId + w.registered.toNat =
    g.count w.requestId + w'.registered.toNat
  signal : g'.signal w.requestId = g.signal w.requestId ∨
    (g.signal w.requestId = none ∧ ∃ sg, g'.signal w.requestId = some sg ∧ sg.terminal = none) ∨
    g'.signal w.requestId = none ∧ w.registered = true ∧ g.count w.requestId = 1
  counting : Counting g' w.requestId

theorem OwnStep.keep {w' : Waiter ρ} (hr : w'.requestId = w.requestId) (hn : w'.ns = w.ns)
    (hreg : w'.registered = w.registered) (hc : Counting g w.requestId) : OwnStep g w g w' :=
  ⟨hr, hn, fun _ _ => rfl, by rw [hreg], .inl rfl, hc⟩

theorem OwnStep.leave (o : Outcome ρ) (hreg : w.registered = true)
    (hpos : 0 < g.count w.requestId) : OwnStep g w (w.leave g o).1 (w.leave g o).2 := by
  obtain ⟨hcount, hothers, hsig⟩ := g.unregister_cases w.requestId hpos
  refine ⟨rfl, rfl, hothers, ?_, ?_, fun hne => ?_⟩
  · rw [hreg]
    exact hcount
  · cases hsig with
    | inl h => exact .inr (.inr ⟨h.2, hreg, h.1⟩)
    | inr h => exact .inl h.2
  · cases hsig with
    | inl h => exact absurd h.2 hne
    | inr h =>
      have hlt := h.1
      change 0 < (g.unregister w.requestId).count w.requestId
      omega

theorem OwnStep.check (hreg : w.registered = true) (hc : Counting g w.requestId)
    (hpos : 0 < g.count w.requestId) : OwnStep g w (w.check g).1 (w.check g).2 := by
  unfold Waiter.check
  split
  · exact .leave _ hreg hpos
  · exact .keep rfl rfl hreg.symm hc

theorem OwnStep.wake (v : ℕ) (hreg : w.registered = true) (hc : Counting g w.requestId)
    (hpos : 0 < g.count w.requestId) : OwnStep g w (w.wake g v).1 (w.wake g v).2 := by
  unfold Waiter.wake
  split
  · have h := OwnStep.check (w := { w with seen := v }) hreg hc hpos
    exact ⟨h.request, h.ns, h.others, h.counted, h.signal, h.counting⟩
  · exact .keep rfl rfl hreg.symm hc

theorem OwnStep.waitForWake (hreg : w.registered = true) (hc : Counting g w.requestId)
    (hpos : 0 < g.count w.requestId) :
    OwnStep g w (w.waitForWake g).1 (w.waitForWake g).2 := by
  unfold Waiter.waitForWake
  split
  · exact .wake _ hreg hc hpos
  · split
    · exact .wake _ hreg hc hpos
    · exact .keep rfl rfl hreg.symm hc

/-- The first step of a call: it registers, and leaves at once where the response is there. -/
theorem OwnStep.first (hst : w.phase = .staged) (hc : Counting g w.requestId)
    (hg : g.register w.requestId w.ns = some g') (v : ℕ) :
    OwnStep g w ({ w with seen := v }.check g').1 ({ w with seen := v }.check g').2 := by
  have hreg : w.registered = false := by simp [Waiter.registered, hst]
  obtain ⟨hcount, hothers, hsig⟩ := Registry.register_cases hg
  unfold Waiter.check
  split
  case h_1 x hx =>
    -- Only an entry that was there has a recovered response.
    obtain ⟨sg, hsg, hsg', -⟩ | ⟨-, sg, hsg', -, ht⟩ := hsig
    · have hpos : 0 < g.count w.requestId := hc (by simp [hsg])
      obtain ⟨hcount', hothers', hsig'⟩ := g'.unregister_cases w.requestId (by omega)
      obtain ⟨h1, -⟩ | ⟨-, hsame⟩ := hsig'
      · omega
      · refine ⟨rfl, rfl, fun id hid => (hothers' id hid).trans (hothers id hid), ?_, .inl ?_, ?_⟩
        · rw [hreg]
          change (g'.unregister w.requestId).count w.requestId + 0 = _ + 0
          omega
        · exact hsame.trans (hsg'.trans hsg.symm)
        · intro _
          change 0 < (g'.unregister w.requestId).count w.requestId
          omega
    · unfold Registry.terminalRequest at hx
      unfold Registry.signal at hsg'
      obtain ⟨p, hp, rfl⟩ := Option.map_eq_some_iff.mp hsg'
      obtain ⟨p', hp', hpx⟩ := Option.bind_eq_some_iff.mp hx
      cases hp.symm.trans hp'
      cases hpx.symm.trans ht
  case h_2 hx =>
    refine ⟨rfl, rfl, hothers, ?_, ?_, fun _ => ?_⟩
    · rw [hreg]
      exact hcount
    · obtain ⟨sg, hsg, hsg', -⟩ | ⟨hnone, sg, hsg', -, ht⟩ := hsig
      · exact .inl (hsg'.trans hsg.symm)
      · exact .inr (.inl ⟨hnone, sg, hsg', ht⟩)
    · change 0 < g'.count w.requestId
      omega

/-- What the system knows of a call: its facts, its entry's truth and that it is counted. -/
structure Known (g : Registry ρ) (row : Option (Row ρ)) (w : Waiter ρ) : Prop where
  fits : Fits (g.signal w.requestId) row w
  truthful : w.ns ∈ (g.signal w.requestId).map Signal.ns → Truthful (g.signal w.requestId) row
  counting : Counting g w.requestId

theorem Known.entry (h : Known g row w) (hreg : w.registered = true) :
    ∃ sg, g.signal w.requestId = some sg ∧ sg.ns = w.ns ∧ 0 < g.count w.requestId ∧
      Truthful (g.signal w.requestId) row := by
  obtain ⟨sg, hsg, hns⟩ := h.fits.held hreg
  exact ⟨sg, hsg, hns, h.counting (by simp [hsg]), h.truthful (by simp [hsg, hns])⟩

theorem Known.leave (h : Known g row w) (hreg : w.registered = true) {o : Outcome ρ}
    (ho : ∀ x, o = .completed x → row = some (.terminal x)) :
    OwnStep g w (w.leave g o).1 (w.leave g o).2 ∧
      Fits ((w.leave g o).1.signal w.requestId) row (w.leave g o).2 := by
  obtain ⟨sg, -, -, hpos, -⟩ := h.entry hreg
  exact ⟨.leave o hreg hpos, .returned h.fits.present ho⟩

theorem Known.waitForWake (h : Known g row w) (hreg : w.registered = true)
    (hl : w.listens = true) : OwnStep g w (w.waitForWake g).1 (w.waitForWake g).2 ∧
      Fits ((w.waitForWake g).1.signal w.requestId) row (w.waitForWake g).2 := by
  obtain ⟨sg, hsg, hns, hpos, ht⟩ := h.entry hreg
  obtain ⟨hle, hnone⟩ := h.fits.follows hl sg hsg
  exact ⟨.waitForWake hreg h.counting hpos, .waitForWake h.fits.present hsg hns hle hnone ht⟩

/-- A call that is resumed. -/
theorem Known.resume (h : Known g row w) {x : Registry ρ × Waiter ρ}
    (hs : w.resume g = some x) :
    OwnStep g w x.1 x.2 ∧ Fits (x.1.signal w.requestId) row x.2 := by
  unfold Waiter.resume at hs
  split at hs
  case h_1 hph =>
    have hreg : w.registered = false := by simp [Waiter.registered, hph]
    cases hg : g.register w.requestId w.ns with
    | none =>
      rw [hg] at hs
      cases hs
      exact ⟨.keep rfl rfl hreg.symm h.counting, .returned h.fits.present nofun⟩
    | some g' =>
      rw [hg] at hs
      cases hs
      refine ⟨.first hph h.counting hg _, ?_⟩
      obtain ⟨-, -, hsig⟩ := Registry.register_cases hg
      have hver : ∀ sg, g'.signal w.requestId = some sg →
          g'.wakeVersion w.requestId ≤ sg.version := by
        intro sg hsg
        unfold Registry.signal at hsg
        obtain ⟨p, hp, rfl⟩ := Option.map_eq_some_iff.mp hsg
        simp [Registry.wakeVersion, hp, Pending.signal]
      have hfit : ∀ sg, g'.signal w.requestId = some sg → sg.ns = w.ns →
          Truthful (g'.signal w.requestId) row →
          Fits (({ w with seen := g'.wakeVersion w.requestId }.check g').1.signal w.requestId) row
            ({ w with seen := g'.wakeVersion w.requestId }.check g').2 := fun sg hsg hns ht =>
        Fits.check (w := { w with seen := g'.wakeVersion w.requestId }) h.fits.present hsg hns
          (hver sg hsg) ht
      obtain ⟨sg, hsg, hsg', hns⟩ | ⟨-, sg, hsg', hns, hnone⟩ := hsig
      · refine hfit sg hsg' hns ?_
        rw [hsg', ← hsg]
        exact h.truthful (by simp [hsg, hns])
      · refine hfit sg hsg' hns fun sg1 hsg1 x hx => ?_
        rw [hsg'] at hsg1
        cases hsg1
        cases hnone.symm.trans hx
  case h_2 hph => exact absurd hph h.fits.found
  case h_3 r hph =>
    cases hs
    refine h.leave (by simp [Waiter.registered, hph]) fun x hx => ?_
    cases hx
    exact h.fits.truthful r (.inl hph)
  case h_4 hph =>
    have hreg : w.registered = true := by simp [Waiter.registered, hph]
    have hl : w.listens = true := by simp [Waiter.listens, hph]
    split at hs <;> cases hs
    · exact h.waitForWake hreg hl
    · refine ⟨.keep rfl rfl hreg.symm h.counting, h.fits.present, fun _ => h.fits.held hreg,
        fun _ => h.fits.follows hl, nofun, nofun, nofun, nofun⟩
  case h_5 hph =>
    cases hs
    exact h.leave (by simp [Waiter.registered, hph]) nofun
  case h_6 hph =>
    cases hs
    exact h.waitForWake (by simp [Waiter.registered, hph]) (by simp [Waiter.listens, hph])
  case h_7 hph =>
    cases hs
    exact h.waitForWake (by simp [Waiter.registered, hph]) (by simp [Waiter.listens, hph])
  case h_8 v hph =>
    cases hs
    have hreg : w.registered = true := by simp [Waiter.registered, hph]
    obtain ⟨sg, hsg, hns, hpos, ht⟩ := h.entry hreg
    have hown := OwnStep.check (w := { w with seen := v }) (g := g) hreg h.counting hpos
    exact ⟨⟨hown.request, hown.ns, hown.others, hown.counted, hown.signal, hown.counting⟩,
      Fits.check (w := { w with seen := v }) h.fits.present hsg hns (h.fits.woke v hph sg hsg) ht⟩
  case h_9 hph =>
    cases hs
    exact h.leave (by simp [Waiter.registered, hph]) nofun
  case h_10 => cases hs
  case h_11 => cases hs
  case h_12 => cases hs

theorem Known.interrupt (h : Known g row w) {x : Registry ρ × Waiter ρ}
    (hs : w.interrupt g = some x) :
    OwnStep g w x.1 x.2 ∧ Fits (x.1.signal w.requestId) row x.2 := by
  unfold Waiter.interrupt at hs
  split at hs
  case h_1 hph =>
    cases hs
    exact ⟨.keep rfl rfl (by simp [Waiter.registered, hph]) h.counting,
      .returned h.fits.present nofun⟩
  case h_2 hph =>
    cases hs
    exact h.leave (by simp [Waiter.registered, hph]) nofun
  case h_3 => cases hs
  case h_4 hst _ hret =>
    have hreg : w.registered = true := by
      unfold Waiter.registered
      split
      · exact absurd ‹_› hst
      · exact absurd ‹_› (hret _)
      · rfl
    split at hs <;> cases hs
    · exact h.leave hreg nofun
    · exact ⟨.keep rfl rfl hreg.symm h.counting, h.fits.present, fun _ => h.fits.held hreg, nofun,
        nofun, nofun, nofun, nofun⟩

theorem Known.threadDone (h : Known g row w) {w' : Waiter ρ} {p : Phase ρ}
    (hp : p = .read row ∨ p = .failed) (hs : w.threadDone p = some w') :
    OwnStep g w g w' ∧ Fits (g.signal w.requestId) row w' := by
  unfold Waiter.threadDone at hs
  split at hs
  case h_1 hph =>
    cases hs
    have hreg : w.registered = true := by simp [Waiter.registered, hph]
    have hl : w.listens = true := by simp [Waiter.listens, hph]
    cases hp with
    | inl hp =>
      rw [hp]
      refine ⟨.keep rfl rfl hreg.symm h.counting, h.fits.present, fun _ => h.fits.held hreg,
        fun _ => h.fits.follows hl, nofun, nofun, fun x hx => ?_, fun hx => ?_⟩
      · cases hx with
        | inl h => exact Phase.read.inj h
        | inr h => cases h
      · exact h.fits.present (Phase.read.inj hx)
    | inr hp =>
      rw [hp]
      exact ⟨.keep rfl rfl hreg.symm h.counting, h.fits.present, fun _ => h.fits.held hreg, nofun,
        nofun, nofun, nofun, nofun⟩
  case h_2 => cases hs

end DataForge.Responses
