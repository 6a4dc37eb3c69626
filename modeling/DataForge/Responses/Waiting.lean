import DataForge.Responses.Resolved

/-!
# Runs of the response waiters

A call that waits when its request becomes terminal is resolved by the notification, or by the
next recovery pass whose reads do not raise; it is resolved once, with the response of its own
request, and the registry holds exactly the calls that have not left.
-/

namespace DataForge.Responses

open Transitions (Run)

variable {ρ : Type} {s s' : System ρ} {i : ℕ} {id ns : String} {x : ρ}

/-- The pass still comes to the request, or has its response in hand. -/
def Pass.Covers (ns id : String) : Pass ρ → Prop
  | .idle => False
  | .polling ns' batch rest => (ns' = ns ∧ id ∈ batch) ∨ ∃ e ∈ rest, e.1 = ns ∧ id ∈ e.2
  | .polled ns' found rest => (ns' = ns ∧ ∃ y, (id, y) ∈ found) ∨ ∃ e ∈ rest, e.1 = ns ∧ id ∈ e.2

theorem Pass.covers_next {rest : List (String × List String)}
    (h : ∃ e ∈ rest, e.1 = ns ∧ id ∈ e.2) : (Pass.next rest : Pass ρ).Covers ns id := by
  obtain ⟨e, he, hns, hid⟩ := h
  cases rest with
  | nil => cases he
  | cons b rest =>
    cases List.mem_cons.mp he with
    | inl heq =>
      cases heq
      exact .inl ⟨hns, hid⟩
    | inr hmem => exact .inr ⟨e, hmem, hns, hid⟩

theorem Await.covered (h : Await i ns id x s) (hn : ¬ AwakeAt i s)
    (hs : Responses.step s .passStart = some s') : s'.pass.Covers ns id := by
  simp only [Responses.step] at hs
  split at hs <;> cases hs
  obtain ⟨p, hget, hpns, hnone⟩ := h.entry hn
  obtain ⟨e, he, hens, hid⟩ := exists_mem_batches hget hnone
  exact Pass.covers_next ⟨e, he, hens.trans hpns, hid⟩

variable {a : Action ρ}

theorem pass_step (hs : Responses.step s a = some s')
    (ha : a ≠ .passStart ∧ a ≠ .passRead ∧ a ≠ .passFails ∧ a ≠ .passResume) :
    s'.pass = s.pass := by
  cases a with
  | stage | commit | submit =>
    simp only [Responses.step] at hs
    split at hs <;> cases hs
    rfl
  | resume j | interrupt j | readRow j | readFails j =>
    obtain ⟨w, hw, hs⟩ := Option.bind_eq_some_iff.mp hs
    obtain ⟨y, hy, rfl⟩ := Option.map_eq_some_iff.mp hs
    rfl
  | notify id' =>
    cases hs
    unfold System.notify
    split <;> rfl
  | passStart => exact absurd rfl ha.1
  | passRead => exact absurd rfl ha.2.1
  | passFails => exact absurd rfl ha.2.2.1
  | passResume => exact absurd rfl ha.2.2.2

/-- A pass comes to the call, and delivers its response. -/
theorem Await.covered_step (h : Await i ns id x s) (hc : s.pass.Covers ns id)
    (hs : Responses.step s a = some s') (hfail : a ≠ .passFails) :
    AwakeAt i s' ∨ s'.pass.Covers ns id := by
  by_cases hstart : a = .passStart
  · cases hstart
    simp only [Responses.step] at hs
    split at hs
    case h_1 hp =>
      rw [hp] at hc
      cases hc
    case h_2 => cases hs
  by_cases hread : a = .passRead
  · cases hread
    simp only [Responses.step] at hs
    split at hs
    case h_1 ns' batch rest hp =>
      cases hs
      rw [hp] at hc
      refine .inr (hc.imp (fun hb => ?_) fun hr => hr)
      obtain ⟨rfl, hid⟩ := hb
      exact ⟨rfl, x, mem_terminalRequests.mpr ⟨hid, h.row⟩⟩
    case h_2 => cases hs
  by_cases hresume : a = .passResume
  · cases hresume
    simp only [Responses.step] at hs
    split at hs
    case h_1 ns' found rest hp =>
      cases hs
      rw [hp] at hc
      cases hc with
      | inl hb =>
        obtain ⟨rfl, hex⟩ := hb
        obtain ⟨w, hw, hid, hns, hwaits⟩ := h.waits
        exact .inl ((Sound.undisturbed_deliverAll _ _ found s h.sound
          (h.sound.found _ found rest hp)).2 ⟨w, hw, hid, hns, hwaits⟩ hex)
      | inr hr => exact .inr (Pass.covers_next hr)
    case h_2 => cases hs
  · rw [pass_step hs ⟨hstart, hread, hfail, hresume⟩]
    exact .inr hc

variable {r : Run (Responses.step (ρ := ρ))} {rows : String → String → Option (Row ρ)}

/-- The call cannot go on by itself: it sleeps, or has returned. -/
def Waiter.blocked (w : Waiter ρ) : Bool :=
  match w.phase with
  | .waiting _ false | .returned _ => true
  | _ => false

/-- Call `i` is resumed, and its reads are carried out, unless it is blocked. -/
def Scheduled (r : Run (Responses.step (ρ := ρ))) (i : ℕ) : Prop :=
  ∀ t, ∃ t' ≥ t, r.act t' = some (.resume i) ∨ r.act t' = some (.readRow i) ∨
    ∀ w ∈ (r.st t').waiters[i]?, w.blocked = true

/-- Call `i` gets the response, unless it is interrupted or its read raises. -/
def Resolved (r : Run (Responses.step (ρ := ρ))) (i : ℕ) (x : ρ) (t : ℕ) : Prop :=
  ∃ u ≥ t, HasResponse i x (r.st u) ∨ r.act u = some (.interrupt i) ∨
    r.act u = some (.readFails i)

theorem Await.not_blocked (h : Await i ns id x s) (ha : AwakeAt i s) :
    ¬ ∀ w ∈ s.waiters[i]?, w.blocked = true := by
  obtain ⟨w, hi, hid, hns, hwaits⟩ := h.waits
  intro hb
  have hfit := h.sound.fits w (List.mem_of_getElem? hi)
  have hblocked := hb w hi
  unfold Waiter.blocked at hblocked
  split at hblocked
  case h_1 e hph =>
    obtain ⟨sg, hsg, -⟩ := hfit.held (registered_of_waits hwaits)
    have hne := ha w hi (by simp [Waiter.sleepy, hph]) sg hsg
    have hwoken := (hfit.event e false hph sg hsg).2.mpr hne
    cases hwoken
  case h_2 hph => simp [Waiter.waits, hph] at hwaits
  case h_3 => cases hblocked

/-- An awake call is resolved. -/
theorem Await.resolved {t : ℕ} (h : Await i ns id x (r.st t)) (ha : AwakeAt i (r.st t))
    (hsched : Scheduled r i) : Resolved r i x t := by
  by_cases hbad : ∃ u ≥ t, r.act u = some (.interrupt i) ∨ r.act u = some (.readFails i)
  · obtain ⟨u, hu, hbad⟩ := hbad
    exact ⟨u, hu, .inr hbad⟩
  · have hgood : ∀ n a, r.act (t + n) = some a → a ≠ .interrupt i ∧ a ≠ .readFails i := by
      intro n a hact
      refine ⟨fun he => hbad ⟨t + n, by omega, .inl ?_⟩, fun he => hbad ⟨t + n, by omega, .inr ?_⟩⟩
      · rw [hact, he]
      · rw [hact, he]
    have hleads : (r.drop t).LeadsTo (fun s => Await i ns id x s ∧ AwakeAt i s)
        (HasResponse i x) := by
      refine Run.leadsTo_of_rank (rankAt i) (fun a => a = .resume i ∨ a = .readRow i) ?_ ?_
      · intro n _
        obtain ⟨t', ht', hact⟩ := hsched (t + n)
        obtain ⟨m, rfl⟩ := Nat.exists_eq_add_of_le (show t ≤ t' by omega)
        refine ⟨m, by omega, ?_⟩
        obtain hact | hact | hblocked := hact
        · exact .inl ⟨_, hact, .inl rfl⟩
        · exact .inl ⟨_, hact, .inr rfl⟩
        · exact .inr fun hp => hp.1.not_blocked hp.2 hblocked
      · intro n a hact hp
        obtain ⟨hint, hfail⟩ := hgood n a hact
        refine (hp.1.step ((r.drop t).next_of_act hact) hint hfail).imp (fun hx => hx) fun hx => ?_
        obtain ⟨ha', hle, hlt⟩ := hx.2 hp.2
        exact ⟨⟨hx.1, ha'⟩, hle, hlt⟩
    obtain ⟨n, -, hx⟩ := hleads 0 ⟨h, ha⟩
    exact ⟨t + n, by omega, .inl hx⟩

theorem sound_of_start (h0 : r.st 0 = .start rows) (t : ℕ) : Sound (r.st t) :=
  r.invariant (P := Sound) (h0 ▸ .start rows) (fun _ _ _ h hs => h.step hs) t

theorem Await.until {t t' : ℕ} (h : Await i ns id x (r.st t)) (ht : t ≤ t') :
    Await i ns id x (r.st t') ∨ Resolved r i x t := by
  by_cases hbad : ∃ u ≥ t, r.act u = some (.interrupt i) ∨ r.act u = some (.readFails i)
  · obtain ⟨u, hu, hbad⟩ := hbad
    exact .inr ⟨u, hu, .inr hbad⟩
  · have hstays : Await i ns id x (r.st t') ∨ ∃ u ≥ t, HasResponse i x (r.st u) := by
      refine Run.stays_until h ht fun u hu _ a hact hp => ?_
      have hint : a ≠ .interrupt i := fun he => hbad ⟨u, hu, .inl (he ▸ hact)⟩
      have hfail : a ≠ .readFails i := fun he => hbad ⟨u, hu, .inr (he ▸ hact)⟩
      exact (hp.step (r.next_of_act hact) hint hfail).imp (fun hx => hx) fun hx => hx.1
    refine hstays.imp (fun hx => hx) fun hx => ?_
    obtain ⟨u, hu, hx⟩ := hx
    exact ⟨u, hu, .inl hx⟩

theorem Resolved.earlier {t t' : ℕ} (h : Resolved r i x t') (ht : t ≤ t') : Resolved r i x t := by
  obtain ⟨u, hu, hx⟩ := h
  exact ⟨u, ht.trans hu, hx⟩

theorem Await.notified {t t' : ℕ} (h : Await i ns id x (r.st t)) (hsched : Scheduled r i)
    (ht : t ≤ t') (hact : r.act t' = some (.notify id)) : Resolved r i x t := by
  cases h.until ht with
  | inr hres => exact hres
  | inl h' =>
    have hs := r.next_of_act hact
    cases h'.step hs nofun nofun with
    | inl hx => exact ⟨t' + 1, by omega, .inl hx⟩
    | inr hx => exact (hx.1.resolved (h'.notify hs) hsched).earlier (by omega)

/-- A recovery pass that starts while the call waits, and reads its batches, resolves it. -/
theorem Await.recovered {t t1 t2 : ℕ} (h : Await i ns id x (r.st t)) (hsched : Scheduled r i)
    (h1 : t ≤ t1) (h2 : t1 < t2) (hstart : r.act t1 = some .passStart)
    (hend : (r.st t2).pass = .idle)
    (hreads : ∀ u ≥ t1, u < t2 → r.act u ≠ some .passFails) : Resolved r i x t := by
  cases h.until h1 with
  | inr hres => exact hres
  | inl h' =>
    by_cases ha : AwakeAt i (r.st t1)
    · exact (h'.resolved ha hsched).earlier h1
    · have hs := r.next_of_act hstart
      cases h'.step hs nofun nofun with
      | inl hx => exact ⟨t1 + 1, by omega, .inl hx⟩
      | inr hx =>
        by_cases hbad : ∃ u ≥ t, r.act u = some (.interrupt i) ∨ r.act u = some (.readFails i)
        · obtain ⟨u, hu, hbad⟩ := hbad
          exact ⟨u, hu, .inr hbad⟩
        · have hstays : (Await i ns id x (r.st t2) ∧ (r.st t2).pass.Covers ns id) ∨
              ∃ u ≥ t1 + 1, HasResponse i x (r.st u) ∨
                Await i ns id x (r.st u) ∧ AwakeAt i (r.st u) := by
            refine Run.stays_until (P := fun s => Await i ns id x s ∧ s.pass.Covers ns id)
              (Q := fun s => HasResponse i x s ∨ Await i ns id x s ∧ AwakeAt i s)
              ⟨hx.1, h'.covered ha hs⟩ h2 fun u hu hlt a hact hp => ?_
            have hint : a ≠ .interrupt i := fun he => hbad ⟨u, by omega, .inl (he ▸ hact)⟩
            have hfail : a ≠ .readFails i := fun he => hbad ⟨u, by omega, .inr (he ▸ hact)⟩
            have hpass : a ≠ .passFails := fun he => hreads u (by omega) hlt (he ▸ hact)
            have hsu := r.next_of_act hact
            cases hp.1.step hsu hint hfail with
            | inl hx => exact .inl (.inl hx)
            | inr hx =>
              exact (hp.1.covered_step hp.2 hsu hpass).imp (fun ha => .inr ⟨hx.1, ha⟩)
                fun hc => ⟨hx.1, hc⟩
          cases hstays with
          | inl hc =>
            rw [hend] at hc
            cases hc.2
          | inr hx =>
            obtain ⟨u, hu, hx⟩ := hx
            cases hx with
            | inl hx => exact ⟨u, by omega, .inl hx⟩
            | inr hx => exact (hx.1.resolved hx.2 hsched).earlier (by omega)

variable {o : Outcome ρ} {w : Waiter ρ}

theorem returned_signal (hi : s.waiters[i]? = some w) (ho : w.phase = .returned o) (p : Pending ρ) :
    (s.signal id p).waiters[i]? = some w := by
  have hsame : w.signalled id p.event = w := by
    unfold Waiter.signalled
    rw [ho]
  simp [System.signal, hi, hsame]

theorem returned_deliver (hi : s.waiters[i]? = some w) (ho : w.phase = .returned o) (e : String × ρ)
    :
    (System.deliver ns s e).waiters[i]? = some w := by
  unfold System.deliver
  split
  · exact hi
  · split
    · exact returned_signal hi ho _
    · exact hi

/-- A call that has returned does nothing more. -/
theorem returned_step (hs : Responses.step s a = some s') (hi : s.waiters[i]? = some w)
    (ho : w.phase = .returned o) :
    s'.waiters[i]? = some w := by
  have hupdate : ∀ (j : ℕ) (w1 : Waiter ρ) (y : Registry ρ × Waiter ρ),
      s.waiters[j]? = some w1 → w1 ≠ w → (s.update j y).waiters[i]? = some w := by
    intro j w1 y hj hne
    have hij : j ≠ i := fun he => hne (Option.some.inj (hj.symm.trans (he ▸ hi)))
    exact (List.getElem?_set_ne hij).trans hi
  cases a with
  | stage ns id | commit ns id y =>
    simp only [Responses.step] at hs
    split at hs <;> cases hs
    exact hi
  | submit =>
    simp only [Responses.step] at hs
    split at hs <;> cases hs
    exact (List.getElem?_append_left (List.getElem?_eq_some_iff.mp hi).1).trans hi
  | resume j =>
    obtain ⟨w1, hj, hs⟩ := Option.bind_eq_some_iff.mp hs
    obtain ⟨y, hy, rfl⟩ := Option.map_eq_some_iff.mp hs
    refine hupdate j w1 y hj fun he => ?_
    rw [he] at hy
    simp [Waiter.resume, ho] at hy
  | interrupt j =>
    obtain ⟨w1, hj, hs⟩ := Option.bind_eq_some_iff.mp hs
    obtain ⟨y, hy, rfl⟩ := Option.map_eq_some_iff.mp hs
    refine hupdate j w1 y hj fun he => ?_
    rw [he] at hy
    simp [Waiter.interrupt, ho] at hy
  | readRow j | readFails j =>
    obtain ⟨w1, hj, hs⟩ := Option.bind_eq_some_iff.mp hs
    obtain ⟨y, hy, rfl⟩ := Option.map_eq_some_iff.mp hs
    refine hupdate j w1 (s.registry, y) hj fun he => ?_
    rw [he] at hy
    simp [Waiter.threadDone, ho] at hy
  | notify id =>
    cases hs
    unfold System.notify
    split
    · exact hi
    · exact returned_signal hi ho _
  | passStart | passRead | passFails =>
    simp only [Responses.step] at hs
    split at hs <;> cases hs
    exact hi
  | passResume =>
    simp only [Responses.step] at hs
    split at hs
    case h_1 ns' found rest hp =>
      cases hs
      have hall : ∀ (l : List (String × ρ)) (u : System ρ), u.waiters[i]? = some w →
          (l.foldl (System.deliver ns') u).waiters[i]? = some w := by
        intro l
        induction l with
        | nil => exact fun _ hu => hu
        | cons e rest ih => exact fun u hu => ih _ (returned_deliver hu ho e)
      exact hall found s hi
    case h_2 => cases hs

theorem Sound.registered_iff (h : Sound s) (id : String) :
    s.registry.pending.get id = none ↔
      ∀ w ∈ s.waiters, w.requestId = id → w.registered = false := by
  constructor
  · intro hnone w hw hid
    cases hreg : w.registered with
    | false => rfl
    | true =>
      obtain ⟨sg, hsg, -⟩ := (h.fits w hw).held hreg
      simp [Registry.signal, hid, hnone] at hsg
  · intro hall
    by_contra hne
    have hpos := h.counting id (by simpa [Registry.signal] using hne)
    rw [h.counted id, List.countP_pos_iff] at hpos
    obtain ⟨w, hw, hc⟩ := hpos
    simp only [Waiter.countsFor, Bool.and_eq_true, beq_iff_eq] at hc
    have hno := hall w hw hc.2
    rw [hc.1] at hno
    cases hno

/-- In every run, with completions, registrations, reads, notifications, recovery passes,
time-outs and cancellations in any order: a call that waits while its request is terminal gets
that response, by a notification that arrives from then on and by a recovery pass that starts
from then on and reads its batches, unless it is interrupted or its own read raises; what a call
returns is the terminal response of its own request; a call that has returned does nothing more;
and the registry counts, for every request, exactly the calls that are registered and have not
left. -/
theorem waiters_miss_nothing (r : Run (Responses.step (ρ := ρ))) (h0 : r.st 0 = .start rows) :
    (∀ (t i : ℕ) (w : Waiter ρ) x, (r.st t).waiters[i]? = some w → w.waits = true →
      (r.st t).rows w.ns w.requestId = some (.terminal x) → Scheduled r i →
      (∀ t' ≥ t, r.act t' = some (.notify w.requestId) → Resolved r i x t) ∧
      ∀ t1 ≥ t, ∀ t2 > t1, r.act t1 = some .passStart → (r.st t2).pass = .idle →
        (∀ u ≥ t1, u < t2 → r.act u ≠ some .passFails) → Resolved r i x t) ∧
    (∀ t, ∀ w ∈ (r.st t).waiters, ∀ x, w.phase = .returned (.completed x) →
      (r.st t).rows w.ns w.requestId = some (.terminal x)) ∧
    (∀ (t i : ℕ) (w : Waiter ρ) o, (r.st t).waiters[i]? = some w → w.phase = .returned o →
      ∀ t' ≥ t, (r.st t').waiters[i]? = some w) ∧
    ∀ t id, (r.st t).registry.count id = (r.st t).waiters.countP (Waiter.countsFor id) ∧
      ((r.st t).registry.pending.get id = none ↔
        ∀ w ∈ (r.st t).waiters, w.requestId = id → w.registered = false) := by
  refine ⟨fun t i w x hi hwaits hrow hsched => ?_, fun t w hw x hx => ?_,
    fun t i w o hi ho t' ht => ?_, fun t id => ?_⟩
  · have h : Await i w.ns w.requestId x (r.st t) :=
      ⟨sound_of_start h0 t, hrow, w, hi, rfl, rfl, hwaits⟩
    exact ⟨fun t' ht' hact => h.notified hsched ht' hact,
      fun t1 h1 t2 h2 hstart hend hreads => h.recovered hsched h1 h2 hstart hend hreads⟩
  · exact ((sound_of_start h0 t).fits w hw).truthful x (.inr hx)
  · induction t', ht using Nat.le_induction with
    | base => exact hi
    | succ n hn ih =>
      cases ha : r.act n with
      | none =>
        rw [r.next_of_pause ha]
        exact ih
      | some a => exact returned_step (r.next_of_act ha) ih ho
  · exact ⟨(sound_of_start h0 t).counted id, (sound_of_start h0 t).registered_iff id⟩

/-- A call reads its row before the request completes, sleeps, and is notified. -/
def lateCompletion : List (Action String) :=
  [.stage "n" "q", .submit "n" "q" true, .resume 0, .readRow 0, .resume 0,
    .commit "n" "q" "done", .notify "q", .resume 0, .readRow 0, .resume 0]

def lateRun : Run (Responses.step (ρ := String)) :=
  .ofReplay (.start fun _ _ => none) lateCompletion (Option.some_get (by rfl)).symm

theorem lateRun_scheduled : Scheduled lateRun 0 := by
  intro t
  refine ⟨max t 10, le_max_left .., .inr (.inr ?_)⟩
  rw [lateRun, Run.ofReplay_end _ (le_max_right t 10)]
  intro w hw
  cases hw
  rfl

theorem waiters_miss_nothing_late : Resolved lateRun 0 "done" 6 :=
  ((waiters_miss_nothing lateRun rfl).1 6 0 ⟨"q", "n", true, 0, .waiting 0 false⟩ "done" rfl rfl
    rfl lateRun_scheduled).1 6 (le_refl 6) rfl

end DataForge.Responses
