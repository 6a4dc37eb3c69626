import DataForge.Responses.Registered

/-!
# The invariant of the response waiters

Every step keeps the registry equal to the registered calls, every recovered or returned response
equal to the durable one, and every call's facts about its entry.
-/

namespace DataForge.Responses

variable {ρ : Type} {s s' : System ρ} {w : Waiter ρ} {requestId : String}

/-- The call counts for a request. -/
def Waiter.countsFor (requestId : String) (w : Waiter ρ) : Bool :=
  w.registered && w.requestId == requestId

/-- The invariant. -/
structure Sound (s : System ρ) : Prop where
  counted : ∀ id, s.registry.count id = s.waiters.countP (Waiter.countsFor id)
  counting : ∀ id, Counting s.registry id
  truthful : ∀ id, ∀ sg ∈ s.registry.signal id, ∀ x, sg.terminal = some x →
    s.rows sg.ns id = some (.terminal x)
  found : ∀ ns found rest, s.pass = .polled ns found rest →
    ∀ e ∈ found, s.rows ns e.1 = some (.terminal e.2)
  fits : ∀ w ∈ s.waiters, Fits (s.registry.signal w.requestId) (s.rows w.ns w.requestId) w

theorem Sound.known (h : Sound s) (hw : w ∈ s.waiters) :
    Known s.registry (s.rows w.ns w.requestId) w where
  fits := h.fits w hw
  truthful hns sg hsg x hx := by
    have hsg' : s.registry.signal w.requestId = some sg := hsg
    rw [hsg'] at hns
    have heq : sg.ns = w.ns := by simpa using hns
    rw [← heq]
    exact h.truthful w.requestId sg hsg x hx
  counting := h.counting w.requestId

theorem registered_of_listens (h : w.listens = true) : w.registered = true := by
  cases w with
  | mk id ns shared seen phase =>
    cases phase <;> simp_all [Waiter.listens, Waiter.registered]

theorem Fits.of_unregistered {c c' : Option (Signal ρ)} {row : Option (Row ρ)}
    (h : Fits c row w) (hreg : w.registered = false) : Fits c' row w where
  present := h.present
  held hr := by simp [hreg] at hr
  follows hl := by simp [registered_of_listens hl] at hreg
  event e woken hph := by simp [Waiter.registered, hph] at hreg
  woke v hph := by simp [Waiter.registered, hph] at hreg
  truthful := h.truthful
  found := h.found

theorem exists_split {i : ℕ} (hi : s.waiters[i]? = some w) :
    ∃ before after, s.waiters = before ++ w :: after ∧
      (∀ w', s.waiters.set i w' = before ++ w' :: after) ∧
      ∀ j ≠ i, ∀ w2, s.waiters[j]? = some w2 → w2 ∈ before ++ after := by
  obtain ⟨hlt, ht⟩ := List.getElem?_eq_some_iff.mp hi
  refine ⟨s.waiters.take i, s.waiters.drop (i + 1), ?_, fun w' => ?_, fun j hj w2 hw2 => ?_⟩
  · rw [← ht, List.getElem_cons_drop, List.take_append_drop]
  · rw [List.set_eq_take_append_cons_drop, if_pos hlt]
  · rw [List.mem_append]
    cases Nat.lt_or_gt_of_ne hj with
    | inl h => exact .inl (List.mem_of_getElem? ((List.getElem?_take_of_lt h).trans hw2))
    | inr h =>
      refine .inr (List.mem_of_getElem? (i := j - (i + 1)) ?_)
      rw [List.getElem?_drop, Nat.add_sub_cancel' h, hw2]

theorem countsFor_toNat : ((Waiter.countsFor w.requestId w).toNat) = w.registered.toNat := by
  simp [Waiter.countsFor]

private theorem countP_split (before after : List (Waiter ρ)) (w : Waiter ρ) (id : String) :
    (before ++ w :: after).countP (Waiter.countsFor id) =
      (before ++ after).countP (Waiter.countsFor id) + (Waiter.countsFor id w).toNat := by
  have hb : ∀ b : Bool, (if b = true then 1 else 0) = b.toNat := by decide
  simp only [List.countP_append, List.countP_cons, hb]
  omega

/-- A step of one call leaves the signals of the other registered calls. -/
theorem Sound.signal_kept (h : Sound s) {before after : List (Waiter ρ)}
    (hlist : s.waiters = before ++ w :: after) {x : Registry ρ × Waiter ρ}
    (hown : OwnStep s.registry w x.1 x.2) {w2 : Waiter ρ} (hmem : w2 ∈ before ++ after)
    (hreg : w2.registered = true) :
    x.1.signal w2.requestId = s.registry.signal w2.requestId := by
  by_cases hid : w2.requestId = w.requestId
  · have hmem' : w2 ∈ s.waiters := by
      rw [hlist]
      simp only [List.mem_append, List.mem_cons] at hmem ⊢
      exact hmem.imp id .inr
    obtain ⟨sg, hsg, -⟩ := (h.fits w2 hmem').held hreg
    obtain hsame | ⟨hnone, -⟩ | ⟨-, hwreg, hone⟩ := hown.signal
    · rw [hid, hsame]
    · rw [← hid, hsg] at hnone
      cases hnone
    · -- Two registered calls are counted twice.
      have hpos : 0 < (before ++ after).countP (Waiter.countsFor w.requestId) :=
        List.countP_pos_iff.mpr ⟨w2, hmem, by simp [Waiter.countsFor, hreg, hid]⟩
      have hc := h.counted w.requestId
      rw [hlist, countP_split, countsFor_toNat, hwreg, hone, Bool.toNat_true] at hc
      omega
  · simp [Registry.signal, hown.others _ hid]

/-- A step of one call keeps the invariant. -/
theorem Sound.update (h : Sound s) {i : ℕ} (hi : s.waiters[i]? = some w)
    {x : Registry ρ × Waiter ρ} (hown : OwnStep s.registry w x.1 x.2)
    (hfit : Fits (x.1.signal w.requestId) (s.rows w.ns w.requestId) x.2) :
    Sound (s.update i x) := by
  obtain ⟨before, after, hlist, hset, -⟩ := exists_split hi
  have hothers : ∀ id ≠ w.requestId, x.1.signal id = s.registry.signal id ∧
      x.1.count id = s.registry.count id := fun id hid => by
    simp [Registry.signal, Registry.count, hown.others id hid]
  refine ⟨fun id => ?_, fun id => ?_, fun id sg hsg y hy => ?_, h.found, fun w2 hw2 => ?_⟩
  · have hold := h.counted id
    rw [hlist, countP_split] at hold
    change x.1.count id = (s.waiters.set i x.2).countP _
    rw [hset, countP_split]
    by_cases hid : id = w.requestId
    · have hw := countsFor_toNat (w := w)
      have hw' := countsFor_toNat (w := x.2)
      rw [hown.request] at hw'
      have hc := hown.counted
      rw [hid] at hold ⊢
      omega
    · have hno : (Waiter.countsFor id w).toNat = 0 := by simp [Waiter.countsFor, Ne.symm hid]
      have hno' : (Waiter.countsFor id x.2).toNat = 0 := by
        simp [Waiter.countsFor, hown.request, Ne.symm hid]
      rw [(hothers id hid).2]
      omega
  · by_cases hid : id = w.requestId
    · exact hid ▸ hown.counting
    · intro hne
      have hne' : s.registry.signal id ≠ none := (hothers id hid).1 ▸ hne
      have hpos := h.counting id hne'
      rw [← (hothers id hid).2] at hpos
      exact hpos
  · by_cases hid : id = w.requestId
    · cases hid
      have hsg' : x.1.signal w.requestId = some sg := hsg
      obtain hsame | ⟨-, sg', hnew, hnone⟩ | ⟨hgone, -⟩ := hown.signal
      · exact h.truthful w.requestId sg (hsame ▸ hsg') y hy
      · cases hnew.symm.trans hsg'
        cases hnone.symm.trans hy
      · cases hgone.symm.trans hsg'
    · exact h.truthful id sg ((hothers id hid).1 ▸ hsg) y hy
  · change w2 ∈ s.waiters.set i x.2 at hw2
    rw [hset, List.mem_append, List.mem_cons] at hw2
    have hcases : w2 = x.2 ∨ w2 ∈ before ++ after := by
      rw [List.mem_append]
      obtain h2 | h2 | h2 := hw2
      · exact .inr (.inl h2)
      · exact .inl h2
      · exact .inr (.inr h2)
    cases hcases with
    | inl heq =>
      rw [heq, hown.request, hown.ns]
      exact hfit
    | inr hmem =>
      have hmem' : w2 ∈ s.waiters := by
        rw [hlist]
        simp only [List.mem_append, List.mem_cons] at hmem ⊢
        exact hmem.imp id .inr
      have hold := h.fits w2 hmem'
      cases hreg : w2.registered with
      | false => exact hold.of_unregistered hreg
      | true =>
        change Fits (x.1.signal w2.requestId) _ w2
        rw [h.signal_kept hlist hown hmem hreg]
        exact hold

theorem signalled_same (requestId : String) (e : ℕ) (w : Waiter ρ) :
    (w.signalled requestId e).requestId = w.requestId ∧ (w.signalled requestId e).ns = w.ns ∧
      (w.signalled requestId e).seen = w.seen ∧
      (w.signalled requestId e).registered = w.registered ∧
      (w.signalled requestId e).listens = w.listens := by
  unfold Waiter.signalled
  split
  case h_1 hph =>
    split
    · exact ⟨rfl, rfl, rfl, by simp [Waiter.registered, hph], by simp [Waiter.listens, hph]⟩
    · exact ⟨rfl, rfl, rfl, rfl, rfl⟩
  case h_2 => exact ⟨rfl, rfl, rfl, rfl, rfl⟩

theorem signalled_other {e : ℕ} (h : w.requestId ≠ requestId) : w.signalled requestId e = w := by
  unfold Waiter.signalled
  split
  · rw [if_neg fun hn => h hn.1]
  · rfl

theorem signalled_phase (requestId : String) (e : ℕ) (w : Waiter ρ) :
    (w.signalled requestId e).phase = w.phase ∨
      w.requestId = requestId ∧ (∃ woken, w.phase = .waiting e woken) ∧
        (w.signalled requestId e).phase = .waiting e true := by
  unfold Waiter.signalled
  split
  case h_1 e' woken hph =>
    split
    case isTrue heq =>
      obtain ⟨hid, rfl⟩ := heq
      exact .inr ⟨hid, ⟨woken, hph⟩, rfl⟩
    · exact .inl rfl
  case h_2 => exact .inl rfl

/-- A call for a request whose version is raised and whose event is set. -/
theorem Fits.signalled {row : Option (Row ρ)} {sg sg' : Signal ρ} (h : Fits (some sg) row w)
    (hns : sg'.ns = sg.ns) (hv : sg'.version = sg.version + 1) (he : sg'.event = sg.event) :
    Fits (some sg') row (w.signalled w.requestId sg.event) := by
  obtain ⟨-, hwns, hseen, hreg, hlist⟩ := signalled_same w.requestId sg.event w
  have hle : w.listens = true → w.seen ≤ sg.version := fun hl => (h.follows hl sg rfl).1
  refine ⟨h.present, fun hr => ?_, fun hl g hg => ?_, fun e woken hph g hg => ?_,
    fun v hph g hg => ?_, fun x hx => ?_, fun hx => ?_⟩
  · obtain ⟨g, hg, hgns⟩ := h.held (hreg ▸ hr)
    cases hg
    exact ⟨sg', rfl, by rw [hns, hgns, hwns]⟩
  · cases hg
    have hle' := hle (hlist ▸ hl)
    rw [hseen]
    exact ⟨by omega, fun heq => by omega⟩
  · cases hg
    have hle' : w.seen ≤ sg.version := by
      refine hle (hlist ▸ ?_)
      simp [Waiter.listens, hph]
    rw [hseen]
    obtain hsame | ⟨-, -, hwait⟩ := signalled_phase w.requestId sg.event w
    · -- A call that waits for this event is woken.
      have hev := h.event e woken (hsame ▸ hph) sg rfl
      refine ⟨he.trans hev.1, ?_⟩
      have hwoken : woken = true := by
        unfold Waiter.signalled at hph
        rw [hsame.symm.trans hph] at hph
        simp only [hev.1, and_self, if_true] at hph
        cases hph
        rfl
      exact ⟨fun _ => by omega, fun _ => hwoken⟩
    · rw [hwait] at hph
      cases hph
      exact ⟨he, fun _ => by omega, fun _ => rfl⟩
  · cases hg
    obtain hsame | ⟨-, -, hwait⟩ := signalled_phase w.requestId sg.event w
    · have hwoke := h.woke v (hsame ▸ hph) sg rfl
      omega
    · rw [hwait] at hph
      cases hph
  · obtain hsame | ⟨-, -, hwait⟩ := signalled_phase w.requestId sg.event w
    · exact h.truthful x (hsame ▸ hx)
    · rw [hwait] at hx
      cases hx with
      | inl hx => cases hx
      | inr hx => cases hx
  · obtain hsame | ⟨-, -, hwait⟩ := signalled_phase w.requestId sg.event w
    · exact h.found (hsame ▸ hx)
    · rw [hwait] at hx
      cases hx

/-- Waking the followers of a request, perhaps with its response, keeps the invariant. -/
theorem Sound.signal (h : Sound s) {p0 p : Pending ρ}
    (hget : s.registry.pending.get requestId = some p0) (hns : p.ns = p0.ns)
    (hev : p.event = p0.event) (hver : p.wakeVersion = p0.wakeVersion)
    (hcount : p.waiterCount = p0.waiterCount)
    (ht : ∀ x, p.terminal = some x → s.rows p.ns requestId = some (.terminal x)) :
    Sound (s.signal requestId p) := by
  have hsig0 : s.registry.signal requestId = some p0.signal := by simp [Registry.signal, hget]
  have hsig : (s.signal requestId p).registry.signal requestId =
      some ⟨p.ns, p.wakeVersion + 1, p.terminal, p.event⟩ := by
    simp [System.signal, Registry.signal, Registry.set, Pending.signal]
  have hothers : ∀ id ≠ requestId, (s.signal requestId p).registry.signal id =
      s.registry.signal id := fun id hid => by
    simp [System.signal, Registry.signal, Registry.set, hid]
  have hcounts : ∀ id, (s.signal requestId p).registry.count id = s.registry.count id := by
    intro id
    by_cases hid : id = requestId
    · simp [System.signal, Registry.count, Registry.set, hid, hget, hcount]
    · simp [System.signal, Registry.count, Registry.set, hid]
  refine ⟨fun id => ?_, fun id hne => ?_, fun id sg hsg x hx => ?_, h.found, fun w' hw' => ?_⟩
  · rw [hcounts id, h.counted id]
    change _ = (s.waiters.map (Waiter.signalled requestId p.event)).countP _
    rw [List.countP_map]
    congr 1
    funext w
    obtain ⟨hid, -, -, hreg, -⟩ := signalled_same requestId p.event w
    simp [Waiter.countsFor, hid, hreg]
  · rw [hcounts id]
    refine h.counting id ?_
    by_cases hid : id = requestId
    · simp [hid, hsig0]
    · exact hothers id hid ▸ hne
  · by_cases hid : id = requestId
    · cases hid
      cases hsig.symm.trans hsg
      exact ht x hx
    · exact h.truthful id sg (hothers id hid ▸ hsg) x hx
  · obtain ⟨w, hw, rfl⟩ := List.mem_map.mp hw'
    have hold := h.fits w hw
    obtain ⟨hid, hwns, -⟩ := signalled_same requestId p.event w
    rw [hid, hwns]
    by_cases heq : w.requestId = requestId
    · subst heq
      rw [hsig]
      rw [hsig0] at hold
      have hfit : Fits (some ⟨p.ns, p.wakeVersion + 1, p.terminal, p.event⟩) _
          (w.signalled w.requestId p0.signal.event) :=
        hold.signalled hns (congrArg (· + 1) hver) hev
      rw [show p0.signal.event = p.event from hev.symm] at hfit
      exact hfit
    · rw [hothers _ heq, signalled_other heq]
      exact hold

theorem Sound.notify (h : Sound s) (requestId : String) : Sound (s.notify requestId) := by
  unfold System.notify
  cases hget : s.registry.pending.get requestId with
  | none => exact h
  | some p =>
    refine h.signal hget rfl rfl rfl rfl fun x hx => ?_
    exact h.truthful requestId p.signal (by simp [Registry.signal, hget]) x hx

variable {ns : String}

theorem Sound.deliver (h : Sound s) {e : String × ρ} (he : s.rows ns e.1 = some (.terminal e.2)) :
    Sound (System.deliver ns s e) := by
  unfold System.deliver
  cases hget : s.registry.pending.get e.1 with
  | none => exact h
  | some p =>
    dsimp only
    split
    case isTrue hns =>
      refine h.signal hget rfl rfl rfl rfl fun x hx => ?_
      cases hx
      rw [← hns] at he
      exact he
    case isFalse => exact h

@[simp] theorem deliver_rows (ns : String) (s : System ρ) (e : String × ρ) :
    (System.deliver ns s e).rows = s.rows ∧ (System.deliver ns s e).pass = s.pass := by
  unfold System.deliver
  split
  · exact ⟨rfl, rfl⟩
  · split <;> exact ⟨rfl, rfl⟩

theorem Sound.deliverAll (found : List (String × ρ)) :
    ∀ s : System ρ, Sound s → (∀ e ∈ found, s.rows ns e.1 = some (.terminal e.2)) →
      Sound (found.foldl (System.deliver ns) s) := by
  induction found with
  | nil => exact fun s h _ => h
  | cons e rest ih =>
    intro s h he
    refine ih _ (h.deliver (he e (List.mem_cons_self ..))) fun e' he' => ?_
    rw [(deliver_rows ns s e).1]
    exact he e' (List.mem_cons_of_mem _ he')

theorem mem_terminalRequests {batch : List String} {e : String × ρ} :
    e ∈ s.terminalRequests ns batch ↔
      e.1 ∈ batch ∧ s.rows ns e.1 = some (.terminal e.2) := by
  unfold System.terminalRequests
  rw [List.mem_filterMap]
  constructor
  · rintro ⟨id, hid, heq⟩
    split at heq
    · cases heq
      exact ⟨hid, ‹_›⟩
    · cases heq
  · rintro ⟨hid, hrow⟩
    exact ⟨e.1, hid, by simp [hrow]⟩

/-- Rows are staged and become terminal, and stay so. -/
def Grows (rows rows' : String → String → Option (Row ρ)) : Prop :=
  ∀ ns id, (rows ns id ≠ none → rows' ns id ≠ none) ∧
    ∀ x, rows ns id = some (.terminal x) → rows' ns id = some (.terminal x)

theorem Grows.refl (rows : String → String → Option (Row ρ)) : Grows rows rows :=
  fun _ _ => ⟨fun h => h, fun _ h => h⟩

theorem grows_setRow {row : Row ρ} (hno : ∀ x, s.rows ns requestId ≠ some (.terminal x)) :
    Grows s.rows (s.setRow ns requestId row).rows := by
  intro ns' id
  unfold System.setRow
  dsimp only
  split
  case isTrue heq =>
    obtain ⟨rfl, rfl⟩ := heq
    exact ⟨nofun, fun x hx => absurd hx (hno x)⟩
  case isFalse => exact ⟨fun h => h, fun _ h => h⟩

theorem Fits.grow {c : Option (Signal ρ)} {row row' : Option (Row ρ)} (h : Fits c row w)
    (hp : row ≠ none → row' ≠ none)
    (ht : ∀ x, row = some (.terminal x) → row' = some (.terminal x)) : Fits c row' w where
  present := hp h.present
  held := h.held
  follows := h.follows
  event := h.event
  woke := h.woke
  truthful x hx := ht x (h.truthful x hx)
  found := h.found

theorem Sound.grow (h : Sound s) (hr : s'.registry = s.registry) (hw : s'.waiters = s.waiters)
    (hg : Grows s.rows s'.rows)
    (hf : ∀ ns found rest, s'.pass = .polled ns found rest →
      ∀ e ∈ found, s'.rows ns e.1 = some (.terminal e.2)) : Sound s' where
  counted := hr ▸ hw ▸ h.counted
  counting := hr ▸ h.counting
  truthful id sg hsg x hx := (hg sg.ns id).2 x (h.truthful id sg (hr ▸ hsg) x hx)
  found := hf
  fits w hmem := by
    rw [hr]
    exact (h.fits w (hw ▸ hmem)).grow (hg _ _).1 (hg _ _).2

theorem Pass.next_ne_polled (rest : List (String × List String)) (ns : String)
    (found : List (String × ρ)) (rest' : List (String × List String)) :
    Pass.next rest ≠ .polled ns found rest' := by
  cases rest with
  | nil => nofun
  | cons b rest => nofun

theorem Sound.submit (h : Sound s) {shared : Bool} (hrow : (s.rows ns requestId).isSome = true) :
    Sound { s with waiters := s.waiters ++ [⟨requestId, ns, shared, 0, .staged⟩] } where
  counted id := by
    rw [List.countP_append, h.counted id]
    rfl
  counting := h.counting
  truthful := h.truthful
  found := h.found
  fits w hw := by
    rw [List.mem_append, List.mem_singleton] at hw
    cases hw with
    | inl hw => exact h.fits w hw
    | inr hw =>
      rw [hw]
      refine ⟨fun hn => ?_, nofun, nofun, nofun, nofun, fun x hx => ?_, nofun⟩
      · change s.rows ns requestId = none at hn
        rw [hn] at hrow
        cases hrow
      · cases hx with
        | inl hx => cases hx
        | inr hx => cases hx

/-- Every step keeps the invariant. -/
theorem Sound.step (h : Sound s) {a : Action ρ} (hs : Responses.step s a = some s') :
    Sound s' := by
  cases a with
  | stage ns id =>
    simp only [Responses.step] at hs
    split at hs
    case isTrue hnone =>
      cases hs
      have hg : Grows s.rows (s.setRow ns id .active).rows := grows_setRow fun x hx => by
        rw [hx] at hnone
        cases hnone
      exact h.grow rfl rfl hg fun ns' found rest hp e he =>
        (hg _ _).2 _ (h.found ns' found rest hp e he)
    case isFalse => cases hs
  | commit ns id x =>
    simp only [Responses.step] at hs
    split at hs
    case h_1 hact =>
      cases hs
      have hg : Grows s.rows (s.setRow ns id (.terminal x)).rows := grows_setRow fun y hy => by
        rw [hact] at hy
        cases hy
      exact h.grow rfl rfl hg fun ns' found rest hp e he =>
        (hg _ _).2 _ (h.found ns' found rest hp e he)
    case h_2 => cases hs
  | submit ns id shared =>
    simp only [Responses.step] at hs
    split at hs <;> cases hs
    exact h.submit ‹_›
  | resume i =>
    obtain ⟨w, hw, hs⟩ := Option.bind_eq_some_iff.mp hs
    obtain ⟨x, hx, rfl⟩ := Option.map_eq_some_iff.mp hs
    obtain ⟨hown, hfit⟩ := (h.known (List.mem_of_getElem? hw)).resume hx
    exact h.update hw hown hfit
  | interrupt i =>
    obtain ⟨w, hw, hs⟩ := Option.bind_eq_some_iff.mp hs
    obtain ⟨x, hx, rfl⟩ := Option.map_eq_some_iff.mp hs
    obtain ⟨hown, hfit⟩ := (h.known (List.mem_of_getElem? hw)).interrupt hx
    exact h.update hw hown hfit
  | readRow i =>
    obtain ⟨w, hw, hs⟩ := Option.bind_eq_some_iff.mp hs
    obtain ⟨w', hx, rfl⟩ := Option.map_eq_some_iff.mp hs
    obtain ⟨hown, hfit⟩ := (h.known (List.mem_of_getElem? hw)).threadDone (.inl rfl) hx
    exact h.update (x := (s.registry, w')) hw hown hfit
  | readFails i =>
    obtain ⟨w, hw, hs⟩ := Option.bind_eq_some_iff.mp hs
    obtain ⟨w', hx, rfl⟩ := Option.map_eq_some_iff.mp hs
    obtain ⟨hown, hfit⟩ := (h.known (List.mem_of_getElem? hw)).threadDone (.inr rfl) hx
    exact h.update (x := (s.registry, w')) hw hown hfit
  | notify id =>
    cases hs
    exact h.notify id
  | passStart =>
    simp only [Responses.step] at hs
    split at hs <;> cases hs
    exact h.grow rfl rfl (.refl _) fun ns found rest hp => absurd hp (Pass.next_ne_polled _ _ _ _)
  | passRead =>
    simp only [Responses.step] at hs
    split at hs <;> cases hs
    refine h.grow rfl rfl (.refl _) fun ns found rest hp e he => ?_
    cases hp
    exact (mem_terminalRequests.mp he).2
  | passFails =>
    simp only [Responses.step] at hs
    split at hs <;> cases hs
    exact h.grow rfl rfl (.refl _) fun ns found rest hp => absurd hp (Pass.next_ne_polled _ _ _ _)
  | passResume =>
    simp only [Responses.step] at hs
    split at hs
    case h_1 ns found rest hp =>
      cases hs
      exact (Sound.deliverAll found s h (h.found ns found rest hp)).grow rfl rfl (.refl _)
        fun ns found rest hp => absurd hp (Pass.next_ne_polled _ _ _ _)
    case h_2 => cases hs

theorem Sound.start (rows : String → String → Option (Row ρ)) : Sound (.start rows) where
  counted _ := rfl
  counting _ hne := absurd rfl hne
  truthful _ _ hsg := nomatch hsg
  found := nofun
  fits := nofun

end DataForge.Responses
