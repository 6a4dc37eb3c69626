import DataForge.Transitions.Fair
import DataForge.Wakes.Held

/-!
# Every waiter is woken

A registered waiter whose future is pending is on the list of its key or is held (`HubSound`).
Off the list, a fair run brings the call to its end: somebody is always in charge of it
(`Charged`), and comes nearer with every step.
-/

namespace DataForge.Wakes

open Transitions

variable {σ κ π : Type} [DecidableEq κ] {hub : Hub σ κ π} {s s' : World σ κ}
  {a : HubAction κ π}

/-- The waits between their registration and their await's end. -/
def WaitPhase.sleeping : WaitPhase → Bool
  | .evicting _ | .awaiting => true
  | _ => false

/-- The waits between their registration and their end. -/
def WaitPhase.registered : WaitPhase → Bool
  | .evicting _ | .awaiting | .leaving _ => true
  | _ => false

/-- What holds between any two steps. -/
structure HubSound (s : World σ κ) : Prop where
  listed : ∀ k i, i ∈ s.waiters k →
    ∃ w, s.waits[i]? = some w ∧ w.key = k ∧ w.phase.registered = true
  owed : ∀ i w, s.waits[i]? = some w → w.phase.sleeping = true → w.future = .pending →
    i ∈ s.waiters w.key ∨ ∃ g b, Held s i g b

section Steps

variable {i : ℕ} {w : Wait κ}

/-- Only its registration puts a waiter on a list. -/
theorem HubMoves.listed {k : κ} (h : HubMoves hub s a s') (hmem : i ∈ s'.waiters k) :
    i ∈ s.waiters k ∨ ∃ w, s.waits[i]? = some w ∧ w.phase = .checked ∧ w.key = k ∧
      w.stale (hub.version s.values k) = false ∧
      ∃ evicted, s'.waits[i]? = some { w with phase := .evicting evicted } := by
  cases h with
  | call | interrupt | early | pass | evict | settleDown | wake | notify => exact .inl hmem
  | publish key =>
    by_cases hk : k = key
    · subst hk
      simp at hmem
    · exact .inl (by simpa [Function.update_of_ne hk] using hmem)
  | register j w evicted kept hj hp hv hsplit =>
    by_cases hk : k = w.key
    · subst hk
      have hall : i ∈ evicted ++ kept := List.mem_append_right _ (by simpa using hmem)
      rw [hsplit, List.mem_append, List.mem_singleton] at hall
      rcases hall with hold | rfl
      · exact .inl ((List.mem_filter.mp hold).1)
      · refine .inr ⟨w, hj, hp, rfl, hv, evicted, ?_⟩
        exact List.getElem?_set_self (List.getElem?_eq_some_iff.mp hj).1
    · exact .inl (by simpa [Function.update_of_ne hk] using hmem)
  | leave j w =>
    by_cases hk : k = w.key
    · subst hk
      have hmem : i ∈ (s.waiters w.key).filter fun f => f ≠ j ∧ !s.done f := by simpa using hmem
      exact .inl (List.mem_filter.mp hmem).1
    · exact .inl (by simpa [Function.update_of_ne hk] using hmem)
  | callback c =>
    rw [c.run_eq] at hmem
    rcases settle_cases { s with callbacks := s.callbacks.erase c } c.future c.result with
      heq | ⟨w', -, -, heq⟩ <;> rw [heq] at hmem <;> exact .inl hmem

/-- A wait that returns is taken off the list of its key. -/
theorem HubMoves.registered (h : HubMoves hub s a s') (hi : s.waits[i]? = some w)
    (hr : w.phase.registered = true) : ∃ w', s'.waits[i]? = some w' ∧ w'.key = w.key ∧
      (w'.phase.registered = true ∨ i ∉ s'.waiters w.key) := by
  by_cases ha : a = .run (.wait i)
  · subst ha
    have hset : ∀ w', (s.waits.set i w')[i]? = some w' := fun _ =>
      List.getElem?_set_self (List.getElem?_eq_some_iff.mp hi).1
    cases h with
    | early _ w' hi' hp =>
      cases hi.symm.trans hi'
      rcases hp with hp | hp <;> rw [hp] at hr <;> cases hr
    | pass _ w' hi' hp | register _ w' _ _ hi' hp =>
      cases hi.symm.trans hi'
      simp only [hp] at hr
      cases hr
    | evict _ w' f rest hi' | settleDown _ w' hi' | wake _ w' outcome hi' =>
      cases hi.symm.trans hi'
      exact ⟨_, hset _, rfl, .inl rfl⟩
    | leave _ w' outcome hi' =>
      cases hi.symm.trans hi'
      exact ⟨_, hset _, rfl, .inr (by simp)⟩
  · by_cases ha' : a = .interrupt i
    · subst ha'
      cases h with
      | interrupt _ w' x hi' =>
        cases hi.symm.trans hi'
        exact ⟨_, List.getElem?_set_self (List.getElem?_eq_some_iff.mp hi).1, rfl, .inl rfl⟩
    · obtain ⟨x, hi', -⟩ := h.wait_same hi ha ha'
      exact ⟨_, hi', rfl, .inl hr⟩

theorem HubSound.listed_step (h : HubSound s) (hm : HubMoves hub s a s') (k : κ) (i : ℕ)
    (hmem : i ∈ s'.waiters k) :
    ∃ w, s'.waits[i]? = some w ∧ w.key = k ∧ w.phase.registered = true := by
  rcases hm.listed hmem with hold | ⟨w, -, -, hk, -, evicted, hi⟩
  · obtain ⟨w, hi, hk, hr⟩ := h.listed k i hold
    obtain ⟨w', hi', hk', hr' | hno⟩ := hm.registered hi hr
    · exact ⟨w', hi', hk'.trans hk, hr'⟩
    · rw [hk] at hno
      exact absurd hmem hno
  · exact ⟨_, hi, hk, rfl⟩

/-- A call is there before a step, or it is the call that the step makes. -/
theorem HubMoves.before {w' : Wait κ} (h : HubMoves hub s a s') (hi' : s'.waits[i]? = some w') :
    (∃ w, s.waits[i]? = some w) ∨ w'.phase = .entered ∧ w'.future = .pending := by
  cases hget : s.waits[i]? with
  | some w => exact .inl ⟨w, rfl⟩
  | none =>
    right
    have hset : ∀ j v, (s.waits.set j v)[i]? = none := by
      intro j v
      simpa using hget
    cases h with
    | call key lastSeen =>
      rw [List.getElem?_append_right (List.getElem?_eq_none_iff.mp hget),
        List.getElem?_singleton] at hi'
      split at hi' <;> cases hi'
      exact ⟨rfl, rfl⟩
    | publish | notify => cases hget.symm.trans hi'
    | interrupt j | early j | pass j | register j | evict j | settleDown j | wake j | leave j =>
      cases (hset j _).symm.trans hi'
    | callback c =>
      rw [c.run_eq] at hi'
      rcases settle_cases { s with callbacks := s.callbacks.erase c } c.future c.result with
        heq | ⟨v, -, -, heq⟩ <;> rw [heq] at hi'
      · cases hget.symm.trans hi'
      · cases (hset _ _).symm.trans hi'

/-- Who sleeps after a step slept before it, or has just registered. -/
theorem HubMoves.sleeping {w' : Wait κ} (h : HubMoves hub s a s') (hi' : s'.waits[i]? = some w')
    (hs : w'.phase.sleeping = true) :
    (∃ w, s.waits[i]? = some w ∧ w.phase.sleeping = true) ∨ i ∈ s'.waiters w'.key := by
  rcases h.before hi' with ⟨w, hi⟩ | ⟨hnew, -⟩
  · have hset : ∀ v, (s.waits.set i v)[i]? = some v := fun _ =>
      List.getElem?_set_self (List.getElem?_eq_some_iff.mp hi).1
    by_cases ha : a = .run (.wait i)
    · subst ha
      cases h with
      | early _ v | pass _ v | wake _ v | leave _ v =>
        cases (hset _).symm.trans hi'
        cases hs
      | register _ v evicted kept _ _ _ _ hkept =>
        cases (hset _).symm.trans hi'
        exact .inr (by simpa using hkept)
      | evict _ v f rest hj hp | settleDown _ v hj hp =>
        exact .inl ⟨v, hj, by rw [hp]; rfl⟩
    · by_cases ha' : a = .interrupt i
      · subst ha'
        cases h with
        | interrupt _ v =>
          cases (hset _).symm.trans hi'
          cases hs
      · obtain ⟨x, hx, -⟩ := h.wait_same hi ha ha'
        cases hi'.symm.trans hx
        exact .inl ⟨w, hi, hs⟩
  · rw [hnew] at hs
    cases hs

/-- A listed waiter that is not done stays on the list, or becomes held. -/
theorem HubMoves.listed_kept {k : κ} (h : HubMoves hub s a s') (hi : s.waits[i]? = some w)
    (hs : w.phase.sleeping = true) (hx : w.future = .pending) (hmem : i ∈ s.waiters k) :
    i ∈ s'.waiters k ∨ ∃ g b, Held s' i g b := by
  have hdone : s.done i = false := by simp [World.done, hi, hx]
  cases h with
  | call | interrupt | early | pass | evict | settleDown | wake | notify => exact .inl hmem
  | publish key payload =>
    by_cases hk : k = key
    · subst hk
      obtain ⟨before, after, hsplit⟩ := List.append_of_mem hmem
      refine .inr ⟨_, _, .published s.publishers.length
        (hub.version (hub.publish k payload s.values) k) before after ?_⟩
      rw [List.getElem?_append_right le_rfl, Nat.sub_self, hsplit]
      rfl
    · exact .inl (by simpa [Function.update_of_ne hk] using hmem)
  | register j v evicted kept hj hp hv hsplit =>
    by_cases hk : k = v.key
    · subst hk
      have hall : i ∈ evicted ++ kept := by
        rw [hsplit]
        exact List.mem_append_left _ (List.mem_filter.mpr ⟨hmem, by simp [hdone]⟩)
      rcases List.mem_append.mp hall with hev | hkept
      · have hne : i ≠ j := by
          rintro rfl
          cases hi.symm.trans hj
          rw [hp] at hs
          cases hs
        obtain ⟨before, after, heq⟩ := List.append_of_mem hev
        refine .inr ⟨_, _, .evicted j { v with phase := .evicting evicted } before after ?_ ?_ hne⟩
        · exact List.getElem?_set_self (List.getElem?_eq_some_iff.mp hj).1
        · rw [heq]
      · exact .inl (by simpa using hkept)
    · exact .inl (by simpa [Function.update_of_ne hk] using hmem)
  | leave j v outcome hj hp =>
    by_cases hk : k = v.key
    · subst hk
      have hne : i ≠ j := by
        rintro rfl
        cases hi.symm.trans hj
        rw [hp] at hs
        cases hs
      have hkept : i ∈ (s.waiters v.key).filter fun f => f ≠ j ∧ !s.done f :=
        List.mem_filter.mpr ⟨hmem, by simp [hne, hdone]⟩
      exact .inl (by simpa using hkept)
    · exact .inl (by simpa [Function.update_of_ne hk] using hmem)
  | callback c =>
    rw [c.run_eq]
    rcases settle_cases { s with callbacks := s.callbacks.erase c } c.future c.result with
      heq | ⟨w', -, -, heq⟩ <;> rw [heq] <;> exact .inl hmem

theorem HubSound.step (h : HubSound s) (hm : HubMoves hub s a s') : HubSound s' := by
  refine ⟨h.listed_step hm, fun i w' hi' hs hx => ?_⟩
  rcases hm.sleeping hi' hs with ⟨w, hi, hws⟩ | hin
  · obtain ⟨w'', hi'', hk, -, hkeep⟩ := hm.wait_next hi
    cases hi'.symm.trans hi''
    have hwx : w.future = .pending := not_not.mp fun hne => hkeep hne hx
    rw [hk]
    rcases h.owed i w hi hws hwx with hmem | ⟨g, b, hheld⟩
    · exact hm.listed_kept hi hws hwx hmem
    · rcases hheld.step hm hi hi' hx with ⟨g', b', -, h'⟩ | ⟨-, h'⟩
      · exact .inr ⟨g', b', h'⟩
      · exact .inr ⟨g, b, h'⟩
  · exact .inl hin

omit [DecidableEq κ] in
theorem HubSound.start (values : σ) : HubSound (.start values : World σ κ) :=
  ⟨fun _ _ h => (by cases h), fun _ _ h => (by cases h)⟩

/-- A call has ended. -/
def World.Returned (s : World σ κ) (i : ℕ) (outcome : Outcome) : Prop :=
  ∃ w, s.waits[i]? = some w ∧ w.phase = .returned outcome

/-- Who has to act next for a call to end, and how far it is from that. -/
inductive Charged (i : ℕ) (s : World σ κ) : Agent → ℕ ×ₗ ℕ → Prop where
  | entered (w : Wait κ) (hi : s.waits[i]? = some w) (hp : w.phase = .entered) :
      Charged i s (.wait i) (toLex (6, 0))
  | checked (w : Wait κ) (hi : s.waits[i]? = some w) (hp : w.phase = .checked) :
      Charged i s (.wait i) (toLex (5, 0))
  | evicting (w : Wait κ) (rest : List ℕ) (hi : s.waits[i]? = some w)
      (hp : w.phase = .evicting rest) : Charged i s (.wait i) (toLex (4, rest.length))
  | held (w : Wait κ) (g : Agent) (b : ℕ ×ₗ ℕ) (hi : s.waits[i]? = some w)
      (hp : w.phase = .awaiting) (hx : w.future = .pending) (hh : Held s i g b) : Charged i s g b
  | done (w : Wait κ) (hi : s.waits[i]? = some w) (hp : w.phase = .awaiting)
      (hx : w.future ≠ .pending) : Charged i s (.wait i) (toLex (1, 0))
  | leaving (w : Wait κ) (outcome : Outcome) (hi : s.waits[i]? = some w)
      (hp : w.phase = .leaving outcome) : Charged i s (.wait i) (toLex (0, 0))

omit [DecidableEq κ] in
theorem Held.lt {g : Agent} {b : ℕ ×ₗ ℕ} (h : Held s i g b) (n : ℕ) : b < toLex (4, n) := by
  cases h with
  | published | evicted => exact lex_lt_of_fst (by omega)
  | scheduled => exact lex_lt_of_fst (by omega)

omit [DecidableEq κ] in
theorem Held.gt {g : Agent} {b : ℕ ×ₗ ℕ} (h : Held s i g b) {m : ℕ} (hm : m < 2) (n : ℕ) :
    toLex (m, n) < b := by
  cases h with
  | published | evicted => exact lex_lt_of_fst (by omega)
  | scheduled => exact lex_lt_of_fst hm

omit [DecidableEq κ] in
theorem HubSound.charged (h : HubSound s) (hi : s.waits[i]? = some w)
    (hno : i ∉ s.waiters w.key) :
    (∃ outcome, w.phase = .returned outcome) ∨ ∃ g b, Charged i s g b := by
  cases hp : w.phase with
  | entered => exact .inr ⟨_, _, .entered w hi hp⟩
  | checked => exact .inr ⟨_, _, .checked w hi hp⟩
  | evicting rest => exact .inr ⟨_, _, .evicting w rest hi hp⟩
  | awaiting =>
    right
    by_cases hx : w.future = .pending
    · obtain ⟨g, b, hh⟩ := (h.owed i w hi (by rw [hp]; rfl) hx).resolve_left hno
      exact ⟨g, b, .held w g b hi hp hx hh⟩
    · exact ⟨_, _, .done w hi hp hx⟩
  | leaving outcome => exact .inr ⟨_, _, .leaving w outcome hi hp⟩
  | returned outcome => exact .inl ⟨outcome, rfl⟩

theorem HubMoves.other (h : HubMoves hub s a s') (hi : s.waits[i]? = some w)
    (ha : a ≠ .run (.wait i)) (hp : w.phase ≠ .awaiting) :
    ∃ x, s'.waits[i]? = some { w with future := x } := by
  by_cases ha' : a = .interrupt i
  · subst ha'
    cases h with
    | interrupt _ v x hi' hp' =>
      cases hi.symm.trans hi'
      exact absurd hp' hp
  · obtain ⟨x, hx, -⟩ := h.wait_same hi ha ha'
    exact ⟨x, hx⟩

theorem HubMoves.past (h : HubMoves hub s a s') (hi : s.waits[i]? = some w)
    (hc : w.phase ≠ .checked) (he : w.phase ≠ .entered) :
    ∃ w', s'.waits[i]? = some w' ∧ w'.phase ≠ .checked ∧ w'.phase ≠ .entered := by
  have hset : ∀ v, (s.waits.set i v)[i]? = some v := fun _ =>
    List.getElem?_set_self (List.getElem?_eq_some_iff.mp hi).1
  by_cases ha : a = .run (.wait i)
  · subst ha
    cases h with
    | pass _ v hi' hp =>
      cases hi.symm.trans hi'
      exact absurd hp he
    | early | register | evict | settleDown | wake | leave => exact ⟨_, hset _, by simp, by simp⟩
  · by_cases ha' : a = .interrupt i
    · subst ha'
      cases h with
      | interrupt => exact ⟨_, hset _, by simp, by simp⟩
    · obtain ⟨x, hx, -⟩ := h.wait_same hi ha ha'
      exact ⟨_, hx, hc, he⟩

/-- A call that waits leaves when it runs or is interrupted. -/
theorem HubMoves.left (h : HubMoves hub s a s') (hi : s.waits[i]? = some w)
    (hp : w.phase = .awaiting) (ha : a = .run (.wait i) ∨ a = .interrupt i) :
    ∃ v outcome, s'.waits[i]? = some v ∧ v.phase = .leaving outcome := by
  have hset : ∀ v, (s.waits.set i v)[i]? = some v := fun _ =>
    List.getElem?_set_self (List.getElem?_eq_some_iff.mp hi).1
  rcases ha with rfl | rfl
  · cases h with
    | wake _ v outcome => exact ⟨_, outcome, hset _, rfl⟩
    | early _ v hi' hp' =>
      cases hi.symm.trans hi'
      rcases hp' with hp' | hp' <;> cases hp.symm.trans hp'
    | pass _ v hi' hp' | register _ v _ _ hi' hp' | evict _ v _ _ hi' hp'
    | settleDown _ v hi' hp' | leave _ v _ hi' hp' =>
      cases hi.symm.trans hi'
      cases hp.symm.trans hp'
  · cases h with
    | interrupt => exact ⟨_, .cancelled, hset _, rfl⟩

/-- A step of whoever is in charge brings the call nearer to its end; a step of another leaves
him in charge. -/
theorem Charged.step {g : Agent} {b : ℕ ×ₗ ℕ} (hc : Charged i s g b) (hm : HubMoves hub s a s')
    (hsound : HubSound s') (hno : ∀ w, s'.waits[i]? = some w → i ∉ s'.waiters w.key) :
    (∃ outcome, s'.Returned i outcome) ∨ (∃ g' b', b' < b ∧ Charged i s' g' b') ∨
      a ≠ .run g ∧ Charged i s' g b := by
  have hset : ∀ {w : Wait κ}, s.waits[i]? = some w → ∀ v, (s.waits.set i v)[i]? = some v :=
    fun hi _ => List.getElem?_set_self (List.getElem?_eq_some_iff.mp hi).1
  cases hc with
  | entered w hi hp =>
    by_cases ha : a = .run (.wait i)
    · subst ha
      cases hm with
      | early _ v => exact .inl ⟨_, _, hset hi _, rfl⟩
      | pass _ v => exact .inr (.inl ⟨_, _, lex_lt_of_fst (by omega), .checked _ (hset hi _) rfl⟩)
      | register _ v _ _ hi' hp' | evict _ v _ _ hi' hp' | settleDown _ v hi' hp'
      | wake _ v _ hi' hp' | leave _ v _ hi' hp' =>
        cases hi.symm.trans hi'
        cases hp.symm.trans hp'
    · obtain ⟨x, hx⟩ := hm.other hi ha (by simp [hp])
      exact .inr (.inr ⟨ha, .entered _ hx hp⟩)
  | checked w hi hp =>
    by_cases ha : a = .run (.wait i)
    · subst ha
      cases hm with
      | early _ v => exact .inl ⟨_, _, hset hi _, rfl⟩
      | register _ v evicted =>
        exact .inr (.inl ⟨_, _, lex_lt_of_fst (by omega), .evicting _ evicted (hset hi _) rfl⟩)
      | pass _ v hi' hp' | evict _ v _ _ hi' hp' | settleDown _ v hi' hp'
      | wake _ v _ hi' hp' | leave _ v _ hi' hp' =>
        cases hi.symm.trans hi'
        cases hp.symm.trans hp'
    · obtain ⟨x, hx⟩ := hm.other hi ha (by simp [hp])
      exact .inr (.inr ⟨ha, .checked _ hx hp⟩)
  | evicting w rest hi hp =>
    by_cases ha : a = .run (.wait i)
    · subst ha
      right; left
      cases hm with
      | evict _ v f rest' hi' hp' =>
        cases hi.symm.trans hi'
        cases hp.symm.trans hp'
        exact ⟨_, _, lex_lt_of_snd (Nat.lt_succ_self _), .evicting _ rest' (hset hi _) rfl⟩
      | settleDown _ v =>
        have hi' := hset hi { v with phase := .awaiting }
        rcases hsound.charged hi' (hno _ hi') with ⟨o, ho⟩ | ⟨g, b, hc⟩
        · cases ho
        · refine ⟨g, b, ?_, hc⟩
          cases hc with
          | held _ _ _ _ _ _ hh => exact hh.lt _
          | done | leaving => exact lex_lt_of_fst (by omega)
          | entered u hu hq | checked u hu hq | evicting u _ hu hq =>
            cases hi'.symm.trans hu
            cases hq
      | early _ v hi' hp' =>
        cases hi.symm.trans hi'
        rcases hp' with hp' | hp' <;> cases hp.symm.trans hp'
      | pass _ v hi' hp' | register _ v _ _ hi' hp' | wake _ v _ hi' hp' | leave _ v _ hi' hp' =>
        cases hi.symm.trans hi'
        cases hp.symm.trans hp'
    · obtain ⟨x, hx⟩ := hm.other hi ha (by simp [hp])
      exact .inr (.inr ⟨ha, .evicting _ rest hx hp⟩)
  | held w g b hi hp hx hh =>
    right
    by_cases ha : a = .run (.wait i) ∨ a = .interrupt i
    · obtain ⟨v, outcome, hv, hleft⟩ := hm.left hi hp ha
      exact .inl ⟨_, _, hh.gt (by omega) 0, .leaving v outcome hv hleft⟩
    · obtain ⟨x, hi', -⟩ := hm.wait_same hi (fun h => ha (.inl h)) fun h => ha (.inr h)
      by_cases hx' : x = .pending
      · rcases hh.step hm hi hi' hx' with ⟨g', b', hb, hh'⟩ | ⟨hne, hh'⟩
        · exact .inl ⟨g', b', hb, .held _ g' b' hi' hp hx' hh'⟩
        · exact .inr ⟨hne, .held _ g b hi' hp hx' hh'⟩
      · exact .inl ⟨_, _, hh.gt (by omega) 0, .done _ hi' hp hx'⟩
  | done w hi hp hx =>
    right
    by_cases ha : a = .run (.wait i) ∨ a = .interrupt i
    · obtain ⟨v, outcome, hv, hleft⟩ := hm.left hi hp ha
      exact .inl ⟨_, _, lex_lt_of_fst (by omega), .leaving v outcome hv hleft⟩
    · have hne : a ≠ .run (.wait i) := fun h => ha (.inl h)
      obtain ⟨x, hi', hkeep⟩ := hm.wait_same hi hne fun h => ha (.inr h)
      exact .inr ⟨hne, .done _ hi' hp (by rw [hkeep hx]; exact hx)⟩
  | leaving w outcome hi hp =>
    by_cases ha : a = .run (.wait i)
    · subst ha
      left
      cases hm with
      | leave _ v outcome' => exact ⟨outcome', _, hset hi _, rfl⟩
      | early _ v => exact ⟨_, _, hset hi _, rfl⟩
      | pass _ v hi' hp' | register _ v _ _ hi' hp' | evict _ v _ _ hi' hp'
      | settleDown _ v hi' hp' | wake _ v _ hi' hp' =>
        cases hi.symm.trans hi'
        cases hp.symm.trans hp'
    · obtain ⟨x, hx⟩ := hm.other hi ha (by simp [hp])
      exact .inr (.inr ⟨ha, .leaving _ outcome hx hp⟩)

end Steps

end DataForge.Wakes
