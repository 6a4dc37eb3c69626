import Mathlib.Data.Prod.Lex
import DataForge.Wakes.Waiters

/-!
# Who holds a waiter

A waiter that was taken off its list is held by the `publish` that notifies it, by the `wait`
that evicted it, or by the callback of its event loop (`Held`), until its future is done.
-/

namespace DataForge.Wakes

variable {σ κ π : Type}

@[simp] theorem done_of_get {s : World σ κ} {i : ℕ} {w : Wait κ} (hi : s.waits[i]? = some w) :
    s.done i = true ↔ w.future ≠ .pending := by
  simp [World.done, hi]

theorem settle_cases (s : World σ κ) (f : ℕ) (x : FutureState) : s.settle f x = s ∨
    ∃ w, s.waits[f]? = some w ∧ w.future = .pending ∧
      s.settle f x = s.setWait f { w with future := x } := by
  unfold World.settle
  split
  case h_1 w hf =>
    split
    case isTrue hx => exact .inr ⟨w, hf, hx, rfl⟩
    case isFalse => exact .inl rfl
  case h_2 => exact .inl rfl

/-- The future that a callback is about. -/
def Callback.future : Callback → ℕ
  | .resolve f _ => f
  | .cancel f => f

/-- What a callback makes of a pending future. -/
def Callback.result : Callback → FutureState
  | .resolve _ version => .resolved version
  | .cancel _ => .cancelled

theorem Callback.result_ne (c : Callback) : c.result ≠ .pending := by
  cases c <;> intro h <;> cases h

theorem Callback.run_eq (c : Callback) (s : World σ κ) : c.run s = s.settle c.future c.result := by
  cases c <;> rfl

variable [DecidableEq κ] {hub : Hub σ κ π} {s s' : World σ κ} {a : HubAction κ π}

/-- The future that makes a wait end so. -/
def Outcome.future : Outcome → FutureState
  | .version v => .resolved v
  | .cancelled => .cancelled

/-- What a step can do. -/
inductive HubMoves (hub : Hub σ κ π) (s : World σ κ) : HubAction κ π → World σ κ → Prop where
  | call (key : κ) (lastSeen : Option ℕ) : HubMoves hub s (.call key lastSeen)
      { s with waits := s.waits ++ [⟨key, lastSeen, .pending, .entered⟩] }
  | publish (key : κ) (payload : π) : HubMoves hub s (.publish key payload)
      { s with
        values := hub.publish key payload s.values
        waiters := Function.update s.waiters key []
        publishers := s.publishers ++
          [⟨hub.version (hub.publish key payload s.values) key, s.waiters key⟩] }
  | interrupt (i : ℕ) (w : Wait κ) (x : FutureState) (hi : s.waits[i]? = some w)
      (hp : w.phase = .awaiting) (hx : x ≠ .pending) (hx' : x = w.future ∨ x = .cancelled) :
      HubMoves hub s (.interrupt i)
        (s.setWait i { w with future := x, phase := .leaving .cancelled })
  | early (i : ℕ) (w : Wait κ) (hi : s.waits[i]? = some w)
      (hp : w.phase = .entered ∨ w.phase = .checked)
      (hv : w.stale (hub.version s.values w.key) = true) : HubMoves hub s (.run (.wait i))
        (s.setWait i { w with phase := .returned (.version (hub.version s.values w.key)) })
  | pass (i : ℕ) (w : Wait κ) (hi : s.waits[i]? = some w) (hp : w.phase = .entered) :
      HubMoves hub s (.run (.wait i)) (s.setWait i { w with phase := .checked })
  | register (i : ℕ) (w : Wait κ) (evicted kept : List ℕ) (hi : s.waits[i]? = some w)
      (hp : w.phase = .checked) (hv : w.stale (hub.version s.values w.key) = false)
      (hsplit : evicted ++ kept = (s.waiters w.key).filter (!s.done ·) ++ [i])
      (hkept : i ∈ kept) :
      HubMoves hub s (.run (.wait i)) { s with
        waiters := Function.update s.waiters w.key kept
        waits := s.waits.set i { w with phase := .evicting evicted } }
  | evict (i : ℕ) (w : Wait κ) (f : ℕ) (rest : List ℕ) (hi : s.waits[i]? = some w)
      (hp : w.phase = .evicting (f :: rest)) : HubMoves hub s (.run (.wait i)) { s with
        callbacks :=
          if f = i ∨ s.done f = true then s.callbacks else s.callbacks ++ [.cancel f]
        waits := s.waits.set i { w with phase := .evicting rest } }
  | settleDown (i : ℕ) (w : Wait κ) (hi : s.waits[i]? = some w) (hp : w.phase = .evicting []) :
      HubMoves hub s (.run (.wait i)) (s.setWait i { w with phase := .awaiting })
  | wake (i : ℕ) (w : Wait κ) (outcome : Outcome) (hi : s.waits[i]? = some w)
      (hp : w.phase = .awaiting)
      (hx : w.future = outcome.future) :
      HubMoves hub s (.run (.wait i)) (s.setWait i { w with phase := .leaving outcome })
  | leave (i : ℕ) (w : Wait κ) (outcome : Outcome) (hi : s.waits[i]? = some w)
      (hp : w.phase = .leaving outcome) : HubMoves hub s (.run (.wait i)) { s with
        waiters := Function.update s.waiters w.key
          ((s.waiters w.key).filter fun f => f ≠ i ∧ !s.done f)
        waits := s.waits.set i { w with phase := .returned outcome } }
  | notify (p version f : ℕ) (rest : List ℕ) (hp : s.publishers[p]? = some ⟨version, f :: rest⟩) :
      HubMoves hub s (.run (.publisher p)) { s with
        publishers := s.publishers.set p ⟨version, rest⟩
        callbacks :=
          if s.done f = true then s.callbacks else s.callbacks ++ [.resolve f version] }
  | callback (c : Callback) (hc : c ∈ s.callbacks) : HubMoves hub s (.run (.callback c))
      (c.run { s with callbacks := s.callbacks.erase c })

theorem evictOverflow_append (maxWaiters : Option ℕ) (waiters : List ℕ) :
    (evictOverflow maxWaiters waiters).1 ++ (evictOverflow maxWaiters waiters).2 = waiters := by
  unfold evictOverflow
  split
  · rfl
  · split
    · rfl
    · exact List.take_append_drop _ _

theorem mem_evictOverflow (maxWaiters : Option ℕ) (waiters : List ℕ) (i : ℕ) :
    i ∈ (evictOverflow maxWaiters (waiters ++ [i])).2 := by
  unfold evictOverflow
  split
  · simp
  · split
    · simp
    · rw [List.drop_append_of_le_length (by simp; omega)]
      simp

private theorem moves_wait {i : ℕ} {w : Wait κ} (hi : s.waits[i]? = some w)
    (h : runWait hub s i w = some s') : HubMoves hub s (.run (.wait i)) s' := by
  unfold runWait at h
  dsimp only at h
  split at h
  case h_1 hp =>
    cases h
    split
    case isTrue hv => exact .early i w hi (.inl hp) hv
    case isFalse => exact .pass i w hi hp
  case h_2 hp =>
    split at h <;> cases h
    case isTrue hv => exact .early i w hi (.inr hp) hv
    case isFalse hv =>
      exact .register i w _ _ hi hp (by simpa using hv) (evictOverflow_append _ _)
        (mem_evictOverflow _ _ _)
  case h_3 f rest hp =>
    cases h
    exact .evict i w f rest hi hp
  case h_4 hp =>
    cases h
    exact .settleDown i w hi hp
  case h_5 hp =>
    split at h <;> cases h
    case h_2 v hx => exact .wake i w (.version v) hi hp hx
    case h_3 hx => exact .wake i w .cancelled hi hp hx
  case h_6 outcome hp =>
    cases h
    exact .leave i w outcome hi hp
  case h_7 => cases h

theorem hubStep_moves (h : hubStep hub s a = some s') : HubMoves hub s a s' := by
  cases a with
  | call key lastSeen =>
    cases h
    exact .call key lastSeen
  | publish key payload =>
    cases h
    exact .publish key payload
  | interrupt i =>
    obtain ⟨w, hi, h⟩ := Option.bind_eq_some_iff.mp h
    split at h
    case isTrue hp =>
      cases h
      refine .interrupt i w _ hi hp ?_ ?_
      · split
        · intro h; cases h
        · assumption
      · split
        · exact .inr rfl
        · exact .inl rfl
    case isFalse => cases h
  | run g =>
    cases g with
    | wait i =>
      obtain ⟨w, hi, h⟩ := Option.bind_eq_some_iff.mp h
      exact moves_wait hi h
    | publisher p =>
      simp only [hubStep, runAgent] at h
      split at h <;> cases h
      case h_1 version f rest hp => exact .notify p version f rest hp
    | callback c =>
      simp only [hubStep, runAgent] at h
      split at h
      case isTrue hc =>
        cases h
        exact .callback c hc
      case isFalse => cases h

section Frames

variable {i : ℕ} {w : Wait κ}

/-- A wait changes by its own steps and by an interruption; else at most its future is settled. -/
theorem HubMoves.wait_same (h : HubMoves hub s a s') (hi : s.waits[i]? = some w)
    (ha : a ≠ .run (.wait i)) (ha' : a ≠ .interrupt i) :
    ∃ x, s'.waits[i]? = some { w with future := x } ∧ (w.future ≠ .pending → x = w.future) := by
  have hset : ∀ j w', j ≠ i → (s.waits.set j w')[i]? = some { w with future := w.future } := by
    intro j w' hj
    rw [List.getElem?_set_ne hj, hi]
  cases h with
  | call key lastSeen =>
    refine ⟨w.future, ?_, fun _ => rfl⟩
    rw [List.getElem?_append_left (List.getElem?_eq_some_iff.mp hi).1, hi]
  | publish | notify => exact ⟨w.future, hi, fun _ => rfl⟩
  | interrupt j => exact ⟨w.future, hset j _ (by rintro rfl; exact ha' rfl), fun _ => rfl⟩
  | early j | pass j | register j | evict j | settleDown j | wake j | leave j =>
    exact ⟨w.future, hset j _ (by rintro rfl; exact ha rfl), fun _ => rfl⟩
  | callback c hc =>
    rw [c.run_eq]
    rcases settle_cases { s with callbacks := s.callbacks.erase c } c.future c.result with
      heq | ⟨w', hf, hx, heq⟩
    · rw [heq]
      exact ⟨w.future, hi, fun _ => rfl⟩
    · rw [heq]
      by_cases hci : c.future = i
      · rw [hci] at hf ⊢
        cases hi.symm.trans hf
        refine ⟨c.result, ?_, fun hne => absurd hx hne⟩
        exact List.getElem?_set_self (List.getElem?_eq_some_iff.mp hi).1
      · exact ⟨w.future, hset _ _ hci, fun _ => rfl⟩

theorem HubMoves.publisher_same (h : HubMoves hub s a s') {p : ℕ} {x : Publisher}
    (hp : s.publishers[p]? = some x) (ha : a ≠ .run (.publisher p)) :
    s'.publishers[p]? = some x := by
  cases h with
  | call | interrupt | early | pass | register | evict | settleDown | wake | leave => exact hp
  | publish =>
    rw [List.getElem?_append_left (List.getElem?_eq_some_iff.mp hp).1, hp]
  | notify q =>
    rw [List.getElem?_set_ne (by rintro rfl; exact ha rfl), hp]
  | callback c =>
    rw [c.run_eq]
    rcases settle_cases { s with callbacks := s.callbacks.erase c } c.future c.result with
      heq | ⟨w', -, -, heq⟩ <;> rw [heq] <;> exact hp

theorem mem_schedule {p : Prop} [Decidable p] {c c' : Callback} {callbacks : List Callback}
    (h : c ∈ callbacks) : c ∈ if p then callbacks else callbacks ++ [c'] := by
  split
  · exact h
  · exact List.mem_append_left _ h

theorem HubMoves.callback_same (h : HubMoves hub s a s') {c : Callback} (hc : c ∈ s.callbacks)
    (ha : a ≠ .run (.callback c)) : c ∈ s'.callbacks := by
  cases h with
  | call | publish | interrupt | early | pass | register | settleDown | wake | leave => exact hc
  | evict | notify => exact mem_schedule hc
  | callback c' =>
    have hkept : c ∈ s.callbacks.erase c' :=
      (List.mem_erase_of_ne (by rintro rfl; exact ha rfl)).mpr hc
    rw [c'.run_eq]
    rcases settle_cases { s with callbacks := s.callbacks.erase c' } c'.future c'.result with
      heq | ⟨w', -, -, heq⟩ <;> rw [heq] <;> exact hkept

theorem HubMoves.own (h : HubMoves hub s (.run (.wait i)) s') (hi : s.waits[i]? = some w) :
    ∃ phase, s'.waits[i]? = some { w with phase } := by
  have hset : ∀ phase : WaitPhase,
      (s.waits.set i { w with phase })[i]? = some { w with phase } := fun _ =>
    List.getElem?_set_self (List.getElem?_eq_some_iff.mp hi).1
  cases h with
  | early _ w' hi' | pass _ w' hi' | register _ w' _ _ hi' | evict _ w' _ _ hi'
  | settleDown _ w' hi' | wake _ w' _ hi' | leave _ w' _ hi' =>
    cases hi.symm.trans hi'
    exact ⟨_, hset _⟩

theorem HubMoves.wait_next (h : HubMoves hub s a s') (hi : s.waits[i]? = some w) :
    ∃ w', s'.waits[i]? = some w' ∧ w'.key = w.key ∧ w'.lastSeen = w.lastSeen ∧
      (w.future ≠ .pending → w'.future ≠ .pending) := by
  by_cases ha : a = .run (.wait i)
  · subst ha
    obtain ⟨phase, hi'⟩ := h.own hi
    exact ⟨_, hi', rfl, rfl, id⟩
  · by_cases ha' : a = .interrupt i
    · subst ha'
      cases h with
      | interrupt _ w' x hi' hp hx =>
        cases hi.symm.trans hi'
        exact ⟨_, List.getElem?_set_self (List.getElem?_eq_some_iff.mp hi).1, rfl, rfl,
          fun _ => hx⟩
    · obtain ⟨x, hi', hx⟩ := h.wait_same hi ha ha'
      exact ⟨_, hi', rfl, rfl, fun hne => by rw [hx hne]; exact hne⟩

end Frames

/-- A waiter off its list: the agent that has it, and how far it is from being done. -/
inductive Held (s : World σ κ) (i : ℕ) : Agent → ℕ ×ₗ ℕ → Prop where
  | published (p version : ℕ) (before after : List ℕ)
      (hp : s.publishers[p]? = some ⟨version, before ++ i :: after⟩) :
      Held s i (.publisher p) (toLex (3, before.length))
  | evicted (j : ℕ) (w : Wait κ) (before after : List ℕ) (hj : s.waits[j]? = some w)
      (hp : w.phase = .evicting (before ++ i :: after)) (hne : i ≠ j) :
      Held s i (.wait j) (toLex (3, before.length))
  | scheduled (c : Callback) (hc : c ∈ s.callbacks) (hf : c.future = i) :
      Held s i (.callback c) (toLex (2, 0))

theorem lex_lt_of_fst {m n k l : ℕ} (h : m < k) : toLex (m, n) < toLex (k, l) :=
  Prod.Lex.toLex_lt_toLex.mpr (.inl h)

theorem lex_lt_of_snd {k m n : ℕ} (h : m < n) : toLex (k, m) < toLex (k, n) :=
  Prod.Lex.toLex_lt_toLex.mpr (.inr ⟨rfl, h⟩)

/-- While its future is pending a waiter stays held; the step of its holder brings it nearer. -/
theorem Held.step {i : ℕ} {w w' : Wait κ} {g : Agent} {b : ℕ ×ₗ ℕ} (h : Held s i g b)
    (hm : HubMoves hub s a s') (hi : s.waits[i]? = some w) (hi' : s'.waits[i]? = some w')
    (hx : w'.future = .pending) :
    (∃ g' b', b' < b ∧ Held s' i g' b') ∨ a ≠ .run g ∧ Held s' i g b := by
  have hpending : w.future = .pending := by
    obtain ⟨w'', hi'', -, -, hkeep⟩ := hm.wait_next hi
    cases hi'.symm.trans hi''
    exact not_not.mp fun hne => hkeep hne hx
  have hdone : s.done i = false := by simp [World.done, hi, hpending]
  cases h with
  | published p version before after hp =>
    by_cases ha : a = .run (.publisher p)
    · subst ha
      left
      cases hm with
      | notify _ version' f rest hp' =>
        have heq := hp.symm.trans hp'
        cases before with
        | nil =>
          cases heq
          refine ⟨_, _, lex_lt_of_fst (by omega), .scheduled (.resolve i version) ?_ rfl⟩
          dsimp only
          rw [hdone]
          simp
        | cons f' before =>
          cases heq
          refine ⟨_, _, lex_lt_of_snd (Nat.lt_succ_self _), .published p version before after ?_⟩
          exact List.getElem?_set_self (List.getElem?_eq_some_iff.mp hp).1
    · exact .inr ⟨ha, .published p version before after (hm.publisher_same hp ha)⟩
  | evicted j v before after hj hp hne =>
    by_cases ha : a = .run (.wait j)
    · subst ha
      left
      cases hm with
      | early _ v' hj' hp' | pass _ v' hj' hp' | register _ v' _ _ hj' hp'
      | settleDown _ v' hj' hp' | wake _ v' _ hj' hp' | leave _ v' _ hj' hp' =>
        cases hj.symm.trans hj'
        rw [hp] at hp'
        simp at hp'
      | evict _ v' f rest hj' hp' =>
        cases hj.symm.trans hj'
        rw [hp] at hp'
        cases before with
        | nil =>
          cases hp'
          refine ⟨_, _, lex_lt_of_fst (by omega), .scheduled (.cancel i) ?_ rfl⟩
          dsimp only
          rw [hdone]
          simp [hne]
        | cons f' before =>
          cases hp'
          refine ⟨_, _, lex_lt_of_snd (Nat.lt_succ_self _),
            .evicted j { v with phase := .evicting (before ++ i :: after) } before after ?_ rfl hne⟩
          exact List.getElem?_set_self (List.getElem?_eq_some_iff.mp hj).1
    · refine .inr ⟨ha, ?_⟩
      by_cases ha' : a = .interrupt j
      · subst ha'
        cases hm with
        | interrupt _ v' x hj' hp' =>
          cases hj.symm.trans hj'
          rw [hp] at hp'
          cases hp'
      · obtain ⟨x, hj', -⟩ := hm.wait_same hj ha ha'
        exact .evicted j _ before after hj' hp hne
  | scheduled c hc hf =>
    by_cases ha : a = .run (.callback c)
    · subst ha
      cases hm with
      | callback _ hc' =>
        exfalso
        rw [c.run_eq, hf, World.settle] at hi'
        rw [show World.waits { s with callbacks := s.callbacks.erase c } = s.waits from rfl] at hi'
        rw [hi] at hi'
        dsimp only at hi'
        rw [if_pos hpending] at hi'
        have hset := List.getElem?_set_self (a := { w with future := c.result })
          (List.getElem?_eq_some_iff.mp hi).1
        cases hi'.symm.trans hset
        exact c.result_ne hx
    · exact .inr ⟨ha, .scheduled c (hm.callback_same hc ha) hf⟩

end DataForge.Wakes
