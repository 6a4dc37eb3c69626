import DataForge.Wakes.Woken

/-!
# What a wait returns

The version that a call of `wait` returns comes from its early return or from a publish that
took it off its list; it is cancelled only by an interruption or an eviction.
-/

namespace DataForge.Wakes

open Transitions

variable {σ κ π : Type} [DecidableEq κ] {hub : Hub σ κ π} {s s' : World σ κ}
  {a : HubAction κ π}

/-- The call has its outcome. -/
def WaitPhase.Ends (p : WaitPhase) (outcome : Outcome) : Prop :=
  p = .leaving outcome ∨ p = .returned outcome

section Steps

variable {i : ℕ} {w w' : Wait κ}

theorem mem_scheduled {p : Prop} [Decidable p] {c c' : Callback} {callbacks : List Callback}
    (h : c ∈ if p then callbacks else callbacks ++ [c']) : c ∈ callbacks ∨ ¬ p ∧ c = c' := by
  split at h
  case isTrue => exact .inl h
  case isFalse hno =>
    exact (List.mem_append.mp h).imp_right fun hc => ⟨hno, List.mem_singleton.mp hc⟩

/-- Where a callback comes from: a publisher or a wait that evicts. -/
theorem HubMoves.callback_before (h : HubMoves hub s a s') {c : Callback}
    (hc : c ∈ s'.callbacks) : c ∈ s.callbacks ∨
      (∃ (p version f : ℕ) (rest : List ℕ), s.publishers[p]? = some ⟨version, f :: rest⟩ ∧
        c = .resolve f version) ∨
      ∃ j w f rest, s.waits[j]? = some w ∧ w.phase = .evicting (f :: rest) ∧ f ≠ j ∧
        c = .cancel f := by
  cases h with
  | call | publish | interrupt | early | pass | register | settleDown | wake | leave =>
    exact .inl hc
  | evict j w f rest hj hp =>
    rcases mem_scheduled hc with hold | ⟨hno, heq⟩
    · exact .inl hold
    · exact .inr (.inr ⟨j, w, f, rest, hj, hp, fun h => hno (.inl h), heq⟩)
  | notify p version f rest hp =>
    rcases mem_scheduled hc with hold | ⟨-, heq⟩
    · exact .inl hold
    · exact .inr (.inl ⟨p, version, f, rest, hp, heq⟩)
  | callback c' =>
    rw [c'.run_eq] at hc
    rcases settle_cases { s with callbacks := s.callbacks.erase c' } c'.future c'.result with
      heq | ⟨w', -, -, heq⟩ <;> rw [heq] at hc <;> exact .inl (List.mem_of_mem_erase hc)

/-- Where a publisher comes from: an earlier step, or the publish that this step makes. -/
theorem HubMoves.publisher_before (h : HubMoves hub s a s') {n : ℕ} {p : Publisher}
    (hp : s'.publishers[n]? = some p) :
    (∃ q ∈ s.publishers, p.rest ⊆ q.rest ∧ p.version = q.version) ∨
      ∃ key payload, a = .publish key payload ∧
        p = ⟨hub.version (hub.publish key payload s.values) key, s.waiters key⟩ := by
  have hsame : s.publishers[n]? = some p →
      ∃ q ∈ s.publishers, p.rest ⊆ q.rest ∧ p.version = q.version := fun hp =>
    ⟨p, List.mem_of_getElem? hp, fun _ h => h, rfl⟩
  cases h with
  | call | interrupt | early | pass | register | evict | settleDown | wake | leave =>
    exact .inl (hsame hp)
  | publish key payload =>
    rw [List.getElem?_append] at hp
    split at hp
    case isTrue => exact .inl (hsame hp)
    case isFalse =>
      rw [List.getElem?_singleton] at hp
      split at hp <;> cases hp
      exact .inr ⟨key, payload, rfl, rfl⟩
  | notify m version f rest hm =>
    by_cases hmn : m = n
    · subst hmn
      cases hp.symm.trans (List.getElem?_set_self (List.getElem?_eq_some_iff.mp hm).1)
      exact .inl ⟨_, List.mem_of_getElem? hm, List.subset_cons_self f rest, rfl⟩
    · exact .inl (hsame ((List.getElem?_set_ne hmn).symm.trans hp))
  | callback c =>
    rw [c.run_eq] at hp
    rcases settle_cases { s with callbacks := s.callbacks.erase c } c.future c.result with
      heq | ⟨w', -, -, heq⟩ <;> rw [heq] at hp <;> exact .inl (hsame hp)

/-- What makes a future done. -/
theorem HubMoves.future_cases (h : HubMoves hub s a s') (hi : s.waits[i]? = some w)
    (hi' : s'.waits[i]? = some w') : w'.future = w.future ∨
      (∃ c ∈ s.callbacks, c.future = i ∧ w'.future = c.result) ∨
      a = .interrupt i ∧ w'.future = .cancelled := by
  by_cases ha : a = .run (.wait i)
  · subst ha
    obtain ⟨phase, hp⟩ := h.own hi
    cases hi'.symm.trans hp
    exact .inl rfl
  · cases h with
    | interrupt j v x hj hp hx hx' =>
      by_cases hji : j = i
      · subst hji
        cases hi.symm.trans hj
        cases hi'.symm.trans (List.getElem?_set_self (List.getElem?_eq_some_iff.mp hi).1)
        exact hx'.imp_right fun hx => .inr ⟨rfl, hx⟩
      · cases hi'.symm.trans ((List.getElem?_set_ne hji).trans hi)
        exact .inl rfl
    | callback c hc =>
      rw [c.run_eq] at hi'
      rcases settle_cases { s with callbacks := s.callbacks.erase c } c.future c.result with
        heq | ⟨v, hf, hx, heq⟩ <;> rw [heq] at hi'
      · cases hi.symm.trans hi'
        exact .inl rfl
      · by_cases hci : c.future = i
        · rw [hci] at hi'
          cases hi'.symm.trans (List.getElem?_set_self (List.getElem?_eq_some_iff.mp hi).1)
          exact .inr (.inl ⟨c, hc, hci, rfl⟩)
        · cases hi'.symm.trans ((List.getElem?_set_ne hci).trans hi)
          exact .inl rfl
    | call =>
      have hlt := (List.getElem?_eq_some_iff.mp hi).1
      cases hi'.symm.trans ((List.getElem?_append_left hlt).trans hi)
      exact .inl rfl
    | publish | notify =>
      cases hi.symm.trans hi'
      exact .inl rfl
    | early j | pass j | register j | evict j | settleDown j | wake j | leave j =>
      cases hi'.symm.trans
        ((List.getElem?_set_ne (by rintro rfl; exact ha rfl)).trans hi)
      exact .inl rfl

/-- What gives a call its outcome. -/
theorem HubMoves.ends_cases (h : HubMoves hub s a s') (hi : s.waits[i]? = some w)
    (hi' : s'.waits[i]? = some w') {o : Outcome} (ho : w'.phase.Ends o) : w.phase.Ends o ∨
      w.future = o.future ∨ a = .interrupt i ∧ o = .cancelled ∨
      ∃ x, o = .version x ∧ w.stale x = true := by
  have hset : ∀ v, (s.waits.set i v)[i]? = some v := fun _ =>
    List.getElem?_set_self (List.getElem?_eq_some_iff.mp hi).1
  by_cases ha : a = .run (.wait i)
  · subst ha
    cases h with
    | early _ v hj hp hv =>
      cases hi.symm.trans hj
      cases hi'.symm.trans (hset _)
      rcases ho with ho | ho <;> cases ho
      exact .inr (.inr (.inr ⟨_, rfl, hv⟩))
    | pass _ v | register _ v | evict _ v | settleDown _ v =>
      cases hi'.symm.trans (hset _)
      rcases ho with ho | ho <;> cases ho
    | wake _ v o' hj hp hx =>
      cases hi.symm.trans hj
      cases hi'.symm.trans (hset _)
      rcases ho with ho | ho <;> cases ho
      exact .inr (.inl hx)
    | leave _ v o' hj hp =>
      cases hi.symm.trans hj
      cases hi'.symm.trans (hset _)
      rcases ho with ho | ho <;> cases ho
      exact .inl (.inl hp)
  · by_cases ha' : a = .interrupt i
    · subst ha'
      cases h with
      | interrupt _ v =>
        cases hi'.symm.trans (hset _)
        rcases ho with ho | ho <;> cases ho
        exact .inr (.inr (.inl ⟨rfl, rfl⟩))
    · obtain ⟨x, hx, -⟩ := h.wait_same hi ha ha'
      cases hi'.symm.trans hx
      exact .inl ho

/-- Nothing is on its way to give a call a certain version. -/
structure Misses (v i : ℕ) (s : World σ κ) : Prop where
  publishers : ∀ p ∈ s.publishers, i ∈ p.rest → p.version ≠ v
  callbacks : .resolve i v ∉ s.callbacks
  future : ∀ w, s.waits[i]? = some w → w.future ≠ .resolved v
  outcome : ∀ w, s.waits[i]? = some w → ¬ w.phase.Ends (.version v)

theorem Misses.step {v : ℕ} (h : Misses v i s) (hm : HubMoves hub s a s')
    (hlast : ∀ w, s.waits[i]? = some w → w.lastSeen = some v)
    (hpub : ∀ key payload, a = .publish key payload → i ∈ s.waiters key →
      hub.version (hub.publish key payload s.values) key ≠ v) : Misses v i s' := by
  have hold : ∀ w', s'.waits[i]? = some w' → (∃ w, s.waits[i]? = some w) ∨
      w'.phase = .entered ∧ w'.future = .pending := fun w' hi' => hm.before hi'
  refine ⟨fun p hp hi => ?_, fun hc => ?_, fun w' hi' hx => ?_, fun w' hi' ho => ?_⟩
  · obtain ⟨n, hn⟩ := List.mem_iff_getElem?.mp hp
    rcases hm.publisher_before hn with ⟨q, hq, hsub, heq⟩ | ⟨key, payload, ha, hnew⟩
    · rw [heq]
      exact h.publishers q hq (hsub hi)
    · rw [hnew] at hi ⊢
      exact hpub key payload ha hi
  · rcases hm.callback_before hc with
      hc | ⟨p, version, f, rest, hp, heq⟩ | ⟨_, _, _, _, _, _, _, heq⟩
    · exact h.callbacks hc
    · cases heq
      exact h.publishers _ (List.mem_of_getElem? hp) List.mem_cons_self rfl
    · cases heq
  · rcases hold w' hi' with ⟨w, hi⟩ | ⟨-, hx'⟩
    · rcases hm.future_cases hi hi' with heq | ⟨c, hc, hf, heq⟩ | ⟨-, heq⟩
      · exact h.future w hi (heq ▸ hx)
      · rw [hx] at heq
        cases c with
        | resolve f version =>
          cases heq
          cases hf
          exact h.callbacks hc
        | cancel f => cases heq
      · cases hx.symm.trans heq
    · cases hx.symm.trans hx'
  · rcases hold w' hi' with ⟨w, hi⟩ | ⟨hp, -⟩
    · rcases hm.ends_cases hi hi' ho with ho | hx | ⟨-, hno⟩ | ⟨x, hx, hstale⟩
      · exact h.outcome w hi ho
      · exact h.future w hi hx
      · cases hno
      · cases hx
        simp [Wait.stale, hlast w hi] at hstale
    · rw [hp] at ho
      rcases ho with ho | ho <;> cases ho

/-- A call is on its way to be cancelled. -/
def World.Cancels (s : World σ κ) (i : ℕ) : Prop :=
  .cancel i ∈ s.callbacks ∨
    ∃ w, s.waits[i]? = some w ∧ (w.future = .cancelled ∨ w.phase.Ends .cancelled)

/-- A call was evicted by another one that still has to cancel it. -/
def World.Evicts (s : World σ κ) (i : ℕ) : Prop :=
  ∃ j w rest, s.waits[j]? = some w ∧ w.phase = .evicting rest ∧ i ∈ rest ∧ i ≠ j

/-- A call is cancelled by an interruption or after an eviction. -/
theorem HubMoves.cancels (h : HubMoves hub s a s') (hc : s'.Cancels i) :
    s.Cancels i ∨ a = .interrupt i ∨ s.Evicts i := by
  rcases hc with hc | ⟨w', hi', hw⟩
  · rcases h.callback_before hc with hc | ⟨_, _, _, _, _, heq⟩ | ⟨j, w, f, rest, hj, hp, hne, heq⟩
    · exact .inl (.inl hc)
    · cases heq
    · cases heq
      exact .inr (.inr ⟨j, w, i :: rest, hj, hp, List.mem_cons_self, hne⟩)
  · rcases h.before hi' with ⟨w, hi⟩ | ⟨hp, hx⟩
    · rcases hw with hx | ho
      · rcases h.future_cases hi hi' with heq | ⟨c, hc, hf, heq⟩ | ⟨ha, -⟩
        · exact .inl (.inr ⟨w, hi, .inl (heq.symm.trans hx)⟩)
        · rw [hx] at heq
          cases c with
          | resolve => cases heq
          | cancel f =>
            cases hf
            exact .inl (.inl hc)
        · exact .inr (.inl ha)
      · rcases h.ends_cases hi hi' ho with ho | hx | ⟨ha, -⟩ | ⟨x, hx, -⟩
        · exact .inl (.inr ⟨w, hi, .inr ho⟩)
        · exact .inl (.inr ⟨w, hi, .inl hx⟩)
        · exact .inr (.inl ha)
        · cases hx
    · rcases hw with hx' | ho
      · cases hx.symm.trans hx'
      · rw [hp] at ho
        rcases ho with ho | ho <;> cases ho

end Steps

end DataForge.Wakes
