import DataForge.ReadCommitted.Script

/-!
# Interleaved calls

Library `ReadCommitted`. A system is a committed state, a clock and any number of calls,
each with its own transaction. A step advances the clock, starts a call, executes the next
statement, commit or rollback of one call, or aborts a call (a crash, a deadlock victim, a
lost connection). A statement whose locks are held by others waits: it has no step.
-/

namespace ReadCommitted

/-- A call in progress: what was called, what remains, and its open transaction. -/
structure Call (Op σ W ρ α : Type) where
  op : Op
  script : Script σ W ρ α
  txn : Txn W ρ

/-- Committed state, clock and calls. Calls are never removed, so an index names one call. -/
structure System (Op σ W ρ α : Type) where
  now : ℕ
  db : σ
  calls : List (Call Op σ W ρ α)

/-- One scheduling decision. -/
inductive Action (Op : Type) where
  | tick (t : ℕ)
  | spawn (op : Op)
  | run (i : ℕ)
  | abort (i : ℕ)

variable {Op σ W ρ α : Type}

/-- Closing the session of a returned or failed call drops what it holds. -/
def Call.settle (c : Call Op σ W ρ α) : Call Op σ W ρ α :=
  if c.script.ended then ⟨c.op, c.script, {}⟩ else c

@[simp] theorem Call.settle_script (c : Call Op σ W ρ α) : c.settle.script = c.script := by
  unfold Call.settle
  split <;> rfl

@[simp] theorem Call.settle_op (c : Call Op σ W ρ α) : c.settle.op = c.op := by
  unfold Call.settle
  split <;> rfl

namespace System

/-- The committed part of a system. -/
def world (s : System Op σ W ρ α) : World σ := ⟨s.now, s.db⟩

/-- Call `i` continues with `c`. -/
def resume (s : System Op σ W ρ α) (i : ℕ) (c : Call Op σ W ρ α) : System Op σ W ρ α :=
  ⟨s.now, s.db, s.calls.set i c.settle⟩

/-- Call `i` holds the lock `k`. -/
def Holds (s : System Op σ W ρ α) (i : ℕ) (k : Lock ρ) : Prop :=
  ∃ c, s.calls[i]? = some c ∧ k ∈ c.txn.held

variable [DecidableEq ρ]

/-- No call other than `i` holds `r` in a mode that conflicts with `m`. -/
def free (s : System Op σ W ρ α) (i : ℕ) (r : ρ) (m : Mode) : Bool :=
  (s.calls.eraseIdx i).all fun c => c.txn.held.all fun k => k.res ≠ r || k.mode.compatible m

variable [Storage σ W ρ]

/-- One step of a system whose calls run `code`; `none` when the action is not enabled. -/
def step (code : ℕ → Op → Script σ W ρ α) (s : System Op σ W ρ α) :
    Action Op → Option (System Op σ W ρ α)
  | .tick t => if s.now ≤ t then some ⟨t, s.db, s.calls⟩ else none
  | .spawn op => some ⟨s.now, s.db, s.calls ++ [Call.settle ⟨op, code s.calls.length op, {}⟩]⟩
  | .run i =>
    match s.calls[i]? with
    | none => none
    | some ⟨op, script, t⟩ =>
      match script with
      | .done _ => none
      | .raise _ => none
      | .exec effect next =>
        let e := t.env s.world (s.free i)
        if (effect e).needs.all (fun n => s.free i n.1 n.2) then
          some (s.resume i ⟨op, next e, t.after e (effect e)⟩)
        else none
      | .commit next => some (resume ⟨s.now, view t.writes s.db, s.calls⟩ i ⟨op, next, {}⟩)
      | .rollback next => some (s.resume i ⟨op, next, {}⟩)
  | .abort i =>
    match s.calls[i]? with
    | none => none
    | some c => some (s.resume i ⟨c.op, .raise "aborted", {}⟩)

/-- Replay a list of actions. -/
def replay (code : ℕ → Op → Script σ W ρ α) (s : System Op σ W ρ α) :
    List (Action Op) → Option (System Op σ W ρ α)
  | [] => some s
  | a :: rest => (s.step code a).bind (fun s' => s'.replay code rest)

/-- Replay a list of actions each of which passes a test. -/
def replayWhen (code : ℕ → Op → Script σ W ρ α) (test : System Op σ W ρ α → Action Op → Bool)
    (s : System Op σ W ρ α) : List (Action Op) → Option (System Op σ W ρ α)
  | [] => some s
  | a :: rest =>
    if test s a then (s.step code a).bind (fun s' => s'.replayWhen code test rest) else none

end System

variable [DecidableEq ρ] [Storage σ W ρ]

/-- A run whose every step satisfies `ok`. -/
inductive Run (code : ℕ → Op → Script σ W ρ α)
    (ok : System Op σ W ρ α → Action Op → System Op σ W ρ α → Prop) :
    System Op σ W ρ α → System Op σ W ρ α → Prop where
  | refl (s) : Run code ok s s
  | step {s s' s'' a} : Run code ok s s' → s'.step code a = some s'' → ok s' a s'' →
      Run code ok s s''

/-- Everything one step can do. -/
inductive Stepped (code : ℕ → Op → Script σ W ρ α) (s : System Op σ W ρ α) :
    Action Op → System Op σ W ρ α → Prop where
  | tick {t} (h : s.now ≤ t) : Stepped code s (.tick t) ⟨t, s.db, s.calls⟩
  | spawn (op : Op) : Stepped code s (.spawn op)
      ⟨s.now, s.db, s.calls ++ [Call.settle ⟨op, code s.calls.length op, {}⟩]⟩
  | exec {i op effect next t} (hc : s.calls[i]? = some ⟨op, .exec effect next, t⟩)
      (hf : ∀ n ∈ (effect (t.env s.world (s.free i))).needs, s.free i n.1 n.2 = true) :
      Stepped code s (.run i) (s.resume i ⟨op, next (t.env s.world (s.free i)),
        t.after (t.env s.world (s.free i)) (effect (t.env s.world (s.free i)))⟩)
  | commit {i op next t} (hc : s.calls[i]? = some ⟨op, .commit next, t⟩) :
      Stepped code s (.run i)
        (System.resume ⟨s.now, view t.writes s.db, s.calls⟩ i ⟨op, next, {}⟩)
  | rollback {i op next t} (hc : s.calls[i]? = some ⟨op, .rollback next, t⟩) :
      Stepped code s (.run i) (s.resume i ⟨op, next, {}⟩)
  | abort {i c} (hc : s.calls[i]? = some c) :
      Stepped code s (.abort i) (s.resume i ⟨c.op, .raise "aborted", {}⟩)

variable {code : ℕ → Op → Script σ W ρ α} {s s' s'' : System Op σ W ρ α} {a : Action Op}
  {ok : System Op σ W ρ α → Action Op → System Op σ W ρ α → Prop}

theorem stepped (h : s.step code a = some s') : Stepped code s a s' := by
  cases a with
  | tick t =>
    simp only [System.step] at h
    split at h
    · next ht => cases h; exact .tick ht
    · cases h
  | spawn op => cases h; exact .spawn op
  | run i =>
    simp only [System.step] at h
    cases hc : s.calls[i]? with
    | none => simp [hc] at h
    | some c =>
      obtain ⟨op, script, t⟩ := c
      simp only [hc] at h
      cases script with
      | done a => cases h
      | raise e => cases h
      | exec effect next =>
        dsimp only at h
        split at h
        · next hf => cases h; exact .exec hc (List.all_eq_true.mp hf)
        · cases h
      | commit next => cases h; exact .commit hc
      | rollback next => cases h; exact .rollback hc
  | abort i =>
    simp only [System.step] at h
    cases hc : s.calls[i]? with
    | none => simp [hc] at h
    | some c => simp only [hc] at h; cases h; exact .abort hc

theorem Run.trans (h : Run code ok s s') (h' : Run code ok s' s'') : Run code ok s s'' := by
  induction h' with
  | refl => exact h
  | step _ hs hok ih => exact ih.step hs hok

theorem Run.mono {ok' : System Op σ W ρ α → Action Op → System Op σ W ρ α → Prop}
    (hok : ∀ s a s', ok s a s' → ok' s a s') (h : Run code ok s s') : Run code ok' s s' := by
  induction h with
  | refl => exact .refl _
  | step _ hs ho ih => exact ih.step hs (hok _ _ _ ho)

theorem Run.steps_along (h : Run code ok s s') :
    Run code (fun u a u' => ok u a u' ∧ Run code ok s u ∧ u.step code a = some u' ∧
      Run code ok u' s') s s' := by
  have prefixes {u : System Op σ W ρ α} (hu : Run code ok s u) : ∀ {e}, Run code ok u e →
      Run code (fun u a u' => ok u a u' ∧ Run code ok s u ∧ u.step code a = some u' ∧
        Run code ok u' e) s u := by
    induction hu with
    | refl => exact fun _ => .refl s
    | step hr hs ho ih =>
      intro e he
      have hlast := (((Run.refl _).step hs ho).trans he)
      exact (ih hlast).step hs ⟨ho, hr, hs, he⟩
  exact prefixes h (.refl s')

theorem Run.along (h : Run code ok s s') :
    Run code (fun u a u' => ok u a u' ∧ Run code ok s u ∧ Run code ok u s') s s' :=
  h.steps_along.mono fun _ _ _ ⟨hok, hu, hs, hr⟩ => ⟨hok, hu, ((Run.refl _).step hs hok).trans hr⟩

theorem Run.of_replay {actions : List (Action Op)} (h : s.replay code actions = some s') :
    Run code (fun _ _ _ => True) s s' := by
  induction actions generalizing s with
  | nil => rw [System.replay, Option.some.injEq] at h; exact h ▸ .refl s
  | cons a rest ih =>
    obtain ⟨s1, hs, hr⟩ := Option.bind_eq_some_iff.mp h
    exact ((Run.refl s).step hs trivial).trans (ih hr)

theorem Run.of_replayWhen {test : System Op σ W ρ α → Action Op → Bool} {actions : List (Action Op)}
    (h : s.replayWhen code test actions = some s') :
    Run code (fun u a _ => test u a = true) s s' := by
  induction actions generalizing s with
  | nil => rw [System.replayWhen, Option.some.injEq] at h; exact h ▸ .refl s
  | cons a rest ih =>
    rw [System.replayWhen] at h
    split at h
    · next htest =>
      obtain ⟨s1, hs, hr⟩ := Option.bind_eq_some_iff.mp h
      exact ((Run.refl s).step hs htest).trans (ih hr)
    · cases h

theorem Stepped.now_le (h : Stepped code s a s') : s.now ≤ s'.now := by
  cases h with
  | tick ht => exact ht
  | _ => exact Nat.le_refl _

theorem Run.now_le (h : Run code ok s s') : s.now ≤ s'.now := by
  induction h with
  | refl => exact Nat.le_refl _
  | step _ hs _ ih => exact Nat.le_trans ih (stepped hs).now_le

theorem Stepped.calls_length_le (h : Stepped code s a s') : s.calls.length ≤ s'.calls.length := by
  cases h <;> simp [System.resume]

theorem Run.calls_length_le (h : Run code ok s s') : s.calls.length ≤ s'.calls.length := by
  induction h with
  | refl => exact Nat.le_refl _
  | step _ hs _ ih => exact Nat.le_trans ih (stepped hs).calls_length_le

omit [DecidableEq ρ] [Storage σ W ρ] in
theorem System.calls_resume {i j : ℕ} {c d : Call Op σ W ρ α}
    (h : (s.resume i c).calls[j]? = some d) :
    (j = i ∧ d = c.settle) ∨ (j ≠ i ∧ s.calls[j]? = some d) := by
  rw [System.resume, List.getElem?_set] at h
  split at h
  · next hij =>
    split at h
    · exact Or.inl ⟨hij.symm, (Option.some.inj h).symm⟩
    · cases h
  · next hij => exact Or.inr ⟨Ne.symm hij, h⟩

omit [DecidableEq ρ] [Storage σ W ρ] in
theorem Call.mem_held_settle {c : Call Op σ W ρ α} {k : Lock ρ} (h : k ∈ c.settle.txn.held) :
    k ∈ c.txn.held := by
  unfold Call.settle at h
  split at h
  · cases h
  · exact h

omit [DecidableEq ρ] in
theorem Txn.mem_held_after {t : Txn W ρ} {e : Env σ ρ} {f : Effect W ρ} {k : Lock ρ}
    (h : k ∈ (t.after e f).held) :
    k ∈ t.held ∨ ((k.res, k.mode) ∈ f.needs ∧ k.since = e.now) := by
  rcases List.mem_append.mp h with h | h
  · obtain ⟨⟨r, m⟩, hn, rfl⟩ := List.mem_map.mp h
    exact Or.inr ⟨hn, rfl⟩
  · exact Or.inl h

/-- A lock held after a step was held before it or was granted by it. -/
theorem Stepped.holds {i : ℕ} {k : Lock ρ} (h : Stepped code s a s') (hk : s'.Holds i k) :
    s.Holds i k ∨ k.since = s.now := by
  obtain ⟨c, hc, hm⟩ := hk
  have resumed (d : Call Op σ W ρ α) (j : ℕ) (hd : ∀ k ∈ d.txn.held, s.Holds j k ∨ k.since = s.now)
      (hr : (s.calls.set j d.settle)[i]? = some c) : s.Holds i k ∨ k.since = s.now := by
    rcases System.calls_resume (s := s) hr with ⟨rfl, rfl⟩ | ⟨-, ho⟩
    · exact hd k (Call.mem_held_settle hm)
    · exact Or.inl ⟨c, ho, hm⟩
  cases h with
  | tick _ => exact Or.inl ⟨c, hc, hm⟩
  | spawn op =>
    rw [List.getElem?_append] at hc
    split at hc
    · exact Or.inl ⟨c, hc, hm⟩
    · rw [List.getElem?_singleton] at hc
      split at hc
      · cases hc; cases Call.mem_held_settle hm
      · cases hc
  | exec he hf =>
    refine resumed _ _ ?_ hc
    intro k hk
    rcases Txn.mem_held_after hk with hk | ⟨-, hk⟩
    · exact Or.inl ⟨_, he, hk⟩
    · exact Or.inr hk
  | commit he => exact resumed _ _ (fun _ hk => by cases hk) hc
  | rollback he => exact resumed _ _ (fun _ hk => by cases hk) hc
  | abort he => exact resumed _ _ (fun _ hk => by cases hk) hc

theorem Run.holds {i : ℕ} {k : Lock ρ} (h : Run code ok s s') (hk : s'.Holds i k) :
    s.Holds i k ∨ s.now ≤ k.since := by
  induction h with
  | refl => exact Or.inl hk
  | step hr hs _ ih =>
    rcases (stepped hs).holds hk with hk | hk
    · exact ih hk
    · exact Or.inr (hk ▸ hr.now_le)

/-- What a call was asked to do never changes. -/
theorem Stepped.op_eq {i : ℕ} {c : Call Op σ W ρ α} (h : Stepped code s a s')
    (hc : s.calls[i]? = some c) : ∃ c', s'.calls[i]? = some c' ∧ c'.op = c.op := by
  have resumed (d : Call Op σ W ρ α) (j : ℕ) (hd : s.calls[j]?.map Call.op = some d.op) :
      ∃ c', (s.calls.set j d.settle)[i]? = some c' ∧ c'.op = c.op := by
    rw [List.getElem?_set]
    by_cases hij : j = i
    · subst hij
      rw [hc, Option.map_some, Option.some.injEq] at hd
      have hlt := (List.getElem?_eq_some_iff.mp hc).1
      exact ⟨d.settle, by simp [hlt], d.settle_op.trans hd.symm⟩
    · exact ⟨c, by simp [hij, hc], rfl⟩
  cases h with
  | tick _ => exact ⟨c, hc, rfl⟩
  | spawn op =>
    have hlt := (List.getElem?_eq_some_iff.mp hc).1
    exact ⟨c, by rw [List.getElem?_append_left hlt]; exact hc, rfl⟩
  | exec he hf => exact resumed _ _ (by simp [he])
  | commit he => exact resumed _ _ (by simp [he])
  | rollback he => exact resumed _ _ (by simp [he])
  | abort he => exact resumed _ _ (by simp [he])

theorem Stepped.op_of {c : Call Op σ W ρ α} (h : Stepped code s a s') (hc : c ∈ s'.calls) :
    (∃ d ∈ s.calls, d.op = c.op) ∨ a = .spawn c.op := by
  have resumed {d e : Call Op σ W ρ α} {j : ℕ} (hd : s.calls[j]? = some d)
      (hm : c ∈ s.calls.set j e.settle) (he : e.op = d.op) : ∃ d ∈ s.calls, d.op = c.op := by
    rcases List.mem_or_eq_of_mem_set hm with hm | rfl
    · exact ⟨c, hm, rfl⟩
    · exact ⟨d, List.mem_of_getElem? hd, by rw [Call.settle_op, he]⟩
  cases h with
  | tick _ => exact Or.inl ⟨c, hc, rfl⟩
  | spawn op =>
    rcases List.mem_append.mp hc with hc | hc
    · exact Or.inl ⟨c, hc, rfl⟩
    · rw [List.mem_singleton.mp hc, Call.settle_op]
      exact Or.inr rfl
  | exec hd hf => exact Or.inl (resumed hd hc rfl)
  | commit hd => exact Or.inl (resumed hd hc rfl)
  | rollback hd => exact Or.inl (resumed hd hc rfl)
  | abort hd => exact Or.inl (resumed hd hc rfl)

/-- Whether the action starts only operations that pass the test. -/
def Action.spawns (test : Op → Bool) : Action Op → Bool
  | .spawn op => test op
  | _ => true

theorem Run.of_replay_spawns (test : Op → Bool) {actions : List (Action Op)}
    (h : s.replay code actions = some s') (ha : actions.all (Action.spawns test) = true)
    (hc : ∀ c ∈ s.calls, test c.op = true) :
    Run code (fun u b _ => b.spawns test = true ∧ ∀ c ∈ u.calls, test c.op = true) s s' := by
  induction actions generalizing s with
  | nil => rw [System.replay, Option.some.injEq] at h; exact h ▸ .refl s
  | cons a rest ih =>
    obtain ⟨s1, hs, hr⟩ := Option.bind_eq_some_iff.mp h
    rw [List.all_cons, Bool.and_eq_true] at ha
    refine ((Run.refl s).step hs ⟨ha.1, hc⟩).trans (ih hr ha.2 fun c hm => ?_)
    rcases (stepped hs).op_of hm with ⟨d, hd, hop⟩ | rfl
    · exact hop ▸ hc d hd
    · exact ha.1

/-- The induction rule for what remains of the calls that have not ended: `S` holds of the code
of every operation and survives each statement, commit and rollback. -/
theorem Run.scripts {S : Op → Script σ W ρ α → List W → Prop}
    (hcode : ∀ i op, S op (code i op) [])
    (hexec : ∀ op effect next ws e, S op (.exec effect next) ws → (next e).ended = false →
      S op (next e) (ws ++ (effect e).writes))
    (hcommit : ∀ op next ws, S op (.commit next) ws → S op next [])
    (hrollback : ∀ op next ws, S op (.rollback next) ws → S op next [])
    (hr : Run code ok s s')
    (h : ∀ c ∈ s.calls, c.script.ended = false → S c.op c.script c.txn.writes) :
    ∀ c ∈ s'.calls, c.script.ended = false → S c.op c.script c.txn.writes := by
  have settled {c d : Call Op σ W ρ α} (hd : d = c.settle)
      (hc : c.script.ended = false → S c.op c.script c.txn.writes)
      (he : d.script.ended = false) : S d.op d.script d.txn.writes := by
    subst hd
    unfold Call.settle at he ⊢
    split
    · next hend => simp [hend] at he
    · next hend =>
      rw [if_neg hend] at he
      exact hc he
  induction hr with
  | refl => exact h
  | step hr hs _ ih =>
    have resumed {u : System Op σ W ρ α} {i : ℕ} {c : Call Op σ W ρ α}
        (hu : ∀ c ∈ u.calls, c.script.ended = false → S c.op c.script c.txn.writes)
        (hc : c.script.ended = false → S c.op c.script c.txn.writes) :
        ∀ d ∈ (u.resume i c).calls, d.script.ended = false → S d.op d.script d.txn.writes := by
      intro d hd
      rcases List.mem_or_eq_of_mem_set hd with hd | rfl
      · exact hu d hd
      · exact settled rfl hc
    cases stepped hs with
    | tick => exact ih
    | spawn op =>
      intro d hd
      rcases List.mem_append.mp hd with hd | hd
      · exact ih d hd
      · exact settled (List.mem_singleton.mp hd) fun _ => hcode _ op
    | exec hc =>
      exact resumed ih (hexec _ _ _ _ _ (ih _ (List.mem_of_getElem? hc) rfl))
    | commit hc =>
      exact resumed (u := ⟨_, _, _⟩) ih fun _ => hcommit _ _ _ (ih _ (List.mem_of_getElem? hc) rfl)
    | rollback hc =>
      exact resumed ih fun _ => hrollback _ _ _ (ih _ (List.mem_of_getElem? hc) rfl)
    | abort hc => exact resumed ih fun he => by cases he

/-- The induction rule for one call: `S` holds of what remains of it and survives each of its
statements, commits and rollbacks. -/
theorem Run.remains {S : Script σ W ρ α → Prop}
    (hexec : ∀ effect next e, S (.exec effect next) → S (next e))
    (hcommit : ∀ next, S (.commit next) → S next)
    (hrollback : ∀ next, S (.rollback next) → S next) (haborted : S (.raise "aborted"))
    (hr : Run code ok s s') {i : ℕ} {c : Call Op σ W ρ α} (hc : s.calls[i]? = some c)
    (h : S c.script) : ∃ d, s'.calls[i]? = some d ∧ S d.script := by
  induction hr with
  | refl => exact ⟨c, hc, h⟩
  | step hr hs _ ih =>
    obtain ⟨d, hd, hS⟩ := ih
    have resumed {u : System Op σ W ρ α} {j : ℕ} {d' : Call Op σ W ρ α}
        (hu : u.calls[i]? = some d) (hd' : j = i → S d'.script) :
        ∃ d, (u.resume j d').calls[i]? = some d ∧ S d.script := by
      rw [System.resume, List.getElem?_set]
      by_cases hij : j = i
      · have hlt := (List.getElem?_eq_some_iff.mp hu).1
        refine ⟨d'.settle, by simp [hij, hlt], ?_⟩
        rw [Call.settle_script]
        exact hd' hij
      · exact ⟨d, by rw [if_neg hij]; exact hu, hS⟩
    cases stepped hs with
    | tick => exact ⟨d, hd, hS⟩
    | spawn op =>
      have hlt := (List.getElem?_eq_some_iff.mp hd).1
      exact ⟨d, by rw [List.getElem?_append_left hlt]; exact hd, hS⟩
    | exec he hf =>
      refine resumed hd fun hij => ?_
      cases (hij ▸ he).symm.trans hd
      exact hexec _ _ _ hS
    | commit he =>
      refine resumed (u := ⟨_, _, _⟩) hd fun hij => ?_
      cases (hij ▸ he).symm.trans hd
      exact hcommit _ hS
    | rollback he =>
      refine resumed hd fun hij => ?_
      cases (hij ▸ he).symm.trans hd
      exact hrollback _ hS
    | abort he => exact resumed hd fun _ => haborted

theorem Run.ensures {P : Op → Prop} {C : Script σ W ρ α → Prop} {Q : α → List W → Prop}
    (hcode : ∀ i op, P op → (code i op).Ensures C Q [])
    (hr : Run code ok s s') (h : ∀ c ∈ s.calls, P c.op → c.script.ended = false →
      c.script.Ensures C Q c.txn.writes) :
    ∀ c ∈ s'.calls, P c.op → c.script.ended = false → c.script.Ensures C Q c.txn.writes := by
  intro c hc hp he
  refine Run.scripts (S := fun op p ws => P op → p.Ensures C Q ws) hcode
    (fun _ _ _ _ e hS _ hp => hS hp e) (fun _ _ _ hS hp => (hS hp).2) (fun _ _ _ hS hp => hS hp)
    hr (fun c hc he hp => h c hc hp he) c hc he hp

theorem Run.commits {C : List W → Script σ W ρ α → Prop} (hcode : ∀ i op, (code i op).Commits C [])
    (hr : Run code ok s s') (h : s.calls = []) :
    ∀ c ∈ s'.calls, c.script.ended = false → c.script.Commits C c.txn.writes :=
  Run.scripts (S := fun _ p ws => p.Commits C ws) hcode (fun _ _ _ _ e hS _ => hS e)
    (fun _ _ _ hS => hS.2) (fun _ _ _ hS => hS) hr fun c hc => by rw [h] at hc; cases hc

theorem Run.returnsAt {P : Op → Prop} {B : Script σ W ρ α → List W → Prop}
    (hcode : ∀ i op, P op → (code i op).ReturnsAt B []) (hr : Run code ok s s')
    (h : s.calls = []) :
    ∀ c ∈ s'.calls, P c.op → c.script.ended = false → c.script.ReturnsAt B c.txn.writes := by
  intro c hc hp he
  refine Run.scripts (S := fun op p ws => P op → p.ReturnsAt B ws) hcode ?_
    (fun _ _ _ hS => hS) (fun _ _ _ hS => hS) hr (fun c hc => by rw [h] at hc; cases hc) c hc he hp
  intro _ _ _ _ e hS hn hp
  rcases hS hp e with ⟨hend, -⟩ | hS
  · rw [hn] at hend; cases hend
  · exact hS

omit [DecidableEq ρ] [Storage σ W ρ] in
theorem System.done_resume {i : ℕ} {c d : Call Op σ W ρ α} {r : α}
    (hc : (s.resume i d).calls[i]? = some c) (hd : c.script = .done r) :
    d.script = .done r ∧ d.op = c.op := by
  rcases System.calls_resume hc with ⟨-, rfl⟩ | ⟨hne, -⟩
  · unfold Call.settle at hd ⊢
    split at hd <;> simp_all
  · exact absurd rfl hne

/-- The step by which a call returns executes one of the statements at which its code does. -/
theorem Stepped.returnsAt {B : Script σ W ρ α → List W → Prop} {i : ℕ} {c : Call Op σ W ρ α}
    {r : α} (h : ∀ d ∈ s.calls, d.op = c.op → d.script.ended = false →
      d.script.ReturnsAt B d.txn.writes)
    (hs : Stepped code s (.run i) s') (hc : s'.calls[i]? = some c) (hr : c.script = .done r) :
    s'.db = s.db ∧ ∃ d, s.calls[i]? = some d ∧ d.op = c.op ∧ B d.script d.txn.writes := by
  cases hs with
  | exec hd hf =>
    obtain ⟨hdone, hop⟩ := System.done_resume hc hr
    refine ⟨rfl, _, hd, hop, ?_⟩
    rcases h _ (List.mem_of_getElem? hd) hop rfl _ with ⟨-, hB⟩ | hno
    · exact hB
    · dsimp only at hdone
      rw [hdone] at hno
      exact hno.elim
  | commit hd =>
    obtain ⟨hdone, hop⟩ := System.done_resume hc hr
    have hno : Script.ReturnsAt B (.commit _) _ := h _ (List.mem_of_getElem? hd) hop rfl
    dsimp only at hdone
    rw [hdone] at hno
    exact hno.elim
  | rollback hd =>
    obtain ⟨hdone, hop⟩ := System.done_resume hc hr
    have hno : Script.ReturnsAt B (.rollback _) _ := h _ (List.mem_of_getElem? hd) hop rfl
    dsimp only at hdone
    rw [hdone] at hno
    exact hno.elim

/-- How a step has made a call of the state `s'` that it leads to. -/
inductive CallStep (code : ℕ → Op → Script σ W ρ α) (s s' : System Op σ W ρ α) (i : ℕ) :
    Action Op → Call Op σ W ρ α → Prop where
  | same {a c} (hc : s.calls[i]? = some c) : CallStep code s s' i a c
  | spawned (op : Op) : CallStep code s s' i (.spawn op) (Call.settle ⟨op, code i op, {}⟩)
  | exec {op effect next t} (hc : s.calls[i]? = some ⟨op, .exec effect next, t⟩) :
      CallStep code s s' i (.run i) (Call.settle ⟨op, next (t.env s.world (s.free i)),
        t.after (t.env s.world (s.free i)) (effect (t.env s.world (s.free i)))⟩)
  | commit {op next t} (hc : s.calls[i]? = some ⟨op, .commit next, t⟩)
      (hdb : s'.db = view t.writes s.db) :
      CallStep code s s' i (.run i) (Call.settle ⟨op, next, {}⟩)
  | rollback {op next t} (hc : s.calls[i]? = some ⟨op, .rollback next, t⟩) :
      CallStep code s s' i (.run i) (Call.settle ⟨op, next, {}⟩)
  | abort {c} (hc : s.calls[i]? = some c) :
      CallStep code s s' i (.abort i) (Call.settle ⟨c.op, .raise "aborted", {}⟩)

/-- A step makes each call in one of these ways. -/
theorem Stepped.call {i : ℕ} {c : Call Op σ W ρ α} (h : Stepped code s a s')
    (hc : s'.calls[i]? = some c) : CallStep code s s' i a c := by
  cases h with
  | tick => exact .same hc
  | spawn op =>
    rw [List.getElem?_append] at hc
    split at hc
    · exact .same hc
    · next hlt =>
      rw [List.getElem?_singleton] at hc
      split at hc
      · obtain rfl : i = s.calls.length := by omega
        rw [← Option.some.inj hc]
        exact .spawned op
      · cases hc
  | exec he =>
    rcases System.calls_resume hc with ⟨rfl, rfl⟩ | ⟨-, ho⟩
    · exact .exec he
    · exact .same ho
  | commit he =>
    rcases System.calls_resume hc with ⟨rfl, rfl⟩ | ⟨-, ho⟩
    · exact .commit he rfl
    · exact .same ho
  | rollback he =>
    rcases System.calls_resume hc with ⟨rfl, rfl⟩ | ⟨-, ho⟩
    · exact .rollback he
    · exact .same ho
  | abort he =>
    rcases System.calls_resume hc with ⟨rfl, rfl⟩ | ⟨-, ho⟩
    · exact .abort he
    · exact .same ho

/-- Call `i` has met this in the run from `s` to `s'`. -/
def Met (code : ℕ → Op → Script σ W ρ α)
    (ok : System Op σ W ρ α → Action Op → System Op σ W ρ α → Prop)
    (i : ℕ) (s s' : System Op σ W ρ α) : Script.Seen σ W ρ → Prop
  | .saw e => ∃ u u' c, Run code ok s u ∧ u.step code (.run i) = some u' ∧ Run code ok u' s' ∧
      u.calls[i]? = some c ∧ e = c.txn.env u.world (u.free i)
  | .committed writes => ∃ u u', Run code ok s u ∧ u.step code (.run i) = some u' ∧
      Run code ok u' s' ∧ u'.db = view writes u.db

theorem Met.trans {i : ℕ} {x : Script.Seen σ W ρ} (h : Met code ok i s s' x)
    (hr : Run code ok s' s'') : Met code ok i s s'' x := by
  cases x with
  | saw e =>
    obtain ⟨u, u', c, hu, hs, hu', hrest⟩ := h
    exact ⟨u, u', c, hu, hs, hu'.trans hr, hrest⟩
  | committed writes =>
    obtain ⟨u, u', hu, hs, hu', hdb⟩ := h
    exact ⟨u, u', hu, hs, hu'.trans hr, hdb⟩

omit [DecidableEq ρ] [Storage σ W ρ] in
theorem Call.raises_settle {P : String → List (Script.Seen σ W ρ) → Prop}
    {c : Call Op σ W ρ α} {past : List (Script.Seen σ W ρ)}
    (h : c.script.Raises P c.txn.writes past) :
    c.settle.script.Raises P c.settle.txn.writes past := by
  obtain ⟨op, script, t⟩ := c
  cases script <;> exact h

/-- A call of the operations `B` that has raised was aborted, or has met what its code says. -/
theorem Run.raises {B : Op → Prop} {P : String → List (Script.Seen σ W ρ) → Prop}
    (hcode : ∀ i op, B op → (code i op).Raises P [] []) (hr : Run code ok s s')
    (h : s.calls = []) {i : ℕ} {c : Call Op σ W ρ α} {error : String}
    (hc : s'.calls[i]? = some c) (hb : B c.op) (herror : c.script = .raise error) :
    error = "aborted" ∨ ∃ past, (∀ x ∈ past, Met code ok i s s' x) ∧ P error past := by
  suffices hinv : c.script = .raise "aborted" ∨ ∃ past, (∀ x ∈ past, Met code ok i s s' x) ∧
      c.script.Raises P c.txn.writes past by
    rw [herror] at hinv
    exact hinv.imp (fun h => Script.raise.inj h) id
  clear herror
  induction hr generalizing c with
  | refl =>
    rw [h] at hc
    cases hc
  | @step u u' a hr hs hok ih =>
    have hlast : Run code ok u u' := (Run.refl u).step hs hok
    cases (stepped hs).call hc with
    | same hcall =>
      refine (ih hcall hb).imp id fun ⟨past, hmet, hraises⟩ => ⟨past, fun x hx => ?_, hraises⟩
      exact (hmet x hx).trans hlast
    | spawned op =>
      refine Or.inr ⟨[], nofun, Call.raises_settle (hcode i op ?_)⟩
      rwa [Call.settle_op] at hb
    | exec hcall =>
      rw [Call.settle_op] at hb
      rcases ih hcall hb with haborted | ⟨past, hmet, hraises⟩
      · cases haborted
      · refine Or.inr ⟨.saw _ :: past, fun x hx => ?_, Call.raises_settle (hraises _)⟩
        rcases List.mem_cons.mp hx with rfl | hx
        · exact ⟨u, u', _, hr, hs, .refl u', hcall, rfl⟩
        · exact (hmet x hx).trans hlast
    | commit hcall hdb =>
      rw [Call.settle_op] at hb
      rcases ih hcall hb with haborted | ⟨past, hmet, hraises⟩
      · cases haborted
      · refine Or.inr ⟨.committed _ :: past, fun x hx => ?_, Call.raises_settle hraises⟩
        rcases List.mem_cons.mp hx with rfl | hx
        · exact ⟨u, u', hr, hs, .refl u', hdb⟩
        · exact (hmet x hx).trans hlast
    | rollback hcall =>
      rw [Call.settle_op] at hb
      rcases ih hcall hb with haborted | ⟨past, hmet, hraises⟩
      · cases haborted
      · exact Or.inr ⟨past, fun x hx => (hmet x hx).trans hlast, Call.raises_settle hraises⟩
    | abort hcall =>
      refine Or.inl ?_
      rw [Call.settle_script]

/-- A call of the operations `B` that has returned has committed before. -/
theorem Run.committed {B : Op → Prop} (hcode : ∀ i op, B op → (code i op).CommitsFirst)
    (hr : Run code ok s s') (h : s.calls = []) {i : ℕ} {c : Call Op σ W ρ α} {r : α}
    (hc : s'.calls[i]? = some c) (hb : B c.op) (hdone : c.script = .done r) :
    ∃ u u' next t, Run code ok s u ∧ u.step code (.run i) = some u' ∧ Run code ok u' s' ∧
      u.calls[i]? = some ⟨c.op, .commit next, t⟩ := by
  suffices hinv : c.script.CommitsFirst ∨ ∃ u u' next t, Run code ok s u ∧
      u.step code (.run i) = some u' ∧ Run code ok u' s' ∧
      u.calls[i]? = some ⟨c.op, .commit next, t⟩ by
    rcases hinv with hfirst | hcommitted
    · rw [hdone] at hfirst
      exact hfirst.elim
    · exact hcommitted
  clear hdone
  induction hr generalizing c with
  | refl =>
    rw [h] at hc
    cases hc
  | @step v v' a hr hs hok ih =>
    have hlast : Run code ok v v' := (Run.refl v).step hs hok
    have hlater {op : Op} (hold : ∃ u u' next t, Run code ok s u ∧
          u.step code (.run i) = some u' ∧ Run code ok u' v ∧
          u.calls[i]? = some ⟨op, .commit next, t⟩) :
        ∃ u u' next t, Run code ok s u ∧ u.step code (.run i) = some u' ∧ Run code ok u' v' ∧
          u.calls[i]? = some ⟨op, .commit next, t⟩ := by
      obtain ⟨u, u', next, t, hu, hs, hu', hcall⟩ := hold
      exact ⟨u, u', next, t, hu, hs, hu'.trans hlast, hcall⟩
    cases (stepped hs).call hc with
    | same hcall => exact (ih hcall hb).imp id hlater
    | spawned op =>
      rw [Call.settle_op] at hb
      rw [Call.settle_script]
      exact Or.inl (hcode i op hb)
    | exec hcall =>
      rw [Call.settle_op] at hb ⊢
      rw [Call.settle_script]
      exact (ih hcall hb).imp (fun hfirst => hfirst _) hlater
    | commit hcall hdb =>
      rw [Call.settle_op]
      exact Or.inr ⟨v, v', _, _, hr, hs, .refl v', hcall⟩
    | rollback hcall =>
      rw [Call.settle_op] at hb ⊢
      rw [Call.settle_script]
      exact (ih hcall hb).imp id hlater
    | abort hcall =>
      rw [Call.settle_script]
      exact Or.inl trivial

end ReadCommitted
