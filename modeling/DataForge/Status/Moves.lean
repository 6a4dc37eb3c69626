import DataForge.Status.Registry

/-!
# What a step of the registry can do

The cases of a step (`Moves`), and what holds of the waiters in every state: a pending future that
a task waits for is on the list of its namespace (`Listed`).
-/

namespace DataForge.Status

variable {S T : Type}

/-- The steps of a task that change nothing else. -/
inductive Stepped (s : Registry S T) (c : Caller S T) : Caller S T → Prop where
  | loaded (k : ℕ) (l : Load Unit S) (x : S) (hp : c.phase = .loading k)
      (hk : s.snapshots.tasks[k]? = some l) (hl : l.state = .settled (some x)) :
      Stepped s c { c with phase := .loaded l.version x }
  | serialized (k : ℕ) (l : Load S T) (y : T) (hp : c.phase = .serializing k)
      (hk : s.serialized.tasks[k]? = some l) (hl : l.state = .settled (some y)) :
      Stepped s c { c with phase := .returned l.version y }
  | sent (v : ℕ) (y : T) (hp : c.phase = .returned v y) :
      Stepped s c { c with sent := some (v, y), phase := .entered (some (toString v)) }
  | resumed (f : ℕ) (x : Future) (token : Option String) (hp : c.phase = .waiting f)
      (hf : s.futures[f]? = some x) (hx : x ≠ .pending) :
      Stepped s c { c with phase := .leaving f token }
  | called : Stepped s c { c with phase := .called }
  | woken (token : String) : Stepped s c { c with phase := .woken token }
  | failed : Stepped s c { c with phase := .failed }

/-- What a step can do. -/
inductive Moves (serialize : S → T) (s : Registry S T) : StatusAction S → Registry S T → Prop where
  | bumped (ns : String) (n : ℤ) : Moves serialize s (.subscribe ns)
      ({ s with subscribers := Function.update s.subscribers ns n }.bump ns)
  | counted (ns : String) (n : ℤ) (a : StatusAction S)
      (ha : a = .subscribe ns ∨ a = .unsubscribe ns) : Moves serialize s a
        { s with subscribers := Function.update s.subscribers ns n }
  | dropped (ns : String) (n : ℤ) : Moves serialize s (.unsubscribe ns) { s with
      subscribers := Function.update s.subscribers ns n
      snapshots := s.snapshots.forget ns
      serialized := s.serialized.forget ns }
  | published (ns : String) : Moves serialize s (.publish ns) (s.publish ns)
  | called (ns : String) (call : Call) : Moves serialize s (.call ns call)
      { s with callers := s.callers ++ [⟨call, ns, none, call.first⟩] }
  | loading (i : ℕ) (c : Caller S T) (hi : s.callers[i]? = some c) (hp : c.phase = .called) :
      Moves serialize s (.run i) { s with
        snapshots := (s.snapshots.sharedLoad c.ns (s.version c.ns) ()).1
        callers := s.callers.set i { c with
          phase := (s.snapshots.sharedLoad c.ns (s.version c.ns) ()).2.phase .loaded .loading } }
  | serializing (i : ℕ) (c : Caller S T) (v : ℕ) (x : S) (hi : s.callers[i]? = some c)
      (hp : c.phase = .loaded v x) : Moves serialize s (.run i) { s with
        serialized := (s.serialized.sharedLoad c.ns v x).1
        callers := s.callers.set i { c with
          phase := (s.serialized.sharedLoad c.ns v x).2.phase .returned .serializing } }
  | stepped (i : ℕ) (c c' : Caller S T) (a : StatusAction S) (hi : s.callers[i]? = some c)
      (ha : a = .run i ∨ a = .interrupt i) (hc : Stepped s c c') :
      Moves serialize s a (s.setCaller i c')
  | registered (i : ℕ) (c : Caller S T) (lastSeen : Option String) (hi : s.callers[i]? = some c)
      (hp : c.phase = .entered lastSeen)
      (hv : ∀ token ∈ lastSeen, toString (s.version c.ns) = token) :
      Moves serialize s (.run i) { s with
        waiters := Function.update s.waiters c.ns (s.waiters c.ns ++ [s.futures.length])
        futures := s.futures ++ [.pending]
        callers := s.callers.set i { c with phase := .waiting s.futures.length } }
  | left (i : ℕ) (c : Caller S T) (f : ℕ) (token : Option String) (hi : s.callers[i]? = some c)
      (hp : c.phase = .leaving f token) : Moves serialize s (.run i) { s with
        waiters := s.discardWaiter c.ns f
        callers := s.callers.set i { c with phase := token.elim .failed .woken } }
  | interrupted (i : ℕ) (c : Caller S T) (f : ℕ) (hi : s.callers[i]? = some c)
      (hp : c.phase = .waiting f) : Moves serialize s (.interrupt i) { s with
        futures := s.futures.modify f Future.cancel
        callers := s.callers.set i { c with phase := .leaving f none } }
  | loadStarted (k : ℕ) (l : Load Unit S) (hk : s.snapshots.tasks[k]? = some l)
      (hl : l.state = .created) : Moves serialize s (.startLoad k)
        { s with snapshots := s.snapshots.setState k l .running }
  | loadFinished (k : ℕ) (l : Load Unit S) (result : Option S)
      (hk : s.snapshots.tasks[k]? = some l) (hl : l.state = .running) :
      Moves serialize s (.finishLoad k result)
        { s with snapshots := s.snapshots.settle s.version k l result }
  | serializeStarted (k : ℕ) (l : Load S T) (hk : s.serialized.tasks[k]? = some l)
      (hl : l.state = .created) : Moves serialize s (.startSerialize k)
        { s with serialized := s.serialized.setState k l .running }
  | serializeFinished (k : ℕ) (l : Load S T) (result : Option T) (raises : Bool)
      (hk : s.serialized.tasks[k]? = some l) (hl : l.state = .running)
      (hresult : ∀ y ∈ result, y = serialize l.input) :
      Moves serialize s (.finishSerialize k raises)
        { s with serialized := s.serialized.settle s.version k l result }

variable {serialize : S → T} {s s' : Registry S T} {a : StatusAction S}

theorem Load.phase_cases {ι α : Type} {l : Load ι α} {done : ℕ → α → Phase S T} {phase : Phase S T}
    (h : l.phase done = some phase) :
    (∃ x, l.state = .settled (some x) ∧ phase = done l.version x) ∨ phase = .failed := by
  unfold Load.phase at h
  split at h
  case h_1 x hl => exact .inl ⟨x, hl, (Option.some.inj h).symm⟩
  case h_2 => exact .inr (Option.some.inj h).symm
  case h_3 => cases h

private theorem runCaller_moves {i : ℕ} {c : Caller S T} (hi : s.callers[i]? = some c)
    (h : s.runCaller i c = some s') : Moves serialize s (.run i) s' := by
  have hstep : ∀ c', Stepped s c c' → Moves serialize s (.run i) (s.setCaller i c') :=
    fun c' => .stepped i c c' _ hi (.inl rfl)
  unfold Registry.runCaller at h
  dsimp only at h
  split at h
  case h_1 hp =>
    cases h
    exact .loading i c hi hp
  case h_2 k hp =>
    obtain ⟨l, hk, h⟩ := Option.bind_eq_some_iff.mp h
    obtain ⟨phase, hphase, rfl⟩ := Option.map_eq_some_iff.mp h
    rcases Load.phase_cases hphase with ⟨x, hl, rfl⟩ | rfl
    · exact hstep _ (.loaded k l x hp hk hl)
    · exact hstep _ .failed
  case h_3 v x hp =>
    split at h
    case isTrue => cases h
    case isFalse =>
      cases h
      exact .serializing i c v x hi hp
  case h_4 k hp =>
    obtain ⟨l, hk, h⟩ := Option.bind_eq_some_iff.mp h
    obtain ⟨phase, hphase, rfl⟩ := Option.map_eq_some_iff.mp h
    rcases Load.phase_cases hphase with ⟨y, hl, rfl⟩ | rfl
    · exact hstep _ (.serialized k l y hp hk hl)
    · exact hstep _ .failed
  case h_5 v y hp =>
    split at h
    case isTrue =>
      cases h
      exact hstep _ (.sent v y hp)
    case isFalse => cases h
  case h_6 lastSeen hp =>
    split at h
    case isTrue =>
      cases h
      exact hstep _ (.woken _)
    case isFalse hv =>
      cases h
      refine .registered i c lastSeen hi hp fun token htoken => ?_
      by_contra hne
      exact hv (by rw [Option.mem_def.mp htoken]; simpa using hne)
  case h_7 f hp =>
    split at h
    case h_1 token hf =>
      cases h
      exact hstep _ (.resumed f _ _ hp hf (fun h => by cases h))
    case h_2 hf =>
      cases h
      exact hstep _ (.resumed f _ _ hp hf (fun h => by cases h))
    case h_3 => cases h
  case h_8 f token hp =>
    cases h
    exact .left i c f token hi hp
  case h_9 token hp =>
    split at h
    case isTrue =>
      cases h
      exact hstep _ .called
    case isFalse => cases h
  case h_10 => cases h

private theorem interruptCaller_moves {i : ℕ} {c : Caller S T} (hi : s.callers[i]? = some c)
    (h : s.interruptCaller i c = some s') : Moves serialize s (.interrupt i) s' := by
  unfold Registry.interruptCaller at h
  split at h
  case h_1 f hp =>
    cases h
    exact .interrupted i c f hi hp
  case h_2 => cases h
  case h_3 =>
    cases h
    exact .stepped i c _ _ hi (.inr rfl) .failed

theorem statusStep_moves (h : statusStep serialize s a = some s') : Moves serialize s a s' := by
  cases a with
  | subscribe ns =>
    cases h
    unfold Registry.subscribe
    dsimp only
    split
    case isTrue => exact .bumped ns _
    case isFalse => exact .counted ns _ _ (.inl rfl)
  | unsubscribe ns =>
    cases h
    unfold Registry.unsubscribe
    split
    case isTrue => exact .dropped ns _
    case isFalse => exact .counted ns _ _ (.inr rfl)
  | publish ns =>
    cases h
    exact .published ns
  | call ns call =>
    cases h
    exact .called ns call
  | run i =>
    obtain ⟨c, hi, h⟩ := Option.bind_eq_some_iff.mp h
    exact runCaller_moves hi h
  | interrupt i =>
    obtain ⟨c, hi, h⟩ := Option.bind_eq_some_iff.mp h
    exact interruptCaller_moves hi h
  | startLoad k =>
    obtain ⟨stores, hs, rfl⟩ := Option.map_eq_some_iff.mp h
    obtain ⟨l, hk, hl, rfl⟩ := Stores.start_eq_some hs
    exact .loadStarted k l hk hl
  | finishLoad k result =>
    obtain ⟨stores, hs, rfl⟩ := Option.map_eq_some_iff.mp h
    obtain ⟨l, hk, hl, rfl⟩ := Stores.finish_eq_some hs
    exact .loadFinished k l result hk hl
  | startSerialize k =>
    obtain ⟨stores, hs, rfl⟩ := Option.map_eq_some_iff.mp h
    obtain ⟨l, hk, hl, rfl⟩ := Stores.start_eq_some hs
    exact .serializeStarted k l hk hl
  | finishSerialize k raises =>
    obtain ⟨stores, hs, rfl⟩ := Option.map_eq_some_iff.mp h
    obtain ⟨l, hk, hl, rfl⟩ := Stores.finish_eq_some hs
    refine .serializeFinished k l _ raises hk hl fun y hy => ?_
    cases raises <;> cases hy
    rfl

theorem Moves.version_le (h : Moves serialize s a s') (ns : String) :
    s.version ns ≤ s'.version ns := by
  have hbump : ∀ ns', s.version ns ≤ Function.update s.version ns' (s.version ns' + 1) ns := by
    intro ns'
    by_cases hns : ns = ns'
    · subst hns
      rw [Function.update_self]
      omega
    · exact Nat.le_of_eq (Function.update_of_ne hns ..).symm
  cases h with
  | bumped ns' n => exact hbump ns'
  | published ns' => exact hbump ns'
  | _ => exact Nat.le_refl _

theorem Moves.keeps (h : Moves serialize s a s') :
    s.snapshots.Keeps s'.snapshots ∧ s.serialized.Keeps s'.serialized := by
  cases h with
  | loading => exact ⟨Stores.keeps_sharedLoad _ _ _ _, .refl _⟩
  | serializing => exact ⟨.refl _, Stores.keeps_sharedLoad _ _ _ _⟩
  | loadStarted k l hk => exact ⟨Stores.keeps_set hk rfl rfl, .refl _⟩
  | loadFinished k l result hk => exact ⟨Stores.keeps_set hk rfl rfl, .refl _⟩
  | serializeStarted k l hk => exact ⟨.refl _, Stores.keeps_set hk rfl rfl⟩
  | serializeFinished k l result raises hk => exact ⟨.refl _, Stores.keeps_set hk rfl rfl⟩
  | _ => exact ⟨fun _ l hk => ⟨l, hk, rfl⟩, fun _ l hk => ⟨l, hk, rfl⟩⟩

/-- The future of a waiter is pending only while it is on the list, and done once the waiter
leaves; a socket waits with the version it was last sent. -/
def Caller.Listed (waiters : String → List ℕ) (futures : List Future) (c : Caller S T) : Prop :=
  match c.phase with
  | .waiting f => ∃ x, futures[f]? = some x ∧ (x = .pending → f ∈ waiters c.ns)
  | .leaving f _ => ∃ x, futures[f]? = some x ∧ x ≠ .pending
  | .entered lastSeen => c.call = .stream →
    ∃ v y, c.sent = some (v, y) ∧ lastSeen = some (toString v)
  | _ => True

/-- `Caller.Listed` for every task. -/
def Registry.Listed (s : Registry S T) : Prop :=
  ∀ (i : ℕ) (c : Caller S T), s.callers[i]? = some c → c.Listed s.waiters s.futures

theorem Caller.Listed.mono {waiters waiters' : String → List ℕ} {futures futures' : List Future}
    {c : Caller S T} (h : c.Listed waiters futures)
    (hle : ∀ (f : ℕ) (x : Future), futures[f]? = some x → ∃ x', futures'[f]? = some x' ∧
      (x' = .pending → x = .pending ∧ (f ∈ waiters c.ns → f ∈ waiters' c.ns))) :
    c.Listed waiters' futures' := by
  unfold Caller.Listed at h ⊢
  split at h
  case h_1 f hp =>
    obtain ⟨x, hf, hx⟩ := h
    obtain ⟨x', hf', hx'⟩ := hle f x hf
    exact ⟨x', hf', fun hpend => (hx' hpend).2 (hx (hx' hpend).1)⟩
  case h_2 f token hp =>
    obtain ⟨x, hf, hx⟩ := h
    obtain ⟨x', hf', hx'⟩ := hle f x hf
    exact ⟨x', hf', fun hpend => hx (hx' hpend).1⟩
  case h_3 => exact h
  case h_4 => trivial

/-- No step makes a future pending again or takes a pending one off its list. -/
theorem Moves.futures (h : Moves serialize s a s') (hs : s.Listed) (ns : String) (f : ℕ)
    (x : Future) (hf : s.futures[f]? = some x) : ∃ x', s'.futures[f]? = some x' ∧
      (x' = .pending → x = .pending ∧ (f ∈ s.waiters ns → f ∈ s'.waiters ns)) := by
  cases h with
  | published ns' =>
    refine ⟨if f ∈ s.waiters ns' then x.resolve (toString (s.version ns' + 1)) else x, ?_,
      fun hx => ?_⟩
    · simp [Registry.publish, Registry.resolve, List.getElem?_mapIdx, hf]
    · split at hx
      case isTrue => cases x <;> cases hx
      case isFalse hmem =>
        refine ⟨hx, fun hns => ?_⟩
        have hne : ns ≠ ns' := fun heq => hmem (heq ▸ hns)
        change f ∈ Function.update s.waiters ns' [] ns
        rwa [Function.update_of_ne hne]
  | registered i c lastSeen hi hp hv =>
    refine ⟨x, Entries.append_old hf,
      fun hx => ⟨hx, fun hns => ?_⟩⟩
    by_cases heq : ns = c.ns
    · subst heq
      dsimp only
      rw [Function.update_self]
      exact List.mem_append_left _ hns
    · dsimp only
      rwa [Function.update_of_ne heq]
  | left i c g token hi hp =>
    refine ⟨x, hf, fun hx => ⟨hx, fun hns => ?_⟩⟩
    have hc := hs i c hi
    rw [Caller.Listed, hp] at hc
    obtain ⟨y, hg, hy⟩ := hc
    dsimp only [Registry.discardWaiter]
    by_cases heq : ns = c.ns
    · subst heq
      rw [Function.update_self]
      have hne : f ≠ g := by
        rintro rfl
        cases hf.symm.trans hg
        exact hy hx
      exact List.mem_filter.mpr ⟨hns, by simp [hne, hf, hx]⟩
    · rwa [Function.update_of_ne heq]
  | interrupted i c g hi hp =>
    refine ⟨if g = f then x.cancel else x, ?_, fun hx => ?_⟩
    · simp only [List.getElem?_modify, hf]
      split <;> rfl
    · split at hx
      case isTrue => cases x <;> cases hx
      case isFalse => exact ⟨hx, id⟩
  | _ => exact ⟨x, hf, fun hx => ⟨hx, id⟩⟩

/-- `Registry.Listed` is kept by every step. -/
theorem Moves.listed (h : Moves serialize s a s') (hs : s.Listed) : s'.Listed := by
  have hold : ∀ (i : ℕ) (c : Caller S T), s.callers[i]? = some c →
      c.Listed s'.waiters s'.futures := fun i c hi => (hs i c hi).mono (h.futures hs c.ns)
  have hset : ∀ (j : ℕ) (c' : Caller S T), s'.callers = s.callers.set j c' →
      c'.Listed s'.waiters s'.futures → s'.Listed := by
    intro j c' hcallers hc' i c hi
    rw [hcallers] at hi
    rcases Entries.set_cases hi with ⟨-, rfl⟩ | ⟨-, hi⟩
    · exact hc'
    · exact hold i c hi
  cases h with
  | called ns call =>
    intro i c hi
    rcases Entries.append_cases hi with hi | ⟨-, rfl⟩
    · exact hold i c hi
    · cases call with
      | waitForNamespace lastSeen => exact fun hcall => (by cases hcall)
      | _ => trivial
  | loading i c hi hp =>
    refine hset i _ rfl ?_
    cases (s.snapshots.sharedLoad c.ns (s.version c.ns) ()).2 <;> trivial
  | serializing i c v x hi hp =>
    refine hset i _ rfl ?_
    cases (s.serialized.sharedLoad c.ns v x).2 <;> trivial
  | stepped i c c' a hi ha hc =>
    refine hset i c' rfl ?_
    cases hc with
    | sent v y hp => exact fun _ => ⟨v, y, rfl, rfl⟩
    | resumed f x token hp hf hx => exact ⟨x, hf, hx⟩
    | _ => trivial
  | registered i c lastSeen hi hp hv =>
    refine hset i _ rfl ⟨.pending, List.getElem?_concat_length, fun _ => ?_⟩
    dsimp only
    rw [Function.update_self]
    exact List.mem_append_right _ (List.mem_singleton.mpr rfl)
  | left i c f token hi hp =>
    refine hset i _ rfl ?_
    cases token <;> trivial
  | interrupted i c f hi hp =>
    have hc := hs i c hi
    rw [Caller.Listed, hp] at hc
    obtain ⟨x, hf, -⟩ := hc
    refine hset i _ rfl ⟨x.cancel, ?_, ?_⟩
    · simp [hf]
    · cases x <;> intro hx <;> cases hx
  | _ => exact hold

end DataForge.Status
