import Mathlib.Algebra.BigOperators.Group.Multiset.Basic
import Mathlib.Algebra.GroupWithZero.Nat
import Mathlib.Logic.Relation

/-!
# Threads over a lock-protected state

Library `Monitor`. Threads share a state that they touch only inside critical sections. A
thread is a stack of frames, the running one first; one section of the running frame changes
the shared state, may set the outcome the frame below reads, and replaces the frame by the
frames that go on. Anything may happen between two sections, so a run interleaves the
sections of all threads in any order.

An invariant may speak about the shared state and about all frames at once, as a multiset: a
section only has to be checked for the running frame, next to any frames `F` of the others
(`Steady`).
-/

namespace Monitor

/-- A call stack, and the outcome of the call that returned last. -/
structure Thread (φ ρ : Type) where
  stack : List φ
  result : Option ρ

/-- Shared state and threads. Threads are never removed, so an index names one thread. -/
structure Config (σ φ ρ : Type) where
  shared : σ
  threads : List (Thread φ ρ)

/-- One scheduling decision. -/
inductive Action (φ ε η : Type) where
  | call (f : φ)
  | run (i : ℕ) (c : ε)
  | outside (o : η)

/-- The sections of the frames, and the changes that the environment makes by itself. -/
structure Code (σ φ ρ ε η : Type) where
  run : ε → σ → Option ρ → φ → Option (σ × Option ρ × List φ)
  outside : η → σ → σ

variable {σ φ ρ ε η : Type}

namespace Config

/-- One step; `none` when the thread has ended or its next section is not enabled. -/
def step (code : Code σ φ ρ ε η) (s : Config σ φ ρ) : Action φ ε η → Option (Config σ φ ρ)
  | .call f => some ⟨s.shared, s.threads ++ [⟨[f], none⟩]⟩
  | .run i c =>
    match s.threads[i]? with
    | some ⟨f :: rest, r⟩ =>
      (code.run c s.shared r f).map fun x => ⟨x.1, s.threads.set i ⟨x.2.2 ++ rest, x.2.1⟩⟩
    | _ => none
  | .outside o => some ⟨code.outside o s.shared, s.threads⟩

/-- The frames of all threads. -/
def frames (s : Config σ φ ρ) : Multiset φ :=
  (s.threads.map fun t => (t.stack : Multiset φ)).sum

theorem mem_frames {s : Config σ φ ρ} {f : φ} : f ∈ s.frames ↔ ∃ t ∈ s.threads, f ∈ t.stack := by
  unfold frames
  induction s.threads with
  | nil => simp
  | cons t rest ih => simp [ih]

/-- Runs whose steps all meet `Q`. -/
def Reaches (code : Code σ φ ρ ε η) (Q : Config σ φ ρ → Action φ ε η → Prop) :
    Config σ φ ρ → Config σ φ ρ → Prop :=
  Relation.ReflTransGen fun s s' => ∃ a, Q s a ∧ s.step code a = some s'

/-- Carry out a list of actions, each of which has to pass a test. -/
def replay (code : Code σ φ ρ ε η) (test : Config σ φ ρ → Action φ ε η → Bool) :
    Config σ φ ρ → List (Action φ ε η) → Option (Config σ φ ρ)
  | s, [] => some s
  | s, a :: rest => if test s a then (s.step code a).bind (replay code test · rest) else none

theorem Reaches.of_replay {code : Code σ φ ρ ε η} {test : Config σ φ ρ → Action φ ε η → Bool}
    {Q : Config σ φ ρ → Action φ ε η → Prop} (hQ : ∀ s a, test s a = true → Q s a)
    {s s' : Config σ φ ρ} {acts : List (Action φ ε η)}
    (h : s.replay code test acts = some s') : s.Reaches code Q s' := by
  induction acts generalizing s with
  | nil =>
    cases h
    exact .refl
  | cons a rest ih =>
    simp only [replay] at h
    split at h
    case isTrue ht =>
      obtain ⟨u, hu, hr⟩ := Option.bind_eq_some_iff.mp h
      exact .head ⟨a, hQ s a ht, hu⟩ (ih hr)
    case isFalse => cases h

theorem exists_of_replay {code : Code σ φ ρ ε η} {Q : Config σ φ ρ → Action φ ε η → Prop}
    [∀ s a, Decidable (Q s a)] {P : Config σ φ ρ → Prop} [DecidablePred P] {s : Config σ φ ρ}
    (acts : List (Action φ ε η))
    (h : ((s.replay code (fun s a => decide (Q s a)) acts).any fun s' => decide (P s')) = true) :
    ∃ s', s.Reaches code Q s' ∧ P s' := by
  obtain ⟨s', hs, hp⟩ := (Option.any_eq_true _ _).mp h
  exact ⟨s', .of_replay (fun _ _ => of_decide_eq_true) hs, of_decide_eq_true hp⟩

theorem Reaches.mono {code : Code σ φ ρ ε η} {Q R : Config σ φ ρ → Action φ ε η → Prop}
    (hQR : ∀ s a, Q s a → R s a) {s s' : Config σ φ ρ} (h : s.Reaches code Q s') :
    s.Reaches code R s' :=
  Relation.ReflTransGen.mono (fun _ _ ⟨a, hq, hs⟩ => ⟨a, hQR _ a hq, hs⟩) _ _ h

end Config

/-- Replacing the running frame of one thread leaves the other frames as they are. -/
theorem Config.frames_run {s : Config σ φ ρ} {i : ℕ} {f : φ} {rest : List φ} {r : Option ρ}
    (hi : s.threads[i]? = some ⟨f :: rest, r⟩) :
    ∃ F, s.frames = f ::ₘ F ∧ ∀ (σ' : σ) (r' : Option ρ) (fs : List φ),
      (Config.mk σ' (s.threads.set i ⟨fs ++ rest, r'⟩)).frames = fs + F := by
  obtain ⟨hlt, ht⟩ := List.getElem?_eq_some_iff.mp hi
  have hsplit : s.threads = s.threads.take i ++ ⟨f :: rest, r⟩ :: s.threads.drop (i + 1) := by
    rw [← ht, List.getElem_cons_drop, List.take_append_drop]
  let before := ((s.threads.take i).map fun t => (t.stack : Multiset φ)).sum
  let after := ((s.threads.drop (i + 1)).map fun t => (t.stack : Multiset φ)).sum
  refine ⟨before + (rest + after), ?_, fun σ' r' fs => ?_⟩
  · rw [Config.frames, hsplit, List.map_append, List.sum_append, List.map_cons, List.sum_cons,
      ← Multiset.cons_coe, Multiset.cons_add, Multiset.add_cons]
  · rw [Config.frames, List.set_eq_take_append_cons_drop, if_pos hlt, List.map_append,
      List.sum_append, List.map_cons, List.sum_cons, ← Multiset.coe_add, add_assoc]
    exact add_left_comm _ _ _

/-- What a measure of frames adds up to. -/
def total {M : Type} [AddCommMonoid M] (g : φ → M) (F : Multiset φ) : M := (F.map g).sum

@[simp] theorem total_cons {M : Type} [AddCommMonoid M] (g : φ → M) (f : φ) (F : Multiset φ) :
    total g (f ::ₘ F) = g f + total g F := by
  simp [total]

@[simp] theorem total_coe_add {M : Type} [AddCommMonoid M] (g : φ → M) (fs : List φ)
    (F : Multiset φ) : total g (fs + F) = (fs.map g).sum + total g F := by
  simp [total]

/-- The rule for invariants of the shared state and all frames: a new thread, one section of
one frame next to any other frames `F`, or a change from outside keeps `Inv`. -/
structure Steady (code : Code σ φ ρ ε η) (Q : Config σ φ ρ → Action φ ε η → Prop)
    (Inv : σ → Multiset φ → Prop) : Prop where
  call : ∀ (s : Config σ φ ρ) (f : φ), Q s (.call f) → Inv s.shared s.frames →
    Inv s.shared (f ::ₘ s.frames)
  run : ∀ (s : Config σ φ ρ) (i : ℕ) (c : ε) (f : φ) (rest : List φ) (r : Option ρ)
    (F : Multiset φ), s.threads[i]? = some ⟨f :: rest, r⟩ → Q s (.run i c) →
    s.frames = f ::ₘ F → Inv s.shared (f ::ₘ F) →
    ∀ σ' r' fs, code.run c s.shared r f = some (σ', r', fs) → Inv σ' (fs + F)
  outside : ∀ (s : Config σ φ ρ) (o : η), Q s (.outside o) → Inv s.shared s.frames →
    Inv (code.outside o s.shared) s.frames

variable {code : Code σ φ ρ ε η} {Q : Config σ φ ρ → Action φ ε η → Prop}
  {Inv : σ → Multiset φ → Prop}

theorem Steady.step (l : Steady code Q Inv) {s s' : Config σ φ ρ} {a : Action φ ε η}
    (hq : Q s a) (hs : s.step code a = some s') (h : Inv s.shared s.frames) :
    Inv s'.shared s'.frames := by
  cases a with
  | call f =>
    cases hs
    have ht : (Config.mk s.shared (s.threads ++ [⟨[f], none⟩])).frames = f ::ₘ s.frames := by
      simp [Config.frames, add_comm, ← Multiset.singleton_add]
    rw [ht]
    exact l.call s f hq h
  | run i c =>
    simp only [Config.step] at hs
    split at hs
    case h_1 f rest r hi =>
      obtain ⟨x, hx, rfl⟩ := Option.map_eq_some_iff.mp hs
      obtain ⟨F, hF, hset⟩ := Config.frames_run hi
      rw [hset]
      exact l.run s i c f rest r F hi hq hF (hF ▸ h) _ _ _ hx
    case h_2 => cases hs
  | outside o =>
    cases hs
    exact l.outside s o hq h

theorem Steady.reaches (l : Steady code Q Inv) {s s' : Config σ φ ρ}
    (hr : s.Reaches code Q s') (h : Inv s.shared s.frames) : Inv s'.shared s'.frames := by
  induction hr with
  | refl => exact h
  | tail _ hstep ih =>
    obtain ⟨a, hq, hs⟩ := hstep
    exact l.step hq hs ih

end Monitor
