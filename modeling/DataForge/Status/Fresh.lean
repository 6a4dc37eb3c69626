import DataForge.Status.Moves
import DataForge.Texts.Split
import DataForge.Transitions.Fair

/-!
# What the registry knows of the snapshots it hands out

In a run from a new registry, a snapshot that is cached or handed out under a version was read by
a load that started when the namespace had that version or a later one (`Tracked`). Where it
matters which read a snapshot is of, let the snapshots carry the number of their read.
-/

namespace DataForge.Status

open Transitions

variable {S T : Type} {serialize : S → T}

/-- A load of a namespace that started at the time `t₀` has read `x`. -/
structure ReadBy (ρ : Run (statusStep serialize)) (t t0 : ℕ) (ns : String) (x : S) : Prop where
  read : ∃ k, ρ.act t0 = some (.startLoad k) ∧
    (∃ l, (ρ.st t0).snapshots.tasks[k]? = some l ∧ l.ns = ns) ∧
    ∃ t1 > t0, t1 < t ∧ ρ.act t1 = some (.finishLoad k (some x))

/-- `x` was read by a load that started when the namespace had the version or a later one. -/
def Fresh (ρ : Run (statusStep serialize)) (t : ℕ) (ns : String) (v : ℕ) (x : S) : Prop :=
  ∃ t0, ReadBy ρ t t0 ns x ∧ v ≤ (ρ.st t0).version ns

/-- `y` is the text of such a snapshot. -/
def FreshText (ρ : Run (statusStep serialize)) (t : ℕ) (ns : String) (v : ℕ) (y : T) : Prop :=
  ∃ x, y = serialize x ∧ Fresh ρ t ns v x

/-- A load that runs has started when the namespace had its version or a later one. -/
def Started (ρ : Run (statusStep serialize)) (t k : ℕ) (ns : String) (v : ℕ) : Prop :=
  ∃ t0 < t, ρ.act t0 = some (.startLoad k) ∧
    (∃ l, (ρ.st t0).snapshots.tasks[k]? = some l ∧ l.ns = ns) ∧ v ≤ (ρ.st t0).version ns

/-- Every publish so far has installed the version that a socket was last sent, or an earlier
one. -/
def Caller.UpToDate (ρ : Run (statusStep serialize)) (t : ℕ) (c : Caller S T) : Prop :=
  ∃ v y, c.sent = some (v, y) ∧
    ∀ u < t, ρ.act u = some (.publish c.ns) → (ρ.st (u + 1)).version c.ns ≤ v

/-- What is known of a task in a state by its phase. -/
def Caller.Good (ρ : Run (statusStep serialize)) (t : ℕ) (s : Registry S T) (c : Caller S T) :
    Prop :=
  match c.phase with
  | .loading k => ∃ l, s.snapshots.tasks[k]? = some l ∧ l.ns = c.ns
  | .loaded v x => Fresh ρ t c.ns v x ∧ v ≤ s.version c.ns
  | .serializing k => ∃ l, s.serialized.tasks[k]? = some l ∧ l.ns = c.ns
  | .returned v y => FreshText ρ t c.ns v y
  | .waiting f => s.futures[f]? = some .pending → c.call = .stream → c.UpToDate ρ t
  | _ => True

/-- What is known at a time. -/
structure Tracked (ρ : Run (statusStep serialize)) (t : ℕ) : Prop where
  listed : (ρ.st t).Listed
  snapshots : (ρ.st t).snapshots.Sound (ρ.st t).version (fun _ _ _ => True) (Fresh ρ t)
  serialized : (ρ.st t).serialized.Sound (ρ.st t).version (Fresh ρ t) (FreshText ρ t)
  running : ∀ (k : ℕ) (l : Load Unit S), (ρ.st t).snapshots.tasks[k]? = some l →
    l.state = .running → Started ρ t k l.ns l.version
  callers : ∀ (i : ℕ) (c : Caller S T), (ρ.st t).callers[i]? = some c →
    c.Good ρ t (ρ.st t) ∧ ∀ v y, c.sent = some (v, y) → FreshText ρ t c.ns v y

section Steps

variable {ρ : Run (statusStep serialize)} {t t' : ℕ} {ns : String} {v : ℕ} {c : Caller S T}

theorem Fresh.mono {x : S} (h : Fresh ρ t ns v x) (ht : t ≤ t') : Fresh ρ t' ns v x := by
  obtain ⟨t0, ⟨k, hstart, hl, t1, h1, hlt, hfinish⟩, hv⟩ := h
  exact ⟨t0, ⟨k, hstart, hl, t1, h1, Nat.lt_of_lt_of_le hlt ht, hfinish⟩, hv⟩

theorem FreshText.mono {y : T} (h : FreshText ρ t ns v y) (ht : t ≤ t') :
    FreshText ρ t' ns v y := by
  obtain ⟨x, hy, hx⟩ := h
  exact ⟨x, hy, hx.mono ht⟩

theorem Started.mono {k : ℕ} (h : Started ρ t k ns v) (ht : t ≤ t') : Started ρ t' k ns v := by
  obtain ⟨t0, hlt, hrest⟩ := h
  exact ⟨t0, Nat.lt_of_lt_of_le hlt ht, hrest⟩

theorem version_mono (ρ : Run (statusStep serialize)) (ht : t ≤ t') (ns : String) :
    (ρ.st t).version ns ≤ (ρ.st t').version ns := by
  induction t', ht using Nat.le_induction with
  | base => exact Nat.le_refl _
  | succ m _ ih =>
    refine Nat.le_trans ih ?_
    cases ha : ρ.act m with
    | none => exact Nat.le_of_eq (ρ.next_of_pause ha ▸ rfl)
    | some a => exact (statusStep_moves (ρ.next_of_act ha)).version_le ns

theorem publish_lt {u t0 : ℕ} (hu : ρ.act u = some (.publish ns))
    (hv : (ρ.st (u + 1)).version ns ≤ v) (hle : v ≤ (ρ.st t0).version ns) : u < t0 := by
  refine Nat.lt_of_not_le fun hlt => ?_
  have hmono := version_mono ρ hlt ns
  have hnext := Option.some.inj (ρ.next_of_act hu)
  have hsucc : (ρ.st (u + 1)).version ns = (ρ.st u).version ns + 1 := by
    rw [← hnext]
    exact Function.update_self ..
  omega

variable {a : StatusAction S} {s' : Registry S T}

private theorem snapshots_step (h : Tracked ρ t) (ha : ρ.act t = some a)
    (hm : Moves serialize (ρ.st t) a s') :
    s'.snapshots.Sound s'.version (fun _ _ _ => True) (Fresh ρ (t + 1)) := by
  have hold := h.snapshots.mono (fun _ => Nat.le_refl _) (fun _ hne => absurd rfl hne)
    (fun _ _ _ => id) fun _ _ _ hx => Fresh.mono hx (Nat.le_succ t)
  cases hm with
  | bumped ns n => exact hold.bump ns
  | published ns => exact hold.bump ns
  | dropped ns n => exact hold.forget ns
  | loading i c hi hp => exact (hold.sharedLoad _ _ _ trivial (Nat.le_refl _)).1
  | loadStarted k l hk hl => exact hold.setState hk (by rw [hl]; rfl) rfl
  | loadFinished k l result hk hl =>
    refine hold.settle hk (by rw [hl]; rfl) fun x hx => ?_
    obtain ⟨t0, hlt, hstart, hl0, hv⟩ := h.running k l hk hl
    exact ⟨t0, ⟨k, hstart, hl0, t, hlt, Nat.lt_succ_self t, hx ▸ ha⟩, hv⟩
  | _ => exact hold

private theorem serialized_step (h : Tracked ρ t) (hm : Moves serialize (ρ.st t) a s') :
    s'.serialized.Sound s'.version (Fresh ρ (t + 1)) (FreshText ρ (t + 1)) := by
  have hold := h.serialized.mono (fun _ => Nat.le_refl _) (fun _ hne => absurd rfl hne)
    (fun _ _ _ hx => Fresh.mono hx (Nat.le_succ t))
    fun _ _ _ hy => FreshText.mono hy (Nat.le_succ t)
  cases hm with
  | bumped ns n => exact hold.bump ns
  | published ns => exact hold.bump ns
  | dropped ns n => exact hold.forget ns
  | serializing i c v x hi hp =>
    have hc := (h.callers i c hi).1
    rw [Caller.Good, hp] at hc
    exact (hold.sharedLoad _ _ _ (hc.1.mono (Nat.le_succ t)) hc.2).1
  | serializeStarted k l hk hl => exact hold.setState hk (by rw [hl]; rfl) rfl
  | serializeFinished k l result raises hk hl hresult =>
    exact hold.settle hk (by rw [hl]; rfl) fun y hy => ⟨l.input, hresult y hy, hold.input k l hk⟩
  | _ => exact hold

private theorem running_step (h : Tracked ρ t) (ha : ρ.act t = some a)
    (hm : Moves serialize (ρ.st t) a s') (k : ℕ) (l : Load Unit S)
    (hk : s'.snapshots.tasks[k]? = some l) (hl : l.state = .running) :
    Started ρ (t + 1) k l.ns l.version := by
  have hold : ∀ (k : ℕ) (l : Load Unit S), (ρ.st t).snapshots.tasks[k]? = some l →
      l.state = .running → Started ρ (t + 1) k l.ns l.version :=
    fun k l hk hl => (h.running k l hk hl).mono (Nat.le_succ t)
  cases hm with
  | loading i c hi hp => exact hold k l (Stores.running_sharedLoad hk hl) hl
  | loadStarted j l0 hj hl0 =>
    rcases Entries.set_cases hk with ⟨rfl, rfl⟩ | ⟨-, hk⟩
    · exact ⟨t, Nat.lt_succ_self t, ha, ⟨l0, hj, rfl⟩, h.snapshots.bounded k l0 hj⟩
    · exact hold k l hk hl
  | loadFinished j l0 result hj hl0 =>
    rcases Entries.set_cases hk with ⟨rfl, rfl⟩ | ⟨-, hk⟩
    · cases hl
    · exact hold k l hk hl
  | _ => exact hold k l hk hl

private theorem good_step (h : Tracked ρ t) (ha : ρ.act t = some a)
    (hm : Moves serialize (ρ.st t) a s') {i : ℕ} (hi : (ρ.st t).callers[i]? = some c) :
    c.Good ρ (t + 1) s' := by
  have hc := (h.callers i c hi).1
  unfold Caller.Good at hc ⊢
  cases hp : c.phase with
  | loading k =>
    rw [hp] at hc
    obtain ⟨l, hk, hns⟩ := hc
    obtain ⟨l', hk', hns'⟩ := hm.keeps.1 k l hk
    exact ⟨l', hk', hns'.trans hns⟩
  | loaded v x =>
    rw [hp] at hc
    exact ⟨hc.1.mono (Nat.le_succ t), Nat.le_trans hc.2 (hm.version_le c.ns)⟩
  | serializing k =>
    rw [hp] at hc
    obtain ⟨l, hk, hns⟩ := hc
    obtain ⟨l', hk', hns'⟩ := hm.keeps.2 k l hk
    exact ⟨l', hk', hns'.trans hns⟩
  | returned v y =>
    rw [hp] at hc
    exact hc.mono (Nat.le_succ t)
  | waiting f =>
    rw [hp] at hc
    intro hf' hcall
    have hlisted := h.listed i c hi
    rw [Caller.Listed, hp] at hlisted
    obtain ⟨x, hf, hmem⟩ := hlisted
    obtain ⟨x', hx', hpend⟩ := hm.futures h.listed c.ns f x hf
    obtain ⟨rfl, hkeep⟩ := hpend (Option.some.inj (hx'.symm.trans hf'))
    obtain ⟨v, y, hsent, hv⟩ := hc hf hcall
    refine ⟨v, y, hsent, fun u hu hpub => ?_⟩
    by_cases hlt : u < t
    · exact hv u hlt hpub
    · cases Nat.le_antisymm (Nat.le_of_lt_succ hu) (Nat.le_of_not_lt hlt)
      cases ha.symm.trans hpub
      have hin := hkeep (hmem rfl)
      cases hm with
      | published =>
        -- The publish takes every waiter off the list, and this one is still on it.
        change f ∈ Function.update (ρ.st t).waiters c.ns [] c.ns at hin
        rw [Function.update_self] at hin
        cases hin
      | counted ns n _ h => rcases h with h | h <;> cases h
      | stepped j c0 c1 _ hj h => rcases h with h | h <;> cases h
  | called | entered | leaving | woken | failed => trivial

private theorem text_step (h : Tracked ρ t) {i : ℕ} (hi : (ρ.st t).callers[i]? = some c) (v : ℕ)
    (y : T) (hsent : c.sent = some (v, y)) : FreshText ρ (t + 1) c.ns v y :=
  ((h.callers i c hi).2 v y hsent).mono (Nat.le_succ t)

private theorem good_pause (h : Tracked ρ t) (ha : ρ.act t = none) {i : ℕ}
    (hi : (ρ.st t).callers[i]? = some c) : c.Good ρ (t + 1) (ρ.st t) := by
  have hc := (h.callers i c hi).1
  unfold Caller.Good at hc ⊢
  cases hp : c.phase with
  | loaded v x =>
    rw [hp] at hc
    exact ⟨hc.1.mono (Nat.le_succ t), hc.2⟩
  | returned v y =>
    rw [hp] at hc
    exact hc.mono (Nat.le_succ t)
  | waiting f =>
    rw [hp] at hc
    intro hf hcall
    obtain ⟨v, y, hsent, hv⟩ := hc hf hcall
    refine ⟨v, y, hsent, fun u hu hpub => hv u ?_ hpub⟩
    have hne : u ≠ t := by
      rintro rfl
      cases ha.symm.trans hpub
    omega
  | loading k =>
    rw [hp] at hc
    exact hc
  | serializing k =>
    rw [hp] at hc
    exact hc
  | called | entered | leaving | woken | failed => trivial

private theorem stepped_good (h : Tracked ρ t) {i : ℕ} {c' : Caller S T}
    (hi : (ρ.st t).callers[i]? = some c) (hc : Stepped (ρ.st t) c c') :
    c'.Good ρ (t + 1) (ρ.st t) ∧ ∀ v y, c'.sent = some (v, y) → FreshText ρ (t + 1) c'.ns v y := by
  have htext := text_step h hi
  have hgood := (h.callers i c hi).1
  unfold Caller.Good at hgood
  cases hc with
  | loaded k l x hp hk hl =>
    rw [hp] at hgood
    obtain ⟨l', hk', hns⟩ := hgood
    cases hk.symm.trans hk'
    have hx := h.snapshots.value k l x hk hl
    have hle := h.snapshots.bounded k l hk
    rw [hns] at hx hle
    exact ⟨⟨hx.mono (Nat.le_succ t), hle⟩, htext⟩
  | serialized k l y hp hk hl =>
    rw [hp] at hgood
    obtain ⟨l', hk', hns⟩ := hgood
    cases hk.symm.trans hk'
    have hy := h.serialized.value k l y hk hl
    rw [hns] at hy
    exact ⟨hy.mono (Nat.le_succ t), htext⟩
  | sent v y hp =>
    rw [hp] at hgood
    refine ⟨trivial, fun v' y' hsent => ?_⟩
    cases hsent
    exact hgood.mono (Nat.le_succ t)
  | resumed | called | woken | failed => exact ⟨trivial, htext⟩

private theorem callers_step (h : Tracked ρ t) (ha : ρ.act t = some a)
    (hm : Moves serialize (ρ.st t) a s') (i : ℕ) (c : Caller S T)
    (hi : s'.callers[i]? = some c) :
    c.Good ρ (t + 1) s' ∧ ∀ v y, c.sent = some (v, y) → FreshText ρ (t + 1) c.ns v y := by
  have hold : ∀ (j : ℕ) (d : Caller S T), (ρ.st t).callers[j]? = some d →
      d.Good ρ (t + 1) s' ∧ ∀ v y, d.sent = some (v, y) → FreshText ρ (t + 1) d.ns v y :=
    fun j d hj => ⟨good_step h ha hm hj, text_step h hj⟩
  have htext : ∀ (j : ℕ) (d : Caller S T), (ρ.st t).callers[j]? = some d →
      ∀ v y, d.sent = some (v, y) → FreshText ρ (t + 1) d.ns v y := fun j d hj => (hold j d hj).2
  have hset : ∀ (j : ℕ) (d' : Caller S T), s'.callers = (ρ.st t).callers.set j d' →
      (d'.Good ρ (t + 1) s' ∧
        ∀ v y, d'.sent = some (v, y) → FreshText ρ (t + 1) d'.ns v y) →
      c.Good ρ (t + 1) s' ∧ ∀ v y, c.sent = some (v, y) → FreshText ρ (t + 1) c.ns v y := by
    intro j d' hcallers hd'
    rw [hcallers] at hi
    rcases Entries.set_cases hi with ⟨-, rfl⟩ | ⟨-, hi⟩
    · exact hd'
    · exact hold i c hi
  cases hm with
  | called ns call =>
    rcases Entries.append_cases hi with hi | ⟨-, rfl⟩
    · exact hold i c hi
    · refine ⟨?_, fun _ _ hsent => (by cases hsent)⟩
      cases call <;> trivial
  | loading j d hj hp =>
    refine hset j _ rfl ⟨?_, htext j d hj⟩
    obtain ⟨-, hfound⟩ := h.snapshots.sharedLoad d.ns _ () trivial (Nat.le_refl _)
    rcases hfound with ⟨x, hx, hgood⟩ | ⟨k, l, hl, hk, hns, -⟩
    · rw [hx]
      exact ⟨hgood.mono (Nat.le_succ t), Nat.le_refl _⟩
    · rw [hl]
      exact ⟨l, hk, hns⟩
  | serializing j d v x hj hp =>
    refine hset j _ rfl ⟨?_, htext j d hj⟩
    have hd := (h.callers j d hj).1
    rw [Caller.Good, hp] at hd
    obtain ⟨-, hfound⟩ := h.serialized.sharedLoad _ _ _ hd.1 hd.2
    rcases hfound with ⟨y, hy, hgood⟩ | ⟨k, l, hl, hk, hns, -⟩
    · rw [hy]
      exact hgood.mono (Nat.le_succ t)
    · rw [hl]
      exact ⟨l, hk, hns⟩
  | stepped j d d' _ hj _ hc => exact hset j d' rfl (stepped_good h hj hc)
  | registered j d lastSeen hj hp hv =>
    refine hset j _ rfl ⟨fun _ hcall => ?_, htext j d hj⟩
    have hlisted := h.listed j d hj
    rw [Caller.Listed, hp] at hlisted
    obtain ⟨v, y, hsent, rfl⟩ := hlisted hcall
    have hversion := Texts.toString_inj (hv _ rfl)
    refine ⟨v, y, hsent, fun u hu hpub => ?_⟩
    have hne : u ≠ t := by
      rintro rfl
      cases ha.symm.trans hpub
    rw [← hversion]
    exact version_mono ρ (by omega : u + 1 ≤ t) d.ns
  | left j d f token hj hp =>
    refine hset j _ rfl ⟨?_, htext j d hj⟩
    cases token <;> trivial
  | interrupted j d f hj hp => exact hset j _ rfl ⟨trivial, htext j d hj⟩
  | _ => exact hold i c hi

theorem Tracked.step (h : Tracked ρ t) : Tracked ρ (t + 1) := by
  cases ha : ρ.act t with
  | none =>
    have hsame := ρ.next_of_pause ha
    refine ⟨hsame ▸ h.listed, ?_, ?_, ?_, ?_⟩
    · rw [hsame]
      exact h.snapshots.mono (fun _ => Nat.le_refl _) (fun _ hne => absurd rfl hne)
        (fun _ _ _ => id) fun _ _ _ hx => Fresh.mono hx (Nat.le_succ t)
    · rw [hsame]
      exact h.serialized.mono (fun _ => Nat.le_refl _) (fun _ hne => absurd rfl hne)
        (fun _ _ _ hx => Fresh.mono hx (Nat.le_succ t))
        fun _ _ _ hy => FreshText.mono hy (Nat.le_succ t)
    · rw [hsame]
      exact fun k l hk hl => (h.running k l hk hl).mono (Nat.le_succ t)
    · rw [hsame]
      exact fun i c hi => ⟨good_pause h ha hi, text_step h hi⟩
  | some a =>
    have hm := statusStep_moves (ρ.next_of_act ha)
    exact ⟨hm.listed h.listed, snapshots_step h ha hm, serialized_step h hm, running_step h ha hm,
      callers_step h ha hm⟩

theorem tracked_of_empty (h0 : ρ.st 0 = .empty) (t : ℕ) : Tracked ρ t := by
  induction t with
  | zero =>
    refine ⟨?_, ?_, ?_, ?_, ?_⟩ <;> rw [h0]
    · exact fun _ _ hi => (by cases hi)
    · exact .empty
    · exact .empty
    · exact fun _ _ hk => (by cases hk)
    · exact fun _ _ hi => (by cases hi)
  | succ t ih => exact ih.step

end Steps

end DataForge.Status
