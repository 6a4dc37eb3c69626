import DataForge.ReadCommitted.System
import Mathlib.Logic.Relation

/-!
# Verifying scripts under interference

Library `ReadCommitted`. A protocol says what the commits of each operation may do to the
committed state and which invariant they keep. A script meets the protocol when, whatever
the other transactions commit between its statements (but never against its locks), every
commit of its own is allowed. `Verified.good` turns such proofs, one per operation, into
facts about every run of every number of calls.
-/

namespace ReadCommitted

variable {Op σ W ρ α β : Type}

/-- The locks of two transactions that are open at the same time. -/
def Compatible (h h' : List (Lock ρ)) : Prop :=
  ∀ k ∈ h, ∀ k' ∈ h', k.res = k'.res → k.mode.compatible k'.mode = true

theorem Compatible.symm {h h' : List (Lock ρ)} (hc : Compatible h h') : Compatible h' h := by
  intro k hk k' hk' hr
  have hm := hc k' hk' k hk hr.symm
  revert hm
  cases k.mode <;> cases k'.mode <;> simp [Mode.compatible]

theorem Compatible.mono {h1 h2 h' : List (Lock ρ)} (hs : h1 ⊆ h2) (hc : Compatible h2 h') :
    Compatible h1 h' := fun k hk => hc k (hs hk)

theorem Compatible.not_exclusive {h h' : List (Lock ρ)} {k k' : Lock ρ} (hc : Compatible h h')
    (hk : k ∈ h) (hk' : k' ∈ h') (hm : k'.mode = .exclusive) : k.res ≠ k'.res := by
  intro hr
  have hx := hc k hk k' hk' hr
  rw [hm] at hx
  cases hmode : k.mode <;> simp [hmode, Mode.compatible] at hx

variable [Storage σ W ρ]

/-- The transaction holds every row it has written. -/
def Txn.Guarded (t : Txn W ρ) : Prop :=
  ∀ v ∈ t.writes, ∃ k ∈ t.held, k.res = Storage.target v ∧ k.mode = .exclusive

theorem Txn.guarded_empty : Txn.Guarded (W := W) (ρ := ρ) {} := fun _ hv => by cases hv

theorem Txn.Guarded.after {t : Txn W ρ} (h : t.Guarded) (e : Env σ ρ) (f : Effect W ρ) :
    (t.after e f).Guarded := by
  intro v hv
  rcases List.mem_append.mp hv with hv | hv
  · obtain ⟨k, hk, hkv⟩ := h v hv
    exact ⟨k, List.mem_append_right _ hk, hkv⟩
  · refine ⟨⟨Storage.target v, .exclusive, e.now⟩, List.mem_append_left _ ?_, rfl, rfl⟩
    refine List.mem_map.mpr ⟨(Storage.target v, .exclusive), ?_, rfl⟩
    exact List.mem_append_right _ (List.mem_map.mpr ⟨v, hv, rfl⟩)

theorem Txn.held_subset_after (t : Txn W ρ) (e : Env σ ρ) (f : Effect W ρ) :
    t.held ⊆ (t.after e f).held := List.subset_append_right _ _

theorem Txn.lock_mem_after (t : Txn W ρ) (e : Env σ ρ) {f : Effect W ρ} {n : ρ × Mode}
    (hn : n ∈ f.needs) : (⟨n.1, n.2, e.now⟩ : Lock ρ) ∈ (t.after e f).held :=
  List.mem_append_left _ (List.mem_map.mpr ⟨n, hn, rfl⟩)

/-- What a family of operations promises: `act i op held w db` is what a commit of call `i`
of `op` under these locks may turn the committed state of `w` into. `calls` and `cond` are
the conditions on callers and on commits under which the promise is made. `visited i f` is a
ghost: the states of the run at hand in which call `i` executes a statement with the effect
`f`, so that what a call does can be traced to what it read. -/
structure Protocol (Op σ W ρ : Type) where
  visited : ℕ → (Env σ ρ → Effect W ρ) → World σ → Prop
  calls : Op → Prop
  inv : World σ → Prop
  act : ℕ → Op → List (Lock ρ) → World σ → σ → Prop
  cond : Op → World σ → σ → Prop
  inv_tick {w : World σ} {n : ℕ} : inv w → w.now ≤ n → inv ⟨n, w.db⟩
  inv_act {i : ℕ} {op : Op} {h : List (Lock ρ)} {w : World σ} {db : σ} :
    calls op → inv w → cond op w db → act i op h w db → inv ⟨w.now, db⟩

namespace Protocol

variable (P : Protocol Op σ W ρ)

/-- A commit of another call that is compatible with the locks `h`. -/
structure Commits (h : List (Lock ρ)) (w : World σ) (db : σ) (i : ℕ) (op : Op) (t : Txn W ρ) :
    Prop where
  calls : P.calls op
  inv : P.inv w
  compatible : Compatible h t.held
  guarded : t.Guarded
  cond : P.cond op w db
  act : P.act i op t.held w db
  eq : db = view t.writes w.db

/-- What may happen between two statements of a transaction that holds `h`. -/
inductive Interferes (h : List (Lock ρ)) : World σ → World σ → Prop where
  | tick {w : World σ} {n : ℕ} (hn : w.now ≤ n) : Interferes h w ⟨n, w.db⟩
  | commit {w : World σ} {db : σ} {i : ℕ} {op : Op} {t : Txn W ρ} (hc : P.Commits h w db i op t) :
      Interferes h w ⟨w.now, db⟩

/-- Any amount of interference. -/
def Rely (h : List (Lock ρ)) : World σ → World σ → Prop :=
  Relation.ReflTransGen (P.Interferes h)

variable {P} {h h' : List (Lock ρ)} {w w' w'' : World σ}

theorem Rely.refl : P.Rely h w w := Relation.ReflTransGen.refl

theorem Rely.trans (hr : P.Rely h w w') (hr' : P.Rely h w' w'') : P.Rely h w w'' :=
  Relation.ReflTransGen.trans hr hr'

theorem Rely.mono (hs : h ⊆ h') (hr : P.Rely h' w w') : P.Rely h w w' := by
  induction hr with
  | refl => exact .refl
  | tail _ hab ih =>
    refine ih.tail ?_
    cases hab with
    | tick hn => exact .tick hn
    | commit hc => exact .commit { hc with compatible := hc.compatible.mono hs }

/-- The induction rule: a property kept by ticks and by compatible commits is stable. -/
theorem Rely.stable {S : World σ → Prop}
    (tick : ∀ w n, w.now ≤ n → S w → S ⟨n, w.db⟩)
    (commit : ∀ w db i op t, P.Commits h w db i op t → S w → S ⟨w.now, db⟩)
    (hr : P.Rely h w w') (hw : S w) : S w' := by
  induction hr with
  | refl => exact hw
  | tail _ hs ih =>
    cases hs with
    | tick hn => exact tick _ _ hn ih
    | commit hc => exact commit _ _ _ _ _ hc ih

theorem Rely.now_le (hr : P.Rely h w w') : w.now ≤ w'.now :=
  hr.stable (S := fun v => w.now ≤ v.now) (fun _ _ hn hi => Nat.le_trans hi hn)
    (fun _ _ _ _ _ _ hi => hi) (Nat.le_refl _)

theorem Commits.same {db : σ} {i : ℕ} {op : Op} {t : Txn W ρ} {k : Lock ρ}
    (hc : P.Commits h w db i op t) (hk : k ∈ h) : Storage.same W k.res db w.db := by
  rw [hc.eq]
  apply view_same_of_ne
  intro v hv hr
  obtain ⟨k', hk', hres, hm⟩ := hc.guarded v hv
  exact hc.compatible.not_exclusive hk hk' hm (by rw [hres, hr])

theorem Rely.same {k : Lock ρ} (hr : P.Rely h w w') (hk : k ∈ h) :
    Storage.same W k.res w'.db w.db :=
  hr.stable (S := fun v => Storage.same W k.res v.db w.db) (fun _ _ _ hi => hi)
    (fun _ _ _ _ _ hc hi => (Storage.same_equiv k.res).trans (hc.same hk) hi)
    ((Storage.same_equiv k.res).refl _)

/-- A relation between the committed and the staged state, resource by resource, that a
transaction builds up statement by statement. -/
def Staged (R : List (Lock ρ) → ρ → σ → σ → Prop) (t : Txn W ρ) (w : World σ) : Prop :=
  ∀ r, R t.held r w.db (view t.writes w.db)

/-- A relation that looks at one resource only, allows no change, and needs no lock's absence. -/
structure Local (W : Type) [Storage σ W ρ] (R : List (Lock ρ) → ρ → σ → σ → Prop) : Prop where
  refl (h : List (Lock ρ)) (r : ρ) (db : σ) : R h r db db
  mono {h h' : List (Lock ρ)} {r : ρ} {a b : σ} : h ⊆ h' → R h r a b → R h' r a b
  congr {h : List (Lock ρ)} {r : ρ} {a a' b b' : σ} : Storage.same W r a' a →
    Storage.same W r b' b → R h r a b → R h r a' b'

variable {R : List (Lock ρ) → ρ → σ → σ → Prop}

theorem Staged.rely {t : Txn W ρ} (hl : Local W R) (hg : t.Guarded) (hr : P.Rely t.held w w')
    (hs : Staged R t w) : Staged R t w' := by
  intro r
  by_cases hv : ∃ v ∈ t.writes, Storage.target v = r
  · obtain ⟨v, hv, rfl⟩ := hv
    obtain ⟨k, hk, hres, -⟩ := hg v hv
    have hsame := hr.same hk
    rw [hres] at hsame
    exact hl.congr hsame (view_same t.writes hsame) (hs _)
  · have hne : ∀ v ∈ t.writes, Storage.target v ≠ r := fun v hm he => hv ⟨v, hm, he⟩
    exact hl.congr ((Storage.same_equiv r).refl _) (view_same_of_ne w'.db hne) (hl.refl _ _ w'.db)

omit [Storage σ W ρ] in
theorem Staged.empty [Storage σ W ρ] (hl : Local W R) (w : World σ) :
    Staged (W := W) R {} w := fun r => hl.refl _ r w.db

theorem Staged.lock {t : Txn W ρ} {e : Env σ ρ} {locks : List (ρ × Mode)} (hl : Local W R)
    (hs : Staged R t w) :
    Staged R (t.after e ⟨locks, []⟩) w := by
  intro r
  have hv : (t.after e ⟨locks, []⟩).writes = t.writes := List.append_nil _
  rw [hv]
  exact hl.mono (t.held_subset_after e _) (hs r)

theorem Staged.write {t : Txn W ρ} {e : Env σ ρ} {f : Effect W ρ} (hl : Local W R)
    (hs : Staged R t w) (hw : ∀ v ∈ f.writes, R (t.after e f).held (Storage.target v) w.db
      (view f.writes (view t.writes w.db))) : Staged R (t.after e f) w := by
  intro r
  have hv : view (t.after e f).writes w.db = view f.writes (view t.writes w.db) :=
    view_append _ _ _
  rw [hv]
  by_cases hx : ∃ v ∈ f.writes, Storage.target v = r
  · obtain ⟨v, hm, rfl⟩ := hx
    exact hw v hm
  · have hne : ∀ v ∈ f.writes, Storage.target v ≠ r := fun v hm he => hx ⟨v, hm, he⟩
    exact hl.congr ((Storage.same_equiv r).refl _) (view_same_of_ne _ hne)
      (hl.mono (t.held_subset_after e f) (hs r))

variable (P)

/-- The weakest precondition of the rest of a call: under any interference, every commit is
allowed and a returned value satisfies `Q` at the moment the call ends. -/
def wp (i : ℕ) (op : Op) (Q : α → Txn W ρ → World σ → Prop) :
    Script σ W ρ α → Txn W ρ → World σ → Prop
  | .done a, t, w => Q a t w
  | .raise _, _, _ => True
  | .exec effect next, t, w => ∀ w' free, P.Rely t.held w w' → P.inv w' →
      P.visited i effect w' →
      wp i op Q (next (t.env w' free))
        (t.after (t.env w' free) (effect (t.env w' free))) w'
  | .commit next, t, w => ∀ w', P.Rely t.held w w' → P.inv w' →
      P.cond op w' (view t.writes w'.db) →
      P.act i op t.held w' (view t.writes w'.db) ∧
        wp i op Q next {} ⟨w'.now, view t.writes w'.db⟩
  | .rollback next, t, w => ∀ w', P.Rely t.held w w' → P.inv w' → wp i op Q next {} w'

variable {P} {i : ℕ} {op : Op} {t : Txn W ρ}

theorem wp_bind {Q : β → Txn W ρ → World σ → Prop} (p : Script σ W ρ α)
    (k : α → Script σ W ρ β) :
    P.wp i op Q (p >>= k) t w ↔ P.wp i op (fun a t w => P.wp i op Q (k a) t w) p t w := by
  change P.wp i op Q (Script.bind p k) t w ↔ _
  induction p generalizing t w with
  | done a => exact Iff.rfl
  | raise e => exact Iff.rfl
  | exec effect next ih => simp only [Script.bind, wp, ih]
  | commit next ih => simp only [Script.bind, wp, ih]
  | rollback next ih => simp only [Script.bind, wp, ih]

variable (P) (i) in
/-- What a statement of `t` sees when call `i` executes it in `w`. -/
structure Sees (t : Txn W ρ) (w : World σ) (e : Env σ ρ) : Prop where
  visited : ∃ effect, P.visited i effect w
  db : e.db = view t.writes w.db
  now : e.now = w.now
  began : e.began = t.began.getD w.now

section Rules

variable {Q : α → Txn W ρ → World σ → Prop}

theorem wp_exec {effect : Env σ ρ → Effect W ρ} {next : Env σ ρ → Script σ W ρ α}
    (h : ∀ w' e, P.Rely t.held w w' → P.inv w' → P.Sees i t w' e →
      P.wp i op Q (next e) (t.after e (effect e)) w') : P.wp i op Q (.exec effect next) t w :=
  fun w' _ hr hi hv => h w' _ hr hi ⟨⟨effect, hv⟩, rfl, rfl, rfl⟩

variable {k : β → Script σ W ρ α} {result : Env σ ρ → β}

theorem wp_statement {effect : Env σ ρ → Effect W ρ}
    (h : ∀ w' e, P.Rely t.held w w' → P.inv w' → P.Sees i t w' e →
      P.wp i op Q (k (result e)) (t.after e (effect e)) w') :
    P.wp i op Q (Script.statement effect result >>= k) t w := wp_exec h

theorem wp_query (h : ∀ w' e, P.Rely t.held w w' → P.inv w' → P.Sees i t w' e →
      P.wp i op Q (k (result e)) ⟨t.held, t.writes, some e.began⟩ w') :
    P.wp i op Q (Script.query result >>= k) t w :=
  wp_exec fun w' e hr hi hs => by
    rw [Txn.after_query]
    exact h w' e hr hi hs

theorem wp_read
    (h : ∀ w' e, P.Rely t.held w w' → P.inv w' → P.visited i (fun _ => {}) w' → P.Sees i t w' e →
      P.wp i op Q (k (result e)) ⟨t.held, t.writes, some e.began⟩ w') :
    P.wp i op Q (Script.query result >>= k) t w :=
  fun w' _ hr hi hv => by
    rw [Txn.after_query]
    exact h w' _ hr hi hv ⟨⟨_, hv⟩, rfl, rfl, rfl⟩

theorem wp_commit {k : Unit → Script σ W ρ α}
    (h : ∀ w', P.Rely t.held w w' → P.inv w' → P.cond op w' (view t.writes w'.db) →
      P.act i op t.held w' (view t.writes w'.db) ∧
        P.wp i op Q (k ()) {} ⟨w'.now, view t.writes w'.db⟩) :
    P.wp i op Q (Script.commitNow >>= k) t w := h

theorem wp_rollback {k : Unit → Script σ W ρ α}
    (h : ∀ w', P.Rely t.held w w' → P.inv w' → P.wp i op Q (k ()) {} w') :
    P.wp i op Q (Script.rollbackNow >>= k) t w := h

theorem wp_within {σ' W' ρ' γ : Type} {part : σ → σ'} {write : W' → W} {res : ρ' → ρ}
    {p : Script σ' W' ρ' γ} {k : γ → Script σ W ρ α} {ws : List W'}
    (hact : ∀ held w (ws : List W'), P.inv w → P.act i op held w (view (ws.map write) w.db))
    (hp : p.Ensures (fun _ => True) (fun _ ws => ws = []) ws) (ht : t.writes = ws.map write)
    (hk : ∀ a t' w', t'.writes = [] → P.wp i op Q (k a) t' w') :
    P.wp i op Q (p.within part write res >>= k) t w := by
  change P.wp i op Q (Script.bind _ k) t w
  induction p generalizing t w ws with
  | done a =>
    have hws : ws = [] := hp
    exact hk a t w (by rw [ht, hws]; rfl)
  | raise e => trivial
  | exec effect next ih =>
    intro w' free _ _ _
    refine ih _ (hp _) ?_
    rw [Txn.after, ht, List.map_append]
  | commit next ih =>
    intro w' _ hi _
    rw [ht]
    exact ⟨hact _ _ _ hi, ih hp.2 rfl⟩
  | rollback next ih => exact fun w' _ _ => ih hp rfl

end Rules

theorem wp_rely {Q : α → Txn W ρ → World σ → Prop} {p : Script σ W ρ α} (he : p.ended = false)
    (hr : P.Rely t.held w w') (hp : P.wp i op Q p t w) : P.wp i op Q p t w' := by
  cases p with
  | done a => cases he
  | raise e => cases he
  | exec effect next => exact fun w'' free hr' => hp w'' free (hr.trans hr')
  | commit next => exact fun w'' hr' => hp w'' (hr.trans hr')
  | rollback next => exact fun w'' hr' => hp w'' (hr.trans hr')

end Protocol

section Soundness

variable (P : Protocol Op σ W ρ) (code : ℕ → Op → Script σ W ρ α)
  (Q : ℕ → Op → α → Txn W ρ → World σ → Prop)

/-- Every operation meets the protocol, and returns what `Q` says. -/
def Verified : Prop :=
  ∀ i op w, P.calls op → P.inv w → P.wp i op (Q i op) (code i op) {} w

/-- What the protocol asks of a step: only admitted calls start, commits meet `cond`, and
statements are executed in visited states. -/
structure Protocol.Admits (s : System Op σ W ρ α) (a : Action Op) (s' : System Op σ W ρ α) :
    Prop where
  calls (op : Op) : a = .spawn op → P.calls op
  cond (i : ℕ) (c : Call Op σ W ρ α) (next : Script σ W ρ α) : a = .run i →
    s.calls[i]? = some c → c.script = .commit next → P.cond c.op s.world s'.db
  visited (i : ℕ) (c : Call Op σ W ρ α) (effect : Env σ ρ → Effect W ρ)
    (next : Env σ ρ → Script σ W ρ α) : a = .run i → s.calls[i]? = some c →
    c.script = .exec effect next → P.visited i effect s.world

/-- A call that is open, with what is known about the rest of it. -/
structure Live (i : ℕ) (c : Call Op σ W ρ α) (w : World σ) : Prop where
  calls : P.calls c.op
  guarded : c.txn.Guarded
  wp : c.script.ended = false → P.wp i c.op (Q i c.op) c.script c.txn w

/-- The invariant of a system of verified calls. -/
structure Good (s : System Op σ W ρ α) : Prop where
  inv : P.inv s.world
  compatible (i j : ℕ) (c d : Call Op σ W ρ α) : i ≠ j → s.calls[i]? = some c →
    s.calls[j]? = some d → Compatible c.txn.held d.txn.held
  live (i : ℕ) (c : Call Op σ W ρ α) : s.calls[i]? = some c → Live P Q i c s.world

variable {P code Q} {s s' : System Op σ W ρ α} {a : Action Op}

theorem Good.start {now : ℕ} {db : σ} (h : P.inv ⟨now, db⟩) :
    Good P Q (⟨now, db, []⟩ : System Op σ W ρ α) where
  inv := h
  compatible := fun _ _ _ _ _ hc => by simp at hc
  live := fun _ _ hc => by simp at hc

omit [Storage σ W ρ] in
private theorem settle_held_subset (c : Call Op σ W ρ α) : c.settle.txn.held ⊆ c.txn.held :=
  fun _ hk => Call.mem_held_settle hk

variable {c : Call Op σ W ρ α}

private theorem Live.settle {i : ℕ} {w : World σ} (h : Live P Q i c w) :
    Live P Q i c.settle w := by
  unfold Call.settle
  split
  · next he => exact ⟨h.calls, Txn.guarded_empty, fun hn => by rw [he] at hn; cases hn⟩
  · exact h

private theorem Live.rely {i : ℕ} {w w' : World σ} (hr : P.Rely c.txn.held w w')
    (h : Live P Q i c w) : Live P Q i c w' :=
  ⟨h.calls, h.guarded, fun he => Protocol.wp_rely he hr (h.wp he)⟩

/-- Call `i` goes on with `c` while the committed state becomes `db`: what the other calls
know survives, provided that `db` is an interference they admit. -/
private theorem Good.resume {i : ℕ} {db : σ} (h : Good P Q s) (hinv : P.inv ⟨s.now, db⟩)
    (hothers : ∀ j d, j ≠ i → s.calls[j]? = some d →
      P.Rely d.txn.held s.world ⟨s.now, db⟩ ∧ Compatible c.txn.held d.txn.held)
    (hlive : Live P Q i c ⟨s.now, db⟩) :
    Good P Q (System.resume ⟨s.now, db, s.calls⟩ i c) where
  inv := hinv
  compatible := by
    intro j k d e hjk hd he
    rcases System.calls_resume hd with ⟨rfl, rfl⟩ | ⟨hj, hd'⟩
    · rcases System.calls_resume he with ⟨rfl, -⟩ | ⟨hk, he'⟩
      · exact absurd rfl hjk
      · exact (hothers k e hk he').2.mono (settle_held_subset c)
    · rcases System.calls_resume he with ⟨rfl, rfl⟩ | ⟨hk, he'⟩
      · exact ((hothers j d hj hd').2.mono (settle_held_subset c)).symm
      · exact h.compatible j k d e hjk hd' he'
  live := by
    intro j d hd
    rcases System.calls_resume hd with ⟨rfl, rfl⟩ | ⟨hj, hd'⟩
    · exact hlive.settle
    · exact (h.live j d hd').rely (hothers j d hj hd').1

variable [DecidableEq ρ]

omit [Storage σ W ρ] in
private theorem compatible_of_free {i j : ℕ} {d : Call Op σ W ρ α} {n : ρ × Mode} {since : ℕ}
    (hf : s.free i n.1 n.2 = true) (hij : j ≠ i) (hd : s.calls[j]? = some d) :
    ∀ k ∈ d.txn.held, (⟨n.1, n.2, since⟩ : Lock ρ).res = k.res →
      n.2.compatible k.mode = true := by
  intro k hk hr
  have hmem : d ∈ s.calls.eraseIdx i :=
    List.mem_eraseIdx_iff_getElem?.mpr ⟨j, hij, hd⟩
  have hall := List.all_eq_true.mp (List.all_eq_true.mp hf d hmem) k hk
  have hk' : k.mode.compatible n.2 = true := by
    rcases Bool.or_eq_true_iff.mp hall with hne | hm
    · exact absurd hr.symm (of_decide_eq_true hne)
    · exact hm
  revert hk'
  cases k.mode <;> cases n.2 <;> simp [Mode.compatible]

omit [DecidableEq ρ] in
theorem Good.commits (h : Good P Q s) {i : ℕ} {next : Script σ W ρ α} (hc : s.calls[i]? = some c)
    (hs : c.script = .commit next) (hcond : P.cond c.op s.world (view c.txn.writes s.db)) :
    P.act i c.op c.txn.held s.world (view c.txn.writes s.db) := by
  have hl := h.live i c hc
  have hwp := hl.wp (by rw [hs]; rfl)
  rw [hs] at hwp
  exact (hwp s.world .refl h.inv hcond).1

/-- Steps keep a system of verified calls good. -/
theorem Good.step (hv : Verified P code Q) (h : Good P Q s) (hs : s.step code a = some s')
    (ha : P.Admits s a s') : Good P Q s' := by
  have hidle {w : World σ} {hs : List (Lock ρ)} : P.Rely hs w w := .refl
  cases stepped hs with
  | tick ht =>
    refine ⟨P.inv_tick h.inv ht, h.compatible, fun i c hc => ?_⟩
    exact (h.live i c hc).rely (.single (.tick ht))
  | spawn op =>
    have hcalls := ha.calls op rfl
    have hnew : Live P Q s.calls.length
        (Call.settle ⟨op, code s.calls.length op, {}⟩) s.world :=
      Live.settle ⟨hcalls, Txn.guarded_empty, fun _ => hv _ op _ hcalls h.inv⟩
    have hempty (d : Call Op σ W ρ α) :
        Compatible (Call.settle ⟨op, code s.calls.length op, {}⟩ : Call Op σ W ρ α).txn.held
          d.txn.held := fun k hk => by cases Call.mem_held_settle hk
    have hcases {j : ℕ} {d : Call Op σ W ρ α} (hd : (s.calls ++
        [Call.settle ⟨op, code s.calls.length op, {}⟩])[j]? = some d) :
        s.calls[j]? = some d ∨
          (j = s.calls.length ∧ d = Call.settle ⟨op, code s.calls.length op, {}⟩) := by
      rw [List.getElem?_append] at hd
      split at hd
      · exact Or.inl hd
      · next hlt =>
        rw [List.getElem?_singleton] at hd
        split at hd
        · next h0 => exact Or.inr ⟨by omega, (Option.some.inj hd).symm⟩
        · cases hd
    refine ⟨h.inv, ?_, ?_⟩
    · intro i j c d hij hc hd
      rcases hcases hc with hc | ⟨rfl, rfl⟩
      · rcases hcases hd with hd | ⟨rfl, rfl⟩
        · exact h.compatible i j c d hij hc hd
        · exact (hempty c).symm
      · exact hempty d
    · intro i c hc
      rcases hcases hc with hc | ⟨rfl, rfl⟩
      · exact h.live i c hc
      · exact hnew
  | exec hc hf =>
    have hl := h.live _ _ hc
    refine h.resume h.inv ?_ ⟨hl.calls, hl.guarded.after _ _, fun _ => ?_⟩
    · intro j d hj hd
      refine ⟨hidle, ?_⟩
      intro k hk k' hk' hr
      rcases List.mem_append.mp hk with hk | hk
      · obtain ⟨n, hn, rfl⟩ := List.mem_map.mp hk
        exact compatible_of_free (hf n hn) hj hd k' hk' hr
      · exact h.compatible _ j _ d (Ne.symm hj) hc hd k hk k' hk' hr
    · exact hl.wp rfl s.world _ .refl h.inv
        (ha.visited _ _ _ _ rfl hc rfl)
  | commit hc =>
    have hl := h.live _ _ hc
    have hcond := ha.cond _ _ _ rfl hc rfl
    have hwp := hl.wp rfl s.world .refl h.inv hcond
    refine h.resume (P.inv_act hl.calls h.inv hcond hwp.1) ?_
      ⟨hl.calls, Txn.guarded_empty, fun _ => hwp.2⟩
    intro j d hj hd
    refine ⟨.single (.commit ⟨hl.calls, h.inv, ?_, hl.guarded, hcond, hwp.1, rfl⟩), ?_⟩
    · exact h.compatible j _ d _ hj hd hc
    · exact fun k hk => by cases hk
  | rollback hc =>
    have hl := h.live _ _ hc
    refine h.resume h.inv (fun j d hj hd => ⟨hidle, fun k hk => by cases hk⟩) ?_
    exact ⟨hl.calls, Txn.guarded_empty, fun _ => hl.wp rfl s.world .refl h.inv⟩
  | abort hc =>
    have hl := h.live _ _ hc
    refine h.resume h.inv (fun j d hj hd => ⟨hidle, fun k hk => by cases hk⟩) ?_
    exact ⟨hl.calls, Txn.guarded_empty, fun he => by cases he⟩

theorem Good.run (hv : Verified P code Q) (h : Good P Q s) (hr : Run code P.Admits s s') :
    Good P Q s' := by
  induction hr with
  | refl => exact h
  | step _ hs ha ih => exact ih.step hv hs ha

theorem Good.changes (h : Good P Q s) (hs : s.step code a = some s') (ha : P.Admits s a s') :
    s'.db = s.db ∨ ∃ i c next, a = .run i ∧ s.calls[i]? = some c ∧ c.script = .commit next ∧
      s'.db = view c.txn.writes s.db ∧ s'.now = s.now ∧
      P.cond c.op s.world s'.db ∧ P.act i c.op c.txn.held s.world s'.db := by
  cases stepped hs with
  | commit hc =>
    have hcond := ha.cond _ _ _ rfl hc rfl
    exact Or.inr ⟨_, _, _, rfl, hc, rfl, rfl, rfl, hcond, h.commits hc rfl hcond⟩
  | _ => exact Or.inl rfl

theorem Good.evolves (hv : Verified P code Q) (h : Good P Q s)
    (hr : Run code P.Admits s s') : P.Rely [] s.world s'.world := by
  induction hr with
  | refl => exact .refl
  | step hr hs ha ih =>
    have hg := h.run hv hr
    refine ih.trans ?_
    cases stepped hs with
    | tick ht => exact .single (.tick ht)
    | commit hc =>
      have hl := hg.live _ _ hc
      have hcond := ha.cond _ _ _ rfl hc rfl
      refine .single (.commit ⟨hl.calls, hg.inv, ?_, hl.guarded, hcond,
        hg.commits hc rfl hcond, rfl⟩)
      exact fun k hk => by cases hk
    | _ => exact .refl

/-- If the step commits, its call and the state it finds satisfy `E`. -/
def Meets (E : Op → World σ → Prop) (s : System Op σ W ρ α) (a : Action Op)
    (_ : System Op σ W ρ α) : Prop :=
  ∀ i c next, a = .run i → s.calls[i]? = some c → c.script = .commit next → E c.op s.world

/-- Whether the call that the action commits, if it commits one, passes the test. -/
def System.meets (test : Op → World σ → Bool) (s : System Op σ W ρ α) : Action Op → Bool
  | .run i => match s.calls[i]? with
    | some ⟨op, .commit _, _⟩ => test op s.world
    | _ => true
  | _ => true

variable {E : Op → World σ → Prop}

omit [Storage σ W ρ] [DecidableEq ρ] in
theorem System.meets_of_test {test : Op → World σ → Bool} (hE : ∀ op w, test op w = true → E op w)
    (h : s.meets test a = true) : Meets E s a s' := by
  rintro i ⟨op, script, t⟩ next rfl hc hs
  subst hs
  simp only [System.meets, hc] at h
  exact hE _ _ h

theorem Run.of_replay_meets {test : Op → World σ → Bool} (hE : ∀ op w, test op w = true → E op w)
    {actions : List (Action Op)} (h : s.replayWhen code (System.meets test) actions = some s') :
    Run code (Meets E) s s' :=
  (Run.of_replayWhen h).mono fun _ _ _ htest => System.meets_of_test hE htest

/-- The induction rule for runs whose commits satisfy `E`. -/
theorem Good.preserves {S : World σ → Prop} (hv : Verified P code Q) (h : Good P Q s)
    (tick : ∀ w n, w.now ≤ n → S w → S ⟨n, w.db⟩)
    (commit : ∀ w db i op t, P.Commits [] w db i op t → E op w → S w → S ⟨w.now, db⟩)
    (hr : Run code (fun s a s' => P.Admits s a s' ∧ Meets E s a s') s s') (hw : S s.world) :
    S s'.world := by
  induction hr with
  | refl => exact hw
  | step hr hs ha ih =>
    have hg := h.run hv (hr.mono fun _ _ _ ha => ha.1)
    cases stepped hs with
    | tick ht => exact tick _ _ ht ih
    | commit hc =>
      have hl := hg.live _ _ hc
      have hcond := ha.1.cond _ _ _ rfl hc rfl
      refine commit _ _ _ _ _ ⟨hl.calls, hg.inv, ?_, hl.guarded, hcond,
        hg.commits hc rfl hcond, rfl⟩ (ha.2 _ _ _ rfl hc rfl) ih
      exact fun k hk => by cases hk
    | _ => exact ih

/-- What a call returns satisfies `Q` at the step that ends it. -/
theorem Good.returns (h : Good P Q s) {i : ℕ} (hs : s.step code (.run i) = some s')
    (ha : P.Admits s (.run i) s') {r : α} (hc : s'.calls[i]? = some c) (hd : c.script = .done r) :
    ∃ t, Q i c.op r t s'.world := by
  cases stepped hs with
  | exec he hf =>
    obtain ⟨hdone, hop⟩ := System.done_resume hc hd
    have hwp := (h.live _ _ he).wp rfl s.world (s.free i) .refl h.inv
      (ha.visited _ _ _ _ rfl he rfl)
    dsimp only at hdone hop hwp
    rw [hdone] at hwp
    exact ⟨_, hop ▸ hwp⟩
  | commit he =>
    obtain ⟨hdone, hop⟩ := System.done_resume hc hd
    have hcond := ha.cond _ _ _ rfl he rfl
    have hwp := ((h.live _ _ he).wp rfl s.world .refl h.inv hcond).2
    dsimp only at hdone hop hwp
    rw [hdone] at hwp
    exact ⟨_, hop ▸ hwp⟩
  | rollback he =>
    obtain ⟨hdone, hop⟩ := System.done_resume hc hd
    have hwp := (h.live _ _ he).wp rfl s.world .refl h.inv
    dsimp only at hdone hop hwp
    rw [hdone] at hwp
    exact ⟨_, hop ▸ hwp⟩

end Soundness
end ReadCommitted
