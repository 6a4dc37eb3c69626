import DataForge.Analyses.Optimistic
import Std.Data.String.ToNat

/-!
# Runs of optimistic editing

Any number of clients edit analyses under `revisions.require`. Every step keeps the data or commits
one mutation that presents the current revision, so that no revision is used up twice.
-/

namespace DataForge.Analyses

open ReadCommitted

variable {κ δ : Type}

abbrev EditSystem (κ δ : Type) :=
  System (Request κ δ) (Tables κ δ) (TableWrite κ δ) TableRow Reply

abbrev EditCall (κ δ : Type) := Call (Request κ δ) (Tables κ δ) (TableWrite κ δ) TableRow Reply

/-- The states that the clients reach from `s`, in any interleaving, with any calls cut off. -/
def Reaches (R : Rules κ δ) (s s' : EditSystem κ δ) : Prop :=
  Run (code R) (fun _ _ _ => True) s s'

/-- The version numbers of an analysis are pairwise distinct. -/
def Numbered (db : Tables κ δ) : Prop :=
  ∀ vid vid' w w', db.versions.get vid = some w → db.versions.get vid' = some w' →
    w.analysisId = w'.analysisId → w.snapshot.version = w'.snapshot.version → vid = vid'

/-- The states of the runs that start without clients. -/
def Reachable (R : Rules κ δ) (s : EditSystem κ δ) : Prop :=
  ∃ now db, Numbered db ∧ Reaches R ⟨now, db, []⟩ s

/-- The request passes the check of `If-Match` at this revision. -/
def Request.Presents (request : Request κ δ) (revision : ℕ) : Prop :=
  validate revision request.mutation.analysisId request.ifMatch = .ok ()

/-- Call `i` commits its mutation, whose analysis was `row`, and has only a refresh left to do. -/
structure Committed (i : ℕ) (c : EditCall κ δ) (row : Analysis κ δ) (s s' : EditSystem κ δ) :
    Prop where
  call : s.calls[i]? = some c
  found : s.db.analyses.get c.op.mutation.analysisId = some row
  presented : c.op.Presents row.revision
  outside : SameOutside c.op.mutation.analysisId s.db s'.db
  mutated : Mutated row s.db s'.db c.op.mutation
  settled : ∃ c', s'.calls[i]? = some c' ∧ Settled c'.script

/-- The row of an analysis changes with a step. -/
def Changes (id : String) (s s' : EditSystem κ δ) : Prop :=
  s'.db.analyses.get id ≠ s.db.analyses.get id

section Headers

variable {id : String} {n n' : ℕ}

private theorem repr_ne_etagFor : Nat.repr n ≠ etagFor id n' := by
  intro h
  have hmem : '"' ∈ (Nat.repr n).toList := by
    rw [h, etagFor]
    simp
  have hdigit := Nat.isDigit_of_mem_toDigits (by decide) (by decide)
    ((Nat.toList_repr (n := n)) ▸ hmem)
  revert hdigit
  decide

private theorem etagFor_inj (h : etagFor id n = etagFor id n') : n = n' := by
  have hlist := congrArg String.toList h
  simp only [etagFor, String.toList_append, List.append_assoc, List.append_cancel_left_eq] at hlist
  exact Nat.repr_injective (String.toList_injective (List.append_cancel_right hlist))

theorem validate_inj {ifMatch : Option String} (h : validate n id ifMatch = .ok ())
    (h' : validate n' id ifMatch = .ok ()) : n = n' := by
  cases ifMatch with
  | none => cases h
  | some ifMatch =>
    simp only [validate] at h h'
    split at h
    · split at h'
      · next hn hn' =>
        rcases hn with hn | hn <;> rcases hn' with hn' | hn' <;> rw [hn] at hn'
        · exact Nat.repr_injective hn'
        · exact absurd hn' repr_ne_etagFor
        · exact absurd hn'.symm repr_ne_etagFor
        · exact etagFor_inj hn'
      · cases h'
    · cases h

end Headers

section Steps

variable {R : Rules κ δ} {s s' : EditSystem κ δ} {a : Action (Request κ δ)} {id : String}

private theorem admits (s s' : EditSystem κ δ) (a : Action (Request κ δ)) :
    (protocol κ δ).Admits s a s' :=
  ⟨fun _ _ => trivial, fun _ _ _ _ _ _ => trivial, fun _ _ _ _ _ _ _ => trivial⟩

theorem Reachable.good (h : Reachable R s) :
    Good (protocol κ δ) (fun _ _ => anyReply) s := by
  obtain ⟨now, db, -, hrun⟩ := h
  exact (Good.start trivial).run (verified R) (hrun.mono fun u b v _ => admits u v b)

theorem Reachable.reaches (h : Reachable R s) (hr : Reaches R s s') : Reachable R s' := by
  obtain ⟨now, db, hdb, hrun⟩ := h
  exact ⟨now, db, hdb, hrun.trans hr⟩

theorem Reachable.step (h : Reachable R s) (hs : s.step (code R) a = some s') : Reachable R s' :=
  h.reaches ((Run.refl s).step hs trivial)

/-- A step keeps the data, or commits a mutation that presents the current revision. -/
theorem Reachable.committed (h : Reachable R s) (hs : s.step (code R) a = some s') :
    SameData s.db s'.db ∨ ∃ i c row, a = .run i ∧ Committed i c row s s' := by
  rcases h.good.changes hs (admits s s' a) with hdb | ⟨i, c, next, rfl, hc, hcommit, hview, -, -,
    hact⟩
  · rw [hdb]
    exact Or.inl ⟨fun _ => rfl, fun _ => rfl, fun _ => rfl⟩
  rcases hact with hsame | ⟨-, row, hrow, hvalid, houtside, hmutated⟩
  · exact Or.inl hsame
  obtain ⟨now, db, -, hrun⟩ := h
  have honce := hrun.commits (C := CommitsOnce) commits_code rfl c (List.mem_of_getElem? hc)
    (by rw [hcommit]; rfl)
  rw [hcommit] at honce
  rcases honce.1 with ⟨locks, hlocks⟩ | hsettled
  · rw [hview, hlocks]
    exact Or.inl (sameData_view_locks locks s.db)
  · refine Or.inr ⟨i, c, row, rfl, hc, hrow, hvalid, houtside, hmutated, ?_⟩
    obtain ⟨op, script, t⟩ := c
    dsimp only at hcommit
    subst hcommit
    cases stepped hs with
    | commit hc' =>
      cases hc.symm.trans hc'
      have hlt := (List.getElem?_eq_some_iff.mp hc).1
      refine ⟨_, List.getElem?_set_self hlt, ?_⟩
      unfold Call.settle
      split <;> exact hsettled
    | exec hc' => cases hc.symm.trans hc'
    | rollback hc' => cases hc.symm.trans hc'

private theorem numbered_of_kept {a b : Tables κ δ} (hdb : Numbered a)
    (h : ∀ vid w, b.versions.get vid = some w → ∃ w0, a.versions.get vid = some w0 ∧
      w0.analysisId = w.analysisId ∧ w0.snapshot.version = w.snapshot.version) : Numbered b := by
  intro vid vid' w w' hw hw' hid hversion
  obtain ⟨w0, hw0, hid0, hversion₀⟩ := h vid w hw
  obtain ⟨w1, hw1, hid1, hversion₁⟩ := h vid' w' hw'
  exact hdb vid vid' w0 w1 hw0 hw1 (by rw [hid0, hid1, hid])
    (by rw [hversion₀, hversion₁, hversion])

variable {row : Analysis κ δ} {mutation : Mutation κ δ}

/-- A mutation keeps version numbers apart. -/
theorem Mutated.numbered {a b : Tables κ δ} (h : Mutated row a b mutation) (hdb : Numbered a) :
    Numbered b := by
  cases h with
  | edit hafter hrevision hnew hversions hnumber =>
    intro vid vid' w w' hw hw' hid hversion
    rw [hversions] at hw hw'
    split at hw <;> split at hw'
    · next hv hv' => rw [hv, hv']
    · next hv hv' =>
      cases hw
      exact absurd hversion (hnumber vid' w' hw' hid.symm).ne'
    · next hv hv' =>
      cases hw'
      exact absurd hversion (hnumber vid w hw hid).ne
    · exact hdb vid vid' w w' hw hw' hid hversion
  | deleted hafter hversions =>
    exact numbered_of_kept hdb fun vid w hw => ⟨w, (hversions vid w hw).1, rfl, rfl⟩
  | versionDeleted hafter hversions =>
    refine numbered_of_kept hdb fun vid w hw => ⟨w, ?_, rfl, rfl⟩
    rw [hversions] at hw
    split at hw
    · cases hw
    · exact hw
  | versionRenamed hafter hrow hversions =>
    refine numbered_of_kept hdb fun vid w hw => ?_
    rw [hversions] at hw
    split at hw
    · next hv =>
      cases hw
      subst hv
      exact ⟨_, hrow, rfl, rfl⟩
    · exact ⟨w, hw, rfl, rfl⟩

theorem Reachable.numbered (h : Reachable R s) : Numbered s.db := by
  obtain ⟨now, db, hdb, hrun⟩ := h
  have hrun' := hrun
  induction hrun with
  | refl => exact hdb
  | step hr hs _ ih =>
    have hreach : Reachable R _ := ⟨now, db, hdb, hr⟩
    rcases hreach.committed hs with hsame | ⟨i, c, row, -, hc⟩
    · refine numbered_of_kept (ih hr) fun vid w hw => ⟨w, ?_, rfl, rfl⟩
      rw [← hsame.versions]
      exact hw
    · exact hc.mutated.numbered (ih hr)

/-- From now on the analysis is gone or has at least this revision. -/
def AtLeast (id : String) (n : ℕ) (db : Tables κ δ) : Prop :=
  ∀ row, db.analyses.get id = some row → n ≤ row.revision

theorem Mutated.atLeast {a b : Tables κ δ} {n : ℕ} (h : Mutated row a b mutation)
    (hrow : a.analyses.get mutation.analysisId = some row) (hn : AtLeast mutation.analysisId n a) :
    AtLeast mutation.analysisId n b := by
  have hle := hn row hrow
  intro after hafter'
  cases h with
  | edit hafter hrevision _ _ _ =>
    cases hafter.symm.trans hafter'
    omega
  | deleted hafter _ => cases hafter.symm.trans hafter'
  | versionDeleted hafter _ => exact hn after ((hafter _).symm.trans hafter')
  | versionRenamed hafter _ _ => exact hn after ((hafter _).symm.trans hafter')

theorem Mutated.uses {a b : Tables κ δ} (h : Mutated row a b mutation)
    (hne : b.analyses.get mutation.analysisId ≠ a.analyses.get mutation.analysisId) :
    AtLeast mutation.analysisId (row.revision + 1) b := by
  intro after hafter'
  cases h with
  | edit hafter hrevision _ _ _ =>
    cases hafter.symm.trans hafter'
    exact hrevision.ge
  | deleted hafter _ => cases hafter.symm.trans hafter'
  | versionDeleted hafter _ => exact absurd (hafter _) hne
  | versionRenamed hafter _ _ => exact absurd (hafter _) hne

theorem Reachable.atLeast {n : ℕ} (h : Reachable R s) (hr : Reaches R s s')
    (hn : AtLeast id n s.db) : AtLeast id n s'.db := by
  have hr' := hr
  induction hr with
  | refl => exact hn
  | step hr hs _ ih =>
    rcases (h.reaches hr).committed hs with hsame | ⟨i, c, row, -, hc⟩
    · intro after hafter
      rw [hsame.analyses] at hafter
      exact ih hr after hafter
    · by_cases hid : id = c.op.mutation.analysisId
      · subst hid
        exact hc.mutated.atLeast hc.found (ih hr)
      · intro after hafter
        rw [hc.outside.analyses id hid] at hafter
        exact ih hr after hafter

theorem Reachable.changed (h : Reachable R s) (hs : s.step (code R) a = some s')
    (hchange : Changes id s s') : ∃ i c row, a = .run i ∧ Committed i c row s s' ∧
      c.op.mutation.analysisId = id := by
  rcases h.committed hs with hsame | ⟨i, c, row, ha, hc⟩
  · exact absurd (hsame.analyses id) hchange
  · refine ⟨i, c, row, ha, hc, ?_⟩
    by_contra hid
    exact hchange (hc.outside.analyses id (Ne.symm hid))

/-- What can be left of a mutation after its commit. -/
def Finishing (q : EditScript κ δ Reply) : Prop :=
  Settled q ∨ q = .raise "Could not refresh instance" ∨ q = .raise "aborted"

private theorem finishing_next {effect : Env (Tables κ δ) TableRow → _}
    {next : Env (Tables κ δ) TableRow → EditScript κ δ Reply} {e : Env (Tables κ δ) TableRow}
    (h : Finishing (.exec effect next)) : Finishing (next e) := by
  rcases h with (⟨reply, h⟩ | ⟨β, read, reply, h⟩) | h | h
  · cases h
  · cases h
    dsimp only
    generalize read e.db = found
    cases found with
    | none => exact Or.inr (Or.inl rfl)
    | some row => exact Or.inl (Or.inl ⟨_, rfl⟩)
  · cases h
  · cases h

private theorem not_finishing_commit {next : EditScript κ δ Reply} :
    ¬ Finishing (.commit next) := by
  rintro ((⟨reply, h⟩ | ⟨β, read, reply, h⟩) | h | h) <;> cases h

private theorem not_finishing_rollback {next : EditScript κ δ Reply} :
    ¬ Finishing (.rollback next) := by
  rintro ((⟨reply, h⟩ | ⟨β, read, reply, h⟩) | h | h) <;> cases h

theorem Committed.fails {i : ℕ} {c d : EditCall κ δ} {error : String} {s'' : EditSystem κ δ}
    (h : Committed i c row s s') (hr : Reaches R s' s'') (hd : s''.calls[i]? = some d)
    (herror : d.script = .raise error) :
    error = "Could not refresh instance" ∨ error = "aborted" := by
  obtain ⟨c', hc', hsettled⟩ := h.settled
  obtain ⟨d', hd', hleft⟩ := hr.remains (S := Finishing) (fun _ _ _ => finishing_next)
    (fun _ hq => (not_finishing_commit hq).elim) (fun _ hq => (not_finishing_rollback hq).elim)
    (Or.inr (Or.inr rfl)) hc' (Or.inl hsettled)
  cases hd.symm.trans hd'
  rw [herror] at hleft
  rcases hleft with (⟨reply, h⟩ | ⟨β, read, reply, h⟩) | h | h
  · cases h
  · cases h
  · exact Or.inl (Script.raise.inj h)
  · exact Or.inr (Script.raise.inj h)

end Steps

/-- Optimistic editing. In every interleaving a step keeps all data or commits one mutation that
presents the current revision; no two mutations that change the row of an analysis present one
revision; and a mutation that has changed something fails only after its commit. -/
theorem optimistic_editing (R : Rules κ δ) :
    (∀ s, Reachable R s → Numbered s.db) ∧
    (∀ s a s', Reachable R s → s.step (code R) a = some s' →
      SameData s.db s'.db ∨ ∃ i c row, a = .run i ∧ Committed i c row s s') ∧
    (∀ s1 s2 s3 s4 i j c d id n, Reachable R s1 → s1.step (code R) (.run i) = some s2 →
      Changes id s1 s2 → Reaches R s2 s3 → s3.step (code R) (.run j) = some s4 →
      Changes id s3 s4 → s1.calls[i]? = some c → s3.calls[j]? = some d →
      ¬ (c.op.Presents n ∧ d.op.Presents n)) ∧
    (∀ s1 s2 s3 i c error, Reachable R s1 → s1.step (code R) (.run i) = some s2 →
      ¬ SameData s1.db s2.db → Reaches R s2 s3 → s3.calls[i]? = some c →
      c.script = .raise error → error = "Could not refresh instance" ∨ error = "aborted") := by
  refine ⟨fun s h => h.numbered, fun s a s' h hs => h.committed hs, ?_, ?_⟩
  · rintro s1 s2 s3 s4 i j c d id n h hs hchange hr hs' hchange' hc hd ⟨hn, hn'⟩
    obtain ⟨i', c', row, ha, hcommit, hid⟩ := h.changed hs hchange
    obtain ⟨j', d', row', ha', hcommit', hid'⟩ := ((h.step hs).reaches hr).changed hs' hchange'
    cases ha
    cases ha'
    cases hc.symm.trans hcommit.call
    cases hd.symm.trans hcommit'.call
    have hrow : n = row.revision := validate_inj hn hcommit.presented
    have hrow' : n = row'.revision := validate_inj hn' hcommit'.presented
    subst hid
    have huses := (h.step hs).atLeast hr (hcommit.mutated.uses hchange)
    have hle := huses row' (hid' ▸ hcommit'.found)
    omega
  · intro s1 s2 s3 i c error h hs hchange hr hc herror
    rcases h.committed hs with hsame | ⟨i', c', row, ha, hcommit⟩
    · exact absurd hsame hchange
    · cases ha
      exact hcommit.fails hr hc herror

section Samples

variable {R : Rules κ δ} {db : Tables κ δ}

theorem Reachable.of_replays (hdb : Numbered db) (first second : List (Action (Request κ δ)))
    (i j : ℕ) (test : EditSystem κ δ → EditSystem κ δ → EditSystem κ δ → EditSystem κ δ → Bool)
    (h : ((System.replay (code R) ⟨0, db, []⟩ first).any fun s1 =>
      (s1.step (code R) (.run i)).any fun s2 => (s2.replay (code R) second).any fun s3 =>
        (s3.step (code R) (.run j)).any (test s1 s2 s3)) = true) :
    ∃ s1 s2 s3 s4, Reachable R s1 ∧ s1.step (code R) (.run i) = some s2 ∧ Reaches R s2 s3 ∧
      s3.step (code R) (.run j) = some s4 ∧ test s1 s2 s3 s4 = true := by
  obtain ⟨s1, hs1, h⟩ := (Option.any_eq_true _ _).mp h
  obtain ⟨s2, hs2, h⟩ := (Option.any_eq_true _ _).mp h
  obtain ⟨s3, hs3, h⟩ := (Option.any_eq_true _ _).mp h
  obtain ⟨s4, hs4, htest⟩ := (Option.any_eq_true _ _).mp h
  exact ⟨s1, s2, s3, s4, ⟨0, db, hdb, .of_replay hs1⟩, hs2, .of_replay hs3, hs4, htest⟩

end Samples

/-- An analysis with one version. -/
def sampleTables : Tables Unit Unit where
  locks := ⟨.empty⟩
  analyses := Table.empty.put "x" (some ⟨"A", none, [], 1⟩)
  versions := Table.empty.put "v" (some ⟨"x", 1, "V", none, []⟩)
  links := .empty

theorem sampleTables_numbered : Numbered sampleTables := by
  intro vid vid' w w' hw hw' _ _
  simp only [sampleTables, Table.get_put, Table.get_empty] at hw hw'
  split at hw <;> split at hw'
  · next hv hv' => rw [hv, hv']
  · cases hw'
  · cases hw
  · cases hw

def sampleUpdate (versionId name ifMatch : String) : Request Unit Unit :=
  ⟨.edit (.update "x" (some name) none none) rfl ⟨fun _ => none, fun _ => []⟩ versionId,
    some ifMatch, none⟩

def sampleRename (name : String) : Request Unit Unit := ⟨.renameVersion "x" 1 name, some "1", none⟩

/-- The call has presented this header for the sample analysis. -/
def presents (ifMatch : String) (c : EditCall Unit Unit) : Bool :=
  c.op.ifMatch = some ifMatch && c.op.mutation.analysisId = "x"

/-- Two clients update the analysis, one after the other. -/
theorem optimistic_editing_updates : ∃ s1 s2 s3 s4 c d, Reachable plainRules s1 ∧
    Reaches plainRules s2 s3 ∧ s1.calls[0]? = some c ∧ s3.calls[1]? = some d ∧
    Changes "x" s1 s2 ∧ Changes "x" s3 s4 ∧ ¬ (c.op.Presents 1 ∧ d.op.Presents 1) := by
  obtain ⟨s1, s2, s3, s4, hreach, hs, hr, hs', htest⟩ := Reachable.of_replays (R := plainRules)
    sampleTables_numbered (.spawn (sampleUpdate "v1" "B" "1") :: List.replicate 6 (.run 0))
    (.spawn (sampleUpdate "v2" "C" "2") :: List.replicate 6 (.run 1)) 0 1
    (fun s1 s2 s3 s4 => s1.calls[0]?.isSome && s3.calls[1]?.isSome &&
      (s1.db.analyses.get "x").map Analysis.name ≠ (s2.db.analyses.get "x").map Analysis.name &&
      (s3.db.analyses.get "x").map Analysis.name ≠ (s4.db.analyses.get "x").map Analysis.name)
    (by decide +kernel)
  simp only [Bool.and_eq_true, decide_eq_true_eq, Option.isSome_iff_exists] at htest
  obtain ⟨⟨⟨⟨c, hc⟩, d, hd⟩, hname⟩, hname'⟩ := htest
  have hchange : Changes "x" s1 s2 := fun he => hname (congrArg _ he.symm)
  have hchange' : Changes "x" s3 s4 := fun he => hname' (congrArg _ he.symm)
  exact ⟨s1, s2, s3, s4, c, d, hreach, hr, hc, hd, hchange, hchange',
    (optimistic_editing plainRules).2.2.1 s1 s2 s3 s4 0 1 c d "x" 1 hreach hs hchange hr hs'
      hchange' hc hd⟩

/-- Two clients rename a version with one revision, and both commit. -/
theorem renames_share_revision : ¬ ∀ (s1 s2 s3 s4 : EditSystem Unit Unit) i j c d n,
    Reachable plainRules s1 → s1.step (code plainRules) (.run i) = some s2 →
    ¬ SameData s1.db s2.db → Reaches plainRules s2 s3 →
    s3.step (code plainRules) (.run j) = some s4 → ¬ SameData s3.db s4.db →
    s1.calls[i]? = some c → s3.calls[j]? = some d → i ≠ j →
    c.op.mutation.analysisId = d.op.mutation.analysisId →
    ¬ (c.op.Presents n ∧ d.op.Presents n) := by
  intro hall
  obtain ⟨s1, s2, s3, s4, hreach, hs, hr, hs', htest⟩ := Reachable.of_replays (R := plainRules)
    sampleTables_numbered (.spawn (sampleRename "B") :: List.replicate 5 (.run 0))
    (.spawn (sampleRename "C") :: List.replicate 5 (.run 1)) 0 1
    (fun s1 s2 s3 s4 => s1.calls[0]?.any (presents "1") && s3.calls[1]?.any (presents "1") &&
      (s1.db.versions.get "v").map (·.snapshot.name) ≠
        (s2.db.versions.get "v").map (·.snapshot.name) &&
      (s3.db.versions.get "v").map (·.snapshot.name) ≠
        (s4.db.versions.get "v").map (·.snapshot.name))
    (by decide +kernel)
  simp only [Bool.and_eq_true, decide_eq_true_eq, Option.any_eq_true, presents] at htest
  obtain ⟨⟨⟨⟨c, hc, hmatch, hid⟩, d, hd, hmatch', hid'⟩, hname⟩, hname'⟩ := htest
  have hvalid : validate 1 "x" (some "1") = .ok () := rfl
  refine hall s1 s2 s3 s4 0 1 c d 1 hreach hs (fun h => ?_) hr hs' (fun h => ?_) hc hd (by decide)
    (hid.trans hid'.symm) ⟨?_, ?_⟩
  · exact hname (congrArg _ (h.versions "v").symm)
  · exact hname' (congrArg _ (h.versions "v").symm)
  · rw [Request.Presents, hmatch, hid]
    exact hvalid
  · rw [Request.Presents, hmatch', hid']
    exact hvalid

end DataForge.Analyses
