import DataForge.Builds.Events

/-!
# Builds: settling a claimed job

`fail_build_job` and `finalize_build_job` meet the protocol: a claimed job ends the way its run
has ended.
-/

namespace DataForge.Builds

open ReadCommitted DataForge.Runtime

variable {p : Platform} {renews : Prop} {i : ℕ} {op : Op} {t : BuildTxn} {w : BuildWorld}
  {ns : String}

section Commands

variable {Q : Reply → BuildTxn → BuildWorld → Prop}

theorem terminalOutcome_spec {run : BuildRun} {status : BuildJobStatus} {message : Option String}
    (h : terminalOutcome run.status run.errorMessage = some (status, message)) :
    status.isTerminal = true ∧ run.status.isTerminal = true ∧ Agrees status run := by
  have hagree : Agrees status run := by rw [Agrees, h]; rfl
  cases hs : run.status <;> rw [hs] at h <;> cases h <;> exact ⟨rfl, rfl, hagree⟩

theorem wp_commitNothing (hop : op.unscheduled) (hm : Mine p i op t w) (hQ : ∀ r t w, Q r t w) :
    (protocol p renews).wp i op Q commitNothing t w := by
  apply Protocol.wp_commit
  intro w' hr _ _
  exact ⟨(hm.rely hr).commit hop, hQ _ _ _⟩

variable {claim : BuildClaim}

/-- Settling a claimed job the way its run has settled. -/
theorem wp_finishClaim {status : BuildJobStatus} {error : Option String} {r : BuildRun}
    (hop : op.finishes ns) (huns : op.unscheduled) (hterm : status.isTerminal = true)
    (hm : Mine p i op t w) (hrun : runAt (view t.writes w.db) ns claim.buildId = some r)
    (hrt : r.status.isTerminal = true) (hagree : Agrees status r) (hQ : ∀ r t w, Q r t w) :
    (protocol p renews).wp i op Q (finishClaim ns claim status error) t w := by
  unfold finishClaim finishClaimedJob
  rw [if_pos hterm, Script.bind_assoc]
  apply Protocol.wp_query
  intro w1 e1 hr1 hi1 hs1
  have hm1 := (hm.rely hr1).query (some e1.began)
  apply wp_update
  · intro w2 e2 hr2 _ _ _
    exact wp_commitNothing huns ((hm1.rely hr2).query _) hQ
  · intro w2 e2 a hr2 hi2 hs2 hget hact
    obtain ⟨hid, hact⟩ := Bool.and_eq_true_iff.mp hact
    have hm2 := hm1.rely hr2
    -- the run stays as it has settled
    obtain ⟨r', hr', hd⟩ := run_view_rely hm.within.guarded (hr1.trans hr2) hrun
    have hst := hd.status hrt
    apply Protocol.wp_commit
    intro w3 hr3 _ _
    refine ⟨Mine.commit (Mine.rely (Mine.job (x := a) hm2 e2 ?_ ?_ fun _ => ?_) hr3) huns, hQ _ _ _⟩
    · rw [← hs2.db]
      exact hget
    · exact .finish claim status error e1.began a hop hterm hact
    · refine ⟨r', ?_, by rw [hst]; exact hrt, Or.inl (hagree.of_status hst)⟩
      rw [show (finishedJob status error e1.began a).buildId = claim.buildId from
        of_decide_eq_true hid]
      exact hr'

theorem verified_finalizeBuildJob (hop : op = .finalizeBuildJob ns claim) (hQ : ∀ r t w, Q r t w) :
    (protocol p renews).wp i op Q (finalizeBuildJob ns claim) {} w := by
  have huns : op.unscheduled := fun _ _ he => by rw [hop] at he; cases he
  have hfin : op.finishes ns := by rw [hop]; rfl
  unfold finalizeBuildJob
  apply Protocol.wp_query
  intro w1 e1 hr1 hi1 hs1
  have hm1 : Mine p i op ⟨[], [], some e1.began⟩ w1 := Mine.of_nil rfl
  dsimp only
  split
  · apply Protocol.wp_commit
    intro w2 hr2 _ _
    exact ⟨(hm1.rely hr2).commit huns, hQ _ _ _⟩
  · refine wp_activeClaimOf hm1 (fun t2 w2 hm2 _ _ _ => wp_commitNothing huns hm2 hQ) ?_
    intro t2 w2 j hm2 hw2 _ _
    apply Protocol.wp_query
    intro w3 e3 hr3 hi3 hs3
    have hm3 := (hm2.rely hr3).query (some e3.began)
    cases hrun : runs.get ns claim.buildId e3 with
    | none => exact wp_commitNothing huns hm3 hQ
    | some run =>
      dsimp only
      split
      · exact wp_commitNothing huns hm3 hQ
      · next status message hout =>
        obtain ⟨hterm, hrt, hagree⟩ := terminalOutcome_spec hout
        refine wp_finishClaim hfin huns hterm hm3 ?_ hrt hagree hQ
        rw [← hs3.db]
        exact hrun

theorem verified_failBuildJob {error : String} {emittedAt createdAt wakeId : ℕ} {notice : Notice}
    (hop : op = .failBuildJob ns claim error emittedAt createdAt wakeId notice)
    (hQ : ∀ r t w, Q r t w) :
    (protocol p renews).wp i op Q
      (failBuildJob ns claim error emittedAt createdAt wakeId notice) {} w := by
  have huns : op.unscheduled := fun _ _ he => by rw [hop] at he; cases he
  have hfin : op.finishes ns := by rw [hop]; rfl
  have hemit : op.emits ns (some claim.leaseGeneration) := by rw [hop]; exact ⟨rfl, rfl⟩
  unfold failBuildJob
  apply Protocol.wp_query
  intro w1 e1 hr1 hi1 hs1
  have hm1 : Mine p i op ⟨[], [], some e1.began⟩ w1 := Mine.of_nil rfl
  dsimp only
  split
  · apply Protocol.wp_query
    intro w2 e2 hr2 _ _
    apply Protocol.wp_commit
    intro w3 hr3 _ _
    exact ⟨Mine.commit (Mine.of_nil rfl) huns, hQ _ _ _⟩
  · refine wp_activeClaimOf hm1 (fun t2 w2 hm2 _ _ _ => wp_commitNothing huns hm2 hQ) ?_
    intro t2 w2 j hm2 hw2 _ _
    apply Protocol.wp_query
    intro w3 e3 hr3 hi3 hs3
    have hm3 := (hm2.rely hr3).query (some e3.began)
    cases hrun : runs.get ns claim.buildId e3 with
    | none => exact wp_commitNothing huns hm3 hQ
    | some run =>
      dsimp only
      split
      · next status message hout =>
        obtain ⟨hterm, hrt, hagree⟩ := terminalOutcome_spec hout
        refine wp_finishClaim hfin huns hterm hm3 ?_ hrt hagree hQ
        rw [← hs3.db]
        exact hrun
      · rw [Protocol.wp_bind]
        refine wp_stageBuildEvent hemit hm3.within.guarded ?_ ?_
        · intro t4 w4 ho4 hw4 hr4
          refine wp_commitNothing huns ⟨(hm3.rely hr4).within.trans ho4, ?_⟩ hQ
          rw [hw4]
          exact (hm3.rely hr4).joint
        · intro t4 w4 n run' ho4 hr4 hs4
          have hm4 := hs4.mine (hm3.rely hr4) ho4
          have hst := afterEvent_status none hs4.accepted
          refine wp_finishClaim hfin huns rfl hm4 hs4.after ?_ ?_ hQ
          · rw [show BuildRun.status _ = .failed from hst]
            rfl
          · rw [Agrees, show BuildRun.status _ = .failed from hst]
            rfl

end Commands
end DataForge.Builds
