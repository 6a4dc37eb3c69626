import DataForge.Editor.Order

/-!
# Moving a step

`moveStep` as one map over the other steps and one splice, and from it when the tab stays ordered
and the order of the other steps is kept: exactly for the safe calls.
-/

namespace DataForge.Editor

open List Forest

variable {κ : Type} {steps : List (PipelineStep κ)} {moving : PipelineStep κ} {toIndex : ℕ}
  {newParentId newNextId : Option String}

/-- The links of the other steps when one dependent of the moving step is unlinked. -/
def unlinkedLinks (steps : List (PipelineStep κ)) (moving t : PipelineStep κ) : List String :=
  if (dependentStep steps moving).map PipelineStep.id = some t.id then moving.dependsOn
  else t.dependsOn

/-- The links of the other steps after a move. -/
def moveLinks (steps : List (PipelineStep κ)) (moving : PipelineStep κ)
    (newNextId : Option String) (t : PipelineStep κ) : List String :=
  if isChartStep moving.type = false ∧ newNextId = some t.id then [moving.id]
  else unlinkedLinks steps moving t

/-- The moved step. -/
def moved (moving : PipelineStep κ) (newParentId newNextId : Option String) : PipelineStep κ :=
  { moving with
    dependsOn :=
      if isChartStep moving.type = false ∧ newNextId = some moving.id then [moving.id]
      else newParentId.toList }

/-- The steps other than the one with the id. -/
def others (steps : List (PipelineStep κ)) (id : String) : List (PipelineStep κ) :=
  steps.filter (·.id ≠ id)

variable {id : String}

theorem mem_others {t : PipelineStep κ} :
    t ∈ others steps id ↔ t ∈ steps ∧ t.id ≠ id := by
  simp [others]

theorem others_append (l1 l2 : List (PipelineStep κ)) (id : String) :
    others (l1 ++ l2) id = others l1 id ++ others l2 id := filter_append ..

theorem others_absent (h : id ∉ ids steps) : others steps id = steps :=
  filter_eq_self.mpr fun _ hs => decide_eq_true fun he => h (he ▸ mem_ids hs)

theorem ids_others (steps : List (PipelineStep κ)) (id : String) :
    ids (others steps id) = (ids steps).filter (· ≠ id) := by
  simp [ids, others, filter_map, Function.comp_def]

theorem eraseIdx_findIdx (hn : (ids steps).Nodup) (h : id ∈ ids steps) :
    steps.eraseIdx (steps.findIdx (·.id = id)) = others steps id := by
  induction steps with
  | nil => cases h
  | cons s rest ih =>
    rw [findIdx_cons]
    by_cases hid : s.id = id
    · have hrest := others_absent (hid ▸ (nodup_cons.mp hn).1)
      have hcons : others (s :: rest) id = others rest id := by simp [others, hid]
      rw [hcons, hrest]
      simp [hid]
    · have hmem : id ∈ ids rest := (mem_cons.mp h).resolve_left (Ne.symm hid)
      have hrest := ih (nodup_cons.mp hn).2 hmem
      unfold others at hrest
      simp [others, hid, hrest]

/-- The index in the list without the step is that behind the same other steps. -/
theorem actualToIndex_eq (hn : (ids steps).Nodup) (h : id ∈ ids steps) (k : ℕ)
    (hk : k ≤ steps.length) :
    (if steps.findIdx (·.id = id) < k then k - 1 else k) = (others (steps.take k) id).length := by
  induction steps generalizing k with
  | nil => cases h
  | cons s rest ih =>
    rw [findIdx_cons]
    cases k with
    | zero => simp [others]
    | succ k =>
      have hk : k ≤ rest.length := by simpa using hk
      by_cases hid : s.id = id
      · have hnot : id ∉ ids rest := hid ▸ (nodup_cons.mp hn).1
        have hrest : others (rest.take k) id = rest.take k :=
          others_absent fun hmem => hnot ((take_sublist k rest).map _ |>.subset hmem)
        have hcons : others ((s :: rest).take (k + 1)) id = others (rest.take k) id := by
          simp [others, hid]
        rw [hcons, hrest]
        simp [hid, hk]
      · have hmem : id ∈ ids rest := (mem_cons.mp h).resolve_left (Ne.symm hid)
        have hrest := ih (nodup_cons.mp hn).2 hmem k hk
        have hcons : others ((s :: rest).take (k + 1)) id = s :: others (rest.take k) id := by
          simp [others, hid]
        rw [hcons, length_cons, ← hrest]
        simp only [hid, decide_false, cond_false]
        split <;> split <;> omega

theorem take_others (steps : List (PipelineStep κ)) (id : String) (k : ℕ) :
    (others steps id).take (others (steps.take k) id).length = others (steps.take k) id := by
  conv_lhs => rw [← take_append_drop k steps, others_append]
  rw [take_append_drop, take_left]

theorem drop_others (steps : List (PipelineStep κ)) (id : String) (k : ℕ) :
    (others steps id).drop (others (steps.take k) id).length = others (steps.drop k) id := by
  conv_lhs => rw [← take_append_drop k steps, others_append]
  rw [take_append_drop, drop_left]

section Moves

variable (h : Ordered steps) (hm : moving ∈ steps)
  (ht : Target steps toIndex newParentId newNextId)

include h hm ht in
/-- `moveStep` sets the links of the other steps and splices the moved one in. -/
theorem moveStep_eq : moveStep steps moving.id toIndex newParentId newNextId =
    some (splice ((others steps moving.id).map (setLinks (moveLinks steps moving newNextId)))
      (others (steps.take toIndex) moving.id).length (moved moving newParentId newNextId)) := by
  obtain ⟨hparent, hnext⟩ := ht.named h.named
  have hothers : (ids (others steps moving.id)).Nodup := by
    rw [ids_others]
    exact h.nodup.filter _
  -- the dependent that is unlinked
  have hunlinked : unlink (others steps moving.id) (dependentStep steps moving)
      moving.dependsOn = (others steps moving.id).map (setLinks (unlinkedLinks steps moving)) := by
    unfold unlink unlinkedLinks
    cases dependentStep steps moving with
    | none => simpa using (map_setLinks_dependsOn _).symm
    | some dependent =>
      dsimp only
      rw [relink_eq hothers]
      refine map_congr_left fun t _ => ?_
      simp [setLinks, eq_comm]
  have hplain (hnone : ¬ (isChartStep moving.type = false ∧ newNextId ≠ none)) :
      moveLinks steps moving newNextId = unlinkedLinks steps moving ∧
        moved moving newParentId newNextId =
          { moving with dependsOn := newParentId.toList } := by
    have hif (id : String) : ¬ (isChartStep moving.type = false ∧ newNextId = some id) :=
      fun h => hnone ⟨h.1, by simp [h.2]⟩
    constructor
    · funext t
      exact if_neg (hif t.id)
    · simp [moved, hif]
  unfold moveStep
  rw [find_eq_some h.nodup hm, hparent, hnext]
  dsimp only
  rw [h.toList_head? hm, eraseIdx_findIdx h.nodup (mem_ids hm),
    actualToIndex_eq h.nodup (mem_ids hm) toIndex ht.index_le, hunlinked]
  cases newNextId with
  | none =>
    rw [(hplain (by simp)).1, (hplain (by simp)).2]
  | some next =>
    dsimp only
    cases hchart : isChartStep moving.type with
    | true =>
      rw [(hplain (by simp [hchart])).1, (hplain (by simp [hchart])).2, if_pos rfl]
    | false =>
      have hnodup : (ids (splice ((others steps moving.id).map
          (setLinks (unlinkedLinks steps moving))) (others (steps.take toIndex) moving.id).length
          { moving with dependsOn := newParentId.toList })).Nodup := by
        rw [ids_splice, ids_map_setLinks, (perm_splice _ _ _).nodup_iff, ids_others]
        exact nodup_cons.mpr ⟨by simp, h.nodup.filter _⟩
      rw [if_neg (by simp), relink_eq hnodup, map_splice, map_map]
      congr 2
      · refine map_congr_left fun t _ => ?_
        by_cases hid : t.id = next
        · simp [setLinks, moveLinks, hchart, hid]
        · simp [setLinks, moveLinks, hchart, hid, Ne.symm hid]
      · by_cases hid : moving.id = next
        · simp [setLinks, moved, hchart, hid]
        · simp [setLinks, moved, hchart, hid, Ne.symm hid]

/-! ## The order of the other steps -/

omit ht in
private theorem bypass_iff (h : Ordered steps) (hm : moving ∈ steps) {a b : String} :
    Bypass (DependsOn steps) moving.id a b ↔
      ∃ t ∈ others steps moving.id, t.id = a ∧ b ∈ parentPast moving t := by
  constructor
  · rintro ⟨ha, hb, ⟨t, hts, rfl, hbt⟩ | ⟨⟨t, hts, rfl, hmt⟩, s, hs, hsm, hbs⟩⟩
    · refine ⟨t, mem_others.mpr ⟨hts, ha⟩, rfl, ?_⟩
      have hnot : moving.id ∉ t.dependsOn := by
        rw [(h.before_of_mem hts hbt).2]
        simpa using hb.symm
      rwa [parentPast, if_neg hnot]
    · rw [eq_of_id h.nodup hs hm hsm] at hbs
      exact ⟨t, mem_others.mpr ⟨hts, ha⟩, rfl, by rwa [parentPast, if_pos hmt]⟩
  · rintro ⟨t, ht, rfl, hb⟩
    obtain ⟨hts, ha⟩ := mem_others.mp ht
    unfold parentPast at hb
    split at hb
    case isTrue hmt =>
      have hne : b ≠ moving.id := by
        rintro rfl
        exact h.notMem_self hm hb
      exact ⟨ha, hne, .inr ⟨⟨t, hts, rfl, hmt⟩, moving, hm, rfl, hb⟩⟩
    case isFalse hmt =>
      have hne : b ≠ moving.id := by
        rintro rfl
        exact hmt hb
      exact ⟨ha, hne, .inl ⟨t, hts, rfl, hb⟩⟩

omit hm ht in
private theorem transGen_before (h : Ordered steps) {a b : String}
    (hab : Relation.TransGen (DependsOn steps) a b) : Before steps b a := by
  have hstep : ∀ {a b}, DependsOn steps a b → Before steps b a := by
    rintro a b ⟨s, hs, rfl, hb⟩
    exact (h.before_of_mem hs hb).1
  induction hab with
  | single hab => exact hstep hab
  | tail _ hbc ih => exact pair_sublist_trans h.nodup (hstep hbc) ih

omit ht in
private theorem bypass_unique (h : Ordered steps) (hm : moving ∈ steps) (a b c : String)
    (hab : Bypass (DependsOn steps) moving.id a b) (hac : Bypass (DependsOn steps) moving.id a c) :
    b = c := by
  obtain ⟨t, ht, rfl, hb⟩ := (bypass_iff h hm).mp hab
  obtain ⟨t', ht', hid, hc⟩ := (bypass_iff h hm).mp hac
  have hts := (mem_others.mp ht).1
  rw [eq_of_id h.nodup (mem_others.mp ht').1 hts hid] at hc
  have hle : ∀ s ∈ steps, b ∈ s.dependsOn → c ∈ s.dependsOn → b = c := by
    intro s hs hbs hcs
    rw [(h.before_of_mem hs hbs).2] at hcs
    exact (mem_singleton.mp hcs).symm
  unfold parentPast at hb hc
  split at hb
  case isTrue hmt =>
    rw [if_pos hmt] at hc
    exact hle moving hm hb hc
  case isFalse hmt =>
    rw [if_neg hmt] at hc
    exact hle t hts hb hc

omit ht in
private theorem sameOrder_iff {steps' : List (PipelineStep κ)} {moving' : PipelineStep κ}
    (h : Ordered steps) (h' : Ordered steps') (hm : moving ∈ steps) (hm' : moving' ∈ steps')
    (hid : moving'.id = moving.id) : SameOrder steps steps' moving.id ↔
      ∀ a b, (∃ t ∈ others steps moving.id, t.id = a ∧ b ∈ parentPast moving t) ↔
        ∃ t ∈ others steps' moving.id, t.id = a ∧ b ∈ parentPast moving' t := by
  have hacyclic : ∀ a, ¬ Relation.TransGen (Bypass (DependsOn steps) moving.id) a a := by
    intro a ha
    have hne : a ≠ moving.id := by
      obtain ⟨b, hab, -⟩ := Relation.TransGen.head'_iff.mp ha
      exact hab.1
    exact h.irrefl a (transGen_before h ((transGen_bypass hne hne).mp ha))
  have hends : ∀ {r : String → String → Prop} {a b},
      Relation.TransGen (Bypass r moving.id) a b → a ≠ moving.id ∧ b ≠ moving.id := by
    intro r a b hab
    obtain ⟨c, hac, -⟩ := Relation.TransGen.head'_iff.mp hab
    obtain ⟨d, -, hdb⟩ := Relation.TransGen.tail'_iff.mp hab
    exact ⟨hac.1, hdb.2.1⟩
  constructor
  · intro hsame a b
    rw [← bypass_iff h hm, ← hid, ← bypass_iff h' hm', hid]
    refine eq_of_transGen_iff (bypass_unique h hm) (hid ▸ bypass_unique h' hm') hacyclic ?_
    intro a b
    constructor
    · intro hab
      obtain ⟨ha, hb⟩ := hends hab
      exact (transGen_bypass ha hb).mpr ((hsame a b ha hb).mp ((transGen_bypass ha hb).mp hab))
    · intro hab
      obtain ⟨ha, hb⟩ := hends hab
      exact (transGen_bypass ha hb).mpr ((hsame a b ha hb).mpr ((transGen_bypass ha hb).mp hab))
  · intro hparents a b ha hb
    have heq : Bypass (DependsOn steps) moving.id = Bypass (DependsOn steps') moving.id := by
      funext a b
      rw [bypass_iff h hm, hparents a b, ← hid, ← bypass_iff h' hm']
    rw [← transGen_bypass ha hb, heq, transGen_bypass ha hb]

/-! ## One move -/

/-- The list after a move. -/
private def afterMove (steps : List (PipelineStep κ)) (moving : PipelineStep κ) (toIndex : ℕ)
    (newParentId newNextId : Option String) : List (PipelineStep κ) :=
  splice ((others steps moving.id).map (setLinks (moveLinks steps moving newNextId)))
    (others (steps.take toIndex) moving.id).length (moved moving newParentId newNextId)

variable {t : PipelineStep κ}

omit ht in
private theorem dependent_mem (h : Ordered steps) (hts : t ∈ steps)
    (ht : (dependentStep steps moving).map PipelineStep.id = some t.id) :
    moving.id ∈ t.dependsOn := by
  obtain ⟨d, hd, hid⟩ := Option.map_eq_some_iff.mp ht
  unfold dependentStep at hd
  split at hd
  · cases hd
  · rw [← eq_of_id h.nodup (mem_of_find?_eq_some hd) hts hid]
    simpa using find?_some hd

omit ht in
private theorem parentPast_toList (h : Ordered steps) (hm : moving ∈ steps) (hts : t ∈ steps) :
    ∃ p : Option String, parentPast moving t = p.toList := by
  unfold parentPast
  split
  · obtain ⟨p, hp, -⟩ := h.earlier moving hm
    exact ⟨p, hp⟩
  · obtain ⟨p, hp, -⟩ := h.earlier t hts
    exact ⟨p, hp⟩

omit ht in
/-- After a move the parent of another step, passing over the moved one, is the new parent if the
step leans on the moved one, and else what it was. -/
private theorem parentPast_moved (newParentId : Option String) (h : Ordered steps)
    (hm : moving ∈ steps) (hnext : isChartStep moving.type = true ∨ newNextId ≠ some moving.id)
    (ht : t ∈ others steps moving.id) :
    parentPast (moved moving newParentId newNextId)
        (setLinks (moveLinks steps moving newNextId) t) =
      if Leans steps moving newNextId t then newParentId.toList else parentPast moving t := by
  have hmoved : (moved moving newParentId newNextId).dependsOn = newParentId.toList := by
    refine if_neg fun hc => ?_
    rcases hnext with hchart | hne
    · rw [hchart] at hc
      cases hc.1
    · exact hne hc.2
  have hid : (moved moving newParentId newNextId).id = moving.id := rfl
  obtain ⟨hts, -⟩ := mem_others.mp ht
  unfold parentPast
  rw [hid, hmoved]
  unfold setLinks
  dsimp only
  by_cases hl : Leans steps moving newNextId t
  · have hlink : moveLinks steps moving newNextId t = [moving.id] := by
      unfold moveLinks unlinkedLinks
      rcases hl with hn | ⟨hmem, hd⟩
      · exact if_pos hn
      · rw [if_neg hd, (h.before_of_mem hts hmem).2, ite_self]
    rw [if_pos hl, hlink, if_pos (mem_singleton.mpr rfl)]
  · obtain ⟨hn, hd⟩ := not_or.mp hl
    rw [if_neg hl, moveLinks, if_neg hn, unlinkedLinks]
    by_cases hmem : moving.id ∈ t.dependsOn
    · have hd := not_not.mp fun hd' => hd ⟨hmem, hd'⟩
      rw [if_pos hd, if_neg (h.notMem_self hm), if_pos hmem]
    · have hd : (dependentStep steps moving).map PipelineStep.id ≠ some t.id :=
        fun hd => hmem (dependent_mem h hts hd)
      rw [if_neg hd, if_neg hmem, if_neg hmem]

private theorem moveLinks_cases (newNextId : Option String) (h : Ordered steps)
    (hm : moving ∈ steps) (ht : t ∈ others steps moving.id) :
    Leans steps moving newNextId t ∧ moveLinks steps moving newNextId t = [moving.id] ∨
      ¬ Leans steps moving newNextId t ∧ ∃ p : Option String,
        moveLinks steps moving newNextId t = p.toList ∧
          ∀ q ∈ p, q ≠ moving.id ∧ Before (others steps moving.id) q t.id := by
  obtain ⟨hts, hne⟩ := mem_others.mp ht
  have hkeep : ∀ q, Before steps q t.id → q ≠ moving.id →
      Before (others steps moving.id) q t.id := by
    intro q hq hqne
    unfold Before
    rw [ids_others]
    simpa [hqne, hne] using hq.filter (· ≠ moving.id)
  unfold moveLinks unlinkedLinks Leans
  by_cases hn : isChartStep moving.type = false ∧ newNextId = some t.id
  · exact .inl ⟨.inl hn, if_pos hn⟩
  · rw [if_neg hn]
    by_cases hd : (dependentStep steps moving).map PipelineStep.id = some t.id
    · refine .inr ⟨by simp [hn, hd], ?_⟩
      obtain ⟨p, hp, hbefore⟩ := h.earlier moving hm
      refine ⟨p, by rw [if_pos hd, hp], fun q hq => ?_⟩
      have hqm := hbefore q hq
      have hqne : q ≠ moving.id := by
        rintro rfl
        exact h.irrefl _ hqm
      have hmt := (h.before_of_mem hts (dependent_mem h hts hd)).1
      exact ⟨hqne, hkeep q (pair_sublist_trans h.nodup hqm hmt) hqne⟩
    · rw [if_neg hd]
      by_cases hmem : moving.id ∈ t.dependsOn
      · exact .inl ⟨.inr ⟨hmem, hd⟩, (h.before_of_mem hts hmem).2⟩
      · refine .inr ⟨by simp [hn, hmem], ?_⟩
        obtain ⟨p, hp, hbefore⟩ := h.earlier t hts
        refine ⟨p, hp, fun q hq => ?_⟩
        have hqne : q ≠ moving.id := by
          rintro rfl
          exact hmem (by
            rw [hp]
            simpa using hq)
        exact ⟨hqne, hkeep q (hbefore q hq) hqne⟩

omit ht in
private theorem ids_afterMove : ids (afterMove steps moving toIndex newParentId newNextId) =
    ids (others (steps.take toIndex) moving.id) ++
      moving.id :: ids (others (steps.drop toIndex) moving.id) := by
  unfold afterMove
  rw [ids_splice, ids_map_setLinks, splice]
  unfold ids
  rw [← map_take, ← map_drop, take_others, drop_others]
  rfl

omit ht in
private theorem moved_mem (steps : List (PipelineStep κ)) (moving : PipelineStep κ) (toIndex : ℕ)
    (newParentId newNextId : Option String) : moved moving newParentId newNextId ∈
    afterMove steps moving toIndex newParentId newNextId := mem_splice.mpr (.inl rfl)

omit ht in
private theorem mem_afterMove (ht : t ∈ others steps moving.id) :
    setLinks (moveLinks steps moving newNextId) t ∈
      afterMove steps moving toIndex newParentId newNextId :=
  mem_splice.mpr (.inr (mem_map_of_mem ht))

/-- The tab stays ordered if the moved step becomes neither its own parent nor its own dependent
and the steps that lean on it stand after its new place. -/
private theorem ordered_afterMove (h : Ordered steps) (hm : moving ∈ steps)
    (ht : Target steps toIndex newParentId newNextId) (hparent : newParentId ≠ some moving.id)
    (hnext : isChartStep moving.type = true ∨ newNextId ≠ some moving.id)
    (hlean : ∀ t ∈ others steps moving.id, Leans steps moving newNextId t →
      t.id ∈ ids (steps.drop toIndex)) :
    Ordered (afterMove steps moving toIndex newParentId newNextId) := by
  have hmoved : moved moving newParentId newNextId =
      { moving with dependsOn := newParentId.toList } := by
    have hc : ¬ (isChartStep moving.type = false ∧ newNextId = some moving.id) := by
      rintro ⟨hchart, heq⟩
      rcases hnext with hnext | hnext
      · simp [hchart] at hnext
      · exact hnext heq
    simp [moved, hc]
  unfold afterMove
  rw [hmoved]
  refine ordered_splice ?_ ?_ (h.named moving hm) ?_ ?_ ?_
  · rw [ids_others]
    exact h.nodup.filter _
  · exact fun s hs => h.named s (mem_others.mp hs).1
  · simp [ids_others]
  · intro q hq
    rw [take_others, ids_others]
    have hne : q ≠ moving.id := by
      rintro rfl
      exact hparent hq
    simpa [hne] using ht.parent_mem hq
  · intro t hto
    rcases moveLinks_cases newNextId h hm hto with ⟨hl, hlink⟩ | ⟨-, p, hp, hbefore⟩
    · refine ⟨some moving.id, hlink, fun q hq => .inr ⟨(Option.some_inj.mp hq).symm, ?_⟩⟩
      rw [drop_others, ids_others]
      simpa [(mem_others.mp hto).2] using hlean t hto hl
    · exact ⟨p, hp, fun q hq => .inl (hbefore q hq).2⟩

/-- In an ordered tab after a move, the moved step is neither its own parent nor its own dependent
and the steps that lean on it stand after its new place. -/
private theorem safe_of_ordered (h : Ordered steps) (hm : moving ∈ steps)
    (h' : Ordered (afterMove steps moving toIndex newParentId newNextId)) :
    newParentId ≠ some moving.id ∧
      (isChartStep moving.type = true ∨ newNextId ≠ some moving.id) ∧
      ∀ t ∈ others steps moving.id, Leans steps moving newNextId t →
        t.id ∈ ids (steps.drop toIndex) := by
  have hself : moving.id ∉ (moved moving newParentId newNextId).dependsOn :=
    h'.notMem_self (moved_mem steps moving toIndex newParentId newNextId)
  unfold moved at hself
  dsimp only at hself
  have hc : ¬ (isChartStep moving.type = false ∧ newNextId = some moving.id) := by
    intro hc
    rw [if_pos hc] at hself
    exact hself (mem_singleton.mpr rfl)
  rw [if_neg hc] at hself
  refine ⟨?_, ?_, ?_⟩
  · rintro rfl
    exact hself (mem_singleton.mpr rfl)
  · cases hchart : isChartStep moving.type with
    | true => exact .inl rfl
    | false => exact .inr fun hn => hc ⟨hchart, hn⟩
  · intro t ht hl
    rcases moveLinks_cases newNextId h hm ht with ⟨-, hlink⟩ | ⟨hnot, -⟩
    · have hbefore := (h'.before_of_mem (mem_afterMove ht) (q := moving.id) (by
        unfold setLinks
        rw [hlink]
        exact mem_singleton.mpr rfl)).1
      have hnodup := h'.nodup
      unfold Before at hbefore
      rw [ids_afterMove] at hbefore hnodup
      have hmem := mem_of_sublist_pair hnodup hbefore
      rw [ids_others] at hmem
      exact (mem_filter.mp hmem).1
    · exact absurd hl hnot

/-- A move keeps the tab exactly if it is safe. -/
theorem moveStep_keeps_iff (h : Ordered steps) (hm : moving ∈ steps)
    (ht : Target steps toIndex newParentId newNextId) {steps' : List (PipelineStep κ)}
    (hs : moveStep steps moving.id toIndex newParentId newNextId = some steps') :
    (Call.moveStep moving.id toIndex newParentId newNextId).Keeps steps steps' ↔
      (Call.moveStep moving.id toIndex newParentId newNextId).Safe steps := by
  rw [moveStep_eq h hm ht] at hs
  cases hs
  change Ordered (afterMove steps moving toIndex newParentId newNextId) ∧ _ ∧
    SameOrder steps (afterMove steps moving toIndex newParentId newNextId) moving.id ↔ _
  have hids : others (afterMove steps moving toIndex newParentId newNextId) moving.id =
      (others steps moving.id).map (setLinks (moveLinks steps moving newNextId)) := by
    have hrest : moving.id ∉ ids ((others steps moving.id).map
        (setLinks (moveLinks steps moving newNextId))) := by
      simp [ids_others]
    conv_rhs => rw [← others_absent hrest]
    unfold afterMove splice
    rw [others_append, ← take_append_drop (others (steps.take toIndex) moving.id).length
      ((others steps moving.id).map _), others_append, take_append_drop]
    simp [others, moved]
  -- the parents of the other steps, passing over the moved one
  have hparents (h' : Ordered (afterMove steps moving toIndex newParentId newNextId))
      (hnext : isChartStep moving.type = true ∨ newNextId ≠ some moving.id) :
      SameOrder steps (afterMove steps moving toIndex newParentId newNextId) moving.id ↔
        ∀ t ∈ others steps moving.id, Leans steps moving newNextId t →
          parentPast moving t = newParentId.toList := by
    have hmem := moved_mem steps moving toIndex newParentId newNextId
    rw [sameOrder_iff h h' hm hmem rfl, hids]
    constructor
    · intro hall t hto hl
      have hlist : ∀ b, b ∈ parentPast moving t ↔ b ∈ newParentId.toList := by
        intro b
        have hpast := parentPast_moved newParentId h hm hnext hto
        rw [if_pos hl] at hpast
        rw [← hpast]
        constructor
        · intro hb
          obtain ⟨t', ht', hid, hb'⟩ := (hall t.id b).mp ⟨t, hto, rfl, hb⟩
          obtain ⟨t0, ht0, rfl⟩ := mem_map.mp ht'
          have heq := eq_of_id h.nodup (mem_others.mp ht0).1 (mem_others.mp hto).1 hid
          rwa [heq] at hb'
        · intro hb
          obtain ⟨t', ht', hid, hb'⟩ := (hall t.id b).mpr ⟨_, mem_map_of_mem hto, rfl, hb⟩
          have heq := eq_of_id h.nodup (mem_others.mp ht').1 (mem_others.mp hto).1 hid
          rwa [heq] at hb'
      obtain ⟨p, hp⟩ := parentPast_toList h hm (mem_others.mp hto).1
      rw [hp] at hlist ⊢
      congr 1
      exact Option.ext fun b => by simpa using hlist b
    · intro hall a b
      have hpast : ∀ t ∈ others steps moving.id,
          parentPast (moved moving newParentId newNextId)
            (setLinks (moveLinks steps moving newNextId) t) = parentPast moving t := by
        intro t hto
        rw [parentPast_moved newParentId h hm hnext hto]
        split
        case isTrue hl => exact (hall t hto hl).symm
        case isFalse => rfl
      constructor
      · rintro ⟨t, hto, rfl, hb⟩
        exact ⟨_, mem_map_of_mem hto, rfl, by rwa [hpast t hto]⟩
      · rintro ⟨t', ht', rfl, hb⟩
        obtain ⟨t, hto, rfl⟩ := mem_map.mp ht'
        exact ⟨t, hto, rfl, by rwa [hpast t hto] at hb⟩
  constructor
  · rintro ⟨h', -, hsame⟩ s hs hid
    rw [eq_of_id h.nodup hs hm hid]
    obtain ⟨hparent, hnext, hlean⟩ := safe_of_ordered h hm h'
    refine ⟨hparent, hnext, fun t hts hne hl => ?_⟩
    have hto := mem_others.mpr ⟨hts, hne⟩
    exact ⟨hlean t hto hl, (hparents h' hnext).mp hsame t hto hl⟩
  · intro hsafe
    obtain ⟨hparent, hnext, hlean⟩ := hsafe moving hm rfl
    have h' := ordered_afterMove h hm ht hparent hnext fun t hto hl =>
      (hlean t (mem_others.mp hto).1 (mem_others.mp hto).2 hl).1
    refine ⟨h', ?_, (hparents h' hnext).mpr fun t hto hl =>
      (hlean t (mem_others.mp hto).1 (mem_others.mp hto).2 hl).2⟩
    refine (accounts_splice _ _ _).trans ?_
    -- the moved step and the others are all steps
    have hperm : steps ~ moving :: others steps moving.id := by
      obtain ⟨l1, l2, rfl⟩ := append_of_mem hm
      have hnodup := h.nodup
      rw [ids_append] at hnodup
      have hcons : ids (moving :: l2) = moving.id :: ids l2 := rfl
      rw [hcons, nodup_middle] at hnodup
      have hnot := (nodup_cons.mp hnodup).1
      rw [mem_append, not_or] at hnot
      have hothers : others (l1 ++ moving :: l2) moving.id = l1 ++ l2 := by
        rw [others_append, others_absent hnot.1]
        congr 1
        rw [← others_absent hnot.2]
        simp [others]
      rw [hothers]
      exact perm_middle
    exact (hperm.map PipelineStep.content).symm

end Moves

/-! ## Runs -/

/-- The tabs reached from a tab by calls of the editor, if its moves are safe. -/
inductive Edited (start : List (PipelineStep κ)) : List (PipelineStep κ) → Prop
  | start : Edited start start
  | call {steps steps' : List (PipelineStep κ)} {call : Call κ} : Edited start steps →
    call.Valid steps → call.Safe steps → call.apply steps = some steps' → Edited start steps'

/-- A call from an ordered tab keeps the tab exactly if it is safe. -/
theorem Call.keeps_iff (h : Ordered steps) {call : Call κ} (hv : call.Valid steps)
    {steps' : List (PipelineStep κ)} (hs : call.apply steps = some steps') :
    call.Keeps steps steps' ↔ call.Safe steps := by
  cases call with
  | addStep step =>
    cases hs
    refine iff_of_true ⟨ordered_addStep h hv.1 hv.2, ?_, trivial⟩ trivial
    change (Editor.addStep steps step).map _ ~ _
    rw [addStep_eq, map_splice]
    exact perm_splice _ _ _
  | insertStep step index parentId nextId =>
    obtain ⟨hid, hfresh, ht⟩ := hv
    refine iff_of_true ⟨ordered_insertStep h hid hfresh ht hs, ?_, trivial⟩ trivial
    obtain ⟨f, -, rfl⟩ := insertStep_eq h ht hs
    exact accounts_splice f index _
  | removeStep id =>
    refine iff_of_true ⟨ordered_removeStep h hs, ?_, trivial⟩ trivial
    by_cases hid : id ∈ ids steps
    · obtain ⟨removed, hr, rfl⟩ := mem_map.mp hid
      cases (removeStep_eq h hr).symm.trans hs
      unfold Accounts
      rw [content_map_setLinks]
    · cases (removeStep_absent hid).symm.trans hs
  | moveStep stepId toIndex newParentId newNextId =>
    by_cases hid : stepId ∈ ids steps
    · obtain ⟨moving, hm, rfl⟩ := mem_map.mp hid
      exact moveStep_keeps_iff h hm hv hs
    · have hfind := find_eq_none hid
      have hnone : Editor.moveStep steps stepId toIndex newParentId newNextId = none := by
        unfold Editor.moveStep
        rw [hfind]
      cases hnone.symm.trans hs

/-- The editor graph: from an ordered tab, calls whose moves are safe reach ordered tabs only, and
there each call keeps the tab exactly if it is safe. -/
theorem editor_graph {start : List (PipelineStep κ)} (h : Ordered start)
    (hs : Edited start steps) : Ordered steps ∧ ∀ (call : Call κ) steps', call.Valid steps →
      call.apply steps = some steps' → (call.Keeps steps steps' ↔ call.Safe steps) := by
  have hordered : Ordered steps := by
    induction hs with
    | start => exact h
    | call _ hv hsafe happly ih => exact ((Call.keeps_iff ih hv happly).mpr hsafe).1
  exact ⟨hordered, fun call steps' hv happly => Call.keeps_iff hordered hv happly⟩

/-- A step that depends on the given ones. -/
def sampleStep (id type : String) (dependsOn : List String) : PipelineStep Unit :=
  ⟨id, type, (), dependsOn, none⟩

/-- A chain of four steps. -/
def chain : List (PipelineStep Unit) :=
  [sampleStep "A" "filter" [], sampleStep "B" "filter" ["A"], sampleStep "C" "filter" ["B"],
    sampleStep "D" "filter" ["C"]]

/-- The chain with its second step moved behind the third. -/
def movedChain : List (PipelineStep Unit) :=
  [sampleStep "A" "filter" [], sampleStep "C" "filter" ["A"], sampleStep "B" "filter" ["C"],
    sampleStep "D" "filter" ["B"]]

theorem editor_graph_chain : Ordered movedChain ∧
    (Call.moveStep "D" 1 (some "A") (some "C")).Keeps movedChain
      [sampleStep "A" "filter" [], sampleStep "D" "filter" ["A"], sampleStep "C" "filter" ["D"],
        sampleStep "B" "filter" ["C"]] := by
  have h : Ordered chain := by
    refine ⟨by decide, by decide, fun s hs => ?_⟩
    simp only [chain, mem_cons, not_mem_nil, or_false] at hs
    rcases hs with rfl | rfl | rfl | rfl
    · exact ⟨none, rfl, by simp⟩
    · exact ⟨some "A", rfl, by simp [Before, ids, chain, sampleStep]⟩
    · exact ⟨some "B", rfl, by simp [Before, ids, chain, sampleStep]⟩
    · exact ⟨some "C", rfl, by simp [Before, ids, chain, sampleStep]⟩
  have hs : Edited chain movedChain :=
    @Edited.call _ _ _ _ (.moveStep "B" 3 (some "C") (some "D")) .start
      (by unfold Call.Valid; decide) (by unfold Call.Safe; decide) (by decide)
  obtain ⟨hm, hkeeps⟩ := editor_graph h hs
  exact ⟨hm, (hkeeps (.moveStep "D" 1 (some "A") (some "C")) _ (by unfold Call.Valid; decide)
    (by decide)).mpr (by unfold Call.Safe; decide)⟩

/-- A chart inserted between two steps. -/
def forked : List (PipelineStep Unit) :=
  [sampleStep "A" "filter" [], sampleStep "chart" "chart" ["A"], sampleStep "B" "filter" ["A"]]

/-- Moving the first step to the end unlinks the chart only, so the step it is moved behind still
depends on it. -/
theorem move_closes_cycle : Ordered forked ∧
    (Call.moveStep "A" 3 (some "B") none).Valid forked ∧
    ∃ steps, (Call.moveStep "A" 3 (some "B") none).apply forked = some steps ∧
      Relation.TransGen (DependsOn steps) "A" "A" := by
  refine ⟨⟨by decide, by decide, fun s hs => ?_⟩, by unfold Call.Valid; decide,
    [sampleStep "chart" "chart" [], sampleStep "B" "filter" ["A"], sampleStep "A" "filter" ["B"]],
    by decide, ?_⟩
  · simp only [forked, mem_cons, not_mem_nil, or_false] at hs
    rcases hs with rfl | rfl | rfl
    · exact ⟨none, rfl, by simp⟩
    · exact ⟨some "A", rfl, by simp [Before, ids, forked, sampleStep]⟩
    · exact ⟨some "A", rfl, by simp [Before, ids, forked, sampleStep]⟩
  · exact .tail (.single ⟨sampleStep "A" "filter" ["B"], by simp, rfl, by simp [sampleStep]⟩)
      ⟨sampleStep "B" "filter" ["A"], by simp, rfl, by simp [sampleStep]⟩

end DataForge.Editor
