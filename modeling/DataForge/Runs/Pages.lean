import DataForge.Runs.Listing

/-!
# Pages of the merged list

When the pages of `GET /builds` list every matching run of the namespace once, newest first: the
run that comes k-th by `started_at` must be among the first k of its own table by `created_at`,
where the table of builds counts the builds of other namespaces too.
-/

namespace DataForge.Runs

open Documents ReadCommitted Builds

namespace ListedRun

def ns : ListedRun → String
  | .build _ run => run.ns
  | .compute _ run => run.ns

/-- The time the list sorts by. -/
def startedAt : ListedRun → ℕ
  | .build _ run => run.startedAt
  | .compute _ run => run.createdAt

/-- Newest first. -/
def newer (a b : ListedRun) : Prop := b.startedAt ≤ a.startedAt

instance newer.decidable : DecidableRel newer :=
  fun a b => inferInstanceAs (Decidable (b.startedAt ≤ a.startedAt))

instance newer.total : Std.Total newer := ⟨fun a b => Nat.le_total b.startedAt a.startedAt⟩

instance newer.trans : IsTrans ListedRun newer := ⟨fun _ _ _ hab hbc => Nat.le_trans hbc hab⟩

/-- The list can show the row. -/
def Readable (validate : Json ℚ → Except String (Json ℚ)) : ListedRun → Prop
  | .build _ run => ∃ kind, ComputeWorkerRunKind.parse run.currentKind = .ok kind
  | .compute id run => ∃ response, serializeRun validate id run = .ok response

end ListedRun

section Pages

variable (lower : Char → Char) (T : RunTables) (validate : Json ℚ → Except String (Json ℚ))
  (ns : String) (f : ListFilters)

/-- The builds that pass the filters, of any namespace, latest created first. -/
def buildRows : List ListedRun :=
  (buildQuery lower T (stripped f.analysisId) (stripped f.datasourceId) f.kind
    (f.status.map BuildLifecycleStatus.toBuildRunStatus) f.search).map fun e => .build e.1 e.2

/-- The compute worker runs of the namespace that pass the filters, latest created first. None is
queued, and none has a kind that does not exist. -/
def computeRows : List ListedRun :=
  if f.status = some .queued then [] else
    match ComputeWorkerRunKind.parse (computeWorkerRunKindFilter f.kind) with
    | .error _ => []
    | .ok kind => if kind = some .build then [] else
      (runQuery lower T ns (stripped f.analysisId) (stripped f.datasourceId) kind
        (computeWorkerRunStatusFilter f.status) f.search).map fun e => .compute e.1 e.2

/-- The row belongs to the namespace. -/
def inNamespace (row : ListedRun) : Bool := row.ns = ns

/-- The runs of the namespace that pass the filters. -/
def matchingRuns : List ListedRun :=
  (buildRows lower T f).filter (inNamespace ns) ++
    (computeRows lower T ns f).filter (inNamespace ns)

/-- The concatenation of the first pages. -/
def listPages (limit count : ℕ) : Except String (List Entry) := do
  let responses ← (List.range count).mapM fun k =>
    listBuilds lower T validate ns f limit (k * limit)
  .ok (responses.flatMap BuildRunListResponse.builds)

/-- The kind filter, where it is used, names a kind. -/
def KindKnown : Prop :=
  f.status = some .queued ∨
    ∃ kind, ComputeWorkerRunKind.parse (computeWorkerRunKindFilter f.kind) = .ok kind

end Pages

/-- The summary shows when the row started. -/
def Entry.Made (e : Entry) : Prop := e.summary.startedAt = e.row.startedAt

section Entries

variable {validate : Json ℚ → Except String (Json ℚ)} {ns : String}

/-- The entries show readable rows, in order. -/
structure Shown (validate : Json ℚ → Except String (Json ℚ)) (rows : List ListedRun)
    (entries : List Entry) : Prop where
  rows_eq : entries.map Entry.row = rows
  made : ∀ e ∈ entries, e.Made
  readable : ∀ row ∈ rows, row.Readable validate

theorem Shown.append {rows rows' : List ListedRun} {entries entries' : List Entry}
    (h : Shown validate rows entries) (h' : Shown validate rows' entries') :
    Shown validate (rows ++ rows') (entries ++ entries') where
  rows_eq := by rw [List.map_append, h.rows_eq, h'.rows_eq]
  made e he := (List.mem_append.mp he).elim (h.made e) (h'.made e)
  readable row hrow := (List.mem_append.mp hrow).elim (h.readable row) (h'.readable row)

theorem Shown.cons {row : ListedRun} {rows : List ListedRun} {e : Entry} {entries : List Entry}
    (hrow : e.row = row) (hmade : e.Made) (hread : row.Readable validate)
    (h : Shown validate rows entries) : Shown validate (row :: rows) (e :: entries) where
  rows_eq := by rw [List.map_cons, hrow, h.rows_eq]
  made := List.forall_mem_cons.mpr ⟨hmade, h.made⟩
  readable := List.forall_mem_cons.mpr ⟨hread, h.readable⟩

theorem Shown.nil : Shown validate [] [] := ⟨rfl, by simp, by simp⟩

theorem buildEntry_ok {e : String × BuildRun} {x : Entry} (h : buildEntry e = .ok x) :
    x.row = .build e.1 e.2 ∧ x.Made ∧ (ListedRun.build e.1 e.2).Readable validate := by
  rw [buildEntry, buildSummary] at h
  obtain ⟨summary, hs, hx⟩ := Effects.bind_ok.mp h
  obtain ⟨kind, hk, hs⟩ := Effects.bind_ok.mp hs
  cases hs
  cases hx
  exact ⟨rfl, rfl, kind, hk⟩

theorem exists_buildEntry {e : String × BuildRun}
    (h : (ListedRun.build e.1 e.2).Readable validate) : ∃ x, buildEntry e = .ok x := by
  obtain ⟨kind, hk⟩ := h
  rw [buildEntry, buildSummary, hk]
  exact ⟨_, rfl⟩

variable (validate) in
theorem shown_builds {rows : List (String × BuildRun)} {entries : List Entry}
    (h : rows.mapM buildEntry = .ok entries) :
    Shown validate (rows.map fun e => .build e.1 e.2) entries := by
  have hall := Effects.mapM_ok.mp h
  clear h
  induction hall with
  | nil => exact .nil
  | cons he _ ih =>
    obtain ⟨hrow, hmade, hread⟩ := buildEntry_ok he
    exact ih.cons hrow hmade hread

theorem exists_builds {rows : List (String × BuildRun)}
    (h : ∀ row ∈ rows.map fun e => ListedRun.build e.1 e.2, row.Readable validate) :
    ∃ entries, rows.mapM buildEntry = .ok entries := by
  cases hm : rows.mapM buildEntry with
  | ok entries => exact ⟨entries, rfl⟩
  | error e =>
    obtain ⟨x, hx, he⟩ := Effects.mapM_error hm
    obtain ⟨entry, hok⟩ := exists_buildEntry (h _ (List.mem_map_of_mem hx))
    rw [hok] at he
    cases he

theorem shown_runs {rows : List (String × ComputeWorkerRun)}
    {responses : List ComputeWorkerRunResponse}
    (h : (rows.mapM fun e => serializeRun validate e.1 e.2) = .ok responses) :
    Shown validate (rows.map fun e => .compute e.1 e.2) (responses.map (engineEntry ns)) := by
  have hall := Effects.mapM_ok.mp h
  clear h
  induction hall with
  | nil => exact .nil
  | @cons e response _ _ he _ ih =>
    obtain ⟨hid, hrun, -⟩ := serializeRun_ok he
    refine ih.cons ?_ rfl ⟨response, he⟩
    rw [engineEntry, hid, hrun]

theorem exists_runs {rows : List (String × ComputeWorkerRun)}
    (h : ∀ row ∈ rows.map fun e => ListedRun.compute e.1 e.2, row.Readable validate) :
    ∃ responses, (rows.mapM fun e => serializeRun validate e.1 e.2) = .ok responses := by
  cases hm : rows.mapM fun e => serializeRun validate e.1 e.2 with
  | ok responses => exact ⟨responses, rfl⟩
  | error e =>
    obtain ⟨x, hx, he⟩ := Effects.mapM_error hm
    obtain ⟨response, hok⟩ := h _ (List.mem_map_of_mem hx)
    rw [hok] at he
    cases he

end Entries

section Window

variable {lower : Char → Char} {T : RunTables} {validate : Json ℚ → Except String (Json ℚ)}
  {ns : String} {f : ListFilters} {limit offset : ℕ}

theorem windowBuilds_eq (n : ℕ) :
    ((listBuildRuns lower T (stripped f.analysisId) (stripped f.datasourceId) f.kind
      (f.status.map BuildLifecycleStatus.toBuildRunStatus) f.search n 0).filter
        fun e => e.2.ns = ns).map (fun e => ListedRun.build e.1 e.2) =
      ((buildRows lower T f).take n).filter (inNamespace ns) := by
  rw [listBuildRuns, List.drop_zero, buildRows, ← List.map_take, List.filter_map]
  rfl

variable (lower T ns f) in
theorem computeRows_eq : computeRows lower T ns f = [] ∨ ∃ kind, computeRows lower T ns f =
    (runQuery lower T ns (stripped f.analysisId) (stripped f.datasourceId) kind
      (computeWorkerRunStatusFilter f.status) f.search).map fun e => .compute e.1 e.2 := by
  rw [computeRows]
  split
  · exact Or.inl rfl
  · split
    · exact Or.inl rfl
    · next kind _ =>
      split
      · exact Or.inl rfl
      · exact Or.inr ⟨kind, rfl⟩

theorem inNamespace_of_mem_computeRows {row : ListedRun} (h : row ∈ computeRows lower T ns f) :
    inNamespace ns row = true := by
  rcases computeRows_eq lower T ns f with he | ⟨kind, he⟩
  · rw [he] at h
    cases h
  · rw [he] at h
    obtain ⟨e, he, rfl⟩ := List.mem_map.mp h
    have hsel := (List.mem_filter.mp ((List.mem_insertionSort _).mp he)).2
    simp only [selectsRun, Bool.and_eq_true] at hsel
    exact hsel.1.1.1.1.1

theorem shown_engineRows {n : ℕ} {entries : List Entry}
    (h : engineRows lower T validate ns f n = .ok entries) :
    KindKnown f ∧ Shown validate ((computeRows lower T ns f).take n) entries := by
  rw [engineRows] at h
  by_cases hs : f.status = some .queued
  · rw [if_pos hs] at h
    cases h
    rw [computeRows, if_pos hs, List.take_nil]
    exact ⟨Or.inl hs, .nil⟩
  · rw [if_neg hs, listComputeWorkerRuns] at h
    rw [computeRows, if_neg hs]
    cases hk : ComputeWorkerRunKind.parse (computeWorkerRunKindFilter f.kind) with
    | error e =>
      rw [hk] at h
      cases h
    | ok kind =>
      refine ⟨Or.inr ⟨kind, hk⟩, ?_⟩
      rw [hk] at h
      change Except.map _ (if kind = some .build then .ok [] else _) = _ at h
      dsimp only
      by_cases hb : kind = some .build
      · rw [if_pos hb] at h
        cases h
        rw [if_pos hb, List.take_nil]
        exact .nil
      · rw [if_neg hb, List.drop_zero] at h
        rw [if_neg hb, ← List.map_take]
        cases hm : ((runQuery lower T ns (stripped f.analysisId) (stripped f.datasourceId) kind
            (computeWorkerRunStatusFilter f.status) f.search).take n).mapM
              fun e => serializeRun validate e.1 e.2 with
        | error e =>
          rw [hm] at h
          cases h
        | ok responses =>
          rw [hm] at h
          cases h
          exact shown_runs hm

theorem exists_engineRows {n : ℕ} (hkind : KindKnown f)
    (h : ∀ row ∈ (computeRows lower T ns f).take n, row.Readable validate) :
    ∃ entries, engineRows lower T validate ns f n = .ok entries := by
  rw [engineRows]
  by_cases hs : f.status = some .queued
  · rw [if_pos hs]
    exact ⟨[], rfl⟩
  · rw [if_neg hs, listComputeWorkerRuns]
    obtain ⟨kind, hk⟩ := hkind.resolve_left hs
    rw [computeRows, if_neg hs, hk] at h
    rw [hk]
    change ∃ entries, Except.map _ (if kind = some .build then .ok [] else _) = _
    dsimp only at h
    by_cases hb : kind = some .build
    · rw [if_pos hb]
      exact ⟨[], rfl⟩
    · rw [if_neg hb, ← List.map_take] at h
      rw [if_neg hb, List.drop_zero]
      obtain ⟨responses, hm⟩ := exists_runs h
      rw [hm]
      exact ⟨_, rfl⟩

theorem map_row_insertionSort {entries : List Entry} (h : ∀ e ∈ entries, e.Made) :
    (entries.insertionSort startedOrder).map Entry.row =
      (entries.map Entry.row).insertionSort ListedRun.newer := by
  refine List.map_insertionSort _ _ _ _ fun a ha b hb => ?_
  rw [startedOrder, ListedRun.newer, h a ha, h b hb]

/-- A page of the list is a page of the merge of the two queries. -/
theorem listBuilds_ok {r : BuildRunListResponse}
    (h : listBuilds lower T validate ns f limit offset = .ok r) :
    KindKnown f ∧
      (∀ row ∈ Paging.window ListedRun.newer (inNamespace ns) (buildRows lower T f)
        (computeRows lower T ns f) (limit + offset), row.Readable validate) ∧
      r.builds.map Entry.row = Paging.page ListedRun.newer (inNamespace ns) (buildRows lower T f)
        (computeRows lower T ns f) limit offset ∧
      ∀ e ∈ r.builds, e.Made := by
  rw [listBuilds] at h
  obtain ⟨builds, hb, h⟩ := Effects.bind_ok.mp h
  obtain ⟨engines, he, h⟩ := Effects.bind_ok.mp h
  cases h
  obtain ⟨hkind, hengines⟩ := shown_engineRows he
  have hbuilds := shown_builds validate hb
  rw [windowBuilds_eq] at hbuilds
  have hkeep : ((computeRows lower T ns f).take (limit + offset)).filter (inNamespace ns) =
      (computeRows lower T ns f).take (limit + offset) :=
    List.filter_eq_self.mpr fun row hrow =>
      inNamespace_of_mem_computeRows (List.mem_of_mem_take hrow)
  rw [← hkeep] at hengines
  have hall := hbuilds.append hengines
  refine ⟨hkind, fun row hrow => hall.readable row ((List.mem_insertionSort _).mp hrow), ?_, ?_⟩
  · rw [List.map_take, List.map_drop, map_row_insertionSort hall.made, hall.rows_eq]
    rfl
  · intro e he
    have hmem := List.mem_of_mem_drop (List.mem_of_mem_take he)
    exact hall.made e ((List.mem_insertionSort _).mp hmem)

variable (limit offset) in
/-- A page succeeds where the kind is known and the rows of its window are readable. -/
theorem exists_listBuilds (hkind : KindKnown f)
    (h : ∀ row ∈ matchingRuns lower T ns f, row.Readable validate) :
    ∃ r, listBuilds lower T validate ns f limit offset = .ok r := by
  rw [listBuilds]
  have hb : ∀ row ∈ ((listBuildRuns lower T (stripped f.analysisId) (stripped f.datasourceId)
      f.kind (f.status.map BuildLifecycleStatus.toBuildRunStatus) f.search (limit + offset)
      0).filter fun e => e.2.ns = ns).map fun e => ListedRun.build e.1 e.2,
      row.Readable validate := by
    intro row hrow
    rw [windowBuilds_eq] at hrow
    exact h row (List.mem_append_left _ (((List.take_sublist _ _).filter _).subset hrow))
  obtain ⟨builds, hbuilds⟩ := exists_builds hb
  have he : ∀ row ∈ (computeRows lower T ns f).take (limit + offset), row.Readable validate := by
    intro row hrow
    have hmem := List.mem_of_mem_take hrow
    exact h row (List.mem_append_right _
      (List.mem_filter.mpr ⟨hmem, inNamespace_of_mem_computeRows hmem⟩))
  obtain ⟨engines, hengines⟩ := exists_engineRows hkind he
  rw [hbuilds, hengines]
  exact ⟨_, rfl⟩

theorem listPages_ok {count : ℕ} {shown : List Entry}
    (h : listPages lower T validate ns f limit count = .ok shown) :
    shown.map Entry.row = Paging.pages ListedRun.newer (inNamespace ns) (buildRows lower T f)
      (computeRows lower T ns f) limit count ∧ ∀ e ∈ shown, e.Made := by
  rw [listPages] at h
  obtain ⟨responses, hm, hshown⟩ := Effects.bind_ok.mp h
  cases hshown
  have hall := Effects.mapM_ok.mp hm
  clear h hm
  rw [Paging.pages]
  generalize List.range count = ks at hall
  induction hall with
  | nil => exact ⟨rfl, by simp⟩
  | cons hk _ ih =>
    obtain ⟨-, -, hrows, hmade⟩ := listBuilds_ok hk
    rw [List.flatMap_cons, List.flatMap_cons, List.map_append, hrows, ih.1]
    exact ⟨rfl, fun e he => (List.mem_append.mp he).elim (hmade e) (ih.2 e)⟩

theorem nodup_query {ρ : Type} (t : Table String ρ) (p : String × ρ → Bool)
    (o : String × ρ → String × ρ → Prop) [DecidableRel o] :
    ((t.rows.filter p).insertionSort o).Nodup :=
  (List.perm_insertionSort o _).nodup_iff.mpr (t.nodup.of_map.filter p)

theorem nodup_buildRows : (buildRows lower T f).Nodup := by
  refine (nodup_query T.builds _ _).map fun a b h => ?_
  injection h with hid hrun
  exact Prod.ext hid hrun

theorem nodup_computeRows : (computeRows lower T ns f).Nodup := by
  rcases computeRows_eq lower T ns f with he | ⟨kind, he⟩
  · rw [he]
    exact List.nodup_nil
  · rw [he]
    refine (nodup_query T.runs _ _).map fun a b h => ?_
    injection h with hid hrun
    exact Prod.ext hid hrun

theorem build_notMem_computeRows (id : String) (run : BuildRun) :
    .build id run ∉ computeRows lower T ns f := by
  intro h
  rcases computeRows_eq lower T ns f with he | ⟨kind, he⟩
  · rw [he] at h
    cases h
  · rw [he] at h
    obtain ⟨e, -, h⟩ := List.mem_map.mp h
    cases h

theorem nodup_rows : (buildRows lower T f ++ computeRows lower T ns f).Nodup := by
  refine List.nodup_append.mpr ⟨nodup_buildRows, nodup_computeRows, ?_⟩
  rintro a ha b hb rfl
  obtain ⟨e, -, rfl⟩ := List.mem_map.mp ha
  exact build_notMem_computeRows e.1 e.2 hb

variable (lower T f) in
theorem length_buildRows_le : (buildRows lower T f).length ≤ T.builds.rows.length := by
  rw [buildRows, List.length_map, buildQuery, List.length_insertionSort]
  exact List.length_filter_le _ _

variable (lower T ns f) in
theorem length_computeRows_le : (computeRows lower T ns f).length ≤ T.runs.rows.length := by
  rcases computeRows_eq lower T ns f with he | ⟨kind, he⟩
  · rw [he]
    exact Nat.zero_le _
  · rw [he, List.length_map, runQuery, List.length_insertionSort]
    exact List.length_filter_le _ _

/-- Where the pages succeed, the last of them has seen every row. -/
theorem readable_of_listPages {count : ℕ} {shown : List Entry}
    (h : listPages lower T validate ns f 1 (count + 1) = .ok shown)
    (hcount : T.builds.rows.length + T.runs.rows.length ≤ count) :
    KindKnown f ∧ ∀ row ∈ matchingRuns lower T ns f, row.Readable validate := by
  rw [listPages] at h
  obtain ⟨responses, hm, -⟩ := Effects.bind_ok.mp h
  obtain ⟨r, -, hr⟩ := Effects.forall₂_left (Effects.mapM_ok.mp hm)
    (List.mem_range.mpr (Nat.lt_succ_self count))
  obtain ⟨hkind, hread, -, -⟩ := listBuilds_ok hr
  refine ⟨hkind, fun row hrow => hread row (Paging.mem_window.mpr ?_)⟩
  have hb : (buildRows lower T f).length ≤ 1 + count * 1 := by
    have := length_buildRows_le lower T f
    omega
  have hc : (computeRows lower T ns f).length ≤ 1 + count * 1 := by
    have := length_computeRows_le lower T ns f
    omega
  rw [List.take_of_length_le hb, List.take_of_length_le hc]
  rw [matchingRuns, List.mem_append, List.mem_filter, List.mem_filter, ← or_and_right] at hrow
  exact hrow

variable (limit) in
theorem exists_listPages (hkind : KindKnown f)
    (h : ∀ row ∈ matchingRuns lower T ns f, row.Readable validate) (count : ℕ) :
    ∃ shown, listPages lower T validate ns f limit count = .ok shown := by
  rw [listPages]
  cases hm : (List.range count).mapM
      fun k => listBuilds lower T validate ns f limit (k * limit) with
  | ok responses => exact ⟨_, rfl⟩
  | error e =>
    obtain ⟨k, -, he⟩ := Effects.mapM_error hm
    obtain ⟨r, hr⟩ := exists_listBuilds limit (k * limit) hkind h
    rw [hr] at he
    cases he

/-- The pages of `GET /builds` list every run of the namespace that passes the filters once and
newest first, for every page size, exactly when the kind filter is known, every such run can be
shown, and the run that comes k-th by `started_at` is for every k among the first k + 1 of its own
query by `created_at`. -/
theorem listPages_complete_iff (lower : Char → Char) (T : RunTables)
    (validate : Json ℚ → Except String (Json ℚ)) (ns : String) (f : ListFilters) :
    (∀ limit count, 0 < limit → T.builds.rows.length + T.runs.rows.length ≤ count →
      ∃ shown, listPages lower T validate ns f limit count = .ok shown ∧
        (shown.map Entry.row).Perm (matchingRuns lower T ns f) ∧ shown.Pairwise startedOrder) ↔
      KindKnown f ∧ (∀ row ∈ matchingRuns lower T ns f, row.Readable validate) ∧
        Paging.InStep ListedRun.newer (inNamespace ns) (buildRows lower T f)
          (computeRows lower T ns f) := by
  constructor
  · intro h
    obtain ⟨shown, hshown, hperm, -⟩ := h 1 _ Nat.one_pos (Nat.le_succ _)
    obtain ⟨hkind, hread⟩ := readable_of_listPages hshown (Nat.le_refl _)
    rw [(listPages_ok hshown).1] at hperm
    exact ⟨hkind, hread, Paging.inStep_of_pages nodup_rows
      (hperm.trans (List.perm_insertionSort _ _).symm)⟩
  · rintro ⟨hkind, hread, hstep⟩ limit count hlimit hcount
    obtain ⟨shown, hshown⟩ := exists_listPages limit hkind hread count
    obtain ⟨hrows, hmade⟩ := listPages_ok hshown
    have hlen := Nat.add_le_add (length_buildRows_le lower T f)
      (length_computeRows_le lower T ns f)
    have hpages := (Paging.pages_iff_inStep nodup_rows).mpr hstep limit count hlimit
      (Nat.le_trans hlen hcount)
    rw [← hrows] at hpages
    refine ⟨shown, hshown, hpages.1, (List.pairwise_map.mp hpages.2).imp_of_mem ?_⟩
    intro a b ha hb hab
    rw [startedOrder, hmade a ha, hmade b hb]
    exact hab

end Window

/-- A running build, created and started at `t`. -/
def buildAt (ns : String) (t : ℕ) : BuildRun :=
  { ns
    scheduleId := none
    analysisId := "a"
    analysisName := "a"
    status := .running
    requestJson := ""
    starterJson := ""
    createdAt := t
    startedAt := t
    updatedAt := t }

/-- A build of this namespace, and a later one of another. -/
def twoNamespaces : RunTables where
  builds := ⟨[("mine", buildAt "default" 1), ("theirs", buildAt "other" 2)], by decide⟩
  runs := .empty
  datasourceNames := .empty
  analysisNames := .empty

private theorem listPages_twoNamespaces :
    listPages id twoNamespaces .ok "default" {} 1 2 = .ok [] := rfl

/-- Pages of one run do not show the only build of the namespace: the first page is cut to the
build of the other namespace, and the second one starts behind it. -/
theorem not_listPages_twoNamespaces :
    ¬ ∀ limit count, 0 < limit →
      twoNamespaces.builds.rows.length + twoNamespaces.runs.rows.length ≤ count →
        ∃ shown, listPages id twoNamespaces .ok "default" {} limit count = .ok shown ∧
          (shown.map Entry.row).Perm (matchingRuns id twoNamespaces "default" {}) ∧
            shown.Pairwise startedOrder := by
  intro h
  obtain ⟨shown, hshown, hperm, -⟩ := h 1 2 Nat.one_pos (by decide)
  rw [listPages_twoNamespaces] at hshown
  cases hshown
  exact absurd hperm.length_eq (by decide)

end DataForge.Runs
