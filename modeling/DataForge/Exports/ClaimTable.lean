import DataForge.Frames.Table

/-!
# The table of a publication claim

What `export_data` writes to the claim table (`worker/runtime/compute_service.py:1588-1615`)
as a list of Iceberg commits, with `sync_iceberg_schema`
(`worker/runtime/iceberg_metadata.py:15-29`). An attempt can end after any commit and be
repeated under the same claim. The table published before is not the claim's own: its
name ends in no claim token or in another one.
-/

namespace DataForge.Exports

open Frames

variable {V : Type}

/-- A table whose columns go by name. -/
abbrev NamedTable (V : Type) := Table String V

/-- `build_mode`. -/
inductive BuildMode
  | full
  | incremental
  | recreate
deriving DecidableEq, Repr

/-- `delete_column` for each of some columns. -/
def deleteColumns (t : NamedTable V) (names : List String) : NamedTable V :=
  t.restrict (t.columns.filter (· ∉ names))

/-- `sync_iceberg_schema`, given the table whose schema is the new one. -/
def syncIcebergSchema (t new : NamedTable V) : NamedTable V :=
  let toDelete := t.columns.filter (· ∉ new.columns)
  let hasAdditions := new.columns.any (· ∉ t.columns)
  if toDelete.isEmpty && !hasAdditions then t
  else
    let kept := deleteColumns t toDelete
    if hasAdditions then kept.widen new.columns new.nodup else kept

/-- A commit to the claim table; `create` and `sync` take the schema of a table. -/
inductive Commit (V : Type)
  | create (schema : NamedTable V)
  | sync (schema : NamedTable V)
  | append (rows : NamedTable V)
  | overwrite (rows : NamedTable V)

/-- How Iceberg refuses a commit. -/
inductive IcebergError
  | tableExists
  | noSuchTable
  | moreColumns
deriving DecidableEq, Repr

/-- A commit to the claim table, which is `none` before it is created. -/
def Commit.run : Commit V → Option (NamedTable V) → Except IcebergError (NamedTable V)
  | .create schema, none => .ok (Table.empty schema.columns schema.nodup)
  | .create _, some _ => .error .tableExists
  | .sync schema, some t => .ok (syncIcebergSchema t schema)
  | .append rows, some t =>
    if h : rows.columns ⊆ t.columns then .ok (t.append rows h) else .error .moreColumns
  | .overwrite rows, some t =>
    if h : rows.columns ⊆ t.columns then .ok (t.withRows rows h) else .error .moreColumns
  | _, none => .error .noSuchTable

/-- Commits in a row. -/
def runCommits : List (Commit V) → Option (NamedTable V) →
    Except IcebergError (Option (NamedTable V))
  | [], t => .ok t
  | c :: cs, t => do
    let t ← c.run t
    runCommits cs (some t)

/-- `previous_arrow`: the published table, read by incremental builds only. -/
def previousArrow (mode : BuildMode) (published : Option (NamedTable V)) :
    Option (NamedTable V) :=
  if mode = .incremental then published else none

/-- `final`: the previous rows and the new ones. -/
def finalTable (previous : Option (NamedTable V)) (arrow : NamedTable V) : NamedTable V :=
  match previous with
  | some previous => previous.concat arrow
  | none => arrow

/-- The commits of one attempt, which has found the claim table or not. -/
def claimCommits (mode : BuildMode) (published : Option (NamedTable V)) (arrow : NamedTable V)
    (tableExists : Bool) : List (Commit V) :=
  let previous := previousArrow mode published
  if tableExists then
    let final := finalTable previous arrow
    [.sync final, .overwrite final]
  else
    match previous with
    | some previous => [.create previous, .append previous, .sync arrow, .append arrow]
    | none => [.create arrow, .append arrow]

/-- An attempt that writes the claim table to its end. -/
def writeClaim (mode : BuildMode) (published : Option (NamedTable V)) (arrow : NamedTable V)
    (claim : Option (NamedTable V)) : Except IcebergError (Option (NamedTable V)) :=
  runCommits (claimCommits mode published arrow claim.isSome) claim

/-- The claim tables that attempts under one claim leave behind, each with a result of
its own and ending after any number of its commits. -/
inductive Interrupted (mode : BuildMode) (published : Option (NamedTable V)) :
    Option (NamedTable V) → Prop
  | fresh : Interrupted mode published none
  | attempt {claim claim' : Option (NamedTable V)} (arrow : NamedTable V) (commits : ℕ)
      (h : Interrupted mode published claim)
      (hrun : runCommits ((claimCommits mode published arrow claim.isSome).take commits) claim =
        .ok claim') : Interrupted mode published claim'

/-- The claim table ends up the same from whatever the earlier attempts left. -/
def PathIndependent (mode : BuildMode) (published : Option (NamedTable V))
    (arrow : NamedTable V) : Prop :=
  ∃ first, writeClaim mode published arrow none = .ok (some first) ∧
    ∀ claim, Interrupted mode published claim →
      ∃ final, writeClaim mode published arrow claim = .ok (some final) ∧ final.Alike first

section Sync

variable {t new : NamedTable V}

theorem mem_columns_deleteColumns {names : List String} {c : String} :
    c ∈ (deleteColumns t names).columns ↔ c ∈ t.columns ∧ c ∉ names := by
  change c ∈ t.columns.filter _ ↔ _
  rw [List.mem_filter, decide_eq_true_eq, List.mem_filter, decide_eq_true_eq]
  exact ⟨fun h => h.2, fun h => ⟨h.1, h⟩⟩

/-- A synchronised table has the columns of the new schema. -/
theorem mem_columns_sync {c : String} :
    c ∈ (syncIcebergSchema t new).columns ↔ c ∈ new.columns := by
  have hkept : c ∈ (deleteColumns t (t.columns.filter (· ∉ new.columns))).columns ↔
      c ∈ t.columns ∧ c ∈ new.columns := by
    rw [mem_columns_deleteColumns, List.mem_filter, decide_eq_true_eq]
    grind
  rw [syncIcebergSchema]
  by_cases hadd : new.columns.any (· ∉ t.columns) = true
  · simp only [hadd, Bool.not_true, Bool.and_false, Bool.false_eq_true, if_false, if_true]
    change c ∈ Table.union _ _ ↔ _
    rw [Table.mem_union, hkept]
    exact ⟨fun h => h.elim And.right id, .inr⟩
  · have hsub : ∀ c ∈ new.columns, c ∈ t.columns := by
      simpa using hadd
    simp only [hadd, Bool.false_eq_true, if_false]
    split
    · rename_i hempty
      have hdelete : ∀ c ∈ t.columns, c ∈ new.columns := by
        simpa using hempty
      exact ⟨hdelete c, hsub c⟩
    · rw [hkept]
      exact ⟨And.right, fun h => ⟨hsub c h, h⟩⟩

theorem rows_sync (h : t.columns ⊆ new.columns) : (syncIcebergSchema t new).rows = t.rows := by
  have hrows : (deleteColumns t (t.columns.filter (· ∉ new.columns))).rows = t.rows := by
    refine Table.rows_restrict fun c hc => ?_
    refine List.mem_filter.mpr ⟨hc, decide_eq_true ?_⟩
    rw [List.mem_filter, decide_eq_true_eq]
    exact fun hdelete => hdelete.2 (h hc)
  rw [syncIcebergSchema]
  split
  · rfl
  · split
    · exact hrows
    · exact hrows

end Sync

section Attempts

variable (mode : BuildMode) (published : Option (NamedTable V)) (arrow : NamedTable V)

theorem writeClaim_some (t : NamedTable V) :
    ∃ final, writeClaim mode published arrow (some t) = .ok (some final) ∧
      final.Alike (finalTable (previousArrow mode published) arrow) := by
  generalize hu : finalTable (previousArrow mode published) arrow = u
  have hsub : u.columns ⊆ (syncIcebergSchema t u).columns := fun c hc => mem_columns_sync.mpr hc
  refine ⟨(syncIcebergSchema t u).withRows u hsub, ?_, ?_⟩
  · rw [writeClaim, claimCommits, hu]
    change (do
      let t ← Commit.run (.overwrite u) (some (syncIcebergSchema t u))
      runCommits [] (some t)) = _
    rw [Commit.run, dif_pos hsub]
    rfl
  · exact Table.alike_of_mem (fun c => mem_columns_sync) rfl

theorem writeClaim_none_of_none {mode published}
    (h : previousArrow mode published = none) :
    ∃ first, writeClaim mode published arrow none = .ok (some first) ∧
      first.Alike (finalTable (previousArrow mode published) arrow) := by
  have hsub : arrow.columns ⊆ (Table.empty arrow.columns arrow.nodup : NamedTable V).columns :=
    List.Subset.refl _
  refine ⟨Table.append _ arrow hsub, ?_, ?_⟩
  · rw [writeClaim, claimCommits, h]
    change (do
      let t ← Commit.run (.append arrow) (some (Table.empty arrow.columns arrow.nodup))
      runCommits [] (some t)) = _
    rw [Commit.run, dif_pos hsub]
    rfl
  · rw [h]
    exact Table.alike_of_mem (fun _ => Iff.rfl) (List.nil_append _)

/-- With a previous table a first attempt has the columns of the new result only. -/
theorem writeClaim_none_of_some {mode published} {previous : NamedTable V}
    (h : previousArrow mode published = some previous) :
    ∃ first, writeClaim mode published arrow none = .ok (some first) ∧
      (∀ c, c ∈ first.columns ↔ c ∈ arrow.columns) ∧
      (previous.columns ⊆ arrow.columns → first.rows = previous.rows ++ arrow.rows) := by
  let created : NamedTable V := Table.empty previous.columns previous.nodup
  have hseed : previous.columns ⊆ created.columns := List.Subset.refl _
  let seeded := created.append previous hseed
  have hsub : arrow.columns ⊆ (syncIcebergSchema seeded arrow).columns :=
    fun c hc => mem_columns_sync.mpr hc
  refine ⟨(syncIcebergSchema seeded arrow).append arrow hsub, ?_, fun c => mem_columns_sync, ?_⟩
  · rw [writeClaim, claimCommits, h]
    change (do
      let t ← Commit.run (.append previous) (some created)
      runCommits [.sync arrow, .append arrow] (some t)) = _
    rw [Commit.run, dif_pos hseed]
    change (do
      let t ← Commit.run (.append arrow) (some (syncIcebergSchema seeded arrow))
      runCommits [] (some t)) = _
    rw [Commit.run, dif_pos hsub]
    rfl
  · intro hcolumns
    change (syncIcebergSchema seeded arrow).rows ++ arrow.rows = _
    have hsync : (syncIcebergSchema seeded arrow).rows = seeded.rows := rows_sync hcolumns
    rw [hsync]
    rfl

/-- The claim table does not depend on earlier attempts exactly when the new result has
every column of the previous table. -/
theorem pathIndependent_iff :
    PathIndependent mode published arrow ↔
      ∀ previous, previousArrow mode published = some previous →
        previous.columns ⊆ arrow.columns := by
  constructor
  · rintro ⟨first, hfirst, hall⟩ previous hprevious
    obtain ⟨first', hfirst', hcolumns, -⟩ := writeClaim_none_of_some arrow hprevious
    rw [hfirst] at hfirst'
    cases hfirst'
    -- an attempt that ended after creating the table
    have hcreated : Interrupted mode published
        (some (Table.empty previous.columns previous.nodup)) := by
      refine .attempt arrow 1 .fresh ?_
      rw [claimCommits, hprevious]
      rfl
    obtain ⟨final, hfinal, halike⟩ := hall _ hcreated
    obtain ⟨final', hfinal', htarget⟩ := writeClaim_some mode published arrow
      (Table.empty previous.columns previous.nodup)
    rw [hfinal] at hfinal'
    cases hfinal'
    intro c hc
    have hmem : c ∈ (finalTable (previousArrow mode published) arrow).columns := by
      rw [hprevious]
      exact Table.mem_union.mpr (.inl hc)
    exact (hcolumns c).mp (halike.columns.subset (htarget.columns.symm.subset hmem))
  · intro h
    have hfirst : ∃ first, writeClaim mode published arrow none = .ok (some first) ∧
        first.Alike (finalTable (previousArrow mode published) arrow) := by
      cases hprevious : previousArrow mode published with
      | none => exact hprevious ▸ writeClaim_none_of_none arrow hprevious
      | some previous =>
        obtain ⟨first, hrun, hcolumns, hrows⟩ :=
          writeClaim_none_of_some arrow hprevious
        have hsub := h previous hprevious
        refine ⟨first, hrun, ?_⟩
        refine Table.alike_of_mem (fun c => ?_) (hrows hsub)
        change _ ↔ c ∈ Table.union _ _
        rw [hcolumns, Table.mem_union]
        exact ⟨.inr, fun hc => hc.elim (fun hc => hsub hc) id⟩
    obtain ⟨first, hrun, halike⟩ := hfirst
    refine ⟨first, hrun, ?_⟩
    intro claim _
    cases claim with
    | none => exact ⟨first, hrun, .refl _, .refl _⟩
    | some t =>
      obtain ⟨final, hfinal, htarget⟩ := writeClaim_some mode published arrow t
      exact ⟨final, hfinal, htarget.columns.trans halike.columns.symm,
        htarget.rows.trans halike.rows.symm⟩

end Attempts

/-- A row with a value in some columns. -/
def rowOf (columns : List String) : String → Option Unit :=
  fun c => if c ∈ columns then some () else none

/-- A table of one row. -/
def singleRow (columns : List String) (h : columns.Nodup) : NamedTable Unit where
  columns
  rows := [rowOf columns]
  nodup := h
  null r hr c hc := by
    rw [List.mem_singleton.mp hr, rowOf, if_neg hc]

/-- A column `old` that the new result no longer has is dropped by an uninterrupted
attempt and kept by one that finds the claim table. -/
theorem not_pathIndependent_droppedColumn :
    ¬ PathIndependent .incremental (some (singleRow ["id", "old"] (by decide)))
      (singleRow ["id"] (by decide)) := by
  rintro ⟨first, hfirst, hall⟩
  cases hfirst
  obtain ⟨final, hfinal, halike⟩ := hall (some (Table.empty ["id", "old"] (by decide)))
    (.attempt (singleRow ["id"] (by decide)) 1 .fresh rfl)
  cases hfinal
  exact absurd halike.columns (by decide)

end DataForge.Exports
