import Mathlib.Data.List.Nodup
import Mathlib.Data.List.Perm.Lattice

/-!
# Tables with evolving columns

A table is a list of distinct columns and a list of rows that are null elsewhere. Columns
can be deleted and added, and rows appended; two tables are alike when they have the same
columns and the same rows, in any order.
-/

namespace Frames

/-- A table: a row has a value or a null (`none`) in each column. -/
structure Table (κ V : Type) where
  columns : List κ
  rows : List (κ → Option V)
  nodup : columns.Nodup
  null : ∀ r ∈ rows, ∀ c, c ∉ columns → r c = none

variable {κ V : Type} [DecidableEq κ]

/-- A row without the values of the columns that are not kept. -/
def mask (keep : List κ) (r : κ → Option V) : κ → Option V :=
  fun c => if c ∈ keep then r c else none

theorem mask_eq_self {keep : List κ} {r : κ → Option V} (h : ∀ c, c ∉ keep → r c = none) :
    mask keep r = r := by
  funext c
  by_cases hc : c ∈ keep
  · rw [mask, if_pos hc]
  · rw [mask, if_neg hc, h c hc]

namespace Table

/-- A table without rows. -/
def empty (columns : List κ) (h : columns.Nodup) : Table κ V :=
  ⟨columns, [], h, fun _ hr => (List.not_mem_nil hr).elim⟩

/-- Keep some of the columns and delete the others with their values. -/
def restrict (t : Table κ V) (keep : List κ) : Table κ V where
  columns := t.columns.filter (· ∈ keep)
  rows := t.rows.map (mask keep)
  nodup := t.nodup.filter _
  null := by
    intro r hr c hc
    obtain ⟨r', hr', rfl⟩ := List.mem_map.mp hr
    by_cases hkeep : c ∈ keep
    · rw [mask, if_pos hkeep]
      refine t.null r' hr' c fun hmem => hc ?_
      exact List.mem_filter.mpr ⟨hmem, decide_eq_true hkeep⟩
    · rw [mask, if_neg hkeep]

/-- The columns of a table and behind them the new ones. -/
def union (old new : List κ) : List κ :=
  old ++ new.filter (· ∉ old)

theorem mem_union {old new : List κ} {c : κ} : c ∈ union old new ↔ c ∈ old ∨ c ∈ new := by
  rw [union, List.mem_append, List.mem_filter, decide_eq_true_eq]
  constructor
  · rintro (h | ⟨h, -⟩)
    · exact .inl h
    · exact .inr h
  · rintro (h | h)
    · exact .inl h
    · by_cases hold : c ∈ old
      · exact .inl hold
      · exact .inr ⟨h, hold⟩

theorem nodup_union {old new : List κ} (hold : old.Nodup) (hnew : new.Nodup) :
    (union old new).Nodup := by
  refine hold.append (hnew.filter _) ?_
  intro c hc hc'
  exact of_decide_eq_true (List.mem_filter.mp hc').2 hc

/-- Add the columns that are missing, with nulls. -/
def widen (t : Table κ V) (new : List κ) (h : new.Nodup) : Table κ V where
  columns := union t.columns new
  rows := t.rows
  nodup := nodup_union t.nodup h
  null r hr c hc := t.null r hr c fun hmem => hc (mem_union.mpr (.inl hmem))

/-- The rows of two tables over the columns of both. -/
def concat (t u : Table κ V) : Table κ V where
  columns := union t.columns u.columns
  rows := t.rows ++ u.rows
  nodup := nodup_union t.nodup u.nodup
  null := by
    intro r hr c hc
    rcases List.mem_append.mp hr with hr | hr
    · exact t.null r hr c fun hmem => hc (mem_union.mpr (.inl hmem))
    · exact u.null r hr c fun hmem => hc (mem_union.mpr (.inr hmem))

/-- The columns of a table with the rows of another, whose columns are among them. -/
def withRows (t u : Table κ V) (h : u.columns ⊆ t.columns) : Table κ V where
  columns := t.columns
  rows := u.rows
  nodup := t.nodup
  null r hr c hc := u.null r hr c fun hmem => hc (h hmem)

/-- A table with the rows of another behind its own. -/
def append (t u : Table κ V) (h : u.columns ⊆ t.columns) : Table κ V where
  columns := t.columns
  rows := t.rows ++ u.rows
  nodup := t.nodup
  null := by
    intro r hr c hc
    rcases List.mem_append.mp hr with hr | hr
    · exact t.null r hr c hc
    · exact u.null r hr c fun hmem => hc (h hmem)

/-- The same columns and the same rows. -/
structure Alike (t u : Table κ V) : Prop where
  columns : t.columns.Perm u.columns
  rows : t.rows.Perm u.rows

omit [DecidableEq κ] in
theorem alike_of_mem {t u : Table κ V} (hcolumns : ∀ c, c ∈ t.columns ↔ c ∈ u.columns)
    (hrows : t.rows = u.rows) : Alike t u := by
  refine ⟨(List.perm_ext_iff_of_nodup t.nodup u.nodup).mpr hcolumns, ?_⟩
  rw [hrows]

theorem rows_restrict {t : Table κ V} {keep : List κ} (h : t.columns ⊆ keep) :
    (t.restrict keep).rows = t.rows := by
  refine (List.map_congr_left fun r hr => ?_).trans (List.map_id t.rows)
  exact mask_eq_self fun c hc => t.null r hr c fun hmem => hc (h hmem)

end Table

end Frames
