import Mathlib.Data.List.Nodup

/-!
# Keyed tables

Library `ReadCommitted`. A table is a list of rows under pairwise distinct primary keys,
kept in insertion order. Every write is a `put` at one key: an insert, an update or a
delete, so the contents of a table after a list of writes can be read off key by key.
Queries that scan (`WHERE`, `ORDER BY`, `LIMIT`) run over `rows`.
-/

namespace ReadCommitted

/-- Rows under distinct primary keys, in insertion order. -/
structure Table (κ ρ : Type) where
  rows : List (κ × ρ)
  nodup : (rows.map Prod.fst).Nodup

namespace Table

variable {κ ρ : Type} [DecidableEq κ]

/-- The table without rows. -/
def empty : Table κ ρ := ⟨[], List.nodup_nil⟩

/-- The row stored under a key. -/
def get (t : Table κ ρ) (k : κ) : Option ρ := (t.rows.find? (fun e => e.1 = k)).map Prod.snd

private def putRows (k : κ) (v : Option ρ) : List (κ × ρ) → List (κ × ρ)
  | [] => match v with
    | some r => [(k, r)]
    | none => []
  | e :: rest =>
    if e.1 = k then
      match v with
      | some r => (k, r) :: rest
      | none => rest
    else e :: putRows k v rest

variable {rows : List (κ × ρ)}

private theorem mem_fst_putRows {k a : κ} {v : Option ρ} (h : a ∈ (putRows k v rows).map Prod.fst) :
    a = k ∨ a ∈ rows.map Prod.fst := by
  induction rows with
  | nil => cases v <;> simp_all [putRows]
  | cons e rest ih =>
    by_cases he : e.1 = k
    · cases v <;> simp_all [putRows]
    · simp only [putRows, he, if_false, List.map_cons, List.mem_cons] at h ⊢
      rcases h with h | h
      · exact Or.inr (Or.inl h)
      · exact (ih h).imp_right Or.inr

private theorem nodup_putRows (k : κ) (v : Option ρ) (rows : List (κ × ρ))
    (h : (rows.map Prod.fst).Nodup) : ((putRows k v rows).map Prod.fst).Nodup := by
  induction rows with
  | nil => cases v <;> simp [putRows]
  | cons e rest ih =>
    rw [List.map_cons, List.nodup_cons] at h
    by_cases he : e.1 = k
    · cases v <;> simp_all [putRows]
    · simp only [putRows, he, if_false, List.map_cons, List.nodup_cons]
      refine ⟨fun hm => ?_, ih h.2⟩
      exact (mem_fst_putRows hm).elim he h.1

/-- Store `v` under `k`: replace the row in place, append it, or delete it. -/
def put (t : Table κ ρ) (k : κ) (v : Option ρ) : Table κ ρ :=
  ⟨putRows k v t.rows, nodup_putRows k v t.rows t.nodup⟩

@[simp] theorem get_empty (k : κ) : (empty : Table κ ρ).get k = none := rfl

private theorem find_putRows (k a : κ) (v : Option ρ) (rows : List (κ × ρ))
    (h : (rows.map Prod.fst).Nodup) :
    ((putRows k v rows).find? (fun e => e.1 = a)).map Prod.snd =
      if a = k then v else (rows.find? (fun e => e.1 = a)).map Prod.snd := by
  induction rows with
  | nil =>
    cases v with
    | none => simp [putRows]
    | some r => by_cases ha : k = a <;> simp [putRows, ha, eq_comm]
  | cons e rest ih =>
    rw [List.map_cons, List.nodup_cons] at h
    by_cases he : e.1 = k
    · subst he
      have hn : rest.find? (fun x => decide (x.1 = e.1)) = none := by
        apply List.find?_eq_none.mpr
        intro x hx hd
        exact h.1 (List.mem_map.mpr ⟨x, hx, of_decide_eq_true hd⟩)
      by_cases ha : e.1 = a
      · subst ha
        cases v with
        | none => simp [putRows, hn]
        | some r => simp [putRows]
      · cases v <;> simp [putRows, ha, Ne.symm ha]
    · by_cases ha : e.1 = a
      · subst ha
        simp [putRows, he]
      · simp [putRows, he, ha, ih h.2]

@[simp] theorem get_put (t : Table κ ρ) (k a : κ) (v : Option ρ) :
    (t.put k v).get a = if a = k then v else t.get a :=
  find_putRows k a v t.rows t.nodup

theorem mem_rows_iff (t : Table κ ρ) (k : κ) (r : ρ) : (k, r) ∈ t.rows ↔ t.get k = some r := by
  obtain ⟨rows, hn⟩ := t
  simp only [get]
  induction rows with
  | nil => simp
  | cons e rest ih =>
    rw [List.map_cons, List.nodup_cons] at hn
    have hi := ih hn.2
    by_cases he : e.1 = k
    · subst he
      have hr : (e.1, r) ∉ rest := fun hm => hn.1 (List.mem_map.mpr ⟨_, hm, rfl⟩)
      simp [hr, Prod.ext_iff, eq_comm]
    · have hne : (k, r) ≠ e := fun hx => he (by rw [← hx])
      simp [he, hne, hi]

variable {k : κ}

private theorem putRows_none_of_notMem (h : k ∉ rows.map Prod.fst) :
    putRows k none rows = rows := by
  induction rows with
  | nil => rfl
  | cons e rest ih =>
    simp only [List.map_cons, List.mem_cons, not_or] at h
    rw [putRows, if_neg (Ne.symm h.1), ih h.2]

private theorem perm_putRows_some (k : κ) (v : ρ) (rows : List (κ × ρ)) :
    (putRows k (some v) rows).Perm ((k, v) :: putRows k none rows) := by
  induction rows with
  | nil => exact .refl _
  | cons e rest ih =>
    by_cases he : e.1 = k
    · simp [putRows, he]
    · simp only [putRows, he, if_false]
      exact (ih.cons e).trans (.swap _ _ _)

theorem perm_put_some (t : Table κ ρ) (k : κ) (v : ρ) :
    (t.put k (some v)).rows.Perm ((k, v) :: (t.put k none).rows) :=
  perm_putRows_some k v t.rows

theorem rows_put_none (t : Table κ ρ) (h : t.get k = none) :
    (t.put k none).rows = t.rows := by
  apply putRows_none_of_notMem
  intro hm
  obtain ⟨⟨a, r⟩, hr, rfl⟩ := List.mem_map.mp hm
  rw [(t.mem_rows_iff a r).mp hr] at h
  cases h

private theorem putRows_some_of_notMem {v : ρ} (h : k ∉ rows.map Prod.fst) :
    putRows k (some v) rows = rows ++ [(k, v)] := by
  induction rows with
  | nil => rfl
  | cons e rest ih =>
    simp only [List.map_cons, List.mem_cons, not_or] at h
    rw [putRows, if_neg (Ne.symm h.1), ih h.2, List.cons_append]

theorem rows_put_some (t : Table κ ρ) (h : k ∉ t.rows.map Prod.fst) (v : ρ) :
    (t.put k (some v)).rows = t.rows ++ [(k, v)] :=
  putRows_some_of_notMem h

theorem rows_foldl_put (t : Table κ ρ) (l : List (κ × ρ))
    (h : (t.rows.map Prod.fst ++ l.map Prod.fst).Nodup) :
    (l.foldl (fun t e => t.put e.1 (some e.2)) t).rows = t.rows ++ l := by
  induction l generalizing t with
  | nil => simp
  | cons e rest ih =>
    have hnew : e.1 ∉ t.rows.map Prod.fst := by
      rw [List.nodup_append] at h
      exact fun hm => h.2.2 e.1 hm e.1 (by simp) rfl
    have hrows := t.rows_put_some hnew e.2
    rw [List.foldl_cons, ih, hrows, List.append_assoc, List.singleton_append]
    rw [hrows, List.map_append, List.append_assoc]
    simpa using h

theorem get_foldl_put (f : ρ → κ) (l : List ρ) (t : Table κ ρ) (k : κ) :
    (l.foldl (fun t r => t.put (f r) (some r)) t).get k =
      (l.reverse.find? (f · = k)).or (t.get k) := by
  induction l generalizing t with
  | nil => rfl
  | cons r l ih =>
    rw [List.foldl_cons, ih, get_put, List.reverse_cons, List.find?_append, Option.or_assoc]
    by_cases hr : k = f r
    · simp [hr]
    · simp [hr, Ne.symm hr]

private theorem map_fst_putRows {v : ρ} (h : k ∈ rows.map Prod.fst) :
    (putRows k (some v) rows).map Prod.fst = rows.map Prod.fst := by
  induction rows with
  | nil => cases h
  | cons e rest ih =>
    by_cases he : e.1 = k
    · simp [putRows, he]
    · rw [List.map_cons, List.mem_cons] at h
      simp only [putRows, he, if_false, List.map_cons]
      rw [ih (h.resolve_left (Ne.symm he))]

theorem map_fst_put_some (t : Table κ ρ) (h : k ∈ t.rows.map Prod.fst) (v : ρ) :
    (t.put k (some v)).rows.map Prod.fst = t.rows.map Prod.fst :=
  map_fst_putRows h

theorem map_fst_filter (t : Table κ ρ) (f : ρ → Bool) :
    (t.rows.filter fun e => f e.2).map Prod.fst =
      (t.rows.map Prod.fst).filter fun k => (t.get k).any f := by
  rw [List.filter_map]
  congr 1
  refine List.filter_congr fun e he => ?_
  have hg : t.get e.1 = some e.2 := (t.mem_rows_iff e.1 e.2).mp he
  simp [hg]

theorem perm_delete (t : Table κ ρ) {v : ρ} (h : t.get k = some v) :
    t.rows.Perm ((k, v) :: (t.put k none).rows) := by
  obtain ⟨rows, hn⟩ := t
  simp only [get] at h
  change rows.Perm ((k, v) :: putRows k none rows)
  induction rows with
  | nil => cases h
  | cons e rest ih =>
    rw [List.map_cons, List.nodup_cons] at hn
    by_cases he : e.1 = k
    · have hv : e = (k, v) := by
        rw [List.find?_cons_of_pos (by simpa using he)] at h
        exact Prod.ext he (Option.some.inj h)
      simp [putRows, hv]
    · simp only [putRows, he, if_false]
      rw [List.find?_cons_of_neg (by simpa using he)] at h
      exact ((ih hn.2 h).cons e).trans (.swap _ _ _)

theorem get_eq_none_iff (t : Table κ ρ) (k : κ) :
    t.get k = none ↔ ∀ r, (k, r) ∉ t.rows := by
  rw [Option.eq_none_iff_forall_ne_some]
  exact forall_congr' fun r => not_congr (t.mem_rows_iff k r).symm

end Table
end ReadCommitted
