import Mathlib.Data.List.Infix
import Mathlib.Data.List.Nodup
import Mathlib.Data.List.Sort

/-!
# Pages of two merged lists

Two lists are cut to a window, filtered, merged and sorted stably; a page is a piece of the
result. The windows follow the order of the lists and the pages the order of the sort, so the
pages make up the merge only where no entry comes earlier in the merge than in its own list.
-/

namespace Paging

open List

variable {α : Type} (r : α → α → Prop) [DecidableRel r] (keep : α → Bool) (xs ys : List α)

/-- The kept entries among the first `n` of either list, sorted. -/
def window (n : ℕ) : List α :=
  ((xs.take n).filter keep ++ (ys.take n).filter keep).insertionSort r

/-- The kept entries of both lists, sorted. -/
def merged : List α := (xs.filter keep ++ ys.filter keep).insertionSort r

/-- The page that starts after `start` entries. -/
def page (limit start : ℕ) : List α := ((window r keep xs ys (limit + start)).drop start).take limit

/-- The first `count` pages. -/
def pages (limit count : ℕ) : List α :=
  (List.range count).flatMap fun k => page r keep xs ys limit (k * limit)

variable {r keep xs ys}

theorem insertionSort_sublist [Std.Total r] [IsTrans α r] {l l' : List α} (h : l <+ l') :
    l.insertionSort r <+ l'.insertionSort r := by
  induction h with
  | slnil => exact .refl _
  | cons a _ ih =>
    rw [insertionSort_cons]
    exact ih.trans (sublist_orderedInsert _ _)
  | cons_cons a _ ih =>
    rw [insertionSort_cons, insertionSort_cons]
    exact ih.orderedInsert_sublist a (pairwise_insertionSort r _)

theorem window_sublist [Std.Total r] [IsTrans α r] (n : ℕ) :
    window r keep xs ys n <+ merged r keep xs ys :=
  insertionSort_sublist
    (((take_sublist n xs).filter keep).append ((take_sublist n ys).filter keep))

theorem mem_window {n : ℕ} {a : α} :
    a ∈ window r keep xs ys n ↔ (a ∈ xs.take n ∨ a ∈ ys.take n) ∧ keep a = true := by
  rw [window, mem_insertionSort, mem_append, mem_filter, mem_filter, or_and_right]

theorem mem_merged {a : α} :
    a ∈ merged r keep xs ys ↔ (a ∈ xs ∨ a ∈ ys) ∧ keep a = true := by
  rw [merged, mem_insertionSort, mem_append, mem_filter, mem_filter, or_and_right]

theorem length_merged_le : (merged r keep xs ys).length ≤ xs.length + ys.length := by
  rw [merged, length_insertionSort, length_append]
  exact Nat.add_le_add (length_filter_le _ _) (length_filter_le _ _)

theorem nodup_merged (h : (xs ++ ys).Nodup) : (merged r keep xs ys).Nodup := by
  rw [merged, (perm_insertionSort r _).nodup_iff, ← filter_append]
  exact h.filter keep

theorem take_eq_of_sublist {w l : List α} {n : ℕ} (hl : l.Nodup) (h : w <+ l)
    (hmem : ∀ a ∈ l.take n, a ∈ w) : w.take n = l.take n := by
  induction h generalizing n with
  | slnil => rfl
  | @cons w l a h ih =>
    cases n with
    | zero => rfl
    | succ n =>
      have ha : a ∈ w := hmem a mem_cons_self
      exact absurd (h.subset ha) (nodup_cons.mp hl).1
  | @cons_cons w l a h ih =>
    cases n with
    | zero => rfl
    | succ n =>
      rw [take_succ_cons, take_succ_cons, ih (nodup_cons.mp hl).2]
      intro b hb
      have hne : b ≠ a := by
        rintro rfl
        exact (nodup_cons.mp hl).1 (mem_of_mem_take hb)
      exact mem_of_ne_of_mem hne (hmem b (mem_cons_of_mem a hb))

theorem flatMap_pieces (l : List α) (limit count : ℕ) :
    ((List.range count).flatMap fun k => (l.drop (k * limit)).take limit) =
      l.take (count * limit) := by
  induction count with
  | zero => simp
  | succ count ih =>
    rw [range_succ, flatMap_append, ih, flatMap_singleton, ← take_add, Nat.succ_mul]

/-- Pieces of one entry, none of which comes too early, are the entries in order. -/
theorem pieces_eq {l : List α} {count : ℕ} {piece : ℕ → List α} (hl : l.Nodup)
    (hlen : ∀ k, (piece k).length ≤ 1) (hlate : ∀ k, ∀ a ∈ piece k, a ∈ l.drop k)
    (h : ((List.range count).flatMap piece).Perm l) {k : ℕ} (hk : k < l.length) :
    piece k = [l[k]] := by
  induction l generalizing count piece k with
  | nil => cases hk
  | cons a l ih =>
    cases count with
    | zero => exact absurd h.length_eq (by simp)
    | succ count =>
      rw [range_succ_eq_map, flatMap_cons, flatMap_map] at h
      have hrest : ∀ b ∈ (List.range count).flatMap fun k => piece (k + 1), b ∈ l := by
        intro b hb
        obtain ⟨k, -, hb⟩ := mem_flatMap.mp hb
        have := hlate _ b hb
        rw [drop_succ_cons] at this
        exact mem_of_mem_drop this
      -- the first entry is in no later piece
      have ha : a ∈ piece 0 := by
        rcases mem_append.mp (h.mem_iff.mpr mem_cons_self) with ha | ha
        · exact ha
        · exact absurd (hrest a ha) (nodup_cons.mp hl).1
      have hzero : piece 0 = [a] := by
        obtain ⟨b, hb⟩ := length_eq_one_iff.mp
          (Nat.le_antisymm (hlen 0) (length_pos_of_mem ha))
        rw [hb, mem_singleton] at ha
        rw [hb, ha]
      cases k with
      | zero => exact hzero
      | succ k =>
        rw [hzero, singleton_append, perm_cons] at h
        exact ih (nodup_cons.mp hl).2 (fun k => hlen (k + 1))
          (fun k b hb => by simpa using hlate (k + 1) b hb) h (Nat.lt_of_succ_lt_succ hk)

/-- Each entry of the merge is among as many entries of its own list. -/
def InStep (r : α → α → Prop) [DecidableRel r] (keep : α → Bool) (xs ys : List α) : Prop :=
  ∀ k a, (merged r keep xs ys)[k]? = some a → a ∈ xs.take (k + 1) ∨ a ∈ ys.take (k + 1)

theorem take_window [Std.Total r] [IsTrans α r] (hn : (xs ++ ys).Nodup)
    (h : InStep r keep xs ys) (n : ℕ) :
    (window r keep xs ys n).take n = (merged r keep xs ys).take n := by
  refine take_eq_of_sublist (nodup_merged hn) (window_sublist n) fun a ha => ?_
  obtain ⟨k, hk, hak⟩ := mem_take_iff_getElem.mp ha
  have hkn : k + 1 ≤ n := (Nat.lt_min.mp hk).1
  have hm : (merged r keep xs ys)[k]? = some a :=
    List.getElem?_eq_some_iff.mpr ⟨(Nat.lt_min.mp hk).2, hak⟩
  refine mem_window.mpr ⟨?_, (mem_merged.mp (mem_of_getElem? hm)).2⟩
  exact (h k a hm).imp (fun hx => (take_sublist_take_left hkn).subset hx)
    fun hy => (take_sublist_take_left hkn).subset hy

theorem page_eq [Std.Total r] [IsTrans α r] (hn : (xs ++ ys).Nodup) (h : InStep r keep xs ys)
    (limit start : ℕ) :
    page r keep xs ys limit start = ((merged r keep xs ys).drop start).take limit := by
  rw [page, take_drop, take_drop, Nat.add_comm limit, take_window hn h]

theorem pages_eq_merged [Std.Total r] [IsTrans α r] (hn : (xs ++ ys).Nodup)
    (h : InStep r keep xs ys) {limit count : ℕ} (hlimit : 0 < limit)
    (hcount : xs.length + ys.length ≤ count) :
    pages r keep xs ys limit count = merged r keep xs ys := by
  have hpage : ∀ k, page r keep xs ys limit (k * limit) =
      ((merged r keep xs ys).drop (k * limit)).take limit := fun k => page_eq hn h limit _
  rw [pages]
  simp only [hpage]
  rw [flatMap_pieces, take_of_length_le]
  calc (merged r keep xs ys).length ≤ xs.length + ys.length := length_merged_le
    _ ≤ count := hcount
    _ ≤ count * limit := Nat.le_mul_of_pos_right count hlimit

theorem inStep_of_pages [Std.Total r] [IsTrans α r] (hn : (xs ++ ys).Nodup) {count : ℕ}
    (h : (pages r keep xs ys 1 count).Perm (merged r keep xs ys)) : InStep r keep xs ys := by
  intro k a hk
  obtain ⟨hlt, ha⟩ := List.getElem?_eq_some_iff.mp hk
  have hpage : page r keep xs ys 1 (k * 1) = [(merged r keep xs ys)[k]] := by
    refine pieces_eq (nodup_merged hn) (fun k => length_take_le 1 _) (fun k a ha => ?_) h hlt
    have hdrop := mem_of_mem_take ha
    rw [Nat.mul_one] at hdrop
    exact ((window_sublist _).drop k).subset hdrop
  have hmem : a ∈ page r keep xs ys 1 (k * 1) := by
    rw [hpage, ha]
    exact mem_singleton_self a
  have hwindow := (mem_window.mp (mem_of_mem_drop (mem_of_mem_take hmem))).1
  rwa [Nat.mul_one, Nat.add_comm] at hwindow

theorem pages_iff_inStep [Std.Total r] [IsTrans α r] (hn : (xs ++ ys).Nodup) :
    (∀ limit count, 0 < limit → xs.length + ys.length ≤ count →
      (pages r keep xs ys limit count).Perm (xs.filter keep ++ ys.filter keep) ∧
        (pages r keep xs ys limit count).Pairwise r) ↔
      InStep r keep xs ys := by
  constructor
  · intro h
    exact inStep_of_pages hn
      ((h 1 _ Nat.one_pos (Nat.le_refl _)).1.trans (perm_insertionSort r _).symm)
  · intro h limit count hlimit hcount
    rw [pages_eq_merged hn h hlimit hcount]
    exact ⟨perm_insertionSort r _, pairwise_insertionSort r _⟩

end Paging
