import Mathlib.Data.List.Nodup
import DataForge.Ingest.Readers
import DataForge.Texts.Split

/-!
# The names that headers get

`normalize_excel_headers` (`datasources/datasource_loading.py:65-76`) numbers a header that was
seen before, and does not look whether the numbered name is taken. The names are distinct when no
header has such a name (`normalize_excel_headers_distinct`).
-/

namespace DataForge.Ingest

/-- What the headers of a row are before they are made distinct. -/
def headerBases (values : List Cell) : List String :=
  values.zipIdx.map headerBase

/-- The name of a header that was seen a number of times before. -/
def numbered (base : String) : ℕ → String
  | 0 => base
  | k + 1 => base ++ "_" ++ toString (k + 1)

/-- The entry of `seen` for a header that was seen a number of times. -/
def seenEntry : ℕ → Option ℕ
  | 0 => none
  | k + 1 => some k

theorem normalizeHeader_eq {acc : List String × List (String × ℕ)} {header : Cell × ℕ} {n : ℕ}
    (h : acc.2.lookup (headerBase header) = seenEntry n) : normalizeHeader acc header =
      (acc.1 ++ [numbered (headerBase header) n], (headerBase header, n) :: acc.2) := by
  unfold normalizeHeader
  dsimp only
  rw [h]
  cases n <;> rfl

/-- What the loop has done with some headers: `seen` counts them, and each got the name of its
count. -/
structure Normalized (headers : List (Cell × ℕ)) (acc : List String × List (String × ℕ)) :
    Prop where
  length : acc.1.length = headers.length
  seen : ∀ base, acc.2.lookup base = seenEntry ((headers.map headerBase).count base)
  names : ∀ i base, (headers.map headerBase)[i]? = some base →
    acc.1[i]? = some (numbered base (((headers.map headerBase).take i).count base))

theorem Normalized.step {headers : List (Cell × ℕ)} {acc : List String × List (String × ℕ)}
    (h : Normalized headers acc) (header : Cell × ℕ) :
    Normalized (headers ++ [header]) (normalizeHeader acc header) := by
  rw [normalizeHeader_eq (h.seen (headerBase header))]
  refine ⟨by simp [h.length], fun base => ?_, fun i base hi => ?_⟩
  · rw [List.map_append, List.count_append, List.map_singleton, List.lookup_cons]
    by_cases hbase : base = headerBase header
    · subst hbase
      simp [seenEntry]
    · rw [beq_false_of_ne hbase]
      simp [Ne.symm hbase, h.seen base]
  · rw [List.map_append, List.map_singleton] at hi ⊢
    have hlen : (headers.map headerBase).length = acc.1.length := by simp [h.length]
    by_cases hlt : i < acc.1.length
    · rw [List.getElem?_append_left (hlen ▸ hlt)] at hi
      rw [List.getElem?_append_left hlt, h.names i base hi,
        List.take_append_of_le_length (by omega)]
    · rw [List.getElem?_append_right (by omega), List.getElem?_singleton] at hi
      split at hi
      case isTrue hzero =>
        cases hi
        rw [List.getElem?_append_right (by omega), List.take_append_of_le_length (by omega),
          List.take_of_length_le (by omega), List.getElem?_singleton, if_pos (by omega)]
      case isFalse => cases hi

theorem normalized_foldl (headers : List (Cell × ℕ)) :
    Normalized headers (headers.foldl normalizeHeader ([], [])) := by
  induction headers using List.reverseRecOn with
  | nil => exact ⟨rfl, fun _ => rfl, fun _ _ h => (by cases h)⟩
  | append_singleton headers header ih =>
    rw [List.foldl_append]
    exact ih.step header

theorem numbered_inj {base base' : String} {k k' : ℕ}
    (h : numbered base (k + 1) = numbered base' (k' + 1)) : base = base' ∧ k = k' := by
  have hlist := congrArg String.toList h
  simp only [numbered, String.toList_append, List.append_assoc] at hlist
  obtain ⟨hbase, hnumber⟩ := Texts.append_cons_inj_last
    (Texts.notMem_toString (c := '_') (by decide) (k + 1))
    (Texts.notMem_toString (by decide) (k' + 1)) hlist
  exact ⟨String.toList_injective hbase,
    Nat.succ_inj.mp (Texts.toString_inj (String.toList_injective hnumber))⟩

theorem count_take_lt {bases : List String} {base : String} {i j : ℕ}
    (hi : bases[i]? = some base) (hij : i < j) :
    (bases.take i).count base < (bases.take j).count base := by
  have hsucc : (bases.take (i + 1)).count base = (bases.take i).count base + 1 := by
    rw [List.take_add_one, List.count_append, hi]
    simp
  have hle := List.Sublist.count_le base
    (List.take_sublist_take_left (l := bases) (by omega : i + 1 ≤ j))
  omega

theorem exists_count_take {bases : List String} {base : String} {k : ℕ}
    (h : k < bases.count base) :
    ∃ i, bases[i]? = some base ∧ (bases.take i).count base = k := by
  induction bases using List.reverseRecOn with
  | nil => cases h
  | append_singleton bases last ih =>
    by_cases hk : k < bases.count base
    · obtain ⟨i, hi, hcount⟩ := ih hk
      have hlt := (List.getElem?_eq_some_iff.mp hi).1
      refine ⟨i, (List.getElem?_append_left hlt).trans hi, ?_⟩
      rw [List.take_append_of_le_length (Nat.le_of_lt hlt), hcount]
    · rw [List.count_append, List.count_singleton] at h
      split at h
      case isTrue hlast =>
        refine ⟨bases.length, ?_, ?_⟩
        · rw [List.getElem?_concat_length, beq_iff_eq.mp hlast]
        · rw [List.take_append_of_le_length (Nat.le_refl _), List.take_length]
          omega
      case isFalse => omega

theorem numbered_ne (base : String) (k : ℕ) : numbered base (k + 1) ≠ base := by
  intro h
  have hlen := congrArg String.length h
  simp only [numbered, String.length_append] at hlen
  have hone : "_".length = 1 := by decide
  omega

section Names

variable {values : List Cell} {base : String} {i : ℕ}

theorem length_normalizeExcelHeaders (values : List Cell) :
    (normalizeExcelHeaders values).length = values.length := by
  have hlen := (normalized_foldl values.zipIdx).length
  rwa [List.length_zipIdx] at hlen

theorem names_eq (hi : (headerBases values)[i]? = some base) :
    (normalizeExcelHeaders values)[i]? =
      some (numbered base (((headerBases values).take i).count base)) :=
  (normalized_foldl values.zipIdx).names i base hi

theorem exists_base (hi : i < (normalizeExcelHeaders values).length) :
    ∃ base, (headerBases values)[i]? = some base := by
  refine ⟨_, List.getElem?_eq_getElem ?_⟩
  rwa [headerBases, List.length_map, List.length_zipIdx, ← length_normalizeExcelHeaders]

theorem notMem_of_nodup (h : (normalizeExcelHeaders values).Nodup) {k : ℕ}
    (hk : k + 1 < (headerBases values).count base) :
    numbered base (k + 1) ∉ headerBases values := by
  intro hmem
  obtain ⟨i, hi, hcount⟩ := exists_count_take hk
  obtain ⟨j, hj, hfirst⟩ := exists_count_take (List.count_pos_iff.mpr hmem)
  have hnames : (normalizeExcelHeaders values)[i]? = (normalizeExcelHeaders values)[j]? := by
    rw [names_eq hi, names_eq hj, hcount, hfirst]
    rfl
  have hlt : i < (normalizeExcelHeaders values).length := by
    by_contra hge
    rw [List.getElem?_eq_none (Nat.le_of_not_lt hge), names_eq hj] at hnames
    cases hnames
  obtain rfl := (List.getElem?_inj hlt h).mp hnames
  exact numbered_ne base k (Option.some.inj (hi.symm.trans hj)).symm

/-- Two headers have different names when no numbered name is among the headers. -/
theorem names_ne (h : ∀ base k, 0 < k → k < (headerBases values).count base →
      numbered base k ∉ headerBases values) {j : ℕ} (hij : i < j)
    (hj : j < (normalizeExcelHeaders values).length) :
    (normalizeExcelHeaders values)[i]? ≠ (normalizeExcelHeaders values)[j]? := by
  obtain ⟨b, hb⟩ := exists_base (hij.trans hj)
  obtain ⟨b', hb'⟩ := exists_base hj
  have htaken : ∀ {i base}, (headerBases values)[i]? = some base →
      ((headerBases values).take i).count base < (headerBases values).count base := by
    intro i base hi
    have hlt := count_take_lt hi (List.getElem?_eq_some_iff.mp hi).1
    rwa [List.take_length] at hlt
  have hcount := htaken hb
  have hcount' := htaken hb'
  rw [names_eq hb, names_eq hb']
  intro heq
  replace heq := Option.some.inj heq
  cases hm : ((headerBases values).take i).count b with
  | zero =>
    cases hn : ((headerBases values).take j).count b' with
    | zero =>
      rw [hm, hn] at heq
      obtain rfl : b = b' := heq
      have hlt := count_take_lt hb hij
      omega
    | succ n =>
      rw [hm, hn] at heq
      exact h b' (n + 1) (Nat.succ_pos n) (hn ▸ hcount')
        (heq ▸ List.mem_of_getElem? hb)
  | succ m =>
    cases hn : ((headerBases values).take j).count b' with
    | zero =>
      rw [hm, hn] at heq
      exact h b (m + 1) (Nat.succ_pos m) (hm ▸ hcount) (heq.symm ▸ List.mem_of_getElem? hb')
    | succ n =>
      rw [hm, hn] at heq
      obtain ⟨rfl, rfl⟩ := numbered_inj heq
      have hlt := count_take_lt hb hij
      omega

/-- There is a name for each header, and the names are distinct exactly when no header that is
there more than `k` times has its name with the number `k` among the headers. -/
theorem normalize_excel_headers_distinct (values : List Cell) :
    (normalizeExcelHeaders values).length = values.length ∧
      ((normalizeExcelHeaders values).Nodup ↔ ∀ base k, 0 < k →
        k < (headerBases values).count base → numbered base k ∉ headerBases values) := by
  refine ⟨length_normalizeExcelHeaders values, fun h base k hpos hk => ?_, fun h => ?_⟩
  · obtain ⟨k, rfl⟩ := Nat.exists_eq_succ_of_ne_zero hpos.ne'
    exact notMem_of_nodup h hk
  · rw [List.nodup_iff_getElem?_ne_getElem?]
    exact fun i j hij hj => names_ne h hij hj

/-- The second `a` gets the name of the third header. -/
theorem numbered_header_repeats :
    normalizeExcelHeaders [some (.string "a"), some (.string "a"), some (.string "a_1")] =
        ["a", "a_1", "a_1"] ∧
      ¬ (normalizeExcelHeaders
        [some (.string "a"), some (.string "a"), some (.string "a_1")]).Nodup := by
  decide +kernel

end Names

end DataForge.Ingest
