import DataForge.Effects.Except
import DataForge.Ingest.Headers

/-!
# The shown and the ingested range

The range that a preflight shows is the one that the batches read when the selection leaves
neither reader anything to find out for itself.
-/

namespace DataForge.Ingest

open List Effects Responses

variable {γ : Type} {L : Libraries γ} {wb : Workbook} {sel : Selection}

/-! ## Batches -/

theorem flatten_take_batched {α : Type} (n k : ℕ) (l : List α) :
    ((List.range k).map fun i => (l.drop (i * n)).take n).flatten = l.take (k * n) := by
  induction k with
  | zero => simp
  | succ k ih =>
    rw [List.range_succ, List.map_append, List.flatten_append, ih, Nat.add_one_mul, List.take_add]
    simp

theorem flatten_batched {α : Type} {n : ℕ} (hn : 0 < n) (l : List α) :
    (batched n l).flatten = l := by
  rw [batched, flatten_take_batched]
  refine List.take_of_length_le ?_
  have hdiv := Nat.div_add_mod (l.length + n - 1) n
  have hmod := Nat.mod_lt (l.length + n - 1) hn
  rw [Nat.mul_comm] at hdiv
  omega

variable {rows : List (List Cell)}

theorem concat_frames {schema : List (String × Option String)} {n : ℕ} (hn : 0 < n) :
    concat <$> frames L schema rows n =
      Table.mk (schema.map Prod.fst) <$> rows.mapM (L.row schema) := by
  unfold frames
  have hflat := flatten_batched hn rows
  by_cases hempty : (batched n rows).isEmpty
  · rw [List.isEmpty_iff] at hempty
    rw [hempty] at hflat ⊢
    rw [← hflat]
    rfl
  · dsimp only
    rw [if_neg hempty, mapM_map_results]
    nth_rewrite 2 [← hflat]
    rw [← mapM_batches]
    cases houts : (batched n rows).mapM (fun batch => batch.mapM (L.row schema)) with
    | error e => rfl
    | ok outs =>
      have hlength := (mapM_ok.mp houts).length_eq
      cases outs with
      | nil => exact (hempty (List.isEmpty_iff_length_eq_zero.mpr hlength)).elim
      | cons out outs =>
        refine congrArg Except.ok ?_
        rw [concat, List.flatMap_map]
        exact congrArg (Table.mk _) List.flatMap_id

theorem concat_iterExcelBatches {n : ℕ} (hn : 0 < n) :
    concat <$> iterExcelBatches L wb sel n = ingestArea L wb sel >>= fun r =>
      Table.mk ((ingestRows r.1 r.2 sel).1.map Prod.fst) <$>
        (ingestRows r.1 r.2 sel).2.mapM (L.row (ingestRows r.1 r.2 sel).1) := by
  unfold iterExcelBatches
  cases ingestArea L wb sel with
  | error e => rfl
  | ok r => exact concat_frames hn

/-! ## The preflight -/

/-- The worksheet that a selection is about. -/
theorem sheetOrFirst_of_preflight {action : Action} {p : Preflight}
    (h : executePreflight L wb action sel = .ok p) :
    ∃ sheetName rows, sheetOrFirst wb sel.sheetName = .ok sheetName ∧
      preview L wb sheetName (sel.startRow.getD 0) (sel.startCol.getD 0) (sel.endCol.getD 0)
        (sel.endRow.map Int.ofNat) sel.tableName sel.namedRange sel.cellRange =
          .ok (p.area, rows) := by
  unfold executePreflight at h
  obtain ⟨target, htarget, h⟩ := bind_ok.mp h
  obtain ⟨⟨area, rows⟩, hpreview, h⟩ := bind_ok.mp h
  cases h
  refine ⟨target, rows, ?_, hpreview⟩
  have hmem : target ∈ wb.sheetnames := by
    by_contra hno
    rw [preview, if_pos hno] at hpreview
    cases hpreview
  have hne : target ≠ "" := by
    obtain ⟨s, hs, rfl⟩ := List.mem_map.mp hmem
    exact wb.titled s hs
  unfold sheetOrFirst
  unfold targetSheet at htarget
  cases hgiven : given sel.sheetName with
  | some name =>
    rw [hgiven] at htarget
    cases action <;> cases htarget <;> rfl
  | none =>
    rw [hgiven] at htarget
    cases action with
    | initial =>
      cases hhead : wb.sheetnames.head? with
      | none =>
        rw [hhead] at htarget
        cases htarget
      | some first =>
        rw [hhead] at htarget
        cases htarget
        rfl
    | preview =>
      cases htarget
      exact (hne rfl).elim
    | resolveSelection =>
      cases htarget
      exact (hne rfl).elim

/-- What a preview has checked of the range that it shows. -/
structure Shown (L : Libraries γ) (wb : Workbook) (sel : Selection) (sheetName : String)
    (a : Area) (b : Bounds) (w : Worksheet) : Prop where
  target : ∃ w, wb.get sheetName = .ok w
  resolved : resolveExcelBounds L wb sel.tableName.isNone sheetName (sel.startRow.getD 0)
    (sel.startCol.getD 0) (sel.endCol.getD 0) (sel.endRow.map Int.ofNat) sel.tableName
    sel.namedRange sel.cellRange = .ok b
  sheet : wb.get b.sheet = .ok w
  area : a = ⟨b.sheet, b.startRow, b.startCol, b.endCol, b.endRow.getD
    (detectEndRow (w.load sel.tableName.isNone) b.startRow b.startCol b.endCol)⟩
  rows : a.startRow ≤ a.endRow
  columns : a.startCol ≤ a.endCol
  height : a.endRow < ((w.load sel.tableName.isNone).maxRow.getD 0 : ℕ)

variable {sheetName : String} {a : Area}

theorem shown_of_preview {rows : List (List (Option String))}
    (h : preview L wb sheetName (sel.startRow.getD 0) (sel.startCol.getD 0) (sel.endCol.getD 0)
      (sel.endRow.map Int.ofNat) sel.tableName sel.namedRange sel.cellRange = .ok (a, rows)) :
    ∃ b w, Shown L wb sel sheetName a b w := by
  unfold preview at h
  dsimp only at h
  split at h
  · cases h
  next hmem =>
  have htarget : ∃ w, wb.get sheetName = .ok w := by
    rw [not_not] at hmem
    unfold Workbook.get
    cases hl : wb.sheets.lookup sheetName with
    | some w => exact ⟨w, rfl⟩
    | none =>
      obtain ⟨s, hs, heq⟩ := List.mem_map.mp hmem
      simpa [heq] using List.lookup_eq_none_iff.mp hl s hs
  obtain ⟨b, hb, h⟩ := bind_ok.mp h
  obtain ⟨w, hw, h⟩ := bind_ok.mp h
  split at h
  · cases h
  next hvalid =>
    split at h
    · cases h
    next hrows =>
      split at h
      · cases h
      cases h
      refine ⟨b, w, htarget, hb, hw, rfl, ?_, ?_, ?_⟩
      · dsimp only
        omega
      · dsimp only
        omega
      · dsimp only
        omega

/-! ## Rows of a worksheet -/

theorem length_span (first last : Int) : (span first last).length = (last + 1 - first).toNat := by
  rw [span, List.length_map, List.length_range]

variable {s : Sheet}

theorem length_iterRows_le {minRow maxRow minCol maxCol : Int} (hmin : minRow ≠ 0)
    (hmax : maxRow ≠ 0) :
    ((s.iterRows minRow maxRow minCol maxCol).length : Int) ≤ max 0 (maxRow + 1 - minRow) := by
  unfold Sheet.iterRows
  rw [List.length_map, length_span, if_neg hmin, if_neg hmax]
  cases s.lastRow with
  | none =>
    dsimp only
    omega
  | some l =>
    dsimp only
    omega

/-- The last cell of a row that is not blank, from an index on. -/
theorem foldl_lastCol (row : List Cell) (startCol lastCol : Int) (k : ℕ) :
    (row.all blank ∧ (row.zipIdx k).foldl
        (fun lastCol cell => if blank cell.1 then lastCol else startCol + (cell.2 : Int)) lastCol =
          lastCol) ∨
      (row.all blank = false ∧ startCol + k ≤ (row.zipIdx k).foldl
        (fun lastCol cell => if blank cell.1 then lastCol else startCol + (cell.2 : Int))
          lastCol) := by
  induction row generalizing lastCol k with
  | nil => exact .inl ⟨rfl, rfl⟩
  | cons cell row ih =>
    rw [List.zipIdx_cons, List.foldl_cons, List.all_cons]
    by_cases hcell : blank cell
    · rw [if_pos hcell, hcell, Bool.true_and]
      rcases ih lastCol (k + 1) with h | ⟨h, hle⟩
      · exact .inl h
      · refine .inr ⟨h, ?_⟩
        push_cast at hle
        omega
    · rw [if_neg hcell, Bool.eq_false_iff.mpr hcell, Bool.false_and]
      refine .inr ⟨rfl, ?_⟩
      change startCol + k ≤ List.foldl _ (startCol + (k : Int)) _
      rcases ih (startCol + (k : Int)) (k + 1) with ⟨-, h⟩ | ⟨-, hle⟩
      · exact h.ge
      · push_cast at hle
        omega

/-- The first row of a range has nothing to the right of its first cell. -/
def Alone (s : Sheet) (startRow startCol : Int) : Prop :=
  ∀ row ∈ s.iterRows (startRow + 1) (startRow + 1) (startCol + 1) (columnsEnd s startCol),
    row.tail.all blank

/-- The detected column is the first one for a row with nothing else, and else behind it. -/
theorem detectEndCol_cases (s : Sheet) {startRow : Int} (startCol : Int) (hrow : 0 ≤ startRow) :
    (Alone s startRow startCol ∧ detectEndCol s startRow startCol = startCol) ∨
      (¬ Alone s startRow startCol ∧ startCol < detectEndCol s startRow startCol) := by
  unfold Alone detectEndCol
  dsimp only
  generalize columnsEnd s startCol = last
  have hlength : ((s.iterRows (startRow + 1) (startRow + 1) (startCol + 1) last).length : Int) ≤
      max 0 (startRow + 1 + 1 - (startRow + 1)) := length_iterRows_le (by omega) (by omega)
  match hrows : s.iterRows (startRow + 1) (startRow + 1) (startCol + 1) last with
  | [] => exact .inl ⟨fun row h => (not_mem_nil h).elim, rfl⟩
  | [row] =>
    rw [List.flatMap_singleton, List.forall_mem_singleton]
    cases row with
    | nil => exact .inl ⟨rfl, rfl⟩
    | cons cell row =>
      rw [List.zipIdx_cons, List.foldl_cons, List.tail_cons]
      have hfirst : (if blank cell then startCol else startCol + ((0 : ℕ) : Int)) = startCol := by
        split_ifs
        · rfl
        · exact Int.add_zero _
      rw [hfirst]
      rcases foldl_lastCol row startCol startCol (0 + 1) with h | ⟨h, hle⟩
      · exact .inl h
      · exact .inr ⟨by rw [h]; exact Bool.false_ne_true, Int.lt_of_add_one_le hle⟩
  | _ :: _ :: rest =>
    rw [hrows] at hlength
    simp only [List.length_cons] at hlength
    push_cast at hlength
    omega

/-- No row of a range that is open below is blank, or it has only one row. -/
def NoGap (s : Sheet) (startRow startCol endCol : Int) : Prop :=
  startRow = (s.maxRow.getD 0 : ℕ) - 1 ∨
    ∀ row ∈ s.iterRows (startRow + 1) (s.maxRow.getD 0 : ℕ) (startCol + 1) (endCol + 1),
      row.all blank = false

/-- The detected row is the last one of the worksheet when there is no gap. -/
theorem detectEndRow_eq_iff {startRow startCol endCol : Int} (hrow : 0 ≤ startRow)
    (hmax : startRow < (s.maxRow.getD 0 : ℕ)) :
    detectEndRow s startRow startCol endCol = (s.maxRow.getD 0 : ℕ) - 1 ↔
      NoGap s startRow startCol endCol := by
  unfold detectEndRow NoGap
  dsimp only
  generalize s.maxRow.getD 0 = m at *
  have hlength : ((s.iterRows (startRow + 1) m (startCol + 1) (endCol + 1)).length : Int) ≤
      max 0 (m + 1 - (startRow + 1)) := length_iterRows_le (by omega) (by omega)
  generalize s.iterRows (startRow + 1) m (startCol + 1) (endCol + 1) = rows at *
  cases hfind : rows.findIdx? (·.all blank) with
  | none =>
    have hnone := List.findIdx?_eq_none_iff.mp hfind
    exact iff_of_true (by dsimp only; omega) (.inr hnone)
  | some i =>
    obtain ⟨hi, hblank, -⟩ := List.findIdx?_eq_some_iff_getElem.mp hfind
    dsimp only
    constructor
    · intro h
      left
      omega
    · rintro (h | h)
      · omega
      · cases hblank.symm.trans (h _ (List.getElem_mem hi))

/-! ## The range of a selection -/

variable {b : Bounds}

theorem zeroBasedBounds_endRow {sheet coordinates error : String}
    (h : zeroBasedBounds L sheet coordinates error = .ok b) : ∃ e, b.endRow = some e := by
  unfold zeroBasedBounds at h
  obtain ⟨boundaries, -, h⟩ := bind_ok.mp h
  split at h
  · cases h
    exact ⟨_, rfl⟩
  · cases h

theorem selectedRange_endRow {tableName namedRange cellRange : Option String}
    (h : selectedRange L wb sheetName tableName namedRange cellRange = .ok (some b)) :
    ∃ e, b.endRow = some e := by
  have hmap : ∀ {x : Except String Bounds}, some <$> x = .ok (some b) → x = .ok b := by
    intro x hx
    cases x with
    | error e => cases hx
    | ok b' => cases hx; rfl
  unfold selectedRange at h
  split at h
  · obtain ⟨w, -, h⟩ := bind_ok.mp h
    split at h
    · cases h
    · exact zeroBasedBounds_endRow (hmap h)
  · split at h
    · split at h
      · cases h
      · cases h
      · exact zeroBasedBounds_endRow (hmap h)
    · split at h
      · obtain ⟨parts, -, h⟩ := bind_ok.mp h
        dsimp only at h
        split at h
        · cases h
        · exact zeroBasedBounds_endRow (hmap h)
      · cases h

/-- The last column of a selection by bounds. -/
def lastCol (s : Sheet) (startRow startCol endCol : ℕ) : Int :=
  if endCol ≤ startCol then detectEndCol s startRow startCol else endCol

/-- What a selection resolves to: the range it names, or its bounds with the missing column
detected. -/
theorem resolveExcelBounds_cases {readOnly : Bool} {startRow startCol endCol : ℕ}
    {endRow : Option ℕ} {tableName namedRange cellRange : Option String} {w : Worksheet}
    (h : resolveExcelBounds L wb readOnly sheetName startRow startCol endCol
      (endRow.map Int.ofNat) tableName namedRange cellRange = .ok b) (hw : wb.get sheetName = .ok w)
    :
    selectedRange L wb sheetName tableName namedRange cellRange = .ok (some b) ∨
      selectedRange L wb sheetName tableName namedRange cellRange = .ok none ∧
        b = ⟨sheetName, startRow, startCol, lastCol (w.load readOnly) startRow startCol endCol,
          endRow.map fun e : ℕ => max (e : Int) startRow⟩ := by
  unfold resolveExcelBounds at h
  obtain ⟨range, hrange, h⟩ := bind_ok.mp h
  cases range with
  | some b' =>
    cases h
    exact .inl hrange
  | none =>
    refine .inr ⟨hrange, ?_⟩
    dsimp only at h
    rw [max_eq_left (Int.natCast_nonneg startRow), max_eq_left (Int.natCast_nonneg startCol),
      Option.map_map] at h
    unfold lastCol
    by_cases hcol : endCol ≤ startCol
    · rw [max_eq_right (by omega), if_pos rfl, hw] at h
      cases h
      rw [if_pos hcol]
      rfl
    · rw [max_eq_left (by omega), if_neg (by omega)] at h
      cases h
      rw [if_neg hcol]
      rfl

theorem lastCol_eq_iff {startRow startCol endCol : ℕ} :
    lastCol s startRow startCol endCol = endCol ↔
      startCol < endCol ∨ startCol = endCol ∧ Alone s startRow startCol := by
  unfold lastCol
  split_ifs with hcol
  · rcases detectEndCol_cases s startCol (Int.natCast_nonneg startRow) with
      ⟨halone, heq⟩ | ⟨halone, hlt⟩
    · rw [heq, Int.natCast_inj, and_iff_left halone]
      omega
    · exact iff_of_false (by omega) (by rintro (h | ⟨-, h⟩); omega; exact halone h)
  · exact iff_of_true rfl (.inl (by omega))

theorem bounds?_eq {startRow startCol endCol endRow : ℕ}
    (h : sel.bounds? = some (startRow, startCol, endCol, endRow)) :
    sel.startRow = some startRow ∧ sel.startCol = some startCol ∧ sel.endCol = some endCol ∧
      sel.endRow = some endRow := by
  unfold Selection.bounds? at h
  split at h
  · next h1 h2 h3 h4 =>
    cases h
    exact ⟨h1, h2, h3, h4⟩
  · cases h

/-- The selection leaves nothing to detect: the bounds that it gives are those of the range
that it names, or, where it names none, are in order and more than the first column of a
wider row; without bounds and a named range, its last row is given or there is no gap. -/
def SameArea (L : Libraries γ) (wb : Workbook) (sel : Selection) (sheetName : String)
    (s : Sheet) : Prop :=
  match selectedRange L wb sheetName sel.tableName sel.namedRange sel.cellRange, sel.bounds? with
  | .ok (some range), some (startRow, startCol, endCol, endRow) =>
    range = ⟨sheetName, startRow, startCol, endCol, some endRow⟩
  | .ok none, some (startRow, startCol, endCol, endRow) =>
    startRow ≤ endRow ∧ (startCol < endCol ∨ startCol = endCol ∧ Alone s startRow startCol)
  | .ok none, none =>
    sel.endRow = none → NoGap s (sel.startRow.getD 0) (sel.startCol.getD 0)
      (lastCol s (sel.startRow.getD 0) (sel.startCol.getD 0) (sel.endCol.getD 0))
  | _, _ => True

/-- The shown range is the one that is read when the selection leaves nothing to detect. -/
theorem ingestArea_iff {w v : Worksheet} (hname : sheetOrFirst wb sel.sheetName = .ok sheetName)
    (h : Shown L wb sel sheetName a b w) (hv : wb.get sheetName = .ok v) :
    (∃ s, ingestArea L wb sel = .ok (a, s)) ↔
      SameArea L wb sel sheetName (v.load sel.tableName.isNone) := by
  have hresolved := resolveExcelBounds_cases h.resolved hv
  have hread : ingestArea L wb sel = (do
      let b ← ingestBounds L wb sel sheetName
      areaOf b ((← wb.get b.sheet).load (sel.bounds?.isSome || sel.tableName.isNone))) := by
    rw [ingestArea, hname]
    rfl
  rw [hread]
  unfold SameArea ingestBounds
  cases hbounds : sel.bounds? with
  | some bounds =>
    obtain ⟨startRow, startCol, endCol, endRow⟩ := bounds
    obtain ⟨hstartRow, hstartCol, hendCol, hendRow⟩ := bounds?_eq hbounds
    have hiff : (∃ s, (do
        let b ← (.ok ⟨sheetName, startRow, startCol, endCol, some endRow⟩ : Except String Bounds)
        areaOf b ((← wb.get b.sheet).load (true || sel.tableName.isNone))) =
          (.ok (a, s) : Except String (Area × Sheet))) ↔
        a = ⟨sheetName, startRow, startCol, endCol, endRow⟩ := by
      change (∃ s, (wb.get sheetName >>= fun w => _) = .ok (a, s)) ↔ _
      rw [hv]
      constructor
      · rintro ⟨s, hs⟩
        cases hs
        rfl
      · rintro rfl
        exact ⟨_, rfl⟩
    refine hiff.trans ?_
    rw [h.area]
    rcases hresolved with hsome | ⟨hnone, hb⟩
    · obtain ⟨e, he⟩ := selectedRange_endRow hsome
      rw [hsome, he]
      obtain ⟨sheet, r, c, c', r'⟩ := b
      cases he
      dsimp only
      rw [Area.mk.injEq, Bounds.mk.injEq, Option.getD_some, Option.some.injEq]
    · rw [hnone, hb, hstartRow, hstartCol, hendCol, hendRow]
      dsimp only [Option.getD_some, Option.map_some]
      rw [Area.mk.injEq, lastCol_eq_iff]
      constructor
      · rintro ⟨-, -, -, hcol, hrow⟩
        exact ⟨by omega, hcol⟩
      · rintro ⟨hrow, hcol⟩
        exact ⟨rfl, rfl, rfl, hcol, by omega⟩
  | none =>
    dsimp only
    rw [h.resolved]
    change (∃ s, (wb.get b.sheet >>= fun w => _) = .ok (a, s)) ↔ _
    rw [h.sheet]
    change (∃ s, areaOf b (w.load sel.tableName.isNone) = .ok (a, s)) ↔ _
    unfold areaOf
    have harea := h.area
    cases hend : b.endRow with
    | some e =>
      rw [hend, Option.getD_some] at harea
      refine iff_of_true ⟨_, by rw [harea]⟩ ?_
      rcases hresolved with hsome | ⟨hnone, hb⟩
      · rw [hsome]
        trivial
      · rw [hnone]
        intro hendRow
        rw [hb, hendRow] at hend
        cases hend
    | none =>
      rcases hresolved with hsome | ⟨hnone, hb⟩
      · obtain ⟨e, he⟩ := selectedRange_endRow hsome
        cases he.symm.trans hend
      have hwv : w = v := by
        have hw := h.sheet
        rw [hb, hv] at hw
        cases hw
        rfl
      subst hwv
      have hendRow : sel.endRow = none := by
        rw [hb] at hend
        exact Option.map_eq_none_iff.mp hend
      have hrows := h.rows
      have hheight := h.height
      rw [hend, Option.getD_none] at harea
      have hstart : a.startRow = (sel.startRow.getD 0 : ℕ) := by
        rw [harea, hb]
      rw [hnone]
      dsimp only
      rw [← detectEndRow_eq_iff (Int.natCast_nonneg _) (by omega)]
      cases hmax : (w.load sel.tableName.isNone).maxRow with
      | none =>
        rw [hmax, Option.getD_none] at hheight
        omega
      | some m =>
        rw [Option.getD_some, forall_prop_of_true hendRow, harea, hb]
        dsimp only
        constructor
        · rintro ⟨s, hs⟩
          rw [Except.ok.injEq, Prod.mk.injEq, Area.mk.injEq] at hs
          exact hs.1.2.2.2.2.symm
        · intro heq
          exact ⟨_, by rw [heq]⟩

/-! ## The bounded reader -/

theorem span_cons {first last : Int} (h : first ≤ last) :
    span first last = first :: span (first + 1) last := by
  have hlength : (last + 1 - first).toNat = (last + 1 - (first + 1)).toNat + 1 := by omega
  rw [span, hlength, List.range_succ_eq_map, List.map_cons, List.map_map, span]
  congr 1
  · simp
  · refine List.map_congr_left fun i _ => ?_
    change first + ((i + 1 : ℕ) : Int) = first + 1 + (i : Int)
    omega

theorem span_nil {first last : Int} (h : last < first) : span first last = [] := by
  rw [span, show (last + 1 - first).toNat = 0 by omega]
  rfl

/-- A range begins with the row that is read as its header, or has no stored row. -/
theorem iterRows_cases (s : Sheet) {minRow maxRow : Int} (minCol maxCol : Int) (hmin : 0 < minRow)
    (hle : minRow ≤ maxRow) :
    (s.iterRows minRow minRow minCol maxCol = [] ∧ s.iterRows minRow maxRow minCol maxCol = [] ∧
        s.iterRows (minRow + 1) maxRow minCol maxCol = []) ∨
      ∃ first, s.iterRows minRow minRow minCol maxCol = [first] ∧
        s.iterRows minRow maxRow minCol maxCol =
          first :: s.iterRows (minRow + 1) maxRow minCol maxCol := by
  unfold Sheet.iterRows
  rw [if_neg (by omega : minRow ≠ 0), if_neg (by omega : minRow ≠ 0),
    if_neg (by omega : maxRow ≠ 0), if_neg (by omega : minRow + 1 ≠ 0)]
  cases s.lastRow with
  | none =>
    dsimp only
    rw [span_cons le_rfl, span_nil (by omega : minRow < minRow + 1), span_cons hle]
    exact .inr ⟨_, rfl, rfl⟩
  | some l =>
    dsimp only
    by_cases hl : minRow ≤ l
    · rw [min_eq_left hl, span_cons le_rfl, span_nil (by omega : minRow < minRow + 1),
        span_cons (by omega : minRow ≤ min maxRow l)]
      exact .inr ⟨_, rfl, rfl⟩
    · rw [span_nil (by omega : min minRow (l : Int) < minRow),
        span_nil (by omega : min maxRow (l : Int) < minRow),
        span_nil (by omega : min maxRow (l : Int) < minRow + 1)]
      exact .inl ⟨rfl, rfl, rfl⟩

theorem length_of_mem_iterRows {minRow maxRow minCol maxCol : Int} {row : List Cell}
    (h : row ∈ s.iterRows minRow maxRow minCol maxCol) :
    row.length = (maxCol + 1 - minCol).toNat := by
  unfold Sheet.iterRows at h
  obtain ⟨r, -, rfl⟩ := List.mem_map.mp h
  rw [List.length_map, length_span]

theorem length_foldl_kinds {kinds : List (Option String)}
    (h : ∀ row ∈ rows, row.length = kinds.length) :
    (rows.foldl (fun kinds row => List.zipWith mergeKind kinds (row.map kindOf)) kinds).length =
      kinds.length := by
  induction rows generalizing kinds with
  | nil => rfl
  | cons row rows ih =>
    obtain ⟨hrow, hrows⟩ := List.forall_mem_cons.mp h
    have hlength : (List.zipWith mergeKind kinds (row.map kindOf)).length = kinds.length := by
      rw [List.length_zipWith, List.length_map, hrow, Nat.min_self]
    rw [List.foldl_cons, ih (fun r hr => (hrows r hr).trans hlength.symm), hlength]

/-- Distinct names all are columns of the schema. -/
theorem schemaOf_eq {columns : List String} {kinds : List (Option String)}
    (hnodup : columns.Nodup) (hlength : kinds.length = columns.length) :
    schemaOf columns kinds = columns.zip kinds := by
  have hfold : ∀ (new old : List (String × Option String)),
      ((old ++ new).map Prod.fst).Nodup →
      new.foldl (fun schema c => if schema.any (·.1 = c.1) then
          schema.map fun d => if d.1 = c.1 then c else d else schema ++ [c]) old = old ++ new := by
    intro new
    induction new with
    | nil => exact fun old _ => (List.append_nil old).symm
    | cons c new ih =>
      intro old h
      have hfresh : old.any (·.1 = c.1) = false := by
        rw [List.any_eq_false]
        intro d hd heq
        rw [List.map_append, List.nodup_append] at h
        exact h.2.2 _ (List.mem_map_of_mem hd) _ (List.mem_map_of_mem (List.mem_cons_self ..))
          (of_decide_eq_true heq)
      rw [List.foldl_cons, hfresh, if_neg Bool.false_ne_true, ih _ (by rwa [List.append_cons] at h),
        List.append_assoc]
      rfl
  refine hfold _ [] ?_
  rwa [List.nil_append, List.map_fst_zip hlength.ge]

/-- Rows as wide as their columns, which have distinct names, are taken. -/
theorem frame_rows (L : Libraries γ) {columns : List String} (hnodup : columns.Nodup)
    (hwidth : ∀ row ∈ rows, row.length = columns.length) :
    let kinds := rows.foldl (fun kinds row => List.zipWith mergeKind kinds (row.map kindOf))
      (columns.map fun _ => none)
    (schemaOf columns kinds).map Prod.fst = columns ∧
      ∃ out, (rows.map fun row => List.zipWith normalizeCell row kinds).mapM
        (L.row (schemaOf columns kinds)) = .ok out ∧ out.length = rows.length := by
  intro kinds
  have hkinds : kinds.length = columns.length := by
    refine (length_foldl_kinds fun row hrow => ?_).trans (List.length_map _)
    rw [hwidth row hrow, List.length_map]
  have hschema := schemaOf_eq hnodup hkinds
  refine ⟨by rw [hschema, List.map_fst_zip hkinds.ge], ?_⟩
  have htaken : ∀ cells ∈ rows.map fun row => List.zipWith normalizeCell row kinds,
      ∃ r, L.row (schemaOf columns kinds) cells = .ok r := by
    intro cells hcells
    obtain ⟨row, hrow, rfl⟩ := List.mem_map.mp hcells
    refine L.row_ok ?_
    rw [hschema, List.length_zipWith, List.length_zip, hkinds, hwidth row hrow]
  obtain ⟨out, hout⟩ := mapM_exists htaken
  refine ⟨out, hout, ?_⟩
  rw [← (mapM_ok.mp hout).length_eq, List.length_map]

/-- A header that is not said to be there or not, in a bounded selection with stored rows,
makes no frame with the names of the first row. -/
def SameHeader (L : Libraries γ) (sel : Selection) (s : Sheet) : Prop :=
  sel.hasHeader = some none → ∀ startRow startCol endCol endRow,
    sel.bounds? = some (startRow, startCol, endCol, endRow) →
    ∀ first rest, s.iterRows (startRow + 1) (endRow + 1) (startCol + 1) (endCol + 1) =
      first :: rest → ∀ out, L.frame (normalizeExcelHeaders first) rest ≠ .ok out

/-- The batches have the names and as many rows as what the bounded reader returns. -/
def SameFrame (L : Libraries γ) (wb : Workbook) (sel : Selection) : Prop :=
  ∀ f, readExcelBounds L wb sel = .ok f → ∀ n, 0 < n →
    ∃ g, concat <$> iterExcelBatches L wb sel n = .ok g ∧ g.columns = f.columns ∧
      g.height = f.height

/-- The rows under the header, or all of them. -/
theorem iterRows_ingested (endRow startCol endCol : ℤ) :
    s.iterRows (a.startRow + if sel.ingestHeader then 2 else 1) endRow startCol endCol =
      if sel.ingestHeader then s.iterRows (a.startRow + 1 + 1) endRow startCol endCol
      else s.iterRows (a.startRow + 1) endRow startCol endCol := by
  split_ifs
  · rw [Int.add_assoc a.startRow 1 1]
    rfl
  · rfl

/-- The rows that are read of a range with a first row. -/
theorem ingestRows_cons {first : List Cell} {rest : List (List Cell)}
    (hheader : s.iterRows (a.startRow + 1) (a.startRow + 1) (a.startCol + 1) (a.endCol + 1) =
      [first]) (hrows : s.iterRows (a.startRow + 1) (a.endRow + 1) (a.startCol + 1) (a.endCol + 1) =
      first :: rest)
    (hrest : s.iterRows (a.startRow + 1 + 1) (a.endRow + 1) (a.startCol + 1) (a.endCol + 1) =
      rest) :
    ingestRows a s sel =
      let columns := if sel.ingestHeader then normalizeExcelHeaders first
        else columnNames first.length
      let rows := if sel.ingestHeader then rest else first :: rest
      let kinds := rows.foldl (fun kinds row => List.zipWith mergeKind kinds (row.map kindOf))
        (columns.map fun _ => none)
      (schemaOf columns kinds, rows.map fun row => List.zipWith normalizeCell row kinds) := by
  unfold ingestRows
  dsimp only
  rw [hheader, iterRows_ingested, hrest, hrows]
  rfl

theorem ingestRows_nil
    (hheader : s.iterRows (a.startRow + 1) (a.startRow + 1) (a.startCol + 1) (a.endCol + 1) = [])
    (hrows : s.iterRows (a.startRow + 1) (a.endRow + 1) (a.startCol + 1) (a.endCol + 1) = [])
    (hrest : s.iterRows (a.startRow + 1 + 1) (a.endRow + 1) (a.startCol + 1) (a.endCol + 1) =
      []) : ingestRows a s sel = ([], []) := by
  unfold ingestRows
  dsimp only
  rw [hheader, iterRows_ingested, hrest, hrows, ite_self]
  cases sel.ingestHeader <;> rfl

theorem sameFrame_iff {v : Worksheet} {startRow startCol endCol endRow : ℕ}
    (hname : sheetOrFirst wb sel.sheetName = .ok sheetName) (hv : wb.get sheetName = .ok v)
    (hbounds : sel.bounds? = some (startRow, startCol, endCol, endRow)) (hrow : startRow ≤ endRow)
    (hcol : startCol ≤ endCol) :
    SameFrame L wb sel ↔ SameHeader L sel (v.load true) := by
  have harea : ingestArea L wb sel =
      .ok (⟨sheetName, startRow, startCol, endCol, endRow⟩, v.load true) := by
    unfold ingestArea ingestBounds
    rw [hname, hbounds]
    change (wb.get sheetName >>= fun w => _) = _
    rw [hv]
    rfl
  have hread : readExcelBounds L wb sel = boundedFrame L (sel.hasHeader.join.getD true)
      ((v.load true).iterRows (startRow + 1) (endRow + 1) (startCol + 1) (endCol + 1)) := by
    unfold readExcelBounds
    rw [hbounds, hname]
    change (wb.get sheetName >>= fun w => _) = _
    rw [hv]
    rfl
  generalize v.load true = s at *
  unfold SameFrame SameHeader
  have hconcat : ∀ {n : ℕ}, 0 < n → concat <$> iterExcelBatches L wb sel n =
      Table.mk ((ingestRows ⟨sheetName, startRow, startCol, endCol, endRow⟩ s sel).1.map Prod.fst)
        <$> (ingestRows ⟨sheetName, startRow, startCol, endCol, endRow⟩ s sel).2.mapM
          (L.row (ingestRows ⟨sheetName, startRow, startCol, endCol, endRow⟩ s sel).1) := by
    intro n hn
    rw [concat_iterExcelBatches hn, harea]
    rfl
  have hwidth : ∀ {minRow maxRow : Int}, ∀ row ∈ s.iterRows minRow maxRow (startCol + 1)
      (endCol + 1), row.length = endCol - startCol + 1 := by
    intro minRow maxRow row h
    rw [length_of_mem_iterRows h]
    omega
  have hsplit := iterRows_cases s (startCol + 1) (endCol + 1)
    (by omega : (0 : Int) < startRow + 1) (by omega : (startRow : Int) + 1 ≤ endRow + 1)
  rcases hsplit with ⟨hheader, hrows, hdata⟩ | ⟨first, hheader, hrows⟩
  · rw [ingestRows_nil hheader hrows hdata] at hconcat
    refine iff_of_true (fun f hf n hn => ⟨⟨[], []⟩, hconcat hn, ?_⟩) ?_
    · rw [hread, hrows] at hf
      cases hf
      exact ⟨rfl, rfl⟩
    · intro _ r c c' r' hb first rest hstored
      cases hbounds.symm.trans hb
      cases hrows.symm.trans hstored
  · rw [ingestRows_cons hheader hrows rfl] at hconcat
    dsimp only at hconcat
    rw [hrows] at hread
    have hfirst : first.length = endCol - startCol + 1 :=
      hwidth first (hrows ▸ List.mem_cons_self ..)
    have hwidth' : ∀ row ∈ if sel.ingestHeader then s.iterRows (startRow + 1 + 1) (endRow + 1)
        (startCol + 1) (endCol + 1) else first :: s.iterRows (startRow + 1 + 1) (endRow + 1)
        (startCol + 1) (endCol + 1), row.length = first.length := by
      intro row hmem
      rw [hfirst]
      split_ifs at hmem
      · exact hwidth row hmem
      · exact hwidth row (hrows ▸ hmem)
    generalize s.iterRows (startRow + 1 + 1) (endRow + 1) (startCol + 1) (endCol + 1) = rest at *
    by_cases hnone : sel.hasHeader = some none
    · have hingest : sel.ingestHeader = false := by
        rw [Selection.ingestHeader, hnone]
        rfl
      have hbounded : sel.hasHeader.join.getD true = true := by
        rw [hnone]
        rfl
      rw [hingest] at hconcat
      rw [hbounded] at hread
      unfold boundedFrame at hread
      dsimp only at hread hconcat
      constructor
      · intro h _ r c c' r' hb first' rest' hstored out hframe
        cases hbounds.symm.trans hb
        cases hrows.symm.trans hstored
        rw [if_pos rfl, if_pos rfl, hframe] at hread
        obtain ⟨g, hg, hnames, hheight⟩ := h _ hread 1 Nat.one_pos
        rw [hconcat Nat.one_pos] at hg
        rw [if_neg Bool.false_ne_true, if_neg Bool.false_ne_true] at hg
        generalize (first :: rest).foldl (fun kinds row => List.zipWith mergeKind kinds
          (row.map kindOf)) ((columnNames first.length).map fun _ => none) = kinds at hg
        cases hmap : ((first :: rest).map fun row => List.zipWith normalizeCell row kinds).mapM
            (L.row (schemaOf (columnNames first.length) kinds)) with
        | error e =>
          rw [hmap] at hg
          cases hg
        | ok outs =>
          rw [hmap] at hg
          cases hg
          have houts := (mapM_ok.mp hmap).length_eq
          rw [List.length_map, List.length_cons] at houts
          have hout := (L.frame_ok hframe).2
          have hne : normalizeExcelHeaders first ≠ [] := by
            intro hnil
            have hlength := length_normalizeExcelHeaders first
            rw [hnil, hfirst] at hlength
            cases hlength
          unfold Table.height at hheight
          rw [hnames] at hheight
          dsimp only at hheight
          rw [if_neg hne, if_neg hne] at hheight
          omega
      · intro h f hf
        rw [hread, if_pos rfl, if_pos rfl] at hf
        cases hframe : L.frame (normalizeExcelHeaders first) rest with
        | error e =>
          rw [hframe] at hf
          cases hf
        | ok out => exact (h hnone _ _ _ _ hbounds first rest hrows out hframe).elim
    · have hflag : sel.hasHeader.join.getD true = sel.ingestHeader := by
        unfold Selection.ingestHeader
        cases hcase : sel.hasHeader with
        | none => rfl
        | some b =>
          cases b with
          | none => exact (hnone hcase).elim
          | some b => rfl
      refine iff_of_true (fun f hf n hn => ?_) fun h => (hnone h).elim
      rw [hread, hflag] at hf
      unfold boundedFrame at hf
      dsimp only at hf
      generalize hcolumns : (if sel.ingestHeader then normalizeExcelHeaders first
        else columnNames first.length) = columns at *
      have hlength : columns.length = first.length := by
        rw [← hcolumns]
        split_ifs
        · exact length_normalizeExcelHeaders first
        · rw [columnNames, List.length_map, List.length_range]
      generalize (if sel.ingestHeader then rest else first :: rest) = rows at *
      cases hframe : L.frame columns rows with
      | error e =>
        rw [hframe] at hf
        cases hf
      | ok out =>
        rw [hframe] at hf
        cases hf
        obtain ⟨hnodup, hout⟩ := L.frame_ok hframe
        obtain ⟨hnames, out', hout', hlen⟩ := frame_rows L hnodup fun row hrow =>
          (hwidth' row hrow).trans hlength.symm
        refine ⟨⟨columns, out'⟩, ?_, rfl, ?_⟩
        · rw [hconcat hn, hnames, hout']
          rfl
        · rw [Table.height, Table.height, hlen, hout]

/-! ## The preview and the batches -/

/-- The batches read the range that is shown, make up the same frame for every batch size, and
have the names and the number of rows of the bounded reader. -/
structure ShownIsIngested (L : Libraries γ) (wb : Workbook) (sel : Selection) (a : Area) :
    Prop where
  area : ∃ s, ingestArea L wb sel = .ok (a, s)
  batches : ∀ n m, 0 < n → 0 < m →
    concat <$> iterExcelBatches L wb sel n = concat <$> iterExcelBatches L wb sel m
  frame : SameFrame L wb sel

/-- The selection leaves the readers nothing to find out for themselves. -/
def Settled (L : Libraries γ) (wb : Workbook) (sel : Selection) : Prop :=
  ∀ sheetName w, sheetOrFirst wb sel.sheetName = .ok sheetName → wb.get sheetName = .ok w →
    SameArea L wb sel sheetName (w.load sel.tableName.isNone) ∧ SameHeader L sel (w.load true)

/-- What a preflight shows is what is ingested exactly when the selection leaves the readers
nothing to find out for themselves. -/
theorem shownIsIngested_iff {action : Action} {p : Preflight}
    (h : executePreflight L wb action sel = .ok p) :
    ShownIsIngested L wb sel p.area ↔ Settled L wb sel := by
  obtain ⟨sheetName, rows, hname, hpreview⟩ := sheetOrFirst_of_preflight h
  obtain ⟨b, w, hshown⟩ := shown_of_preview hpreview
  obtain ⟨v, hv⟩ := hshown.target
  have harea := ingestArea_iff hname hshown hv
  have hframe : (∃ s, ingestArea L wb sel = .ok (p.area, s)) →
      (SameFrame L wb sel ↔ SameHeader L sel (v.load true)) := by
    rintro ⟨s, hs⟩
    cases hbounds : sel.bounds? with
    | none =>
      refine iff_of_true (fun f hf => ?_) fun _ r c c' r' hb => ?_
      · rw [readExcelBounds, hbounds] at hf
        cases hf
      · cases hbounds.symm.trans hb
    | some bounds =>
      obtain ⟨startRow, startCol, endCol, endRow⟩ := bounds
      have hrows := hshown.rows
      have hcolumns := hshown.columns
      unfold ingestArea ingestBounds at hs
      rw [hname, hbounds] at hs
      change (wb.get sheetName >>= fun w => _) = _ at hs
      rw [hv] at hs
      change (.ok _ : Except String (Area × Sheet)) = _ at hs
      rw [Except.ok.injEq, Prod.mk.injEq] at hs
      rw [← hs.1] at hrows hcolumns
      dsimp only at hrows hcolumns
      exact sameFrame_iff hname hv hbounds (by omega) (by omega)
  constructor
  · intro hsame sheetName' v' hname' hv'
    cases hname.symm.trans hname'
    cases hv.symm.trans hv'
    exact ⟨harea.mp hsame.area, (hframe hsame.area).mp hsame.frame⟩
  · intro hsettled
    obtain ⟨hsameArea, hsameHeader⟩ := hsettled sheetName v hname hv
    have hread := harea.mpr hsameArea
    refine ⟨hread, fun n m hn hm => ?_, (hframe hread).mpr hsameHeader⟩
    rw [concat_iterExcelBatches hn, concat_iterExcelBatches hm]

/-- Frames of cells, and no references. -/
def sampleLibraries : Libraries Cell where
  rangeBoundaries coordinates := .error (coordinates ++ " is not a valid coordinate or range")
  row _ cells := .ok cells
  frame names rows := if names.Nodup then .ok rows else .error "duplicate column names"
  row_ok _ := ⟨_, rfl⟩
  frame_ok h := by
    split_ifs at h with hnodup
    cases h
    exact ⟨hnodup, rfl⟩

/-- A workbook whose third row is blank. -/
def gapWorkbook : Workbook where
  sheets := [("Data", {
    value := fun r c => if c = 1 ∧ r ≠ 3 then some (.int r) else none
    maxRow := 4
    maxColumn := 1
    dimensions := some (4, 1)
    lastRow := 4
    tables := [] })]
  definedNames := []
  titled := by simp

/-- A selection of rows from the first column, without a header. -/
def sampleSelection (startRow endRow : Option ℕ) : Selection where
  sheetName := some "Data"
  startRow
  startCol := some 0
  endCol := some 0
  endRow
  hasHeader := some (some false)
  tableName := none
  namedRange := none
  cellRange := none

theorem shownIsIngested_rows :
    ShownIsIngested sampleLibraries gapWorkbook (sampleSelection (some 0) (some 3))
      ⟨"Data", 0, 0, 0, 3⟩ := by
  have hshown : executePreflight sampleLibraries gapWorkbook .resolveSelection
      (sampleSelection (some 0) (some 3)) = .ok ⟨⟨"Data", 0, 0, 0, 3⟩, none⟩ := rfl
  refine (shownIsIngested_iff hshown).mpr ?_
  intro sheetName w hname hv
  cases hname
  cases hv
  refine ⟨?_, fun h => by cases h⟩
  refine ⟨by decide, .inr ⟨rfl, fun row hrow => ?_⟩⟩
  change row ∈ [[some (Value.int 1)]] at hrow
  rw [List.mem_singleton.mp hrow]
  rfl

/-- Without a last row, the preview ends in front of the blank row and the batches do not. -/
theorem not_shownIsIngested_gap : ∃ p,
    executePreflight sampleLibraries gapWorkbook .preview (sampleSelection none none) = .ok p ∧
      ¬ ShownIsIngested sampleLibraries gapWorkbook (sampleSelection none none) p.area := by
  refine ⟨_, rfl, fun h => ?_⟩
  obtain ⟨s, hs⟩ := h.area
  cases hs

end DataForge.Ingest
