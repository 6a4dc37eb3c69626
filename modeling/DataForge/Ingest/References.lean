import DataForge.Ingest.Readers
import DataForge.Texts.Split

/-!
# References to a range of a sheet

`_cell_range_parts` (`datasources/excel_preflight.py:93-105`) on the references that Excel
writes: the name of the sheet in quotes, with its own quotes doubled, a `!` and the range. The
parts come back when the name has no `!` and no quote (`cell_range_parts_reference`).
-/

namespace DataForge.Ingest

open Compute (isSpace strip)

/-- A name with its quotes doubled. -/
def doubled (name : List Char) : List Char :=
  name.flatMap fun c => if c = quote then [quote, quote] else [c]

/-- The reference that Excel writes for a range of a sheet. -/
def reference (sheet range : String) : String :=
  String.ofList (quote :: doubled sheet.toList ++ quote :: '!' :: range.toList)

section Lists

variable {cs ds : List Char}

@[simp] theorem doubled_cons (c : Char) :
    doubled (c :: cs) = (if c = quote then [quote, quote] else [c]) ++ doubled cs := by
  simp [doubled]

theorem length_doubled (cs : List Char) : (doubled cs).length = cs.length + cs.count quote := by
  induction cs with
  | nil => rfl
  | cons c cs ih =>
    rw [doubled_cons, List.length_append, ih, List.length_cons, List.count_cons]
    by_cases hc : c = quote
    · simp only [hc, if_true, List.length_cons, List.length_nil, beq_self_eq_true]
      omega
    · simp only [hc, if_false, List.length_cons, List.length_nil, beq_iff_eq]
      omega

theorem doubled_eq_self : doubled cs = cs ↔ quote ∉ cs := by
  constructor
  · intro h
    have hlen := length_doubled cs
    rw [h] at hlen
    exact List.count_eq_zero.mp (by omega)
  · intro h
    induction cs with
    | nil => rfl
    | cons c cs ih =>
      obtain ⟨hne, hcs⟩ := not_or.mp (List.mem_cons.not.mp h)
      rw [doubled_cons, if_neg fun heq => hne heq.symm, ih hcs]
      rfl

theorem bang_mem_doubled : '!' ∈ doubled cs ↔ '!' ∈ cs := by
  have hbang : '!' ≠ quote := by decide
  induction cs with
  | nil => simp [doubled]
  | cons c cs ih =>
    by_cases hc : c = quote
    · simp [hc, hbang, ih]
    · simp [hc, ih]

theorem mem_dropWhile {c : Char} (hc : c ∈ cs) (hspace : isSpace c = false) :
    c ∈ cs.dropWhile isSpace := by
  have hparts : cs.takeWhile isSpace ++ cs.dropWhile isSpace = cs := List.takeWhile_append_dropWhile
  rw [← hparts, List.mem_append] at hc
  rcases hc with hc | hc
  · rw [List.mem_takeWhile_imp hc] at hspace
    cases hspace
  · exact hc

theorem mem_strip {s : String} {c : Char} (hc : c ∈ s.toList) (hspace : isSpace c = false) :
    c ∈ (strip s).toList := by
  rw [strip, String.toList_ofList, List.rdropWhile, List.mem_reverse]
  exact mem_dropWhile (List.mem_reverse.mpr (mem_dropWhile hc hspace)) hspace

theorem rdropWhile_append {c : Char} (hc : isSpace c = false) :
    (cs ++ c :: ds).rdropWhile isSpace = cs ++ c :: ds.rdropWhile isSpace := by
  rw [List.rdropWhile, List.reverse_append, List.reverse_cons, List.append_assoc,
    List.dropWhile_append]
  split
  case isTrue h =>
    rw [List.isEmpty_iff] at h
    have hds : ds.rdropWhile isSpace = [] := by rw [List.rdropWhile, h, List.reverse_nil]
    simp [hds, hc]
  case isFalse => simp [List.rdropWhile]

theorem strip_rdropWhile :
    strip (String.ofList (cs.rdropWhile isSpace)) = strip (String.ofList cs) := by
  have hparts : cs.rdropWhile isSpace ++ cs.rtakeWhile isSpace = cs :=
    List.rdropWhile_append_rtakeWhile
  have hspaces : ∀ c ∈ cs.rtakeWhile isSpace, isSpace c = true :=
    fun c hc => List.mem_rtakeWhile_imp hc
  generalize cs.rdropWhile isSpace = xs at hparts ⊢
  generalize cs.rtakeWhile isSpace = ys at hparts hspaces
  have hright : ∀ zs : List Char, (zs ++ ys).rdropWhile isSpace = zs.rdropWhile isSpace := by
    intro zs
    rw [List.rdropWhile, List.reverse_append, List.dropWhile_append_of_pos, ← List.rdropWhile]
    exact fun c hc => hspaces c (List.mem_reverse.mp hc)
  simp only [strip, String.toList_ofList]
  rw [← hparts, List.dropWhile_append]
  split
  case isTrue h =>
    have hys : ys.dropWhile isSpace = [] := List.dropWhile_eq_nil_iff.mpr hspaces
    rw [List.isEmpty_iff.mp h, hys]
  case isFalse => rw [hright]

theorem isSpace_quote : isSpace quote = false := by decide

theorem strip_quoted : strip (String.ofList (quote :: cs ++ [quote])) =
    String.ofList (quote :: cs ++ [quote]) := by
  have hdrop : (quote :: cs ++ [quote]).dropWhile isSpace = quote :: cs ++ [quote] :=
    List.dropWhile_cons_of_neg (by simp [isSpace_quote])
  rw [strip, String.toList_ofList, hdrop,
    List.rdropWhile_concat_neg _ _ _ (by simp [isSpace_quote])]

end Lists

/-- The name of a sheet without the quotes around it (lines 100-101). -/
def unquoted (name : String) : String :=
  if name.toList.head? = some quote ∧ name.toList.getLast? = some quote then
    String.ofList name.toList.tail.dropLast
  else name

section Parts

variable {value sheet range defaultSheet : String} {cs ds : List Char}

theorem cellRangeParts_split (hraw : strip value = String.ofList (cs ++ '!' :: ds))
    (h : '!' ∉ cs) : cellRangeParts value defaultSheet =
      if unquoted (strip (String.ofList cs)) = "" then
        .error ("Invalid cell range sheet: " ++ value)
      else .ok (unquoted (strip (String.ofList cs)), strip (String.ofList ds)) := by
  unfold cellRangeParts
  dsimp only
  have hne : String.ofList (cs ++ '!' :: ds) ≠ "" := by
    intro heq
    have hlist := congrArg String.toList heq
    rw [String.toList_ofList] at hlist
    simp at hlist
  rw [hraw, if_neg hne, String.toList_ofList, if_neg (not_not.mpr (by simp)), Texts.takeWhile_ne h,
    Texts.dropWhile_ne h, List.tail_cons]
  rfl

theorem strip_reference : strip (reference sheet range) =
    String.ofList (quote :: doubled sheet.toList ++ quote :: '!' ::
      range.toList.rdropWhile isSpace) := by
  have hbang : isSpace '!' = false := by decide
  have hlist : (reference sheet range).toList =
      (quote :: doubled sheet.toList ++ [quote]) ++ '!' :: range.toList := by
    simp [reference]
  have hdrop : (reference sheet range).toList.dropWhile isSpace =
      (reference sheet range).toList := by
    rw [hlist]
    exact List.dropWhile_cons_of_neg (by simp [isSpace_quote])
  rw [strip, hdrop, hlist, rdropWhile_append hbang]
  simp

theorem unquoted_quoted (cs : List Char) :
    unquoted (String.ofList (quote :: cs ++ [quote])) = String.ofList cs := by
  unfold unquoted
  rw [String.toList_ofList, if_pos ⟨rfl, List.getLast?_concat ..⟩]
  simp

theorem cellRangeParts_plain (hsheet : sheet ≠ "") (h : '!' ∉ sheet.toList) :
    cellRangeParts (reference sheet range) defaultSheet =
      .ok (String.ofList (doubled sheet.toList), strip range) := by
  have hquoted : '!' ∉ quote :: doubled sheet.toList ++ [quote] := by
    simp only [List.cons_append, List.mem_cons, List.mem_append, List.not_mem_nil, or_false,
      bang_mem_doubled, h, false_or, or_self]
    decide
  have hraw : strip (reference sheet range) = String.ofList
      ((quote :: doubled sheet.toList ++ [quote]) ++ '!' :: range.toList.rdropWhile isSpace) := by
    rw [strip_reference]
    simp
  rw [cellRangeParts_split hraw hquoted, strip_quoted, unquoted_quoted, strip_rdropWhile,
    String.ofList_toList, if_neg]
  intro heq
  have hlen := length_doubled sheet.toList
  rw [String.ofList_eq_empty_iff.mp heq] at hlen
  refine hsheet (String.toList_eq_nil_iff.mp (List.eq_nil_of_length_eq_zero ?_))
  rw [List.length_nil] at hlen
  omega

/-- The range of a reference to a sheet with a `!` in its name has that `!` in it. -/
theorem bang_mem_of_parts (h : '!' ∈ sheet.toList) {name coordinates : String}
    (hparts : cellRangeParts (reference sheet range) defaultSheet = .ok (name, coordinates)) :
    '!' ∈ coordinates.toList := by
  obtain ⟨front, back, hsplit, hfront⟩ := List.eq_append_cons_of_mem h
  have hquoted : '!' ∉ quote :: doubled front := by
    simp only [List.mem_cons, bang_mem_doubled, hfront, or_false]
    decide
  have hraw : strip (reference sheet range) = String.ofList ((quote :: doubled front) ++
      '!' :: (doubled back ++ quote :: '!' :: range.toList.rdropWhile isSpace)) := by
    have hbang : '!' ≠ quote := by decide
    rw [strip_reference, hsplit]
    simp [doubled, hbang]
  rw [cellRangeParts_split hraw hquoted] at hparts
  split at hparts
  case isTrue => cases hparts
  case isFalse =>
    have hcoordinates := congrArg Prod.snd (Except.ok.inj hparts)
    dsimp only at hcoordinates
    rw [← hcoordinates]
    refine mem_strip ?_ (by decide)
    rw [String.toList_ofList]
    simp

end Parts

/-- The parts of a reference that Excel writes come back exactly when the name of the sheet has no
`!` and no quote, and the range no space at its ends. -/
theorem cell_range_parts_reference (sheet range defaultSheet : String) (hsheet : sheet ≠ "")
    (hrange : '!' ∉ range.toList) :
    cellRangeParts (reference sheet range) defaultSheet = .ok (sheet, range) ↔
      '!' ∉ sheet.toList ∧ quote ∉ sheet.toList ∧ strip range = range := by
  constructor
  · intro h
    have hbang : '!' ∉ sheet.toList := fun hmem => hrange (bang_mem_of_parts hmem h)
    rw [cellRangeParts_plain hsheet hbang] at h
    have hpair := Except.ok.inj h
    have hname := congrArg (fun pair => pair.1.toList) hpair
    dsimp only at hname
    rw [String.toList_ofList] at hname
    exact ⟨hbang, doubled_eq_self.mp hname, congrArg Prod.snd hpair⟩
  · rintro ⟨hbang, hquote, hstrip⟩
    rw [cellRangeParts_plain hsheet hbang, doubled_eq_self.mpr hquote, String.ofList_toList, hstrip]

theorem cell_range_parts_reference_sheet1 :
    cellRangeParts (reference "Sheet 1" "A1:B2") "Sheet1" = .ok ("Sheet 1", "A1:B2") :=
  (cell_range_parts_reference "Sheet 1" "A1:B2" "Sheet1" (by decide) (by decide)).mpr (by decide)

/-- A sheet with a quote in its name, and one with a `!`. -/
theorem doubled_quote_stays :
    cellRangeParts (reference "it's" "A1:B2") "Sheet1" = .ok ("it''s", "A1:B2") ∧
      cellRangeParts (reference "a!b" "A1:B2") "Sheet1" = .ok ("'a", "b'!A1:B2") := by
  decide +kernel

end DataForge.Ingest
