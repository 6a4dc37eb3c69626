import DataForge.Compute.Identity

/-!
# Workbooks

An Excel workbook as `openpyxl` opens it, with the rows that `iter_rows` yields, and what
`_kind`, `_merge` and `normalize_excel_headers` read in its cells.
-/

namespace DataForge.Ingest

/-- The value of a cell. Floats, dates and times are named by their `str`. -/
inductive Value where
  | bool (b : Bool)
  | int (n : Int)
  | float (text : String)
  | datetime (text : String)
  | date (text : String)
  | time (text : String)
  | string (text : String)
  | other (text : String)
  deriving DecidableEq

/-- `str(value)`. -/
def Value.str : Value → String
  | .bool b => if b then "True" else "False"
  | .int n => toString n
  | .float text | .datetime text | .date text | .time text | .string text | .other text => text

/-- A cell; `none` is an empty one. -/
abbrev Cell := Option Value

/-- `value is None or not str(value).strip()`. -/
def blank : Cell → Bool
  | none => true
  | some v => Compute.strip v.str = ""

/-- A worksheet of a file. Rows and columns count from one. The read-only reader takes the
extent from the dimension record, where there is one, and stops behind the last stored row. -/
structure Worksheet where
  value : Int → Int → Cell
  maxRow : ℕ
  maxColumn : ℕ
  dimensions : Option (ℕ × ℕ)
  lastRow : ℕ
  /-- The reference of each table. -/
  tables : List (String × String)

/-- A workbook: its worksheets and the destinations of its named ranges. No worksheet has the
empty title. -/
structure Workbook where
  sheets : List (String × Worksheet)
  definedNames : List (String × List (String × String))
  titled : ∀ s ∈ sheets, s.1 ≠ ""

/-- A worksheet as it is opened. -/
structure Sheet where
  value : Int → Int → Cell
  maxRow : Option ℕ
  maxColumn : Option ℕ
  /-- No row behind this one is yielded. -/
  lastRow : Option ℕ

/-- Open a worksheet, read-only or not. -/
def Worksheet.load (w : Worksheet) (readOnly : Bool) : Sheet :=
  if readOnly then ⟨w.value, w.dimensions.map Prod.fst, w.dimensions.map Prod.snd, some w.lastRow⟩
  else ⟨w.value, some w.maxRow, some w.maxColumn, none⟩

/-- `workbook.sheetnames`. -/
def Workbook.sheetnames (wb : Workbook) : List String :=
  wb.sheets.map Prod.fst

/-- `workbook[title]`. -/
def Workbook.get (wb : Workbook) (title : String) : Except String Worksheet :=
  match wb.sheets.lookup title with
  | some w => .ok w
  | none => .error ("Worksheet " ++ title ++ " does not exist.")

/-- The integers from the first to the last. -/
def span (first last : Int) : List Int :=
  (List.range (last + 1 - first).toNat).map fun i : ℕ => first + (i : Int)

/-- `iter_rows`: a bound of zero stands for the extent of the worksheet. -/
def Sheet.iterRows (s : Sheet) (minRow maxRow minCol maxCol : Int) : List (List Cell) :=
  let minRow := if minRow = 0 then 1 else minRow
  let maxRow : Option Int := if maxRow = 0 then s.maxRow.map Int.ofNat else some maxRow
  let bottom : Int := match maxRow, s.lastRow with
    | some m, some l => min m l
    | some m, none => m
    | none, some l => l
    | none, none => 0
  (span minRow bottom).map fun r => (span minCol maxCol).map (s.value r)

/-- `_kind` (lines 15-31 of `datasources/excel_batches.py`). -/
def kindOf : Cell → Option String
  | none => none
  | some (.bool _) => some "bool"
  | some (.int _) => some "int"
  | some (.float _) => some "float"
  | some (.datetime _) => some "datetime"
  | some (.date _) => some "date"
  | some (.time _) => some "time"
  | some (.string _) | some (.other _) => some "string"

/-- `_merge` (lines 34-43). -/
def mergeKind (current incoming : Option String) : Option String :=
  match current, incoming with
  | none, _ => incoming
  | some c, none => some c
  | some c, some i =>
    if c = i then some c
    else if [c, i] ⊆ ["int", "float"] then some "float"
    else if [c, i] ⊆ ["date", "datetime"] then some "datetime"
    else some "string"

/-- The name of a header before it is made distinct. -/
def headerBase (header : Cell × ℕ) : String :=
  match header.1 with
  | some v => Compute.strip v.str
  | none => "column_" ++ toString (header.2 + 1)

/-- One header of `normalize_excel_headers`: the names so far, how often each base was seen
again, and the index. -/
def normalizeHeader (acc : List String × List (String × ℕ)) (header : Cell × ℕ) :
    List String × List (String × ℕ) :=
  let base := headerBase header
  match acc.2.lookup base with
  | none => (acc.1 ++ [base], (base, 0) :: acc.2)
  | some seen => (acc.1 ++ [base ++ "_" ++ toString (seen + 1)], (base, seen + 1) :: acc.2)

/-- `normalize_excel_headers` (lines 65-76 of `datasources/datasource_loading.py`). -/
def normalizeExcelHeaders (values : List Cell) : List String :=
  (values.zipIdx.foldl normalizeHeader ([], [])).1

/-- `[f"column_{index + 1}" for index in range(width)]`. -/
def columnNames (width : ℕ) : List String :=
  (List.range width).map fun i => "column_" ++ toString (i + 1)

end DataForge.Ingest
