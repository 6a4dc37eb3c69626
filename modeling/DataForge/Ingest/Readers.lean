import DataForge.Ingest.Workbook
import DataForge.Responses.Model

/-!
# The Excel readers

What the preview shows and what is read from a workbook: `execute_preflight`
(`datasources/excel_preflight.py`), `iter_excel_batches` (`datasources/excel_batches.py`) and
`_read_excel_bounds` (`datasources/datasource_loading.py`).
-/

namespace DataForge.Ingest

open Responses (batched)

/-- The selection that a configuration carries; the protocol allows no negative bound. A key
can be missing or be `None`, which only `has_header` tells apart. -/
structure Selection where
  sheetName : Option String
  startRow : Option ℕ
  startCol : Option ℕ
  endCol : Option ℕ
  endRow : Option ℕ
  hasHeader : Option (Option Bool)
  tableName : Option String
  namedRange : Option String
  cellRange : Option String

/-- `range_boundaries` of `openpyxl`: the first column and row and the last ones. -/
abbrev Boundaries := Option ℕ × Option ℕ × Option ℕ × Option ℕ

/-- The libraries of the readers: `range_boundaries`, and the frames of Polars, built row by
row for a schema with types (`strict=False`) or from names alone. -/
structure Libraries (γ : Type) where
  rangeBoundaries : String → Except String Boundaries
  row : List (String × Option String) → List Cell → Except String (List γ)
  frame : List String → List (List Cell) → Except String (List (List γ))
  /-- A row with as many cells as the schema has columns is taken. -/
  row_ok : ∀ {schema cells}, cells.length = schema.length → ∃ r, row schema cells = .ok r
  /-- A frame has distinct names and the rows that it is built from. -/
  frame_ok : ∀ {names rows out}, frame names rows = .ok out →
    names.Nodup ∧ out.length = rows.length

/-- The range of a selection: `end_row` is missing where nothing selects it. -/
structure Bounds where
  sheet : String
  startRow : Int
  startCol : Int
  endCol : Int
  endRow : Option Int
  deriving DecidableEq

/-- The range that is shown or read, with zero-based bounds. -/
structure Area where
  sheet : String
  startRow : Int
  startCol : Int
  endCol : Int
  endRow : Int
  deriving DecidableEq

variable {γ : Type} (L : Libraries γ)

/-- `_zero_based_bounds` (lines 44-48 of `excel_preflight.py`). -/
def zeroBasedBounds (sheet coordinates error : String) : Except String Bounds := do
  match ← L.rangeBoundaries coordinates with
  | (some minCol, some minRow, some maxCol, some maxRow) =>
    .ok ⟨sheet, minRow - 1, minCol - 1, maxCol - 1, some (maxRow - 1)⟩
  | _ => .error error

/-- The single quote around the title of a worksheet. -/
def quote : Char := Char.ofNat 39

/-- `_cell_range_parts` (lines 93-105). -/
def cellRangeParts (value defaultSheet : String) : Except String (String × String) :=
  let raw := Compute.strip value
  if raw = "" then .error "Cell range cannot be empty"
  else if '!' ∉ raw.toList then .ok (defaultSheet, raw)
  else
    let name := Compute.strip (String.ofList (raw.toList.takeWhile (· ≠ '!')))
    let coordinates := String.ofList (raw.toList.dropWhile (· ≠ '!')).tail
    let name := if name.toList.head? = some quote ∧ name.toList.getLast? = some quote then
      String.ofList name.toList.tail.dropLast else name
    if name = "" then .error ("Invalid cell range sheet: " ++ value)
    else .ok (name, Compute.strip coordinates)

/-- A text that is given and not empty. -/
def given (text : Option String) : Option String :=
  text.filter (· ≠ "")

/-- The range that a table, a named range or a cell range selects (lines 63-82). -/
def selectedRange (wb : Workbook) (sheetName : String)
    (tableName namedRange cellRange : Option String) : Except String (Option Bounds) :=
  match given tableName with
  | some tableName => do
    let sheet ← wb.get sheetName
    match sheet.tables.lookup tableName with
    | none => .error ("Table not found: " ++ tableName)
    | some ref => some <$> zeroBasedBounds L sheetName ref "Invalid Excel table range"
  | none =>
    match given namedRange with
    | some namedRange =>
      match wb.definedNames.lookup namedRange with
      | none => .error ("Named range not found: " ++ namedRange)
      | some [] => .error ("Named range has no destinations: " ++ namedRange)
      | some ((sheet, coordinates) :: _) =>
        some <$> zeroBasedBounds L sheet coordinates "Invalid Excel named range"
    | none =>
      match given cellRange with
      | some cellRange => do
        let (sheet, coordinates) ← cellRangeParts cellRange sheetName
        if sheet ∉ wb.sheetnames then .error ("Sheet not found for cell range: " ++ sheet)
        else some <$> zeroBasedBounds L sheet coordinates ("Invalid cell range: " ++ cellRange)
      | none => .ok none

/-- `sheet.max_column or start_col + 1`. -/
def columnsEnd (s : Sheet) (startCol : Int) : Int :=
  match s.maxColumn with
  | some (n + 1) => n + 1
  | _ => startCol + 1

/-- `_detect_end_col` (lines 108-119): the last cell of the row that is not blank. -/
def detectEndCol (s : Sheet) (startRow startCol : Int) : Int :=
  let rows := s.iterRows (startRow + 1) (startRow + 1) (startCol + 1) (columnsEnd s startCol)
  (rows.flatMap fun row => row.zipIdx).foldl
    (fun lastCol cell => if blank cell.1 then lastCol else startCol + (cell.2 : Int)) startCol

/-- `resolve_excel_bounds` (lines 51-90). -/
def resolveExcelBounds (wb : Workbook) (readOnly : Bool) (sheetName : String)
    (startRow startCol endCol : Int) (endRow : Option Int)
    (tableName namedRange cellRange : Option String) : Except String Bounds := do
  match ← selectedRange L wb sheetName tableName namedRange cellRange with
  | some bounds => .ok bounds
  | none =>
    let startRow := max startRow 0
    let startCol := max startCol 0
    let endCol := max endCol startCol
    let endRow := endRow.map (max · startRow)
    if endCol = startCol then do
      let sheet ← wb.get sheetName
      .ok ⟨sheetName, startRow, startCol, detectEndCol (sheet.load readOnly) startRow startCol,
        endRow⟩
    else .ok ⟨sheetName, startRow, startCol, endCol, endRow⟩

/-- `_detect_end_row` (lines 122-128): in front of the first blank row. -/
def detectEndRow (s : Sheet) (startRow startCol endCol : Int) : Int :=
  let maxRow : ℕ := s.maxRow.getD 0
  match (s.iterRows (startRow + 1) maxRow (startCol + 1) (endCol + 1)).findIdx? (·.all blank) with
  | some i => max startRow (startRow + 1 + i - 2)
  | none => max startRow (maxRow - 1)

/-- `_PREVIEW_ROW_LIMIT` (line 16). -/
def previewRowLimit : Int := 100

/-- The action of a preflight. -/
inductive Action where
  | initial
  | preview
  | resolveSelection
  deriving DecidableEq

/-- The result of a preflight: the range and the texts of its first rows, which an action that
only resolves the selection leaves out. -/
structure Preflight where
  area : Area
  previewRows : Option (List (List (Option String)))

/-- `_preview` (lines 131-188). -/
def preview (wb : Workbook) (sheetName : String) (startRow startCol endCol : Int)
    (endRow : Option Int) (tableName namedRange cellRange : Option String) :
    Except String (Area × List (List (Option String))) :=
  let readOnly := tableName.isNone
  if sheetName ∉ wb.sheetnames then .error ("Sheet not found: " ++ sheetName)
  else do
    let b ← resolveExcelBounds L wb readOnly sheetName startRow startCol endCol endRow tableName
      namedRange cellRange
    let sheet := (← wb.get b.sheet).load readOnly
    let endRow := b.endRow.getD (detectEndRow sheet b.startRow b.startCol b.endCol)
    let maxRow : ℕ := sheet.maxRow.getD 0
    let maxColumn : ℕ := sheet.maxColumn.getD 0
    if endRow < b.startRow ∨ b.endCol < b.startCol then .error "Excel bounds are invalid"
    else if maxRow = 0 ∨ maxRow ≤ b.startRow ∨ maxRow ≤ endRow then
      .error "Excel row bounds exceed sheet size"
    else if maxColumn = 0 ∨ maxColumn ≤ b.startCol ∨ maxColumn ≤ b.endCol then
      .error "Excel column bounds exceed sheet size"
    else
      let previewEndRow := min (b.startRow + previewRowLimit - 1) endRow
      let rows := sheet.iterRows (b.startRow + 1) (previewEndRow + 1) (b.startCol + 1)
        (b.endCol + 1)
      .ok (⟨b.sheet, b.startRow, b.startCol, b.endCol, endRow⟩,
        rows.map fun row => row.map (·.map Value.str))

/-- The worksheet of a preflight (lines 210-217). -/
def targetSheet (wb : Workbook) (action : Action) (sel : Selection) : Except String String :=
  match action with
  | .initial =>
    match given sel.sheetName <|> wb.sheetnames.head? with
    | some name => .ok name
    | none => .error "No sheets found in file"
  | _ => .ok ((given sel.sheetName).getD "")

/-- `execute_preflight` (lines 191-245) with the selection of a configuration; an integer that
is not given is zero. -/
def executePreflight (wb : Workbook) (action : Action) (sel : Selection) :
    Except String Preflight := do
  let target ← targetSheet wb action sel
  let (area, rows) ← preview L wb target (sel.startRow.getD 0) (sel.startCol.getD 0)
    (sel.endCol.getD 0) (sel.endRow.map Int.ofNat) sel.tableName sel.namedRange sel.cellRange
  .ok ⟨area, if action = .resolveSelection then none else some rows⟩

/-- `has_excel_bounds` (lines 79-82 of `datasource_loading.py`): the four bounds, if all of
them are given. -/
def Selection.bounds? (sel : Selection) : Option (ℕ × ℕ × ℕ × ℕ) :=
  match sel.startRow, sel.startCol, sel.endCol, sel.endRow with
  | some startRow, some startCol, some endCol, some endRow =>
    some (startRow, startCol, endCol, endRow)
  | _, _, _, _ => none

/-- `config.get("sheet_name") or workbook.sheetnames[0]`. -/
def sheetOrFirst (wb : Workbook) (sheetName : Option String) : Except String String :=
  match given sheetName <|> wb.sheetnames.head? with
  | some name => .ok name
  | none => .error "list index out of range"

/-- The bounds that `iter_excel_batches` takes: those of the configuration where all are given
(lines 50-62). -/
def ingestBounds (wb : Workbook) (sel : Selection) (sheetName : String) : Except String Bounds :=
  match sel.bounds? with
  | some (startRow, startCol, endCol, endRow) =>
    .ok ⟨sheetName, startRow, startCol, endCol, some endRow⟩
  | none =>
    resolveExcelBounds L wb sel.tableName.isNone sheetName (sel.startRow.getD 0)
      (sel.startCol.getD 0) (sel.endCol.getD 0) (sel.endRow.map Int.ofNat) sel.tableName
      sel.namedRange sel.cellRange

/-- The range that `iter_excel_batches` reads (lines 47-65), with its worksheet. -/
def ingestArea (wb : Workbook) (sel : Selection) : Except String (Area × Sheet) := do
  let readOnly := sel.bounds?.isSome || sel.tableName.isNone
  let b ← ingestBounds L wb sel (← sheetOrFirst wb sel.sheetName)
  let sheet := (← wb.get b.sheet).load readOnly
  match b.endRow, sheet.maxRow with
  | some endRow, _ => .ok (⟨b.sheet, b.startRow, b.startCol, b.endCol, endRow⟩, sheet)
  | none, some maxRow =>
    .ok (⟨b.sheet, b.startRow, b.startCol, b.endCol, maxRow - 1⟩, sheet)
  | none, none => .error "unsupported operand type(s) for -: 'NoneType' and 'int'"

/-- The rectangle of bounds on a sheet, once they are read. -/
def areaOf (b : Bounds) (sheet : Sheet) : Except String (Area × Sheet) :=
  match b.endRow, sheet.maxRow with
  | some endRow, _ => .ok (⟨b.sheet, b.startRow, b.startCol, b.endCol, endRow⟩, sheet)
  | none, some maxRow =>
    .ok (⟨b.sheet, b.startRow, b.startCol, b.endCol, maxRow - 1⟩, sheet)
  | none, none => .error "unsupported operand type(s) for -: 'NoneType' and 'int'"

/-- A frame: the names of its columns and its rows. -/
structure Table (γ : Type) where
  columns : List String
  rows : List (List γ)

/-- `height`; a frame without columns has no rows. -/
def Table.height (t : Table γ) : ℕ :=
  if t.columns = [] then 0 else t.rows.length

/-- `pl.concat` of frames with the columns of the first. -/
def concat (frames : List (Table γ)) : Table γ :=
  ⟨(frames.head?.map Table.columns).getD [], frames.flatMap Table.rows⟩

/-- The columns of `dict(zip(columns, kinds))` (line 100 of `excel_batches.py`): a name keeps
its first place and its last kind. -/
def schemaOf (columns : List String) (kinds : List (Option String)) :
    List (String × Option String) :=
  (columns.zip kinds).foldl
    (fun schema c => if schema.any (·.1 = c.1) then
        schema.map fun d => if d.1 = c.1 then c else d
      else schema ++ [c]) []

/-- A cell as it is given to Polars (lines 106-111). -/
def normalizeCell (cell : Cell) (kind : Option String) : Cell :=
  match cell, kind with
  | some v, some "string" => some (.string v.str)
  | some (.date text), some "datetime" => some (.datetime (text ++ " 00:00:00"))
  | cell, _ => cell

/-- Whether the batches take the first row for a header: `config.get("has_header", True)`
(line 66). -/
def Selection.ingestHeader (sel : Selection) : Bool :=
  (sel.hasHeader.getD (some true)).getD false

/-- The schema and the rows of a range (lines 66-114). -/
def ingestRows (a : Area) (sheet : Sheet) (sel : Selection) :
    List (String × Option String) × List (List Cell) :=
  let hasHeader := sel.ingestHeader
  let header := (sheet.iterRows (a.startRow + 1) (a.startRow + 1) (a.startCol + 1)
    (a.endCol + 1)).head?.getD []
  let columns := if hasHeader then normalizeExcelHeaders header else columnNames header.length
  let firstDataRow := a.startRow + if hasHeader then 2 else 1
  let rows := sheet.iterRows firstDataRow (a.endRow + 1) (a.startCol + 1) (a.endCol + 1)
  let kinds := rows.foldl (fun kinds row => List.zipWith mergeKind kinds (row.map kindOf))
    (columns.map fun _ => none)
  (schemaOf columns kinds, rows.map fun row => List.zipWith normalizeCell row kinds)

/-- The frames of rows in batches (lines 115-120). -/
def frames (schema : List (String × Option String)) (rows : List (List Cell)) (batchSize : ℕ) :
    Except String (List (Table γ)) :=
  let batches := batched batchSize rows
  if batches.isEmpty then .ok [⟨schema.map Prod.fst, []⟩]
  else batches.mapM fun batch => Table.mk (schema.map Prod.fst) <$> batch.mapM (L.row schema)

/-- `iter_excel_batches` (lines 46-122). -/
def iterExcelBatches (wb : Workbook) (sel : Selection) (batchSize : ℕ) :
    Except String (List (Table γ)) := do
  let (a, sheet) ← ingestArea L wb sel
  let (schema, rows) := ingestRows a sheet sel
  frames L schema rows batchSize

/-- The frame of the rows of `_read_excel_bounds` (lines 111-122). -/
def boundedFrame (hasHeader : Bool) : List (List Cell) → Except String (Table γ)
  | [] => .ok ⟨[], []⟩
  | first :: rest =>
    let columns := if hasHeader then normalizeExcelHeaders first else columnNames first.length
    Table.mk columns <$> L.frame columns (if hasHeader then rest else first :: rest)

/-- `_read_excel_bounds` (lines 85-122 of `datasource_loading.py`). -/
def readExcelBounds (wb : Workbook) (sel : Selection) : Except String (Table γ) :=
  match sel.bounds? with
  | none => .error "Excel bounds require file_path, start_row, start_col, end_row, end_col"
  | some (startRow, startCol, endCol, endRow) => do
    let targetSheet ← sheetOrFirst wb sel.sheetName
    let sheet := (← wb.get targetSheet).load true
    boundedFrame L (sel.hasHeader.join.getD true)
      (sheet.iterRows (startRow + 1) (endRow + 1) (startCol + 1) (endCol + 1))

end DataForge.Ingest
