import Mathlib.Data.List.Forall2
import Mathlib.Data.Rat.Defs

/-!
# Typed frames

The frames that a source is read into: named columns of a type, with cells that are null or
a value of the type of their column. What the frame library does with a value is a
parameter: a cast to a type that has the value gives the value, and one to another type gives
null or another value (a number without its fraction, a date without its time).
-/

namespace DataForge.Ingest

open List

/-- The column types that the staging distinguishes. -/
inductive DType where
  | null
  | string
  | integer (name : String)
  | object
  | struct (fields : String)
  | list (inner : String)
  | array (inner : String)
  | datetime (timeZone : Option String)
  | other (name : String)
  deriving DecidableEq

/-- What the frame library does with values of type `κ`. -/
structure Polars (κ : Type) where
  HasType : DType → κ → Prop
  /-- The values are the same one, in the same type or in two: the same number, text, time or
  list, also where a text spells it. -/
  Same : κ → κ → Prop
  /-- The number that a value is or, for a text, spells. -/
  number : κ → Option ℚ
  /-- `cast` with `strict=False`. -/
  cast : DType → κ → Option κ
  /-- `_stringify_iceberg_incompatible_value` (lines 87-96), not of a null. -/
  stringify : κ → κ
  /-- `dt.convert_time_zone("UTC")`. -/
  toUtc : κ → κ
  /-- The record batches of a frame. -/
  toBatches : List (List (Option κ)) → List (List (List (Option κ)))
  not_hasType_null : ∀ v, ¬ HasType .null v
  equivalence : Equivalence Same
  same_number : ∀ {v w}, Same v w → number w = number v
  hasType_cast : ∀ {d v w}, cast d v = some w → HasType d w
  cast_same : ∀ {d v u}, HasType d u → Same v u → ∃ w, cast d v = some w ∧ Same v w
  hasType_stringify : ∀ v, HasType .string (stringify v)
  same_stringify : ∀ v, Same v (stringify v)
  hasType_toUtc : ∀ {zone v}, HasType (.datetime (some zone)) v →
    HasType (.datetime (some "UTC")) (toUtc v)
  same_toUtc : ∀ {zone v}, HasType (.datetime (some zone)) v → Same v (toUtc v)
  flatten_toBatches : ∀ rows, (toBatches rows).flatten = rows

variable {κ : Type} {P : Polars κ}

/-- A frame: distinct column names, and rows with a null or a value of its type in each
column. -/
structure Frame (P : Polars κ) where
  schema : List (String × DType)
  rows : List (List (Option κ))
  nodup : (schema.map Prod.fst).Nodup
  typed : ∀ row ∈ rows, Forall₂ (fun c cell => ∀ v ∈ cell, P.HasType c.2 v) schema row

namespace Frame

/-- The column names. -/
def names (f : Frame P) : List String :=
  f.schema.map Prod.fst

/-- `limit(0)`. -/
def limit0 (f : Frame P) : Frame P :=
  ⟨f.schema, [], f.nodup, fun _ h => (not_mem_nil h).elim⟩

/-- A row with each value replaced, by its column. -/
def mapRow (schema : List (String × DType)) (cell : String × DType → κ → Option κ)
    (row : List (Option κ)) : List (Option κ) :=
  zipWith (fun c x => x.bind (cell c)) schema row

omit P in
theorem mapRow_typed {schema : List (String × DType)} {type : String × DType → DType}
    {cell : String × DType → κ → Option κ} {Q R : DType → κ → Prop}
    (h : ∀ c v w, Q c.2 v → cell c v = some w → R (type c) w) {row : List (Option κ)}
    (hrow : Forall₂ (fun c x => ∀ v ∈ x, Q c.2 v) schema row) :
    Forall₂ (fun c x => ∀ v ∈ x, R c.2 v) (schema.map fun c => (c.1, type c))
      (mapRow schema cell row) := by
  induction hrow with
  | nil => exact .nil
  | cons hx _ ih =>
    refine .cons (fun w hw => ?_) ih
    obtain ⟨v, hv, hvw⟩ := Option.bind_eq_some_iff.mp hw
    exact h _ v w (hx v hv) hvw

/-- `with_columns` over all columns: each gets a type and its values are replaced. -/
def mapColumns (f : Frame P) (type : String × DType → DType)
    (cell : String × DType → κ → Option κ)
    (h : ∀ c v w, P.HasType c.2 v → cell c v = some w → P.HasType (type c) w) : Frame P where
  schema := f.schema.map fun c => (c.1, type c)
  rows := f.rows.map (mapRow f.schema cell)
  nodup := by
    rw [List.map_map]
    exact f.nodup
  typed := by
    intro row hrow
    obtain ⟨row', hrow', rfl⟩ := List.mem_map.mp hrow
    exact mapRow_typed h (f.typed row' hrow')

@[simp] theorem names_mapColumns {f : Frame P} {type : String × DType → DType}
    {cell : String × DType → κ → Option κ}
    {h : ∀ c v w, P.HasType c.2 v → cell c v = some w → P.HasType (type c) w} :
    (f.mapColumns type cell h).names = f.names := by
  rw [names, names, mapColumns, List.map_map]
  rfl

/-- The type of a column, where the schema names it. -/
def typeOf (schema : List (String × DType)) (c : String × DType) : DType :=
  (schema.lookup c.1).getD c.2

/-- The value of a column cast to the type that the schema gives it. -/
def castCell (P : Polars κ) (schema : List (String × DType)) (c : String × DType) (v : κ) :
    Option κ :=
  if (schema.lookup c.1).isSome then P.cast (typeOf schema c) v else some v

theorem hasType_castCell {schema : List (String × DType)} (c : String × DType) (v w : κ)
    (h : P.HasType c.2 v) (hw : castCell P schema c v = some w) :
    P.HasType (typeOf schema c) w := by
  cases hl : schema.lookup c.1 with
  | none =>
    rw [castCell, if_neg (by rw [hl]; exact Bool.false_ne_true)] at hw
    cases hw
    rwa [typeOf, hl]
  | some d =>
    rw [castCell, if_pos (by rw [hl]; rfl)] at hw
    exact P.hasType_cast hw

/-- `cast(schema, strict=False)` of a frame that has the columns. -/
def cast (schema : List (String × DType)) (f : Frame P) : Frame P :=
  f.mapColumns (typeOf schema) (castCell P schema) hasType_castCell

end Frame

end DataForge.Ingest
