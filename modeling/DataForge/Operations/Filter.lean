import DataForge.Effects.Except
import DataForge.Kleene.Horizontal
import Mathlib.Data.List.Infix

/-!
# The filter operation

The operators of a filter condition with their list and empty-value rules
(`worker/operations/enums.py:170-241`) and the expressions they build from a literal
value (`worker/operations/filter.py:17-70`). A Polars expression is its row-wise meaning:
a function of the cell. A value is what `FilterValueType.coerce` leaves of a condition's
value; a null is none, `validate_condition` rejects it.
-/

namespace DataForge.Operations

/-- `FilterOperator`. -/
inductive FilterOperator
  | equal
  | doubleEqual
  | notEqual
  | greaterThan
  | lessThan
  | greaterEqual
  | lessEqual
  | contains
  | notContains
  | startsWith
  | endsWith
  | regex
  | isNull
  | isNotNull
  | «in»
  | notIn
deriving DecidableEq, Repr

namespace FilterOperator

/-- `is_null_check`. -/
def isNullCheck (op : FilterOperator) : Bool :=
  op ∈ [isNull, isNotNull]

/-- `is_membership`. -/
def isMembership (op : FilterOperator) : Bool :=
  op ∈ [«in», notIn]

/-- `empty_list_result`. -/
def emptyListResult (op : FilterOperator) : Bool :=
  op ∈ [notContains, notIn]

/-- `folds_list_with_all`. -/
def foldsListWithAll (op : FilterOperator) : Bool :=
  op = notContains

/-- `requires_regex_validation`. -/
def requiresRegexValidation (op : FilterOperator) : Bool :=
  op = regex

/-- `empty_string_result`. -/
def emptyStringResult (op : FilterOperator) : Option Bool :=
  if op = regex then some false else none

end FilterOperator

/-- A non-null value of a cell or a condition; `ν` holds the numbers, dates and
Booleans. -/
inductive Scalar (ν : Type)
  | text (s : String)
  | other (v : ν)
deriving DecidableEq

/-- The value of a condition. -/
inductive Value (ν : Type)
  | scalar (v : Scalar ν)
  | list (vs : List (Scalar ν))
deriving DecidableEq

/-- How a condition raises: Polars rejects the expression, or `validate_regex_pattern`
rejects the pattern. -/
inductive FilterError
  | polars
  | invalidRegex
deriving DecidableEq, Repr

/-- What the condition takes from Polars and Python: how two values that are not strings
compare (`none` for types that do not), the regular expressions of `str.contains` and
whether `re.compile` accepts a pattern, and what `is_in` makes of a bare value. -/
structure Polars (ν : Type) where
  compare : ν → ν → Option Ordering
  search : String → Option (String → Bool)
  reCompile : String → Bool
  isInScalar : Scalar ν → Scalar ν → Option Bool
  /-- The empty pattern is found in every string. -/
  search_empty : ∃ find, search "" = some find ∧ ∀ s, find s = true

/-- A Polars expression of one column, read row by row; the meaning of null is `none`. -/
abbrev Expr (ν : Type) :=
  Option (Scalar ν) → Except FilterError (Option Bool)

/-- `pl.lit`. -/
def lit {ν : Type} (b : Bool) : Expr ν :=
  fun _ => .ok (some b)

/-- `pl.all_horizontal`. -/
def allHorizontal {ν : Type} (exprs : List (Expr ν)) : Expr ν :=
  fun cell => return Kleene.all (← exprs.mapM (· cell))

/-- `pl.any_horizontal`. -/
def anyHorizontal {ν : Type} (exprs : List (Expr ν)) : Expr ν :=
  fun cell => return Kleene.any (← exprs.mapM (· cell))

namespace Polars

variable {ν : Type} (P : Polars ν)

/-- How a cell compares with a value. -/
def order : Scalar ν → Scalar ν → Except FilterError Ordering
  | .text a, .text b => .ok (Ord.compare a b)
  | .other a, .other b => (P.compare a b).elim (.error .polars) .ok
  | _, _ => .error .polars

/-- A comparison with a value, null on a null cell. -/
def comparison (keep : Ordering → Bool) (value : Scalar ν) : Expr ν
  | none => .ok none
  | some cell => return some (keep (← P.order cell value))

/-- A string method with a value as its argument, null on a null cell. -/
def textMethod (method : String → Except FilterError (String → Bool)) :
    Scalar ν → Expr ν
  | .text value, none => do
    let _ ← method value
    return none
  | .text value, some (.text cell) => return some ((← method value) cell)
  | _, _ => .error .polars

/-- `str.contains(value, literal=True)`. -/
def strContains (value : String) : Except FilterError (String → Bool) :=
  .ok fun cell => decide (value.toList <:+: cell.toList)

/-- `str.starts_with(value)`. -/
def strStartsWith (value : String) : Except FilterError (String → Bool) :=
  .ok fun cell => decide (value.toList <+: cell.toList)

/-- `str.ends_with(value)`. -/
def strEndsWith (value : String) : Except FilterError (String → Bool) :=
  .ok fun cell => decide (value.toList <:+ cell.toList)

/-- `str.contains(value, literal=False)`. -/
def strMatches (value : String) : Except FilterError (String → Bool) :=
  (P.search value).elim (.error .polars) .ok

/-- `is_in`. -/
def isIn : Value ν → Expr ν
  | _, none => .ok none
  | .scalar value, some cell => (P.isInScalar cell value).elim (.error .polars) (.ok ∘ some)
  | .list values, some cell => do
    return some ((← values.mapM (P.order cell)).any (· == .eq))

/-- An expression of a bare value; Polars rejects a list in its place. -/
def ofScalar (build : Scalar ν → Expr ν) : Value ν → Expr ν
  | .scalar value => build value
  | .list _ => fun _ => .error .polars

/-- The negation `~` of an expression. -/
def negate (e : Expr ν) : Expr ν :=
  fun cell => Kleene.not <$> e cell

/-- `FilterOperatorDefinition.apply` over `FILTER_OPERATOR_DEFINITIONS`. -/
def apply : FilterOperator → Value ν → Expr ν
  | .equal => ofScalar (P.comparison (· == .eq))
  | .doubleEqual => ofScalar (P.comparison (· == .eq))
  | .notEqual => ofScalar (P.comparison (· != .eq))
  | .greaterThan => ofScalar (P.comparison (· == .gt))
  | .lessThan => ofScalar (P.comparison (· == .lt))
  | .greaterEqual => ofScalar (P.comparison (· != .lt))
  | .lessEqual => ofScalar (P.comparison (· != .gt))
  | .contains => ofScalar (textMethod strContains)
  | .notContains => fun value => negate (ofScalar (textMethod strContains) value)
  | .startsWith => ofScalar (textMethod strStartsWith)
  | .endsWith => ofScalar (textMethod strEndsWith)
  | .regex => ofScalar (textMethod P.strMatches)
  | .isNull => fun _ cell => .ok (some cell.isNone)
  | .isNotNull => fun _ cell => .ok (some cell.isSome)
  | .«in» => P.isIn
  | .notIn => fun value => negate (P.isIn value)

/-- `FilterOperatorDefinition.apply_list`. -/
def applyList (op : FilterOperator) (values : List (Scalar ν)) : Expr ν :=
  if values.isEmpty then lit op.emptyListResult
  else if op.isMembership then P.apply op (.list values)
  else
    let expressions := values.map fun item => P.apply op (.scalar item)
    if op.foldsListWithAll then allHorizontal expressions else anyHorizontal expressions

/-- `FilterOperatorDefinition.apply_value`. -/
def applyValue (op : FilterOperator) : Value ν → Except FilterError (Expr ν)
  | .scalar (.text s) =>
    match op.emptyStringResult, decide (s = "") with
    | some result, true => .ok (lit result)
    | _, _ =>
      if op.requiresRegexValidation && !P.reCompile s then .error .invalidRegex
      else .ok (P.apply op (.scalar (.text s)))
  | .scalar (.other v) => .ok (P.apply op (.scalar (.other v)))
  | .list values => .ok (P.applyList op values)

/-- Whether a filter of this condition alone keeps the row of a cell. -/
def keeps (op : FilterOperator) (value : Value ν) (cell : Option (Scalar ν)) :
    Except FilterError Bool := do
  let expr ← P.applyValue op value
  return (← expr cell) == some true

end Polars

end DataForge.Operations
