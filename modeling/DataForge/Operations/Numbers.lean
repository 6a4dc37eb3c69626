import DataForge.Compute.Identity
import DataForge.Rounding.Nearest

/-!
# Numbers of a filter

`FilterValueType.NUMBER.coerce` (`worker/operations/enums.py:115-149`) with `float` of a text, the
binary64 format and `int` of a float.
-/

namespace DataForge.Operations

open Rounding

/-! ## binary64 -/

/-- The numbers of binary64 are multiples of `2 ^ -1074`. -/
def unitBits : ℕ := 1074

/-- The finite numbers of binary64 are below `2 ^ 1024`. -/
def limitBits : ℕ := 1024

/-- The magnitude of a finite number of binary64, in units. -/
structure Magnitude where
  units : ℕ
  representable : Representable 53 units
  bounded : units < 2 ^ (limitBits + unitBits)

/-- A number of binary64. -/
inductive Binary64 where
  | finite (negative : Bool) (magnitude : Magnitude)
  | infinite (negative : Bool)
  | nan

namespace Binary64

/-- The number of binary64 nearest to `n / d`; from the limit on it is infinite. -/
def ofQuotient (negative : Bool) (n d : ℕ) (hd : 0 < d) : Binary64 :=
  if h : roundTo 53 (n * 2 ^ unitBits) d < 2 ^ (limitBits + unitBits) then
    .finite negative ⟨_, representable_roundTo (by decide) hd, h⟩
  else .infinite negative

/-- `is_integer`. -/
def isInteger : Binary64 → Bool
  | .finite _ magnitude => magnitude.units % 2 ^ unitBits = 0
  | _ => false

/-- `int` of a finite number. -/
def toInt : Binary64 → ℤ
  | .finite negative magnitude =>
    let n : ℤ := (magnitude.units / 2 ^ unitBits : ℕ)
    if negative then -n else n
  | _ => 0

end Binary64

/-! ## `float` of a text -/

/-- The zeros of the decimal digits of Unicode; the other nine follow each. -/
def decimalZeros : List ℕ :=
  [0x30, 0x660, 0x6f0, 0x7c0, 0x966, 0x9e6, 0xa66, 0xae6, 0xb66, 0xbe6, 0xc66, 0xce6, 0xd66,
    0xde6, 0xe50, 0xed0, 0xf20, 0x1040, 0x1090, 0x17e0, 0x1810, 0x1946, 0x19d0, 0x1a80, 0x1a90,
    0x1b50, 0x1bb0, 0x1c40, 0x1c50, 0xa620, 0xa8d0, 0xa900, 0xa9d0, 0xa9f0, 0xaa50, 0xabf0,
    0xff10, 0x104a0, 0x10d30, 0x10d40, 0x11066, 0x110f0, 0x11136, 0x111d0, 0x112f0, 0x11450,
    0x114d0, 0x11650, 0x116c0, 0x116d0, 0x116da, 0x11730, 0x118e0, 0x11950, 0x11bf0, 0x11c50,
    0x11d50, 0x11da0, 0x11f50, 0x16130, 0x16a60, 0x16ac0, 0x16b50, 0x16d70, 0x1ccf0, 0x1d7ce,
    0x1d7d8, 0x1d7e2, 0x1d7ec, 0x1d7f6, 0x1e140, 0x1e2f0, 0x1e4f0, 0x1e5f1, 0x1e950, 0x1fbf0]

/-- Spaces and decimal digits become those of ASCII, and what else is not ASCII a `?`. -/
def toAscii (c : Char) : Char :=
  if c.toNat < 127 then c
  else if Compute.isSpace c then ' '
  else
    match decimalZeros.find? fun z => z ≤ c.toNat ∧ c.toNat < z + 10 with
    | some z => Char.ofNat (0x30 + (c.toNat - z))
    | none => '?'

/-- `isspace` of the C locale. -/
def isAsciiSpace (c : Char) : Bool := c = ' ' ∨ 9 ≤ c.toNat ∧ c.toNat ≤ 13

/-- The text without the underscores, which only stand between two digits. -/
def withoutUnderscores : Bool → List Char → Option (List Char)
  | _, [] => some []
  | afterDigit, c :: rest =>
    if c = '_' then
      if afterDigit ∧ rest.head?.any Char.isDigit then withoutUnderscores false rest else none
    else (withoutUnderscores c.isDigit rest).map (c :: ·)

/-- A sign, if there is one: whether it is a minus, and the rest. -/
def splitSign : List Char → Bool × List Char
  | '-' :: rest => (true, rest)
  | '+' :: rest => (false, rest)
  | cs => (false, cs)

/-- The digits at the start, and the rest. -/
def splitDigits (cs : List Char) : List Char × List Char :=
  (cs.takeWhile Char.isDigit, cs.dropWhile Char.isDigit)

/-- The digits behind a point, if there is one, and the rest. -/
def splitFraction : List Char → List Char × List Char
  | '.' :: rest => splitDigits rest
  | cs => ([], cs)

/-- The exponent at the end. -/
def exponent : List Char → Option ℤ
  | [] => some 0
  | e :: rest =>
    let (negative, rest) := splitSign rest
    if (e = 'e' ∨ e = 'E') ∧ rest ≠ [] ∧ rest.all Char.isDigit then
      let n : ℤ := (Nat.ofDigitChars 10 rest 0 : ℕ)
      some (if negative then -n else n)
    else none

/-- The number `digits * 10 ^ exponent`. -/
def ofDecimal (negative : Bool) (digits : ℕ) : ℤ → Binary64
  | .ofNat e => .ofQuotient negative (digits * 10 ^ e) 1 Nat.one_pos
  | .negSucc e => .ofQuotient negative digits (10 ^ (e + 1)) (by positivity)

/-- `float` of a stripped text of ASCII without underscores. -/
def parseFloat (cs : List Char) : Option Binary64 :=
  let (negative, cs) := splitSign cs
  let name := String.ofList (cs.map Char.toLower)
  if name = "inf" ∨ name = "infinity" then some (.infinite negative)
  else if name = "nan" then some .nan
  else
    let (whole, rest) := splitDigits cs
    let (fraction, rest) := splitFraction rest
    if whole ++ fraction = [] then none
    else (exponent rest).map fun e =>
      ofDecimal negative (Nat.ofDigitChars 10 (whole ++ fraction) 0) (e - fraction.length)

/-- `float(text)`; `none` is the `ValueError`. -/
def float (text : String) : Option Binary64 :=
  (withoutUnderscores false
    (((text.toList.map toAscii).dropWhile isAsciiSpace).rdropWhile isAsciiSpace)).bind parseFloat

/-! ## Coercion -/

/-- The value of a filter condition. A value of another type is named by its `str`. -/
inductive FilterValue where
  | none
  | bool (b : Bool)
  | int (n : ℤ)
  | float (x : Binary64)
  | str (text : String)
  | other (text : String)
  | list (items : List FilterValue)

/-- The integer that a value is. -/
def FilterValue.int? : FilterValue → Option ℤ
  | .int n => some n
  | _ => .none

/-- A text that is no literal of a float with a point or an exponent (line 132). -/
def isPlain (text : String) : Bool :=
  '.' ∉ text.toList ∧ 'e' ∉ text.toList ∧ 'E' ∉ text.toList

/-- `float` of a text, and `int` of that where the text reads as an integer (lines 129-134). -/
def coerceText (text : String) : Option FilterValue :=
  (float text).map fun parsed =>
    if parsed.isInteger ∧ isPlain text then .int parsed.toInt else .float parsed

mutual

/-- `coerce` of `FilterValueType.NUMBER` (lines 115-134); `none` is the `ValueError`. -/
def coerceNumber : FilterValue → Option FilterValue
  | .none => some .none
  | .list items => (coerceNumbers items).map .list
  | .bool b => some (.bool b)
  | .int n => some (.int n)
  | .float x => some (.float x)
  | .str text => coerceText text
  | .other text => coerceText text

/-- The items of a list, one after the other (line 120). -/
def coerceNumbers : List FilterValue → Option (List FilterValue)
  | [] => some []
  | item :: items =>
    (coerceNumber item).bind fun first => (coerceNumbers items).map fun rest => first :: rest

end

end DataForge.Operations
