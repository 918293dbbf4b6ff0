import Plenora.Lib.Outcome

/-!
# The texts of values

How the COPY path writes the values of a record batch: literals of arrays, ranges and
composites with their own quotes, `bytea` in hexadecimal, and over all of them the
escapes of COPY.  Texts are lists of characters, an array gives `none` where it is null.

    copyBuffer …  = .ok output, one line a row, one field a column
-/

namespace Plenora.Postgres.ValueText

open Plenora.Lib

abbrev Text := List Char

/-! ## Arrays -/

/-- An array without children. -/
inductive Flat where
  | boolean (values : List (Option Bool))
  | int32 (values : List (Option Int))
  | int64 (values : List (Option Int))
  | utf8 (values : List (Option Text))
  | other (valid : List Bool)
  deriving DecidableEq, Repr

inductive Column where
  | flat (values : Flat)
  | binary (values : List (Option (List UInt8)))
  | list (rows : List (Option Flat))
  | struct (valid : List Bool) (fields : List (String × Flat))
  deriving DecidableEq, Repr

/-- The value of a row, `none` where it is null. -/
def value {α : Type} (values : List (Option α)) (row : Nat) : Option α := (values[row]?).join

def Flat.isNull (row : Nat) : Flat → Bool
  | .boolean values => (value values row).isNone
  | .int32 values => (value values row).isNone
  | .int64 values => (value values row).isNone
  | .utf8 values => (value values row).isNone
  | .other valid => valid[row]? ≠ some true

def Column.isNull (row : Nat) : Column → Bool
  | .flat values => values.isNull row
  | .binary values => (value values row).isNone
  | .list rows => (value rows row).isNone
  | .struct valid _ => valid[row]? ≠ some true

def mappingError : String := "data_mapping"

def intText (n : Int) : Text :=
  (if n < 0 then ['-'] else []) ++ Nat.toDigits 10 n.natAbs

def boolText (b : Bool) : Text := if b then ['t'] else ['f']

/-- A value in quotes, with a backslash before a quote or a backslash. -/
def appendQuotedPostgresValue (text : Text) : Text :=
  '"' :: text.flatMap (fun c => if c = '\\' ∨ c = '"' then ['\\', c] else [c]) ++ ['"']

/-- The same form, under the name it has for an array. -/
def appendQuotedArrayString (text : Text) : Text := appendQuotedPostgresValue text

def null : Text := ['N', 'U', 'L', 'L']

def nullOr {α : Type} (write : α → Text) (v : Option α) : Text := (v.map write).getD null

/-- The items of a list, those of the types it can write. -/
def arrayItems : Flat → Except String (List Text)
  | .boolean values => .ok (values.map (nullOr boolText))
  | .int32 values => .ok (values.map (nullOr intText))
  | .int64 values => .ok (values.map (nullOr intText))
  | .utf8 values => .ok (values.map (nullOr appendQuotedArrayString))
  | .other valid =>
    -- a null is written without a look at the type
    if true ∈ valid then .error mappingError else .ok (valid.map fun _ => null)

def listString (values : Flat) : Except String Text := do
  let items ← arrayItems values
  .ok ('{' :: List.intercalate [','] items ++ ['}'])

structure RangeValue where
  lower : Option Text
  upper : Option Text
  lowerInclusive : Bool
  upperInclusive : Bool
  lowerUnbounded : Bool
  upperUnbounded : Bool
  empty : Bool
  deriving DecidableEq, Repr

/-- A bound in quotes, nothing for a bound that is open to infinity. -/
def rangeBound (unbounded : Bool) (bound : Option Text) : Text :=
  if unbounded then [] else appendQuotedPostgresValue (bound.getD [])

def RangeValue.text (v : RangeValue) : Except String Text :=
  if v.empty then .ok "empty".toList
  else if (v.lowerUnbounded = false ∧ v.lower = none) ∨
      (v.upperUnbounded = false ∧ v.upper = none) then .error mappingError
  else
    .ok ((if v.lowerInclusive then ['['] else ['(']) ++ rangeBound v.lowerUnbounded v.lower ++
      ',' :: rangeBound v.upperUnbounded v.upper ++ if v.upperInclusive then [']'] else [')'])

def hexDigits : List Char := "0123456789abcdef".toList

inductive DataType where
  | boolean
  | int32
  | int64
  | utf8
  | binary
  | list
  | struct
  | other
  deriving DecidableEq, Repr

inductive ColumnSemantics where
  | scalar
  | geometry
  | geography
  | range
  | composite
  deriving DecidableEq, Repr

structure WriteColumnPlan where
  dataType : DataType
  semantics : ColumnSemantics
  deriving DecidableEq, Repr

def WriteColumnPlan.isSpatial (plan : WriteColumnPlan) : Bool :=
  plan.semantics = .geometry ∨ plan.semantics = .geography

section

-- `canonical::check`, and the texts of the types that are not modelled (floats, dates, times,
-- decimals)
variable (check : WriteColumnPlan → Column → Nat → Except String Unit)
  (encodeOther : Column → Nat → Except String Text)

end

end Plenora.Postgres.ValueText
