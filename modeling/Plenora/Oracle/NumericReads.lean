import Plenora.Lib.NumberText
import Plenora.Lib.Machine
import Plenora.Lib.Outcome
import Plenora.Lib.Patterns
import Plenora.Core.Error
import Plenora.Core.Transaction

/-!
# Reading Oracle numbers

A NUMBER reaches the client as decimal text, a BINARY_FLOAT or BINARY_DOUBLE as the `DUMP()` of its
stored bytes.  Three decoders turn them into the values of an Arrow column.

    parseDecimal text precision scale : Result Int
    decimalAsF64 parse format text    : Result UInt64
    binaryDoubleFromDump dump         : Result (Option UInt64)
-/

namespace Plenora.Oracle.NumericReads

open Plenora.Lib Plenora.Lib.Decimal Plenora.Core
open Plenora.Lib.NumberText (splitSign parseI64 signed)
open Plenora.Lib.Patterns (splitOnce stripPrefix)

/-! ## Errors -/

def readError (category : ErrorCategory) (message : String) : DatabaseError :=
  .new category .read (some .oracle) message

def mapping (message : String) : DatabaseError := readError .dataMapping message

def prepareError (category : ErrorCategory) (message : String) : DatabaseError :=
  .new category .prepare (some .oracle) message

/-! ## Columns -/

/-- The kinds of column whose values are numbers. -/
inductive OracleColumnKind where
  | i64 | f32 | f64
  | decimal (precision : UInt8) (scale : Int8)
  deriving DecidableEq

/-- What the catalogue says of a NUMBER column. -/
structure OracleColumn where
  precision : Option UInt64
  scale : Option Int64

/-- `decimal_kind` -/
def decimalKind (column : OracleColumn) : Result OracleColumnKind := do
  let precision := (column.precision.getD 38).toNat
  let scale := (column.scale.getD 0).toInt
  failIf (2 ^ 8 ≤ precision)
    (prepareError .dataMapping "precisione NUMBER Oracle non rappresentabile")
  failIf (scale < -2 ^ 7 ∨ 2 ^ 7 ≤ scale)
    (prepareError .dataMapping "scala NUMBER Oracle non rappresentabile")
  failIf (precision = 0 ∨ 38 < precision ∨ scale < 0 ∨ precision < scale)
    (prepareError .dataMapping "NUMBER Oracle oltre Decimal128")
  pure (.decimal (UInt8.ofNat precision) (Int8.ofInt scale))

/-! ## Decimal text to a scaled integer -/

/-- `usize::try_from(scale).unwrap_or(0)` -/
def scaleDigits (scale : Int8) : Nat := scale.toInt.toNat

/-- The digits before and after the point, if there is one. -/
def splitPoint (text : List Char) : List Char × List Char := (splitOnce '.' text).getD (text, [])

/-- A text of digits as an `i128`. -/
def parseI128 (digits : List Char) : Option Int :=
  if digits = [] ∨ ¬ AllDigits digits ∨ 2 ^ 127 ≤ value digits then none else some (value digits)

/-- `parse_decimal` -/
def parseDecimal (text : List Char) (precision : UInt8) (scale : Int8) : Result Int := do
  let (negative, unsigned) := splitSign text
  let (whole, fraction) := splitPoint unsigned
  failIf ((whole = [] ∧ fraction = []) ∨ ¬ AllDigits whole ∨ ¬ AllDigits fraction ∨
      scaleDigits scale < fraction.length)
    (mapping "NUMBER Oracle non rappresentabile in Decimal128")
  -- The fraction fits the scale already: the integer part must fit the rest.
  failIf (precision.toNat - scaleDigits scale < (trimStart whole).length)
    (mapping "NUMBER Oracle oltre la precisione Decimal128")
  let digits := (if whole = [] then ['0'] else whole) ++ fraction ++
    List.replicate (scaleDigits scale - fraction.length) '0'
  let parsed ← okOr (parseI128 digits) (mapping "NUMBER Oracle oltre i128")
  pure (if negative then -parsed else parsed)

/-! ## Decimal text to a double -/

/-- An integer that a signed 64-bit operation can give. -/
def checkedI64 (n : Int) : Option Int := if -2 ^ 63 ≤ n ∧ n < 2 ^ 63 then some n else none

/-- The mantissa and the exponent after the first `e` or `E`. -/
def splitExponent (text : List Char) : Option (List Char × Int) :=
  match text.dropWhile fun c => !(c = 'e' || c = 'E') with
  | [] => some (text, 0)
  | _ :: rest => (parseI64 rest).map fun exponent =>
      (text.takeWhile fun c => !(c = 'e' || c = 'E'), exponent)

/-- Sign, significant digits and the decimal exponent of the first digit. -/
abbrev Canonical := Bool × List Char × Int

/-- The place of the first significant digit, unless the count leaves 64 bits. -/
def checkedPoint (length leading : Nat) (exponent : Int) : Option Int := do
  let length ← checkedI64 length
  let sum ← checkedI64 (length + exponent)
  let leading ← checkedI64 leading
  checkedI64 (sum - leading)

/-- `canonical_decimal` -/
def canonicalDecimal (text : List Char) : Option Canonical :=
  if text = [] then none
  else
    let (negative, unsigned) := splitSign text
    (splitExponent unsigned).bind fun parts =>
      let (whole, fraction) := splitPoint parts.1
      if (whole = [] ∧ fraction = []) ∨ ¬ AllDigits (whole ++ fraction) then none
      else
        let digits := whole ++ fraction
        let trimmed := trimStart digits
        let leading := digits.length - trimmed.length
        let significant := trimEnd '0' trimmed
        if significant = [] then some (false, [], 0)
        else (checkedPoint whole.length leading parts.2).map fun point =>
          (negative, significant, point)

/-- `decimal_as_f64`, with Rust's reading of a text as a double and the text of its `{:e}`. -/
def decimalAsF64 (parse : List Char → Option UInt64) (format : UInt64 → List Char)
    (text : List Char) : Result UInt64 := do
  let unrepresentable := mapping "NUMBER Oracle non rappresentabile esattamente in Float64"
  let source ← okOr (canonicalDecimal text) unrepresentable
  let bits ← okOr ((parse text).filter Ieee.isFinite) unrepresentable
  failIf (canonicalDecimal (format bits) ≠ some source) unrepresentable
  pure bits

/-! ## Dumps of stored bytes -/

/-- A byte between two commas of a dump. -/
def parseByte (text : List Char) : Option UInt8 :=
  let trimmed := (text.dropWhile isWhiteSpace).rdropWhile isWhiteSpace
  let digits := if trimmed.head? = some '+' then trimmed.tail else trimmed
  if digits = [] ∨ ¬ AllDigits digits ∨ 256 ≤ value digits then none
  else some (UInt8.ofNat (value digits))

def decimalText (n : Nat) : List Char := Nat.toDigits 10 n

/-- What a dump starts with. -/
def dumpHead (typeCode length : Nat) : List Char :=
  "Typ=".toList ++ decimalText typeCode ++ " Len=".toList ++ decimalText length ++ ": ".toList

/-- The bytes of the number whose bytes are stored so: a positive number has its sign bit set, a
negative one all its bits inverted. -/
def ieeeBytes : List UInt8 → List UInt8
  | [] => []
  | first :: rest =>
    if first &&& 0x80 = 0 then (first :: rest).map (~~~ ·) else (first ^^^ 0x80) :: rest

/-- `oracle_binary_float`: the bytes of the number, without the zeros behind them. -/
def oracleBinaryFloat (dump : List Char) (typeCode length : Nat) :
    Result (Option (List UInt8)) := do
  let invalid := mapping "BINARY_FLOAT/BINARY_DOUBLE Oracle non rappresentabile"
  if dump = "NULL".toList then pure none
  else
    let body ← okOr (stripPrefix (dumpHead typeCode length) dump) invalid
    let bytes ← (body.splitOn ',').mapM fun byte => okOr (parseByte byte) invalid
    failIf (bytes.length ≠ length) invalid
    pure (some (ieeeBytes bytes))

/-- `from_be_bytes` -/
def fromBeBytes (bytes : List UInt8) : Nat := natOfLe bytes.reverse

def isNegativeZero (bits : UInt64) : Bool := Ieee.isZero bits && Ieee.negative bits

def isFinite32 (bits : UInt32) : Bool := bits.toNat / 2 ^ 23 % 2 ^ 8 ≠ 255

def isNegativeZero32 (bits : UInt32) : Bool := Ieee.isZero32 bits && bits.toNat / 2 ^ 31 = 1

/-- `binary_double_from_dump` -/
def binaryDoubleFromDump (dump : List Char) : Result (Option UInt64) := do
  match ← oracleBinaryFloat dump 101 8 with
  | none => pure none
  | some ieee =>
    let bits := UInt64.ofNat (fromBeBytes ieee)
    failIf (!Ieee.isFinite bits || isNegativeZero bits)
      (mapping "BINARY_DOUBLE Oracle non rappresentabile")
    pure (some bits)

/-- `binary_float_from_dump` -/
def binaryFloatFromDump (dump : List Char) : Result (Option UInt32) := do
  match ← oracleBinaryFloat dump 100 4 with
  | none => pure none
  | some ieee =>
    let bits := UInt32.ofNat (fromBeBytes ieee)
    failIf (!isFinite32 bits || isNegativeZero32 bits)
      (mapping "BINARY_FLOAT Oracle non rappresentabile")
    pure (some bits)

end Plenora.Oracle.NumericReads
