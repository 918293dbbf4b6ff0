import Plenora.Core.TemporalForms
import Plenora.Lib.PaddedNumber

/-!
# Binding a parameter of Db2

A value is admitted against the type the server describes for its placeholder, and bound in the C
type of what was admitted.

    admitWithCatalog dates timestamps value described catalog : Result ParameterValue
    bindWithCatalog dates timestamps value described catalog : Result Bound
-/

namespace Plenora.Db2.Parameter

open Plenora.Lib Plenora.Core Plenora.Core.CastTable Plenora.Core.OperandAdmission
open Plenora.Core.ParameterFidelity
open Plenora.Lib.Decimal (padded)

/-! ## Described types -/

/-- The types `SQLDescribeParam` answers; a type of the vendor has its number. -/
inductive DataType where
  | unknown
  | bit | tinyInt | smallInt | integer | bigInt | real | double
  | float (precision : Nat)
  | decimal (precision : Nat) (scale : Int)
  | numeric (precision : Nat) (scale : Int)
  | date
  | time (precision : Int)
  | timestamp (precision : Int)
  | char (length : Option UInt64)
  | wChar (length : Option UInt64)
  | varchar (length : Option UInt64)
  | longVarchar (length : Option UInt64)
  | wVarchar (length : Option UInt64)
  | wLongVarchar (length : Option UInt64)
  | binary (length : Option UInt64)
  | varbinary (length : Option UInt64)
  | longVarbinary (length : Option UInt64)
  | other (dataType : Int) (columnSize : Option UInt64)
  deriving DecidableEq

def sqlGraphic : Int := -95
def sqlVargraphic : Int := -96
def sqlLongvargraphic : Int := -97
def sqlBlob : Int := -98
def sqlClob : Int := -99
def sqlDbclob : Int := -350
def sqlDecfloat : Int := -360

def isBinary : DataType → Bool
  | .binary _ | .varbinary _ | .longVarbinary _ => true
  | .other dataType _ => dataType = sqlBlob
  | _ => false

/-- `u32::try_from`. -/
def toU32 (n : Int) : Option UInt32 :=
  if 0 ≤ n ∧ n < 4294967296 then some (UInt32.ofNat n.toNat) else none

def decimalOf : Option UInt32 → Option UInt32 → OperandType
  | some precision, some scale => .decimal precision scale
  | _, _ => .unknown

def decimalOperand (precision : Nat) (scale : Int) : OperandType :=
  decimalOf (toU32 precision) (toU32 scale)

def floatOperand (precision : Nat) : OperandType :=
  .float (if precision ≤ 24 then .single else .double)

def timestampOperand (precision : Int) : OperandType :=
  match toU32 precision with
  | some fractionDigits => .timestamp fractionDigits
  | none => .unknown

def textOperand (length : Option UInt64) (padded : Bool) (unit : LengthUnit) : OperandType :=
  .text length padded unit .unicode

/-- A type of the vendor. -/
def otherOperand (dataType : Int) (columnSize : Option UInt64) : OperandType :=
  if dataType = sqlGraphic then textOperand columnSize true .utf16
  else if dataType = sqlClob then textOperand columnSize false .bytes
  else if dataType = sqlVargraphic ∨ dataType = sqlLongvargraphic ∨ dataType = sqlDbclob then
    textOperand columnSize false .utf16
  else if dataType = sqlBlob then .binary columnSize false
  else if dataType = sqlDecfloat then
    .unboundedDecimal ((columnSize.bind fun size => toU32 size.toNat).getD 34)
  else .unknown

/-- The operand of a described type. -/
def operandOf : DataType → OperandType
  | .bit => .boolean
  | .tinyInt => .integer (-128) 127
  | .smallInt => .integer (-32768) 32767
  | .integer => .integer (-2147483648) 2147483647
  | .bigInt => .integer (-9223372036854775808) 9223372036854775807
  | .real => .float .single
  | .float precision => floatOperand precision
  | .double => .float .double
  | .decimal precision scale | .numeric precision scale => decimalOperand precision scale
  | .date => .date
  | .timestamp precision => timestampOperand precision
  | .char length => textOperand length true .bytes
  | .wChar length => textOperand length true .utf16
  | .varchar length | .longVarchar length => textOperand length false .bytes
  | .wVarchar length | .wLongVarchar length => textOperand length false .utf16
  | .binary length => .binary length true
  | .varbinary length | .longVarbinary length => .binary length false
  | .other dataType columnSize => otherOperand dataType columnSize
  | .unknown | .time _ => .unknown

/-! ## Validation -/

def mapping (message : String) : DatabaseError := .new .dataMapping .prepare (some .db2) message

/-- A number between zero and the smallest normal one. -/
def isSubnormal (bits : UInt64) : Bool := Ieee.exponent bits = 0 && Ieee.fraction bits ≠ 0

def negativeZero : UInt64 := 0x8000000000000000

section Binding

-- `chrono`: whether a text is a date, and the moment of a timestamp
variable (dates : String → Bool) (timestamps : String → Option Moment)

def timestamp (value : String) : Result Moment := do
  rejectSubMicrosecond .db2 value
  okOr (timestamps value) (mapping "parametro timestamp Db2 non valido")

def validateOne (value : ParameterValue) : Result Unit :=
  match value with
  | .f64 bits => do
    failIf (¬ Ieee.isFinite bits)
      (.unsupported .db2 .prepare "double non finito senza rappresentazione Db2")
    failIf (isSubnormal bits) (mapping "double subnormale fuori dal dominio DOUBLE Db2")
    failIf (bits = negativeZero) (mapping "double -0.0: Db2 conserva lo zero senza segno")
  | .decimal text => do
    let _ ← DecimalLiteral.parse .db2 text
    .ok ()
  | .date text => failIf (¬ dates text) (mapping "parametro date Db2 non valido")
  | .timestamp text => do
    let _ ← timestamp timestamps text
    .ok ()
  | .uuid text => canonicalUuid .db2 text
  | .json _ | .timestampTz _ | .wkb _ _ _ _ => .error (.unsupported .db2 .prepare
      "tipo parametro transazionale Db2 non ancora qualificato")
  | .null _ | .bool _ | .i32 _ | .i64 _ | .string _ | .bytes _ | .enum _ _ => .ok ()

def validate : List ParameterValue → Result Unit
  | [] => .ok ()
  | value :: values => do
    validateOne dates timestamps value
    validate values

/-! ## Admission -/

def admitOn (value : ParameterValue) (operand : OperandType) : Result ParameterValue :=
  admitValue .db2 value operand

/-- The bytes of a text, for a binary placeholder. -/
def textBytes : ParameterValue → Option (List UInt8)
  | .string text | .uuid text | .enum _ text => some text.toUTF8.data.toList
  | _ => none

/-- The characters that surely fit in a text placeholder, whose unit is not described. -/
def leastCharacters (length : UInt64) (unit : LengthUnit) : Option UInt64 :=
  let divisor : UInt64 := if unit = .utf16 then 2 else 4
  let divisor : UInt64 := if length % 4 = 0 then 4 else divisor
  if length % divisor = 0 then some (length / divisor) else none

/-- The second check of a text. -/
def admitCharacters (operand : OperandType) (admitted : ParameterValue) : Result Unit :=
  match operand with
  | .text (some length) _ unit _ =>
    match leastCharacters length unit with
    | some characters => do
      let _ ← admitOn admitted (.text (some characters) false .characters .unicode)
      .ok ()
    | none => .ok ()
  | _ => .ok ()

def admitDescribed (value : ParameterValue) (described : DataType) : Result ParameterValue := do
  validateOne dates timestamps value
  match if isBinary described then textBytes value else none with
  | some bytes => admitOn (.bytes bytes) (operandOf described)
  | none => do
    let admitted ← admitOn value (operandOf described)
    admitCharacters (operandOf described) admitted
    .ok admitted

def isText : OperandType → Bool
  | .text _ _ _ _ => true
  | _ => false

/-- The catalog decides for a text placeholder, where it knows the column. -/
def admitWithCatalog (value : ParameterValue) (described : DataType)
    (catalog : Option OperandType) : Result ParameterValue := do
  validateOne dates timestamps value
  match if isText (operandOf described) then catalog.filter isText else none with
  | some kind => admitOn value kind
  | none => admitDescribed dates timestamps value described

/-! ## Binding -/

/-- A bound parameter. -/
inductive Bound where
  | nullBytes
  | nullText
  | text (text : List Char)
  | i64 (number : Int64)
  | f32 (bits : UInt32)
  | f64 (bits : UInt64)
  | bytes (bytes : List UInt8)
  deriving DecidableEq

/-- `%Y-%m-%d-%H.%M.%S%.6f`, of a year of four digits. -/
def formatTimestamp (m : Moment) : List Char :=
  padded 4 m.year ++ '-' :: (padded 2 m.month ++ '-' :: (padded 2 m.day ++ '-' ::
    (padded 2 m.hour ++ '.' :: (padded 2 m.minute ++ '.' :: (padded 2 m.second ++ '.' ::
      padded 6 (m.fraction * 10 ^ 6).floor.toNat)))))

/-- `to_string` of an integer. -/
def intText (n : Int) : List Char :=
  if n < 0 then '-' :: Nat.toDigits 10 n.natAbs else Nat.toDigits 10 n.natAbs

def boolText (flag : Bool) : List Char := (if flag then "true" else "false").toList

def narrow (bits : UInt64) : Result Bound := do
  let bits ← okOr (Ieee.exactF32 bits) (mapping "double non rappresentabile esatto nel REAL Db2")
  .ok (.f32 bits)

/-- A described type of single precision. -/
def isReal : DataType → Bool
  | .real => true
  | .float precision => precision ≤ 24
  | _ => false

/-- The C type of an admitted value. -/
def bindAdmitted (described : DataType) (value : ParameterValue) : Result Bound :=
  match value with
  | .null _ => .ok (if isBinary described then .nullBytes else .nullText)
  | .bool flag => .ok (.text (boolText flag))
  | .i32 number => .ok (.i64 (Int64.ofInt number.toInt))
  | .i64 number => .ok (.i64 number)
  | .f64 bits => if isReal described then narrow bits else .ok (.f64 bits)
  | .decimal text => .ok (.text text.toList)
  | .date text => .ok (.text text.toList)
  | .timestamp text => do
    let moment ← timestamp timestamps text
    .ok (.text (formatTimestamp moment))
  | .string text => .ok (.text text.toList)
  | .bytes bytes => .ok (.bytes bytes)
  | .timestampTz _ | .uuid _ | .json _ | .wkb _ _ _ _ | .enum _ _ =>
    .error (.unsupported .db2 .prepare "tipo parametro transazionale Db2 non ancora qualificato")

def bindWithCatalog (value : ParameterValue) (described : DataType)
    (catalog : Option OperandType) : Result Bound := do
  validateOne dates timestamps value
  let admitted ← admitWithCatalog dates timestamps value described catalog
  bindAdmitted timestamps described admitted

end Binding

end Plenora.Db2.Parameter
