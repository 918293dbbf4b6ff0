import Plenora.Core.CastTable
import Plenora.Core.GeometryValue
import Plenora.Core.ParameterFidelity
import Plenora.Core.Plan
import Plenora.Lib.IeeeRounding

/-!
# Admitting a parameter against its operand

`admitValue` binds a value in the type of the operand it meets: an integer, a double or a decimal
by its exact value, a text by its characters and length, a moment by its second fraction.
What the operand does not hold exactly is refused before it is sent.
-/

namespace Plenora.Core.OperandAdmission

open Plenora.Lib Plenora.Lib.Decimal CastTable ParameterFidelity

def refusal (provider : ProviderKind) (message : String) : DatabaseError :=
  .new .dataMapping .prepare (some provider) message

def inexact (provider : ProviderKind) : DatabaseError :=
  refusal provider "parametro non rappresentabile esatto nel tipo dell'operando"

/-! ## Exact decimals -/

/-- A normalized decimal: no zeros that do not count, and zero is positive. -/
@[ext]
structure ExactDecimal where
  negative : Bool
  integer : List Char
  fraction : List Char
  integer_digits : AllDigits integer
  fraction_digits : AllDigits fraction
  integer_normal : trimStart integer = integer
  fraction_normal : trimEnd '0' fraction = fraction
  zero_positive : integer = [] → fraction = [] → negative = false

instance : DecidableEq ExactDecimal := fun _ _ => decidable_of_iff _ ExactDecimal.ext_iff.symm

namespace ExactDecimal

def normalized (negative : Bool) (integer fraction : List Char) (hi : AllDigits integer)
    (hf : AllDigits fraction) : ExactDecimal where
  negative := negative && !(trimStart integer = [] && trimEnd '0' fraction = [])
  integer := trimStart integer
  fraction := trimEnd '0' fraction
  integer_digits := allDigits_trimStart hi
  fraction_digits := allDigits_trimEnd hf
  integer_normal := trimStart_trimStart integer
  fraction_normal := trimEnd_trimEnd '0' fraction
  zero_positive := by
    intro h₁ h₂
    simp [h₁, h₂]

/-- The number a decimal stands for. -/
def value (d : ExactDecimal) : Rat :=
  (if d.negative then -1 else 1) * (Decimal.value d.integer + fractionValue d.fraction)

/-- The positional text. -/
def text (d : ExactDecimal) : String :=
  .ofList ((if d.negative then ['-'] else []) ++
    (if d.integer = [] then ['0'] else d.integer) ++
    (if d.fraction = [] then [] else '.' :: d.fraction))

def significantDigits (d : ExactDecimal) : Nat :=
  if d.integer = [] then (trimStart d.fraction).length
  else d.integer.length + d.fraction.length

/-- The value as an `i128`, if it is one. -/
def asI128 (d : ExactDecimal) : Option Int :=
  if d.fraction ≠ [] then none
  else if Decimal.value d.integer ≥ 2 ^ 127 then none
  else some (if d.negative then -Decimal.value d.integer else Decimal.value d.integer)

end ExactDecimal

/-! ## The exact decimal of a double -/

/-- The base of the limbs. -/
def limbBase : Nat := 1000000000

/-- Limbs, least significant first, multiplied by `factor`, and `carry` added. -/
def multiplyLimbs (factor : Nat) : List Nat → Nat → List Nat
  | [], carry => Nat.digits limbBase carry
  | limb :: limbs, carry =>
    (limb * factor + carry) % limbBase ::
      multiplyLimbs factor limbs ((limb * factor + carry) / limbBase)

/-- `n` multiplications by `factor`. -/
def multiplyTimes (factor : Nat) : Nat → List Nat → List Nat
  | 0, limbs => limbs
  | n + 1, limbs => multiplyTimes factor n (multiplyLimbs factor limbs 0)

/-- A limb in nine digits. -/
def paddedLimb (limb : Nat) : List Char :=
  List.replicate (9 - (Nat.toDigits 10 limb).length) '0' ++ Nat.toDigits 10 limb

/-- The digits of limbs, most significant first. -/
def limbDigits : List Nat → List Char
  | [] => []
  | limb :: limbs => Nat.toDigits 10 limb ++ limbs.flatMap paddedLimb

theorem allDigits_paddedLimb (limb : Nat) : AllDigits (paddedLimb limb) :=
  allDigits_append.2 ⟨allDigits_replicate_zero _, allDigits_toDigits _⟩

theorem allDigits_limbDigits (limbs : List Nat) : AllDigits (limbDigits limbs) := by
  cases limbs with
  | nil => exact allDigits_nil
  | cons limb limbs =>
    refine allDigits_append.2 ⟨allDigits_toDigits _, ?_⟩
    intro c hc
    obtain ⟨l, -, hl⟩ := List.mem_flatMap.1 hc
    exact allDigits_paddedLimb l c hl

/-- Digits with the point before the last `scale` of them. -/
def placePoint (negative : Bool) (digits : List Char) (scale : Nat) (h : AllDigits digits) :
    ExactDecimal :=
  if digits.length > scale then
    .normalized negative (digits.take (digits.length - scale))
      (digits.drop (digits.length - scale)) (allDigits_take h _) (allDigits_drop h _)
  else
    .normalized negative [] (List.replicate (scale - digits.length) '0' ++ digits)
      allDigits_nil (allDigits_append.2 ⟨allDigits_replicate_zero _, h⟩)

/-- The mantissa and the power of two of a finite double. -/
def mantissaExponent (bits : UInt64) : Nat × Int :=
  if Ieee.exponent bits = 0 then (Ieee.fraction bits, -1074)
  else (Ieee.fraction bits + 2 ^ 52, (Ieee.exponent bits : Int) - 1075)

/-- The limbs of a scaled mantissa and the digits after the point:
`m * 2 ^ -k = m * 5 ^ k / 10 ^ k`. -/
def scaledLimbs (mantissa : Nat) (exponent : Int) : List Nat × Nat :=
  let limbs := [mantissa % limbBase, mantissa / limbBase]
  if 0 ≤ exponent then (multiplyTimes 2 exponent.toNat limbs, 0)
  else (multiplyTimes 5 (-exponent).toNat limbs, (-exponent).toNat)

/-- `mantissa * 2 ^ exponent` in decimal. -/
def decimalOfParts (negative : Bool) (mantissa : Nat) (exponent : Int) : ExactDecimal :=
  if mantissa = 0 then .normalized false [] [] allDigits_nil allDigits_nil
  else
    placePoint negative (trimStart (limbDigits (scaledLimbs mantissa exponent).1.reverse))
      (scaledLimbs mantissa exponent).2 (allDigits_trimStart (allDigits_limbDigits _))

def exactDecimalOfF64 (bits : UInt64) : Option ExactDecimal :=
  if ¬ Ieee.isFinite bits then none
  else some (decimalOfParts (Ieee.negative bits) (mantissaExponent bits).1
    (mantissaExponent bits).2)

def parseDecimal (provider : ProviderKind) (value : String) : Result ExactDecimal := do
  let literal ← DecimalLiteral.parse provider value
  .ok (.normalized literal.negative literal.integer literal.fraction literal.integer_digits
    literal.fraction_digits)

/-! ## Numeric ranges -/

/-- A length as a `u32`, or the largest of them. -/
def lengthU32 (digits : List Char) : Nat := min digits.length (2 ^ 32 - 1)

def integerDigits (value : Int) : Nat := numberOfDigits value.natAbs

def fitsDecimal (value : ExactDecimal) (precision scale : UInt32) : Bool :=
  lengthU32 value.fraction ≤ scale.toNat &&
    lengthU32 value.integer ≤ precision.toNat - scale.toNat

/-- No fraction, the last `rounding` integer digits zero, at most `precision` before them. -/
def fitsRounded (integer fraction : List Char) (precision rounding : UInt32) : Bool :=
  let integer := trimStart integer
  trimEnd '0' fraction = [] &&
    (integer = [] ||
      (integer.length ≤ precision.toNat + rounding.toNat && integer.length > rounding.toNat &&
        (integer.reverse.take rounding.toNat).all (· = '0')))

/-- The digits beyond which `x * 10 ^ D` is not an exact integer in a double. -/
def scaledFloatDigits : Nat := 15

def scaledFloatExact (exact : ExactDecimal) (precision scale : UInt32) : Bool :=
  fitsDecimal exact precision scale &&
    lengthU32 exact.integer + scale.toNat ≤ scaledFloatDigits

/-- The double that parsing the decimal gives, when it is the same number. -/
def floatOf (value : ExactDecimal) (mantissaBits : MantissaBits) : Option UInt64 :=
  let num := Decimal.value (value.integer ++ value.fraction)
  let den := 10 ^ value.fraction.length
  let parsed := match mantissaBits with
    | .single => Ieee.widen (Ieee.round32 value.negative num den)
    | .double => Ieee.round64 value.negative num den
  if exactDecimalOfF64 parsed = some value then some parsed else none

/-! ## Temporal forms -/

def isSeparator (c : Char) : Bool := c = 'T' || c = 't' || c = ' '

/-- Date, time, and the digits of the second fraction without the last zeros. -/
def temporalParts (value : List Char) : List Char × List Char × List Char :=
  let (date, rest) := splitOnce isSeparator value
  let (time, fraction) := splitOnce (· = '.') rest
  (date, time, trimEnd '0' (fraction.takeWhile Char.isDigit))

def isLeapYear (year : Nat) : Bool :=
  (year % 4 = 0 && year % 100 ≠ 0) || year % 400 = 0

/-- The days of a month, if it is one. -/
def daysInMonth (year month : Nat) : Option Nat :=
  if month ∈ [1, 3, 5, 7, 8, 10, 12] then some 31
  else if month ∈ [4, 6, 9, 11] then some 30
  else if month = 2 then some (if isLeapYear year then 29 else 28)
  else none

/-- A part of exactly `width` digits. -/
def isDigits (part : List Char) (width : Nat) : Bool :=
  part.length = width && part.all Char.isDigit

/-- `YYYY-MM-DD` of a day that exists. -/
def chronoFreeDate (text : List Char) : Bool :=
  match text.splitOn '-' with
  | [year, month, day] =>
    isDigits year 4 && isDigits month 2 && isDigits day 2 &&
      (daysInMonth (Decimal.value year) (Decimal.value month)).any fun days =>
        1 ≤ Decimal.value day && Decimal.value day ≤ days
  | _ => false

/-- Two digits of a number of at most `max`. -/
def isNumber (text : List Char) (start max : Nat) : Bool :=
  ((text.drop start).take 2).all Char.isDigit && Decimal.value ((text.drop start).take 2) ≤ max

/-- The offset of a zoned timestamp. -/
def isOffset (suffix : List Char) : Bool :=
  suffix = ['Z'] || suffix = ['z'] ||
    (suffix.length = 6 && (suffix[0]? = some '+' || suffix[0]? = some '-') &&
      suffix[3]? = some ':' && isNumber suffix 1 23 && isNumber suffix 4 59)

/-- What follows the seconds: the digits after a point, and the rest. -/
def secondFraction (rest : List Char) : List Char × List Char :=
  match rest with
  | '.' :: rest => (rest.takeWhile Char.isDigit, rest.dropWhile Char.isDigit)
  | rest => ([], rest)

def validTimestamp (text : List Char) (zoned : Bool) : Bool :=
  let (fraction, suffix) := secondFraction (text.drop 19)
  text.length ≥ 19 && text.all isAscii && chronoFreeDate (text.take 10) &&
    text[10]?.any isSeparator && text[13]? = some ':' && text[16]? = some ':' &&
    isNumber text 11 23 && isNumber text 14 59 && isNumber text 17 59 &&
    -- a point with no digit after it
    !(text[19]? = some '.' && fraction = []) &&
    (if zoned then isOffset suffix else suffix = [])

/-! ## Admission -/

def dimensionsName : Dimensions → String
  | .xy => "xy"
  | .xyz => "xyz"
  | .xym => "xym"
  | .xyzm => "xyzm"
  | .unknown => "unknown"

/-- The form of a typed text, checked before any rewriting. -/
def validateForm (provider : ProviderKind) (value : ParameterValue) : Result Unit :=
  match value with
  | .uuid text => canonicalUuid provider text
  | .date text =>
    failIf (¬ chronoFreeDate text.toList) (refusal provider "parametro date non valido")
  | .timestamp text => do
    failIf (¬ validTimestamp text.toList false)
      (refusal provider "parametro timestamp non valido")
    rejectSubMicrosecond provider text
  | .timestampTz text => do
    failIf (¬ validTimestamp text.toList true)
      (refusal provider "parametro timestamp non valido")
    rejectSubMicrosecond provider text
  | .decimal text => do
    let _ ← DecimalLiteral.parse provider text
    .ok ()
  | .string text => rejectNul provider text
  | .enum _ label => rejectNul provider label
  | .null typeName =>
    failIf (typeName = "" ∨ '\x00' ∈ typeName.toList)
      (refusal provider "tipo NULL vuoto o contenente NUL")
  | .wkb bytes srid dimensions _ => do
    let _ ← GeometryValue.verifyValue
      { ewkb := none, srid, types := none, dimensions := some (dimensionsName dimensions) }
      bytes (2 ^ 64 - 1) 32 .prepare
    .ok ()
  | .bool _ | .i32 _ | .i64 _ | .f64 _ | .bytes _ | .json _ => .ok ()

/-- A text against a text column: every character in its charset, the length in its unit. -/
def admitText (provider : ProviderKind) (text : String) (length : Option UInt64)
    (unit : LengthUnit) (charset : Charset) : Result ParameterValue := do
  failIf (¬ text.toList.all charset.holds)
    (refusal provider "carattere fuori dal charset della colonna: il server lo sostituirebbe")
  failIf (length.any (textLength text unit charset > ·.toNat)) (refusal provider
    "testo oltre la lunghezza della colonna: il server lo troncherebbe o lo rifiuterebbe")
  .ok (.string text)

def admitInteger (provider : ProviderKind) (value : ParameterValue) (number : Int)
    (operand : OperandType) : Result ParameterValue :=
  match operand with
  | .integer min max =>
    if min ≤ number ∧ number ≤ max then .ok value else .error (inexact provider)
  | .float bits =>
    if number.natAbs ≤ 2 ^ bits.toNat then .ok (.f64 (Ieee.ofInt number))
    else .error (inexact provider)
  | .decimal precision scale =>
    if integerDigits number ≤ precision.toNat - min scale.toNat precision.toNat then .ok value
    else .error (inexact provider)
  | .unboundedDecimal digits =>
    if integerDigits number ≤ digits.toNat then .ok value else .error (inexact provider)
  | .scaledFloat bits precision scale =>
    if number.natAbs ≤ 2 ^ bits.toNat ∧
        integerDigits number ≤ precision.toNat - scale.toNat ∧
        integerDigits number + scale.toNat ≤ scaledFloatDigits then
      .ok (.f64 (Ieee.ofInt number))
    else .error (inexact provider)
  | .roundedDecimal precision rounding =>
    if fitsRounded (Nat.toDigits 10 number.natAbs) [] precision rounding then .ok value
    else .error (inexact provider)
  | _ => .error (inexact provider)

/-- An exact decimal against an integer or decimal operand. -/
def admitExact (provider : ProviderKind) (exact : ExactDecimal) (operand : OperandType) :
    Result ParameterValue :=
  match operand with
  | .integer min max =>
    okOr ((exact.asI128.filter fun n =>
        decide (min ≤ n ∧ n ≤ max) && decide (-2 ^ 63 ≤ n ∧ n < 2 ^ 63)).map
      fun n => .i64 (Int64.ofInt n)) (inexact provider)
  | .decimal precision scale =>
    if fitsDecimal exact precision scale then .ok (.decimal exact.text)
    else .error (inexact provider)
  | .roundedDecimal precision rounding =>
    if fitsRounded exact.integer exact.fraction precision rounding then .ok (.decimal exact.text)
    else .error (inexact provider)
  | .unboundedDecimal digits =>
    if min exact.significantDigits (2 ^ 32 - 1) ≤ digits.toNat then .ok (.decimal exact.text)
    else .error (inexact provider)
  | _ => .error (inexact provider)

def admitDouble (provider : ProviderKind) (bits : UInt64) (operand : OperandType) :
    Result ParameterValue :=
  if ¬ Ieee.isFinite bits then
    match operand with
    | .float _ => .ok (.f64 bits)
    | _ => .error (inexact provider)
  else
    match operand with
    | .scaledFloat mantissa precision scale => do
      failIf (mantissa.toNat < 53 ∧ (Ieee.exactF32 bits).isNone) (inexact provider)
      let exact ← okOr (exactDecimalOfF64 bits) (inexact provider)
      if scaledFloatExact exact precision scale then .ok (.f64 bits)
      else .error (refusal provider
        "floating point oltre la scala di FLOAT(M, D): il server lo arrotonderebbe")
    | .float mantissa =>
      if mantissa.toNat ≥ 53 ∨ (Ieee.exactF32 bits).isSome then .ok (.f64 bits)
      else .error (inexact provider)
    | operand => do
      -- integers and decimals have no sign of zero
      failIf (Ieee.isZero bits ∧ Ieee.negative bits) (inexact provider)
      let exact ← okOr (exactDecimalOfF64 bits) (inexact provider)
      admitExact provider exact operand

def admitDecimal (provider : ProviderKind) (text : String) (operand : OperandType) :
    Result ParameterValue := do
  let exact ← parseDecimal provider text
  match operand with
  | .float mantissa => okOr ((floatOf exact mantissa).map .f64) (inexact provider)
  | .scaledFloat mantissa precision scale =>
    if scaledFloatExact exact precision scale then
      okOr ((floatOf exact mantissa).map .f64) (inexact provider)
    else .error (inexact provider)
  | .text length _ unit charset => admitText provider text length unit charset
  | operand => admitExact provider exact operand

/-- A timestamp, zoned or not, whose second fraction the operand keeps. -/
def admitFraction (provider : ProviderKind) (value : ParameterValue) (text : String)
    (fractionDigits : UInt32) (message : String) : Result ParameterValue :=
  let (_, _, fraction) := temporalParts text.toList
  if lengthU32 fraction ≤ fractionDigits.toNat then .ok value
  else .error (refusal provider message)

/-- A timestamp at midnight, as its date. -/
def admitMidnight (provider : ProviderKind) (text : String) : Result ParameterValue :=
  let (date, time, fraction) := temporalParts text.toList
  if time.all (fun c => c = '0' || c = ':') ∧ fraction = [] then .ok (.date (.ofList date))
  else .error (refusal provider "timestamp con un'ora diversa da mezzanotte contro una data")

def admitBytes (provider : ProviderKind) (bytes : List UInt8) (length : Option UInt64)
    (padded : Bool) : Result ParameterValue := do
  failIf (length.any (bytes.length > ·.toNat)) (refusal provider
    "byte oltre la lunghezza della colonna: il server li troncherebbe o li rifiuterebbe")
  failIf (padded ∧ length.map (·.toNat) ≠ some bytes.length) (refusal provider
    "byte piu corti di una colonna binaria fissa: il server li completa con zeri")
  .ok (.bytes bytes)

/-- The arms of `admitValue`, for a value whose form is checked. -/
def admitChecked (provider : ProviderKind) (value : ParameterValue) (operand : OperandType) :
    Result ParameterValue :=
  match value, operand with
  | .null _, _ | .bool _, .boolean | .uuid _, .uuid | .json _, .json | .enum _ _, .enumeration
  | .date _, .date => .ok value
  | _, .unknown => .error (refusal provider
      "tipo dell'operando non giudicabile esatto: ammette soltanto NULL")
  | .bool flag, .integer min max =>
    if min ≤ 0 ∧ max ≥ 1 then .ok (.i64 (if flag then 1 else 0)) else .error (inexact provider)
  | .bool flag, .decimal precision scale =>
    if precision > scale then .ok (.i64 (if flag then 1 else 0)) else .error (inexact provider)
  | .i32 number, operand => admitInteger provider value number.toInt operand
  | .i64 number, operand => admitInteger provider value number.toInt operand
  | .f64 bits, operand => admitDouble provider bits operand
  | .decimal text, operand => admitDecimal provider text operand
  | .date date, .timestamp _ => .ok (.timestamp (date ++ "T00:00:00"))
  | .timestamp text, .timestamp digits => admitFraction provider value text digits
      "timestamp oltre la precisione dell'operando: il server la arrotonderebbe"
  | .timestamp text, .date => admitMidnight provider text
  | .timestampTz text, .timestampTz digits => admitFraction provider value text digits
      "timestamptz oltre la precisione dell'operando: il server la arrotonderebbe"
  | .string text, .text length _ unit charset
  | .uuid text, .text length _ unit charset
  | .enum _ text, .text length _ unit charset
  | .date text, .text length _ unit charset
  | .timestamp text, .text length _ unit charset
  | .timestampTz text, .text length _ unit charset =>
    admitText provider text length unit charset
  | .string text, .enumeration => .ok (.enum "" text)
  | .json document, .text length false unit charset =>
    admitText provider document.text length unit charset
  | .bytes bytes, .binary length padded => admitBytes provider bytes length padded
  | _, _ => .error (inexact provider)

/-- **The value of the operand's type that `value` is, or a refusal.** -/
def admitValue (provider : ProviderKind) (value : ParameterValue) (operand : OperandType) :
    Result ParameterValue := do
  validateForm provider value
  admitChecked provider value operand

end Plenora.Core.OperandAdmission
