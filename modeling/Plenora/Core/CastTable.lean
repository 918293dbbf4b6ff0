import Mathlib

/-!
# Operand types

What the catalog says of an operand, as far as it takes to judge whether a value is
exact in it.
-/

namespace Plenora.Core.CastTable

/-! ## Text -/

/-- The unit a text column counts its length in. -/
inductive LengthUnit where
  | characters | bytes | utf16
  deriving DecidableEq, Repr

/-- The characters a text column keeps. -/
inductive Charset where
  | unicode | unicodeBmp | windows1252 | ascii
  deriving DecidableEq, Repr

/-- The characters of Windows-1252 between 0x80 and 0x9F. -/
def windows1252High : List Char :=
  ['\u20AC', '\u201A', '\u0192', '\u201E', '\u2026', '\u2020', '\u2021', '\u02C6', '\u2030',
   '\u0160', '\u2039', '\u0152', '\u017D', '\u2018', '\u2019', '\u201C', '\u201D', '\u2022',
   '\u2013', '\u2014', '\u02DC', '\u2122', '\u0161', '\u203A', '\u0153', '\u017E', '\u0178']

def isAscii (c : Char) : Bool := c.toNat < 128

namespace Charset

def holds (charset : Charset) (character : Char) : Bool :=
  match charset with
  | unicode => true
  | unicodeBmp => character.toNat ≤ 0xFFFF
  | ascii => isAscii character
  | windows1252 =>
    isAscii character || (0xA0 ≤ character.toNat && character.toNat ≤ 0xFF) ||
      windows1252High.contains character

/-- The bytes of a text the charset keeps. -/
def bytes (charset : Charset) (text : String) : Nat :=
  match charset with
  | unicode | unicodeBmp => text.utf8ByteSize
  | windows1252 | ascii => text.toList.length

end Charset

/-- The UTF-16 units of a character. -/
def utf16Units (c : Char) : Nat := if c.toNat ≤ 0xFFFF then 1 else 2

/-- The length of a text in the unit of its column. -/
def textLength (text : String) (unit : LengthUnit) (charset : Charset) : Nat :=
  match unit with
  | .characters => text.toList.length
  | .bytes => charset.bytes text
  | .utf16 => (text.toList.map utf16Units).sum

/-! ## Operands -/

/-- The mantissa of an IEEE type: 24 or 53 bits. -/
inductive MantissaBits where
  | single | double
  deriving DecidableEq, Repr

def MantissaBits.toNat : MantissaBits → Nat
  | single => 24
  | double => 53

inductive OperandType where
  | boolean
  | integer (min max : Int)
  | float (mantissaBits : MantissaBits)
  /-- `FLOAT(M, D)` and `DOUBLE(M, D)`. -/
  | scaledFloat (mantissaBits : MantissaBits) (precision scale : UInt32)
  | decimal (precision scale : UInt32)
  /-- A decimal of negative scale. -/
  | roundedDecimal (precision rounding : UInt32)
  | unboundedDecimal (digits : UInt32)
  | text (length : Option UInt64) (padded : Bool) (unit : LengthUnit) (charset : Charset)
  | binary (length : Option UInt64) (padded : Bool)
  | date
  | timestamp (fractionDigits : UInt32)
  | timestampTz (fractionDigits : UInt32)
  | uuid
  | json
  | enumeration
  | unknown
  deriving DecidableEq, Repr

end Plenora.Core.CastTable
