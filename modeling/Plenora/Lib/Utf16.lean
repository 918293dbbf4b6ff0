import Mathlib

/-!
# UTF-16

The code units of a text: a character outside the Basic Multilingual Plane is a pair of surrogates.
-/

namespace Plenora.Lib.Utf16

/-- The code units of a character. -/
def encode (c : Char) : List Nat :=
  if c.toNat < 0x10000 then [c.toNat]
  else [0xD800 + (c.toNat - 0x10000) / 0x400, 0xDC00 + (c.toNat - 0x10000) % 0x400]

/-- `str::encode_utf16` -/
def utf16 (text : List Char) : List Nat := text.flatMap encode

end Plenora.Lib.Utf16
