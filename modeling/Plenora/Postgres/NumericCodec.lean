import Plenora.Lib.DecimalGroups
import Plenora.Lib.Machine
import Plenora.Lib.Outcome

/-!
# The NUMERIC codec

`encode_numeric_binary` writes an `i128` with an `i8` scale in the wire format of
PostgreSQL (groups of four digits, weight, sign, declared scale), `NumericDecoded`
reads such bytes back into text, and `decimal_string` and `parse_numeric_components`
are the text forms.  Texts are lists of characters.

    encodeNumericBinary value scale = .ok bytes, with
      readWire bytes = some wire → wire.number = value * 10 ^ (-scale)       (encode_exact)
-/

namespace Plenora.Postgres.Numeric

open Plenora.Lib Plenora.Lib.Decimal

/-! ## The source -/

/-- The text of a number without its sign. -/
def digitsOf (value : Int) : List Char := Nat.toDigits 10 value.natAbs

def zeros (n : Nat) : List Char := List.replicate n '0'

/-- `str::parse` to a signed integer of `bits` bits, of a text of digits. -/
def parseDigits (bits : Nat) (text : List Char) : Except String Nat :=
  if text = [] ∨ ¬ AllDigits text then .error "invalid digit found in string"
  else if value text < 2 ^ (bits - 1) then .ok (value text)
  else .error "number too large to fit in target type"

def parseBase10000Group (chunk : List Char) : Except String Nat := do
  failIf (chunk.length ≠ 4) "numeric base-10000 group must contain four digits"
  let group ← parseDigits 16 chunk
  failIf (¬ group < 10000) "numeric base-10000 group is outside its wire range"
  .ok group

/-- `i16::try_from` and the checked arithmetic of `i16`. -/
def asI16 (n : Int) : Option Int := if -(2 ^ 15) ≤ n ∧ n < 2 ^ 15 then some n else none

/-- A 16-bit word, most significant byte first. -/
def beBytes (n : Int) : List UInt8 := (leBytes 2 (n % 2 ^ 16).toNat).reverse

/-- The digits before the point and the scale after a negative scale has become zeros. -/
def scaled (value scale : Int) : List Char × Nat :=
  if scale < 0 then (digitsOf value ++ zeros scale.natAbs, 0) else (digitsOf value, scale.toNat)

/-- At least one digit before the point. -/
def withInteger (digits : List Char) (scale : Nat) : List Char :=
  if digits.length ≤ scale then zeros (scale + 1 - digits.length) ++ digits else digits

def leadingZeros (gs : List Nat) : Nat := (gs.takeWhile (· = 0)).length

def encodeNumericBinary (value scale : Int) : Except String (List UInt8) := do
  let (digits, scale) := scaled value scale
  let digits := withInteger digits scale
  let integerDigits := digits.length - scale
  let leftPadding := (4 - integerDigits % 4) % 4
  let rightPadding := (4 - scale % 4) % 4
  let padded := zeros leftPadding ++ digits ++ zeros rightPadding
  let integerGroups := (leftPadding + integerDigits) / 4
  let gs ← (fours padded).mapM parseBase10000Group
  let leading := leadingZeros gs
  let trailing := leadingZeros gs.reverse
  let stop := max (gs.length - trailing) leading
  let stripped := (gs.take stop).drop leading
  let weight ← okOr (asI16 integerGroups) "out of range integral type conversion attempted"
  let weight ← okOr ((asI16 (weight - 1)).bind fun weight =>
    (asI16 leading).bind fun leading => asI16 (weight - leading)) "numeric weight overflow"
  let count ← okOr (asI16 stripped.length) "out of range integral type conversion attempted"
  .ok (beBytes count ++ beBytes (if stripped = [] then 0 else weight) ++
    beBytes (if value < 0 then 0x4000 else 0) ++ beBytes scale ++
    stripped.flatMap fun (g : Nat) => beBytes g)

def decimalString (value scale : Int) : List Char :=
  let sign := if value < 0 then ['-'] else []
  if scale < 0 then sign ++ (digitsOf value ++ zeros scale.natAbs)
  else
    let scale := scale.toNat
    let padded := withInteger (digitsOf value) scale
    let split := padded.length - scale
    sign ++ if scale = 0 then padded else padded.take split ++ '.' :: padded.drop split

/-- The sign of a text and what follows it. -/
def signed : List Char → Bool × List Char
  | '-' :: rest => (true, rest)
  | '+' :: rest => (false, rest)
  | text => (false, text)

/-- `split_once('.')`, the whole text and nothing where there is no point. -/
def splitPoint (text : List Char) : List Char × List Char :=
  (text.takeWhile (· ≠ '.'), (text.dropWhile (· ≠ '.')).drop 1)

def parseNumericComponents (text : List Char) : Except String (Int × Int) := do
  let (negative, unsigned) := signed text
  failIf (unsigned = []) "numeric vuoto"
  let (integer, fraction) := splitPoint unsigned
  failIf ('.' ∈ fraction ∨ (integer = [] ∧ fraction = []) ∨ ¬ AllDigits integer ∨
    ¬ AllDigits fraction) "numeric non valido"
  failIf (¬ fraction.length < 2 ^ 7) "out of range integral type conversion attempted"
  let n ← parseDigits 128 ((if integer = [] then ['0'] else integer) ++ fraction)
  .ok (if negative then -n else n, fraction.length)

/-! ### Reading -/

/-- The signed word of two bytes, most significant first. -/
def i16Of (raw : List UInt8) (at_ : Nat) : Int :=
  let n := natOfLe ((raw.drop at_).take 2).reverse
  if n < 2 ^ 15 then n else n - 2 ^ 16

def u16Of (raw : List UInt8) (at_ : Nat) : Nat := natOfLe ((raw.drop at_).take 2).reverse

/-- A digit by its place, zero where there is none. -/
def digitAt (digits : List Nat) (i : Int) : Nat := if i < 0 then 0 else digits.getD i.toNat 0

def readDigits (raw : List UInt8) (ndigits : Nat) : Except String (List Nat) :=
  (List.range ndigits).mapM fun i => do
    let digit := u16Of raw (8 + i * 2)
    failIf (digit > 9999) "NUMERIC digit fuori dall'intervallo base-10000"
    .ok digit

/-- The places from `weight` down to zero; the first group is written without its zeros. -/
def integerPart (digits : List Nat) (weight : Int) : List Char :=
  let written :=
    if weight ≥ 0 then
      (List.range (weight.toNat + 1)).reverse.foldl (fun text (pos : Nat) =>
        let chunk := digitAt digits (weight - pos)
        if text = [] then Nat.toDigits 10 chunk else text ++ four chunk) []
    else []
  if written = [] then ['0'] else written

/-- The places after the point, cut to the declared scale. -/
def fractionPart (digits : List Nat) (weight : Int) (dscale : Nat) : List Char :=
  let written := ((List.range ((dscale + 3) / 4)).flatMap fun (i : Nat) =>
    four (digitAt digits (weight - (-1 - (i : Int))))).take dscale
  written ++ zeros (dscale - written.length)

def numericDecoded (raw : List UInt8) : Except String (List Char) := do
  failIf (raw.length < 8) "NUMERIC payload troppo corto"
  let ndigits := i16Of raw 0
  let weight := i16Of raw 2
  let sign := u16Of raw 4
  let dscale := i16Of raw 6
  if sign = 0xC000 then .ok "NaN".toList
  else if sign = 0xD000 then .ok "Infinity".toList
  else if sign = 0xF000 then .ok "-Infinity".toList
  else do
    failIf (ndigits < 0) "NUMERIC ndigits negativo"
    let ndigits := ndigits.toNat
    let dscale := (max dscale 0).toNat
    failIf (raw.length < 8 + ndigits * 2) "NUMERIC payload troppo corto per ndigits"
    let digits ← readDigits raw ndigits
    if ndigits = 0 then
      .ok (if dscale > 0 then '0' :: '.' :: zeros dscale else ['0'])
    else
      .ok ((if sign = 0x4000 then ['-'] else []) ++ integerPart digits weight ++
        if dscale > 0 then '.' :: fractionPart digits weight dscale else [])

/-! ## The wire format -/

/-- A number of the wire format. -/
structure Wire where
  groups : List Nat
  weight : Int
  sign : Nat
  dscale : Nat
  deriving DecidableEq, Repr

/-- The header, then so many groups and nothing else. -/
def readWire (raw : List UInt8) : Option Wire :=
  let n := u16Of raw 0
  if raw.length = 8 + 2 * n then
    some ⟨(List.range n).map fun i => u16Of raw (8 + 2 * i), i16Of raw 2, u16Of raw 4, u16Of raw 6⟩
  else none

def Wire.number (w : Wire) : Rat :=
  (if w.sign = 0x4000 then -1 else 1) * magnitude w.weight w.groups

end Plenora.Postgres.Numeric
