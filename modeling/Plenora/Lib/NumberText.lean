import Plenora.Lib.Decimal
import Plenora.Lib.IeeeRounding
import Plenora.Lib.JsonText

/-!
# Numbers read from texts

The texts that parse as a 64-bit integer and as a binary64, and the parts they are spelled with.
-/

namespace Plenora.Lib.NumberText

open Json (Text Digits)
open Decimal (AllDigits value)

/-! ## Reading -/

/-- Is there a minus sign, and what follows the sign. -/
def splitSign : Text → Bool × Text
  | '-' :: rest => (true, rest)
  | '+' :: rest => (false, rest)
  | rest => (false, rest)

def signed (negative : Bool) (n : Nat) : Int := if negative then -n else n

/-- The text as a signed 64-bit integer. -/
def parseI64 (text : Text) : Option Int :=
  let (negative, digits) := splitSign text
  if digits = [] ∨ ¬ AllDigits digits then none
  else
    let n := signed negative (value digits)
    if -2 ^ 63 ≤ n ∧ n < 2 ^ 63 then some n else none

/-- The exponent after the digits. -/
def readExponent : Text → Option Int
  | [] => some 0
  | e :: rest =>
    if e = 'e' ∨ e = 'E' then
      let (negative, digits) := splitSign rest
      if digits = [] ∨ ¬ AllDigits digits then none else some (signed negative (value digits))
    else none

/-- The digits after a point, and what follows them. -/
def readFraction : Text → Text × Text
  | '.' :: rest => (rest.takeWhile Char.isDigit, rest.dropWhile Char.isDigit)
  | rest => ([], rest)

/-- The binary64 nearest to `digits` as a number, times a power of ten. -/
def roundScaled (negative : Bool) (digits : Nat) (exponent : Int) : UInt64 :=
  if 0 ≤ exponent then Ieee.round64 negative (digits * 10 ^ exponent.toNat) 1
  else Ieee.round64 negative digits (10 ^ (-exponent).toNat)

/-- The text of a number without its sign as a binary64. -/
def parseDecimal (negative : Bool) (text : Text) : Option UInt64 :=
  let integer := text.takeWhile Char.isDigit
  let (fraction, rest) := readFraction (text.dropWhile Char.isDigit)
  if integer = [] ∧ fraction = [] then none
  else (readExponent rest).map fun exponent =>
    roundScaled negative (value (integer ++ fraction)) (exponent - fraction.length)

def lower (text : Text) : Text := text.map Char.toLower

/-- The text as a binary64. -/
def parseF64 (text : Text) : Option UInt64 :=
  let (negative, body) := splitSign text
  if lower body = "inf".toList ∨ lower body = "infinity".toList then
    some (Ieee.ofPattern negative Ieee.binary64.infinity)
  else if lower body = "nan".toList then
    some (Ieee.ofPattern negative (Ieee.binary64.infinity + 2 ^ 51))
  else parseDecimal negative body

/-! ## Spellings -/

/-- The sign of an exponent and its digits, after the letter. -/
structure Power where
  letter : Char
  sign : Text
  digits : Text

def Power.text (p : Power) : Text := p.letter :: p.sign ++ p.digits

def Power.WellFormed (p : Power) : Prop :=
  (p.letter = 'e' ∨ p.letter = 'E') ∧ (p.sign = [] ∨ p.sign = ['+'] ∨ p.sign = ['-']) ∧
    Digits p.digits

def Power.exponent (p : Power) : Int := signed (p.sign = ['-']) (value p.digits)

def fractionText : Option Text → Text
  | none => []
  | some digits => '.' :: digits

def powerText : Option Power → Text
  | none => []
  | some p => p.text

theorem takeWhile_digits {l rest : Text} (hl : AllDigits l)
    (hrest : ∀ c ∈ rest.head?, c.isDigit = false) :
    (l ++ rest).takeWhile Char.isDigit = l ∧ (l ++ rest).dropWhile Char.isDigit = rest := by
  have hstop : rest.takeWhile Char.isDigit = [] ∧ rest.dropWhile Char.isDigit = rest := by
    cases rest with
    | nil => exact ⟨rfl, rfl⟩
    | cons c rest =>
      have hc := hrest c rfl
      exact ⟨List.takeWhile_cons_of_neg (by simp [hc]), List.dropWhile_cons_of_neg (by simp [hc])⟩
  constructor
  · rw [List.takeWhile_append_of_pos hl, hstop.1, List.append_nil]
  · rw [List.dropWhile_append_of_pos hl, hstop.2]

end Plenora.Lib.NumberText
