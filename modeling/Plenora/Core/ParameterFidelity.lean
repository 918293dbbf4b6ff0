import Plenora.Core.Error
import Plenora.Lib.Decimal
import Plenora.Lib.Outcome

/-!
# The forms of a bound text

What every binding checks of a text before it is sent: no NUL where the transport is a
C string, the canonical form of a UUID, the microsecond, the positional decimal.
A character outside ASCII fails each of these checks wherever its bytes stand, so
the forms are read on characters.
-/

namespace Plenora.Core.ParameterFidelity

open Plenora.Lib Plenora.Lib.Decimal

def mapping (provider : ProviderKind) (message : String) : DatabaseError :=
  .new .dataMapping .prepare (some provider) message

/-- Before and after the first character `p` holds of; all and nothing without one. -/
def splitOnce (p : Char → Bool) (text : List Char) : List Char × List Char :=
  (text.takeWhile (!p ·), (text.dropWhile (!p ·)).tail)

theorem splitOnce_append {p : Char → Bool} {l : List Char} (h : ∀ c ∈ l, p c = false)
    (rest : List Char) :
    splitOnce p (l ++ rest) = (l ++ (splitOnce p rest).1, (splitOnce p rest).2) := by
  have h' : ∀ c ∈ l, (!p c) = true := fun c hc => by rw [h c hc]; rfl
  simp only [splitOnce, List.takeWhile_append_of_pos h', List.dropWhile_append_of_pos h']

/-! ## Temporal texts -/

/-- A second fraction beyond the microsecond that is not zero, in the digits after the last
point. -/
def hasSubMicrosecond (value : String) : Bool :=
  '.' ∈ value.toList &&
    ((((value.toList.reverse.takeWhile (· ≠ '.')).reverse).takeWhile Char.isDigit).drop 6).any
      (· ≠ '0')

def rejectSubMicrosecond (provider : ProviderKind) (value : String) : Result Unit :=
  failIf (hasSubMicrosecond value) (mapping provider
    "parametro temporale oltre il microsecondo: la precisione bindabile e il microsecondo")

/-! ## Texts and UUIDs -/

def rejectNul (provider : ProviderKind) (value : String) : Result Unit :=
  failIf (¬ provider ∈ [.mysql, .mariadb, .sqlserver, .oracle, .db2] ∧ '\x00' ∈ value.toList)
    (mapping provider "parametro testuale con carattere NUL")

def isHexDigit (c : Char) : Bool :=
  c.isDigit || ('a' ≤ c && c ≤ 'f') || ('A' ≤ c && c ≤ 'F')

/-- The characters of `8-4-4-4-12`. -/
def isCanonicalUuid (value : String) : Bool :=
  value.toList.length = 36 && (value.toList.zipIdx.all fun (c, index) =>
    if index ∈ [8, 13, 18, 23] then c = '-' else isHexDigit c)

def canonicalUuid (provider : ProviderKind) (value : String) : Result Unit :=
  failIf (¬ isCanonicalUuid value)
    (mapping provider "parametro UUID non in forma canonica 8-4-4-4-12")

/-! ## Positional decimals -/

/-- `[+-]digits[.digits]`, the integer digits without leading zeros. -/
structure DecimalLiteral where
  negative : Bool
  integer : List Char
  fraction : List Char
  integer_digits : AllDigits integer
  fraction_digits : AllDigits fraction
  deriving DecidableEq

/-- The sign and the rest of a literal. -/
def splitSign : List Char → Bool × List Char
  | '-' :: unsigned => (true, unsigned)
  | '+' :: unsigned => (false, unsigned)
  | unsigned => (false, unsigned)

namespace DecimalLiteral

def ofText (text : List Char) : Option DecimalLiteral :=
  let (negative, unsigned) := splitSign text
  let (integer, fraction) := splitOnce (· = '.') unsigned
  if h : ¬ (integer = [] ∧ fraction = []) ∧ AllDigits integer ∧ AllDigits fraction then
    some { negative, integer := trimStart integer, fraction
           integer_digits := allDigits_trimStart h.2.1
           fraction_digits := h.2.2 }
  else none

def parse (provider : ProviderKind) (value : String) : Result DecimalLiteral :=
  okOr (ofText value.toList)
    (mapping provider "parametro decimal fuori dalla forma [+-]cifre[.cifre]")

/-- The number the literal writes. -/
def value (literal : DecimalLiteral) : Rat :=
  (if literal.negative then -1 else 1) *
    (Decimal.value literal.integer + fractionValue literal.fraction)

/-- A literal has no NUL. -/
theorem nul_not_mem {text : List Char} {literal : DecimalLiteral}
    (h : ofText text = some literal) : '\x00' ∉ text := by
  have hsign : '\x00' ∈ text → '\x00' ∈ (splitSign text).2 := by
    unfold splitSign
    split <;> simp
  have hsplit : '\x00' ∈ (splitSign text).2 → '\x00' ∈ (splitOnce (· = '.') (splitSign text).2).1 ∨
      '\x00' ∈ (splitOnce (· = '.') (splitSign text).2).2 := by
    generalize (splitSign text).2 = unsigned
    intro hmem
    rw [← List.takeWhile_append_dropWhile (p := fun c => !decide (c = '.')) (l := unsigned),
      List.mem_append] at hmem
    refine hmem.imp id fun hmem => ?_
    have hhead := List.head?_dropWhile_not (fun c : Char => !decide (c = '.')) unsigned
    unfold splitOnce
    generalize unsigned.dropWhile (fun c => !decide (c = '.')) = rest at hmem hhead
    cases rest with
    | nil => contradiction
    | cons c rest =>
      rcases List.mem_cons.1 hmem with rfl | hmem
      · simp at hhead
      · exact hmem
  intro hmem
  unfold ofText at h
  dsimp only at h
  split at h
  next hdigits =>
    rcases hsplit (hsign hmem) with hm | hm
    · exact absurd (hdigits.2.1 _ hm) (by decide)
    · exact absurd (hdigits.2.2 _ hm) (by decide)
  next => contradiction

end DecimalLiteral

theorem isCanonicalUuid_nul {value : String} (h : isCanonicalUuid value) :
    '\x00' ∉ value.toList := by
  intro hmem
  unfold isCanonicalUuid at h
  rw [Bool.and_eq_true, List.all_eq_true] at h
  obtain ⟨index, hindex⟩ := List.getElem?_of_mem hmem
  have := h.2 ('\x00', index) (by rw [List.mk_mem_zipIdx_iff_getElem?]; exact hindex)
  dsimp only at this
  split at this <;> exact absurd this (by decide)

theorem rejectNul_of_not_mem (provider : ProviderKind) {value : String}
    (h : '\x00' ∉ value.toList) : rejectNul provider value = .ok () :=
  failIf_neg fun hnul => h hnul.2

end Plenora.Core.ParameterFidelity
