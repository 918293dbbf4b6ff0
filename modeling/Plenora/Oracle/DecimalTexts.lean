import Plenora.Oracle.NumericReads
import Plenora.Lib.DecimalGroups

/-!
# Decimal texts

A decimal as a text spells it, the number it denotes, and what the two decimal decoders make of
it.  The significant digits and the place of the first one are a normal form of the number.

    parseDecimal text p s = .ok v ↔ text spells d, d fits p and s, v = d.value * 10 ^ s
                                                                    (parseDecimal_iff)
    canonicalDecimal text = some c ↔ text spells d, d fits 64 bits, c = d.canonical
                                                                    (canonicalDecimal_iff)
    d.canonical = d'.canonical     ↔ d.value = d'.value             (canonical_inj)
-/

namespace Plenora.Oracle.NumericReads

open Plenora.Lib Plenora.Lib.Decimal Plenora.Core
open Plenora.Lib.NumberText (splitSign parseI64 signed Power fractionText powerText)
open Plenora.Lib.Patterns (splitOnce splitOnce_iff)

/-! ## Texts -/

/-- An optional sign, digits around an optional point, an optional power of ten. -/
structure DecimalText where
  sign : List Char
  whole : List Char
  point : Option (List Char)
  power : Option Power
  sign_spec : sign = [] ∨ sign = ['-'] ∨ sign = ['+']
  whole_digits : AllDigits whole
  fraction_digits : AllDigits (point.getD [])
  some_digit : ¬ (whole = [] ∧ point.getD [] = [])
  power_spec : ∀ p ∈ power, p.WellFormed

namespace DecimalText

def fraction (d : DecimalText) : List Char := d.point.getD []

def negative (d : DecimalText) : Bool := d.sign = ['-']

def exponent (d : DecimalText) : Int := (d.power.map Power.exponent).getD 0

def mantissa (d : DecimalText) : List Char := d.whole ++ fractionText d.point

def text (d : DecimalText) : List Char := d.sign ++ (d.mantissa ++ powerText d.power)

def digits (d : DecimalText) : List Char := d.whole ++ d.fraction

/-- Without an exponent, the fraction within the scale, the integer part within the rest. -/
structure Fits (d : DecimalText) (precision scale : Nat) : Prop where
  plain : d.power = none
  fraction : d.fraction.length ≤ scale
  whole : numberOfDigits (Decimal.value d.whole) ≤ precision - scale

/-- The number the text denotes. -/
def value (d : DecimalText) : Rat :=
  (if d.negative then -1 else 1) *
    (Decimal.value d.digits * 10 ^ (d.exponent - d.fraction.length : Int))

end DecimalText

/-! ## Signs, points and exponents -/

theorem digit_plain {c : Char} (h : c.isDigit) :
    c ≠ '-' ∧ c ≠ '+' ∧ c ≠ '.' ∧ c ≠ 'e' ∧ c ≠ 'E' := by
  refine ⟨?_, ?_, ?_, ?_, ?_⟩ <;> rintro rfl <;> revert h <;> decide

theorem splitSign_append {sign rest : List Char} (hs : sign = [] ∨ sign = ['-'] ∨ sign = ['+'])
    (hrest : ∀ c ∈ rest.head?, c ≠ '-' ∧ c ≠ '+') :
    splitSign (sign ++ rest) = (decide (sign = ['-']), rest) := by
  rcases hs with rfl | rfl | rfl
  · show splitSign rest = (false, rest)
    unfold splitSign
    split
    next => exact absurd rfl (hrest '-' rfl).1
    next => exact absurd rfl (hrest '+' rfl).2
    next => rfl
  · rfl
  · rfl

theorem splitSign_spec (text : List Char) :
    ∃ sign : List Char, (sign = [] ∨ sign = ['-'] ∨ sign = ['+']) ∧
      text = sign ++ (splitSign text).2 ∧ (splitSign text).1 = decide (sign = ['-']) := by
  unfold splitSign
  split
  next rest => exact ⟨['-'], by simp, rfl, rfl⟩
  next rest => exact ⟨['+'], by simp, rfl, rfl⟩
  next => exact ⟨[], by simp, rfl, rfl⟩

theorem splitPoint_spec (text : List Char) :
    ∃ point, text = (splitPoint text).1 ++ fractionText point ∧
      (splitPoint text).2 = point.getD [] := by
  unfold splitPoint
  cases h : splitOnce '.' text with
  | none => exact ⟨none, (List.append_nil _).symm, rfl⟩
  | some parts =>
    obtain ⟨htext, -⟩ := splitOnce_iff.1 (show splitOnce '.' text = some (parts.1, parts.2) from h)
    exact ⟨some parts.2, htext, rfl⟩

theorem splitPoint_mantissa {whole : List Char} (h : AllDigits whole)
    (point : Option (List Char)) :
    splitPoint (whole ++ fractionText point) = (whole, point.getD []) := by
  have hpoint : '.' ∉ whole := fun hmem => absurd (h '.' hmem) (by decide)
  unfold splitPoint
  cases point with
  | none =>
    have hnone : splitOnce '.' (whole ++ fractionText none) = none := by
      cases hsplit : splitOnce '.' (whole ++ fractionText none) with
      | none => rfl
      | some parts =>
        obtain ⟨htext, -⟩ :=
          splitOnce_iff.1 (show _ = some (parts.1, parts.2) from hsplit)
        refine absurd ?_ hpoint
        have happ : whole = parts.1 ++ '.' :: parts.2 := by
          rw [← htext]
          exact (List.append_nil whole).symm
        rw [happ]
        simp
    rw [hnone]
    show (whole ++ [], []) = (whole, [])
    rw [List.append_nil]
  | some digits =>
    show (splitOnce '.' (whole ++ '.' :: digits)).getD _ = _
    rw [splitOnce_iff.2 ⟨rfl, hpoint⟩]
    rfl

/-- The letter of an exponent. -/
def isExponentMark (c : Char) : Bool := c = 'e' || c = 'E'

/-- A number a signed 64-bit integer holds. -/
def InI64 (n : Int) : Prop := -2 ^ 63 ≤ n ∧ n < 2 ^ 63

theorem checkedI64_iff {n m : Int} : checkedI64 n = some m ↔ InI64 n ∧ n = m := by
  unfold checkedI64
  split
  next h => rw [Option.some_inj, and_iff_right (show InI64 n from h)]
  next h => exact iff_of_false (by simp) fun hn => h hn.1

theorem parseI64_append {sign digits : List Char}
    (hsign : sign = [] ∨ sign = ['+'] ∨ sign = ['-']) (hdigits : Json.Digits digits) :
    parseI64 (sign ++ digits) =
      checkedI64 (signed (decide (sign = ['-'])) (Decimal.value digits)) := by
  have hhead : ∀ c ∈ digits.head?, c ≠ '-' ∧ c ≠ '+' := fun c hc =>
    have hd := digit_plain (hdigits.2 c (List.mem_of_mem_head? hc))
    ⟨hd.1, hd.2.1⟩
  unfold parseI64
  rw [splitSign_append (by rcases hsign with h | h | h <;> simp [h]) hhead]
  dsimp only
  rw [if_neg (by rw [not_or, not_not]; exact hdigits)]
  rfl

theorem exists_of_parseI64 {text : List Char} {n : Int} (h : parseI64 text = some n) :
    ∃ sign digits : List Char, (sign = [] ∨ sign = ['+'] ∨ sign = ['-']) ∧
      text = sign ++ digits ∧ Json.Digits digits := by
  obtain ⟨sign, hsign, htext, -⟩ := splitSign_spec text
  unfold parseI64 at h
  dsimp only at h
  split at h
  next => cases h
  next hdigits =>
    rw [not_or, not_not] at hdigits
    exact ⟨sign, _, by rcases hsign with h | h | h <;> simp [h], htext, hdigits⟩

theorem splitExponent_eq (text : List Char) :
    splitExponent text = match text.dropWhile fun c => !isExponentMark c with
      | [] => some (text, 0)
      | _ :: rest => (parseI64 rest).map fun exponent =>
          (text.takeWhile fun c => !isExponentMark c, exponent) := rfl

/-- An exponent that fits is split off. -/
theorem splitExponent_append {mantissa : List Char} {power : Option Power}
    (hmark : ∀ c ∈ mantissa, isExponentMark c = false) (hpower : ∀ p ∈ power, p.WellFormed) :
    splitExponent (mantissa ++ powerText power) =
      (checkedI64 ((power.map Power.exponent).getD 0)).map (mantissa, ·) := by
  have hall : ∀ c ∈ mantissa, (!isExponentMark c) = true := fun c hc => by rw [hmark c hc]; rfl
  rw [splitExponent_eq, List.dropWhile_append_of_pos hall, List.takeWhile_append_of_pos hall]
  cases power with
  | none => simp [powerText, checkedI64]
  | some p =>
    obtain ⟨hletter, hsign, hdigits⟩ := hpower p rfl
    have hmarked : isExponentMark p.letter = true := by simpa [isExponentMark] using hletter
    have htext : powerText (some p) = p.letter :: (p.sign ++ p.digits) := rfl
    rw [htext, List.dropWhile_cons_of_neg (by simp [hmarked]),
      List.takeWhile_cons_of_neg (by simp [hmarked]), List.append_nil]
    dsimp only
    rw [parseI64_append hsign hdigits]
    rfl

theorem exists_of_splitExponent {text mantissa : List Char} {exponent : Int}
    (h : splitExponent text = some (mantissa, exponent)) :
    ∃ power : Option Power, text = mantissa ++ powerText power ∧ ∀ p ∈ power, p.WellFormed := by
  have hsplit : text.takeWhile (fun c => !isExponentMark c) ++
      text.dropWhile (fun c => !isExponentMark c) = text := List.takeWhile_append_dropWhile
  rw [splitExponent_eq] at h
  split at h
  next hdrop =>
    cases h
    exact ⟨none, (List.append_nil _).symm, by simp⟩
  next letter rest hdrop =>
    obtain ⟨e, he, heq⟩ := Option.map_eq_some_iff.1 h
    cases heq
    obtain ⟨sign, digits, hsign, hrest, hdigits⟩ := exists_of_parseI64 he
    have hletter : isExponentMark letter = true := by
      have hhead := List.head?_dropWhile_not (fun c => !isExponentMark c) text
      rw [hdrop] at hhead
      simpa using hhead
    refine ⟨some ⟨letter, sign, digits⟩, ?_, ?_⟩
    · show text = _ ++ (letter :: sign ++ digits)
      rw [List.cons_append, ← hrest, ← hdrop, hsplit]
    · intro p hp
      cases hp
      exact ⟨by simpa [isExponentMark] using hletter, hsign, hdigits⟩

/-! ## parse_decimal -/

namespace DecimalText

theorem mantissa_clean (d : DecimalText) :
    ∀ c ∈ d.mantissa, c ≠ '-' ∧ c ≠ '+' ∧ isExponentMark c = false := by
  have hdigit {c : Char} (hc : c.isDigit) : c ≠ '-' ∧ c ≠ '+' ∧ isExponentMark c = false := by
    obtain ⟨hminus, hplus, -, he, hE⟩ := digit_plain hc
    simp [isExponentMark, hminus, hplus, he, hE]
  intro c hc
  rcases List.mem_append.1 hc with hc | hc
  · exact hdigit (d.whole_digits c hc)
  · cases hp : d.point with
    | none =>
      rw [hp] at hc
      cases hc
    | some digits =>
      rw [hp] at hc
      rcases List.mem_cons.1 hc with rfl | hc
      · decide
      · refine hdigit (d.fraction_digits c ?_)
        rw [hp]
        exact hc

theorem mantissa_ne_nil (d : DecimalText) : d.mantissa ≠ [] := by
  intro h
  obtain ⟨hwhole, hpoint⟩ := List.append_eq_nil_iff.1 h
  refine d.some_digit ⟨hwhole, ?_⟩
  cases hp : d.point with
  | none => rfl
  | some digits =>
    rw [hp] at hpoint
    cases hpoint

theorem splitSign_text (d : DecimalText) :
    splitSign d.text = (d.negative, d.mantissa ++ powerText d.power) := by
  refine splitSign_append d.sign_spec fun c hc => ?_
  rw [List.head?_append_of_ne_nil _ d.mantissa_ne_nil] at hc
  have := d.mantissa_clean c (List.mem_of_mem_head? hc)
  exact ⟨this.1, this.2.1⟩

theorem splitPoint_mantissa (d : DecimalText) : splitPoint d.mantissa = (d.whole, d.fraction) :=
  NumericReads.splitPoint_mantissa d.whole_digits d.point

theorem allDigits_digits (d : DecimalText) : AllDigits d.digits :=
  allDigits_append.2 ⟨d.whole_digits, d.fraction_digits⟩

/-- The sign in front of a number. -/
theorem value_eq (d : DecimalText) :
    d.value = (if d.negative then -1 else 1) *
      (Decimal.value d.digits * 10 ^ (d.exponent - d.fraction.length : Int)) := rfl

/-- The number at a scale that holds the fraction: the digits, filled up with zeros. -/
theorem value_scaled (d : DecimalText) (hpower : d.power = none) {scale : Nat}
    (h : d.fraction.length ≤ scale) :
    d.value * 10 ^ scale = (if d.negative then -1 else 1) *
      (Decimal.value (d.digits ++ List.replicate (scale - d.fraction.length) '0') : Rat) := by
  have hexponent : d.exponent = 0 := by rw [exponent, hpower]; rfl
  obtain ⟨k, rfl⟩ := Nat.exists_eq_add_of_le h
  have hpow : (10 : Rat) ^ (0 - d.fraction.length : Int) * 10 ^ (d.fraction.length + k) = 10 ^ k := by
    rw [← zpow_natCast, ← zpow_natCast, ← zpow_add₀ (by norm_num)]
    congr 1
    push_cast
    ring
  rw [value_append, value_replicate_zero, Nat.add_zero, List.length_replicate,
    Nat.add_sub_cancel_left, value_eq, hexponent, Nat.cast_mul, Nat.cast_pow]
  push_cast
  rw [← hpow]
  ring

end DecimalText

theorem parseI128_iff {digits : List Char} {n : Int} (hne : digits ≠ []) (h : AllDigits digits) :
    parseI128 digits = some n ↔ n = Decimal.value digits ∧ Decimal.value digits < 2 ^ 127 := by
  unfold parseI128
  split
  next hbad =>
    refine iff_of_false (by simp) fun hv => ?_
    rcases hbad with hbad | hbad | hbad
    · exact hne hbad
    · exact hbad h
    · omega
  next hgood =>
    rw [not_or, not_or, Nat.not_le] at hgood
    rw [Option.some_inj]
    exact ⟨fun heq => ⟨heq.symm, hgood.2.2⟩, fun heq => heq.1.symm⟩

/-- The digits that go to the integer reader: a text without integer part starts with a zero. -/
theorem value_filled (whole fraction : List Char) (n : Nat) :
    Decimal.value ((if whole = [] then ['0'] else whole) ++ fraction ++ List.replicate n '0') =
      Decimal.value (whole ++ fraction ++ List.replicate n '0') := by
  split
  next h =>
    subst h
    rw [List.append_assoc, value_append, List.nil_append]
    have hzero : Decimal.value ['0'] = 0 := by decide
    rw [hzero, Nat.zero_mul, Nat.zero_add]
  next => rfl

theorem abs_signed (negative : Bool) (n : Nat) :
    |(if negative then -1 else 1) * (n : Rat)| = n := by
  cases negative <;> simp

theorem signed_eq_iff {negative : Bool} {n : Nat} {v : Int} :
    (if negative then -(n : Int) else n) = v ↔ (v : Rat) = (if negative then -1 else 1) * n := by
  cases negative with
  | true =>
    simp only [if_true, neg_one_mul]
    constructor
    · rintro rfl
      push_cast
      rfl
    · intro h
      exact_mod_cast h.symm
  | false =>
    simp only [Bool.false_eq_true, if_false, one_mul]
    constructor
    · rintro rfl
      rfl
    · intro h
      exact_mod_cast h.symm

/-- A text that is taken has the form of a decimal without an exponent. -/
theorem exists_text_of_parseDecimal {text : List Char} {precision : UInt8} {scale : Int8} {v : Int}
    (h : parseDecimal text precision scale = .ok v) :
    ∃ d : DecimalText, d.power = none ∧ text = d.text := by
  obtain ⟨sign, hsign, htext, -⟩ := splitSign_spec text
  obtain ⟨point, hunsigned, hfraction⟩ := splitPoint_spec (splitSign text).2
  unfold parseDecimal at h
  dsimp only at h
  obtain ⟨_, hform, _⟩ := bind_eq_ok.1 h
  rw [failIf_eq_ok, not_or, not_or, not_or, not_not, not_not] at hform
  obtain ⟨hsome, hwhole, hdigits, -⟩ := hform
  rw [hfraction] at hsome hdigits
  refine ⟨⟨sign, _, point, none, hsign, hwhole, hdigits, hsome, by simp⟩, rfl, ?_⟩
  show text = sign ++ (((splitPoint (splitSign text).2).1 ++ fractionText point) ++ [])
  rw [List.append_nil, ← hunsigned]
  exact htext

/-- What becomes of a text of that form. -/
theorem parseDecimal_text (d : DecimalText) (hpower : d.power = none) (precision : UInt8)
    (scale : Int8) (v : Int) :
    parseDecimal d.text precision scale = .ok v ↔
      d.fraction.length ≤ scaleDigits scale ∧
        numberOfDigits (Decimal.value d.whole) ≤ precision.toNat - scaleDigits scale ∧
        |d.value * 10 ^ scaleDigits scale| < 2 ^ 127 ∧
        (v : Rat) = d.value * 10 ^ scaleDigits scale := by
  have hsplit : splitSign d.text = (d.negative, d.mantissa) := by
    rw [d.splitSign_text, hpower]
    simp [powerText]
  have hlength : (trimStart d.whole).length = numberOfDigits (Decimal.value d.whole) := by
    rw [length_eq_numberOfDigits (allDigits_trimStart d.whole_digits) (head_trimStart d.whole),
      value_trimStart]
  unfold parseDecimal
  rw [hsplit]
  dsimp only
  rw [d.splitPoint_mantissa, hlength]
  simp only [bind_eq_ok, failIf_eq_ok, okOr_eq_ok, not_or, not_not, Nat.not_lt, exists_const]
  have hform : ¬ (d.whole = [] ∧ d.fraction = []) ∧ AllDigits d.whole ∧ AllDigits d.fraction :=
    ⟨d.some_digit, d.whole_digits, d.fraction_digits⟩
  have hall : AllDigits ((if d.whole = [] then ['0'] else d.whole) ++ d.fraction ++
      List.replicate (scaleDigits scale - d.fraction.length) '0') := by
    refine allDigits_append.2 ⟨allDigits_append.2 ⟨?_, d.fraction_digits⟩,
      allDigits_replicate_zero _⟩
    split
    next => decide
    next => exact d.whole_digits
  have hne : (if d.whole = [] then ['0'] else d.whole) ++ d.fraction ++
      List.replicate (scaleDigits scale - d.fraction.length) '0' ≠ [] := by
    rw [List.append_assoc]
    refine List.append_ne_nil_of_left_ne_nil ?_ _
    split
    next => exact List.cons_ne_nil _ _
    next h => exact h
  simp only [parseI128_iff hne hall, value_filled]
  have hok (n : Int) : (pure (if d.negative then -n else n) : Result Int) = .ok v ↔
      (if d.negative then -n else n) = v := ⟨fun h => Except.ok.inj h, fun h => congrArg _ h⟩
  have hscaled (hfits : d.fraction.length ≤ scaleDigits scale) :
      d.value * 10 ^ scaleDigits scale = _ := d.value_scaled hpower hfits
  constructor
  · rintro ⟨⟨-, -, -, hfits⟩, hdigits, n, ⟨rfl, hlt⟩, hv⟩
    rw [hscaled hfits, abs_signed]
    exact ⟨hfits, hdigits, mod_cast hlt, signed_eq_iff.1 ((hok _).1 hv)⟩
  · rintro ⟨hfits, hdigits, hlt, hv⟩
    rw [hscaled hfits, abs_signed] at hlt
    rw [hscaled hfits] at hv
    exact ⟨⟨hform.1, hform.2.1, hform.2.2, hfits⟩, hdigits, _, ⟨rfl, mod_cast hlt⟩,
      (hok _).2 (signed_eq_iff.2 hv)⟩

/-- **A decimal column takes a text exactly when it spells a decimal that fits it.** -/
theorem parseDecimal_iff (text : List Char) (precision : UInt8) (scale : Int8) (v : Int) :
    parseDecimal text precision scale = .ok v ↔
      ∃ d : DecimalText, text = d.text ∧ d.Fits precision.toNat (scaleDigits scale) ∧
        |d.value * 10 ^ scaleDigits scale| < 2 ^ 127 ∧
        (v : Rat) = d.value * 10 ^ scaleDigits scale := by
  constructor
  · intro h
    obtain ⟨d, hpower, rfl⟩ := exists_text_of_parseDecimal h
    obtain ⟨hfraction, hwhole, hv⟩ := (parseDecimal_text d hpower precision scale v).1 h
    exact ⟨d, rfl, ⟨hpower, hfraction, hwhole⟩, hv⟩
  · rintro ⟨d, rfl, hfits, h⟩
    exact (parseDecimal_text d hfits.plain precision scale v).2 ⟨hfits.fraction, hfits.whole, h⟩

/-! ## canonical_decimal -/

namespace DecimalText

/-- The zeros in front of the first significant digit. -/
def leading (d : DecimalText) : Nat := d.digits.length - (trimStart d.digits).length

def significant (d : DecimalText) : List Char := trimEnd '0' (trimStart d.digits)

/-- The decimal exponent of the first significant digit. -/
def place (d : DecimalText) : Int := d.whole.length + d.exponent - d.leading

/-- The normal form of the number: zero has one of its own. -/
def canonical (d : DecimalText) : Canonical :=
  if d.significant = [] then (false, [], 0) else (d.negative, d.significant, d.place)

/-- The exponent fits 64 bits, and so does the count that leads to the first digit's place. -/
def Fits64 (d : DecimalText) : Prop :=
  InI64 d.exponent ∧ (d.significant ≠ [] → InI64 d.whole.length ∧
    InI64 (d.whole.length + d.exponent) ∧ InI64 d.leading ∧ InI64 d.place)

end DecimalText

theorem significant_eq_nil_iff (d : DecimalText) :
    d.significant = [] ↔ Decimal.value d.digits = 0 := by
  rw [value_eq_zero_iff d.allDigits_digits]
  unfold DecimalText.significant
  constructor
  · intro h
    obtain ⟨n, hn⟩ := eq_trimEnd_append '0' (trimStart d.digits)
    rw [h, List.nil_append] at hn
    cases n with
    | zero => exact hn
    | succ n =>
      refine absurd rfl (head_trimStart d.digits '0' ?_)
      rw [hn]
      rfl
  · intro h
    rw [h]
    rfl

theorem checkedPoint_iff {length leading : Nat} {exponent n : Int} :
    checkedPoint length leading exponent = some n ↔
      (InI64 length ∧ InI64 (length + exponent) ∧ InI64 leading ∧
        InI64 (length + exponent - leading)) ∧ n = length + exponent - leading := by
  unfold checkedPoint
  simp only [Option.bind_eq_bind, Option.bind_eq_some_iff, checkedI64_iff]
  constructor
  · rintro ⟨_, ⟨hlength, rfl⟩, _, ⟨hsum, rfl⟩, _, ⟨hleading, rfl⟩, hpoint, rfl⟩
    exact ⟨⟨hlength, hsum, hleading, hpoint⟩, rfl⟩
  · rintro ⟨⟨hlength, hsum, hleading, hpoint⟩, rfl⟩
    exact ⟨_, ⟨hlength, rfl⟩, _, ⟨hsum, rfl⟩, _, ⟨hleading, rfl⟩, hpoint, rfl⟩

theorem canonicalDecimal_eq (d : DecimalText) :
    canonicalDecimal d.text = (checkedI64 d.exponent).bind fun _ =>
      if d.significant = [] then some (false, [], 0)
      else (checkedPoint d.whole.length d.leading d.exponent).map fun place =>
        (d.negative, d.significant, place) := by
  have hne : d.text ≠ [] := by
    unfold DecimalText.text
    simp [d.mantissa_ne_nil]
  have hform : ¬ ((d.whole = [] ∧ d.fraction = []) ∨ ¬ AllDigits (d.whole ++ d.fraction)) := by
    rw [not_or, not_not]
    exact ⟨d.some_digit, d.allDigits_digits⟩
  have hsplit : splitExponent (d.mantissa ++ powerText d.power) =
      (checkedI64 d.exponent).map (d.mantissa, ·) :=
    splitExponent_append (fun c hc => (d.mantissa_clean c hc).2.2) d.power_spec
  unfold canonicalDecimal
  rw [if_neg hne, d.splitSign_text]
  dsimp only
  rw [hsplit]
  cases hexponent : checkedI64 d.exponent with
  | none => rfl
  | some e =>
    obtain ⟨-, rfl⟩ := checkedI64_iff.1 hexponent
    rw [Option.map_some, Option.bind_some, Option.bind_some]
    dsimp only
    rw [d.splitPoint_mantissa]
    dsimp only
    rw [if_neg hform]
    rfl

/-- **A text is answered exactly when it spells a decimal whose counts fit 64 bits.** -/
theorem canonicalDecimal_text (d : DecimalText) (c : Canonical) :
    canonicalDecimal d.text = some c ↔ d.Fits64 ∧ c = d.canonical := by
  rw [canonicalDecimal_eq, Option.bind_eq_some_iff]
  unfold DecimalText.Fits64 DecimalText.canonical
  by_cases hzero : d.significant = []
  · simp only [checkedI64_iff, if_pos hzero]
    simp [hzero, eq_comm]
  · simp only [checkedI64_iff, if_neg hzero, Option.map_eq_some_iff, checkedPoint_iff]
    constructor
    · rintro ⟨_, ⟨hexponent, rfl⟩, _, ⟨hfits, rfl⟩, rfl⟩
      exact ⟨⟨hexponent, fun _ => hfits⟩, rfl⟩
    · rintro ⟨⟨hexponent, hfits⟩, rfl⟩
      exact ⟨_, ⟨hexponent, rfl⟩, _, ⟨hfits hzero, rfl⟩, rfl⟩

theorem exists_text_of_canonicalDecimal {text : List Char} {c : Canonical}
    (h : canonicalDecimal text = some c) : ∃ d : DecimalText, text = d.text := by
  obtain ⟨sign, hsign, htext, -⟩ := splitSign_spec text
  unfold canonicalDecimal at h
  split at h
  next => cases h
  next =>
    dsimp only at h
    obtain ⟨⟨mantissa, exponent⟩, hexponent, h⟩ := Option.bind_eq_some_iff.1 h
    split at h
    next => cases h
    next hform =>
      rw [not_or, not_not] at hform
      obtain ⟨power, hrest, hpower⟩ := exists_of_splitExponent hexponent
      obtain ⟨point, hmantissa, hfraction⟩ := splitPoint_spec mantissa
      rw [hfraction] at hform
      obtain ⟨hwhole, hdigits⟩ := allDigits_append.1 hform.2
      refine ⟨⟨sign, _, point, power, hsign, hwhole, hdigits, hform.1, hpower⟩, ?_⟩
      show text = sign ++ (((splitPoint mantissa).1 ++ fractionText point) ++ powerText power)
      rw [← hmantissa, ← hrest]
      exact htext

/-! ## Normal forms -/

theorem allDigits_significant (d : DecimalText) : AllDigits d.significant :=
  allDigits_trimEnd (allDigits_trimStart d.allDigits_digits)

theorem head_significant (d : DecimalText) : ∀ c ∈ d.significant.head?, c ≠ '0' := by
  intro c hc
  obtain ⟨n, hn⟩ := eq_trimEnd_append '0' (trimStart d.digits)
  refine head_trimStart d.digits c ?_
  have hne : trimEnd '0' (trimStart d.digits) ≠ [] := by
    intro hnil
    have : d.significant = [] := hnil
    rw [this] at hc
    cases hc
  rw [hn, List.head?_append_of_ne_nil _ hne]
  exact hc

/-- The number is its significant digits after the point, moved to the first one's place. -/
theorem value_place (d : DecimalText) :
    d.value = (if d.negative then -1 else 1) * (fractionValue d.significant * 10 ^ d.place) := by
  have hlength : (trimStart d.digits).length ≤ d.digits.length := (trimStart_suffix _).length_le
  have hdigits : d.digits.length = d.whole.length + d.fraction.length := List.length_append
  have hfraction : fractionValue d.significant =
      Decimal.value d.digits / 10 ^ (trimStart d.digits).length := by
    unfold DecimalText.significant
    rw [fractionValue_trimEnd]
    unfold fractionValue
    rw [value_trimStart]
  have hplace : d.place = d.exponent - d.fraction.length + (trimStart d.digits).length := by
    unfold DecimalText.place DecimalText.leading
    push_cast [hlength]
    omega
  rw [d.value_eq, hfraction, hplace, zpow_add₀ (by norm_num), zpow_natCast]
  field_simp

theorem value_eq_zero_iff (d : DecimalText) : d.value = 0 ↔ d.significant = [] := by
  rw [significant_eq_nil_iff, d.value_eq]
  have hpow : (10 : Rat) ^ (d.exponent - d.fraction.length : Int) ≠ 0 := by positivity
  cases d.negative <;> simp [hpow]

/-- The sign of a number that is not zero. -/
theorem negative_iff (d : DecimalText) (h : d.significant ≠ []) : d.negative ↔ d.value < 0 := by
  have hpos : 0 < fractionValue d.significant * 10 ^ d.place := by
    have := le_fractionValue (allDigits_significant d) h (head_significant d)
    positivity
  rw [value_place]
  cases d.negative with
  | true => simpa using hpos
  | false => simpa using hpos.le

theorem canonical_zero {d : DecimalText} (h : d.significant = []) :
    d.canonical = (false, [], 0) := if_pos h

theorem canonical_of_ne {d : DecimalText} (h : d.significant ≠ []) :
    d.canonical = (d.negative, d.significant, d.place) := if_neg h

theorem value_of_canonical {d e : DecimalText} (h : d.canonical = e.canonical) :
    d.value = e.value := by
  by_cases hd : d.significant = []
  · have he : e.significant = [] := by
      by_contra he
      rw [canonical_zero hd, canonical_of_ne he] at h
      exact he (congrArg (·.2.1) h).symm
    rw [(value_eq_zero_iff d).2 hd, (value_eq_zero_iff e).2 he]
  · have he : e.significant ≠ [] := by
      intro he
      rw [canonical_zero he, canonical_of_ne hd] at h
      exact hd (congrArg (·.2.1) h)
    rw [canonical_of_ne hd, canonical_of_ne he] at h
    obtain ⟨hneg, hrest⟩ := Prod.mk.inj h
    obtain ⟨hsig, hplace⟩ := Prod.mk.inj hrest
    rw [value_place, value_place, hneg, hsig, hplace]

/-- **Two texts have one normal form exactly when they denote one number.** -/
theorem canonical_inj (d e : DecimalText) : d.canonical = e.canonical ↔ d.value = e.value := by
  refine ⟨value_of_canonical, fun h => ?_⟩
  by_cases hd : d.significant = []
  · have he : e.significant = [] := (value_eq_zero_iff e).1 (h ▸ (value_eq_zero_iff d).2 hd)
    rw [canonical_zero hd, canonical_zero he]
  · have he : e.significant ≠ [] := fun he =>
      hd ((value_eq_zero_iff d).1 (h ▸ (value_eq_zero_iff e).2 he))
    have hneg : d.negative = e.negative := by
      rw [Bool.eq_iff_iff, negative_iff d hd, negative_iff e he, h]
    have hsize : fractionValue d.significant * 10 ^ d.place =
        fractionValue e.significant * 10 ^ e.place := by
      rw [value_place d, value_place e, hneg] at h
      refine mul_left_cancel₀ ?_ h
      cases e.negative <;> norm_num
    obtain ⟨hsig, hplace⟩ := scientific_inj (allDigits_significant d) (allDigits_significant e)
      hd he (head_significant d) (head_significant e) hsize
    have htrim (d : DecimalText) : trimEnd '0' d.significant = d.significant := trimEnd_trimEnd _ _
    rw [htrim, htrim] at hsig
    rw [canonical_of_ne hd, canonical_of_ne he, hneg, hsig, hplace]

/-- **What `canonical_decimal` answers, on any text.** -/
theorem canonicalDecimal_iff (text : List Char) (c : Canonical) :
    canonicalDecimal text = some c ↔ ∃ d : DecimalText, text = d.text ∧ d.Fits64 ∧
      c = d.canonical := by
  constructor
  · intro h
    obtain ⟨d, rfl⟩ := exists_text_of_canonicalDecimal h
    exact ⟨d, rfl, (canonicalDecimal_text d c).1 h⟩
  · rintro ⟨d, rfl, h⟩
    exact (canonicalDecimal_text d c).2 h

end Plenora.Oracle.NumericReads
