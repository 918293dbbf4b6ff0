import Plenora.Oracle.StoredFloats

/-!
# Numeric reads are exact

The three decoders together: a decimal column takes the texts of the numbers it can hold, the normal
form of a decimal text is one of its number, and a dump gives back the double that was stored.
-/

namespace Plenora.Oracle.NumericReads

open Plenora.Lib Plenora.Lib.Decimal Plenora.Core
open Plenora.Lib.NumberText (parseI64 signed)

/-! ## The precisions and scales of a table -/

theorem decimalKind_spec {column : OracleColumn} {precision : UInt8} {scale : Int8}
    (h : decimalKind column = .ok (.decimal precision scale)) :
    1 ≤ precision.toNat ∧ precision.toNat ≤ 38 ∧ (scaleDigits scale : Int) = scale.toInt ∧
      scaleDigits scale ≤ precision.toNat := by
  unfold decimalKind at h
  dsimp only at h
  obtain ⟨_, hp, h⟩ := bind_eq_ok.1 h
  obtain ⟨_, hs, h⟩ := bind_eq_ok.1 h
  obtain ⟨_, hrange, h⟩ := bind_eq_ok.1 h
  rw [failIf_eq_ok] at hp hs hrange
  have hkind := Except.ok.inj h
  injection hkind with hprecision hscale
  generalize (column.precision.getD 38).toNat = p at hp hrange hprecision
  generalize (column.scale.getD 0).toInt = s at hs hrange hscale
  have hpnat : precision.toNat = p := by
    rw [← hprecision, UInt8.toNat_ofNat']
    omega
  have hsint : scale.toInt = s := by
    rw [← hscale, Int8.toInt_ofInt_of_le (by omega) (by omega)]
  unfold scaleDigits
  rw [hpnat, hsint]
  omega

/-- Within those bounds the digits leave no room for an overflow. -/
theorem abs_scaled_lt {d : DecimalText} {precision scale : Nat} (hp : precision ≤ 38)
    (hs : scale ≤ precision) (h : d.Fits precision scale) :
    |d.value * 10 ^ scale| < 2 ^ 127 := by
  obtain ⟨hpower, hfits, hdigits⟩ := h
  rw [d.value_scaled hpower hfits, abs_signed]
  have hwhole : Decimal.value d.whole < 10 ^ (precision - scale) := numberOfDigits_le_iff.1 hdigits
  have hlen : (d.fraction ++ List.replicate (scale - d.fraction.length) '0').length = scale := by
    rw [List.length_append, List.length_replicate]
    omega
  have hrest : Decimal.value (d.fraction ++ List.replicate (scale - d.fraction.length) '0') <
      10 ^ (d.fraction ++ List.replicate (scale - d.fraction.length) '0').length :=
    value_lt (allDigits_append.2 ⟨d.fraction_digits, allDigits_replicate_zero _⟩)
  rw [hlen] at hrest
  have hsum : Decimal.value (d.digits ++ List.replicate (scale - d.fraction.length) '0') =
      Decimal.value d.whole * 10 ^ scale +
        Decimal.value (d.fraction ++ List.replicate (scale - d.fraction.length) '0') := by
    unfold DecimalText.digits
    rw [List.append_assoc, value_append, hlen]
  have hbound : Decimal.value (d.digits ++ List.replicate (scale - d.fraction.length) '0') <
      10 ^ precision := by
    calc _ = _ := hsum
      _ < (Decimal.value d.whole + 1) * 10 ^ scale := by rw [Nat.add_mul]; omega
      _ ≤ 10 ^ (precision - scale) * 10 ^ scale := Nat.mul_le_mul_right _ hwhole
      _ = 10 ^ precision := by rw [← Nat.pow_add, Nat.sub_add_cancel hs]
  have hlimit : (10 : Nat) ^ precision ≤ 10 ^ 38 := Nat.pow_le_pow_right (by decide) hp
  have : Decimal.value (d.digits ++ List.replicate (scale - d.fraction.length) '0') < 2 ^ 127 :=
    Nat.lt_of_lt_of_le hbound (Nat.le_trans hlimit (by decide))
  exact_mod_cast this

/-! ## Doubles from decimals -/

theorem decimalAsF64_spec {parse : List Char → Option UInt64} {format : UInt64 → List Char}
    {text : List Char} {bits : UInt64} (h : decimalAsF64 parse format text = .ok bits) :
    ∃ c, canonicalDecimal text = some c ∧ canonicalDecimal (format bits) = some c := by
  unfold decimalAsF64 at h
  simp only [bind_eq_ok, okOr_eq_ok, failIf_eq_ok, not_not] at h
  obtain ⟨c, hc, x, -, _, hformat, hx⟩ := h
  cases hx
  exact ⟨c, hc, hformat⟩

/-- **Two decimals that become one double are one number.** -/
theorem decimalAsF64_inj {parse : List Char → Option UInt64} {format : UInt64 → List Char}
    {text text' : List Char} {bits : UInt64} (h : decimalAsF64 parse format text = .ok bits)
    (h' : decimalAsF64 parse format text' = .ok bits) :
    ∃ d d' : DecimalText, text = d.text ∧ text' = d'.text ∧ d.value = d'.value := by
  obtain ⟨c, hc, hformat⟩ := decimalAsF64_spec h
  obtain ⟨c', hc', hformat'⟩ := decimalAsF64_spec h'
  obtain ⟨d, hd, -, rfl⟩ := (canonicalDecimal_iff text c).1 hc
  obtain ⟨d', hd', -, rfl⟩ := (canonicalDecimal_iff text' c').1 hc'
  refine ⟨d, d', hd, hd', (canonical_inj d d').1 ?_⟩
  exact Option.some.inj (hformat.symm.trans hformat')

/-! ## The whole -/

/-- A text of a table's column is taken exactly when it fits the column. -/
theorem parseDecimal_column {column : OracleColumn} {precision : UInt8} {scale : Int8}
    (h : decimalKind column = .ok (.decimal precision scale)) (text : List Char) (v : Int) :
    parseDecimal text precision scale = .ok v ↔
      ∃ d : DecimalText, text = d.text ∧ d.Fits precision.toNat (scaleDigits scale) ∧
        (v : Rat) = d.value * 10 ^ scaleDigits scale := by
  obtain ⟨-, hp, -, hs⟩ := decimalKind_spec h
  rw [parseDecimal_iff]
  constructor
  · rintro ⟨d, htext, hfits, -, hv⟩
    exact ⟨d, htext, hfits, hv⟩
  · rintro ⟨d, htext, hfits, hv⟩
    exact ⟨d, htext, hfits, abs_scaled_lt hp hs hfits, hv⟩

theorem canonicalDecimal_of_fits {d : DecimalText} (h : d.Fits64) :
    canonicalDecimal d.text = some d.canonical := (canonicalDecimal_text d _).2 ⟨h, rfl⟩

theorem isSome_canonicalDecimal (d : DecimalText) :
    (canonicalDecimal d.text).isSome ↔ d.Fits64 := by
  rw [Option.isSome_iff_exists]
  constructor
  · rintro ⟨c, hc⟩
    exact ((canonicalDecimal_text d c).1 hc).1
  · exact fun h => ⟨_, canonicalDecimal_of_fits h⟩

/-- **Numeric reads are exact and injective.** -/
theorem numericReads_exact :
    (∀ (text : List Char) (precision : UInt8) (scale : Int8) (v : Int),
      parseDecimal text precision scale = .ok v ↔
        ∃ d : DecimalText, text = d.text ∧ d.Fits precision.toNat (scaleDigits scale) ∧
          |d.value * 10 ^ scaleDigits scale| < 2 ^ 127 ∧
          (v : Rat) = d.value * 10 ^ scaleDigits scale) ∧
    (∀ (column : OracleColumn) (precision : UInt8) (scale : Int8),
      decimalKind column = .ok (.decimal precision scale) →
      (scaleDigits scale : Int) = scale.toInt ∧ scaleDigits scale ≤ precision.toNat ∧
      ∀ (text : List Char) (v : Int), parseDecimal text precision scale = .ok v ↔
        ∃ d : DecimalText, text = d.text ∧ d.Fits precision.toNat (scaleDigits scale) ∧
          (v : Rat) = d.value * 10 ^ scaleDigits scale) ∧
    (∀ d : DecimalText, (canonicalDecimal d.text).isSome ↔ d.Fits64) ∧
    (∀ d d' : DecimalText, d.Fits64 → d'.Fits64 →
      (canonicalDecimal d.text = canonicalDecimal d'.text ↔ d.value = d'.value)) ∧
    (∀ (parse : List Char → Option UInt64) (format : UInt64 → List Char)
      (text text' : List Char) (bits : UInt64),
      decimalAsF64 parse format text = .ok bits → decimalAsF64 parse format text' = .ok bits →
      ∃ d d' : DecimalText, text = d.text ∧ text' = d'.text ∧ d.value = d'.value) ∧
    (∀ bits, binaryDoubleFromDump (doubleDump bits) =
      if isReadable bits then .ok (some bits)
      else .error (mapping "BINARY_DOUBLE Oracle non rappresentabile")) ∧
    (∀ bits, binaryFloatFromDump (floatDump bits) =
      if isReadable (Ieee.widen bits) then .ok (some bits)
      else .error (mapping "BINARY_FLOAT Oracle non rappresentabile")) ∧
    (∀ (stored stored' : List UInt8) (bits bits' : UInt64), stored.length = 8 →
      stored'.length = 8 → binaryDoubleFromDump (dumpText 101 stored) = .ok (some bits) →
      binaryDoubleFromDump (dumpText 101 stored') = .ok (some bits') →
      Ieee.toRat bits = Ieee.toRat bits' → stored = stored') ∧
    (∀ (stored stored' : List UInt8) (bits bits' : UInt32), stored.length = 4 →
      stored'.length = 4 → binaryFloatFromDump (dumpText 100 stored) = .ok (some bits) →
      binaryFloatFromDump (dumpText 100 stored') = .ok (some bits') →
      Ieee.toRat (Ieee.widen bits) = Ieee.toRat (Ieee.widen bits') → stored = stored') := by
  refine ⟨parseDecimal_iff, fun column precision scale h => ?_, isSome_canonicalDecimal,
    fun d d' h h' => ?_, fun _ _ _ _ _ => decimalAsF64_inj, binaryDouble_dump, fun bits => ?_,
    fun _ _ _ _ => double_of_dump_inj, fun _ _ _ _ => float_of_dump_inj⟩
  · obtain ⟨-, -, hscale, hle⟩ := decimalKind_spec h
    exact ⟨hscale, hle, parseDecimal_column h⟩
  · rw [canonicalDecimal_of_fits h, canonicalDecimal_of_fits h', Option.some_inj, canonical_inj]
  · rw [binaryFloat_dump, isReadable32_eq]

/-- A decimal text without sign and point. -/
def plainText (whole : List Char) (h : AllDigits whole) (hne : whole ≠ []) : DecimalText :=
  ⟨[], whole, none, none, .inl rfl, h, allDigits_nil, fun h => hne h.1, by simp⟩

/-- One in a NUMBER(3, 1) column, the dump of 1 and that of negative zero. -/
theorem numericReads_exact_one :
    parseDecimal ['1'] 3 1 = .ok 10 ∧
    binaryDoubleFromDump (doubleDump 0x3FF0000000000000) = .ok (some 0x3FF0000000000000) ∧
    binaryFloatFromDump (floatDump 0x80000000) =
      .error (mapping "BINARY_FLOAT Oracle non rappresentabile") := by
  obtain ⟨hparse, -, -, -, -, hdouble, hfloat, -⟩ := numericReads_exact
  have hvalue : (plainText ['1'] (by decide) (by decide)).value * 10 ^ scaleDigits 1 = 10 := by
    show (if (decide (([] : List Char) = ['-'])) then (-1 : Rat) else 1) *
      (((1 : Nat) : Rat) * 10 ^ ((0 : Int) - (0 : Nat))) * 10 ^ 1 = 10
    norm_num
  refine ⟨(hparse ['1'] 3 1 10).2 ⟨plainText ['1'] (by decide) (by decide), rfl,
    ⟨rfl, by decide, numberOfDigits_le_iff.2 (by decide)⟩, ?_, ?_⟩, ?_, ?_⟩
  · rw [hvalue]
    norm_num
  · rw [hvalue]
    norm_num
  · have := hdouble 0x3FF0000000000000
    rwa [if_pos (by decide)] at this
  · have := hfloat 0x80000000
    rwa [if_neg (by decide)] at this

/-- The decimal text of 2 ^ 127. -/
def pastI128 : DecimalText :=
  plainText "170141183460469231731687303715884105728".toList (by decide) (by decide)

/-- One tenth times ten to the largest 64-bit exponent, without or with a zero in front. -/
def atLimit (whole : List Char) (h : AllDigits whole) : DecimalText :=
  ⟨[], whole, some ['1'], some ⟨'e', [], "9223372036854775807".toList⟩, .inl rfl, h, by decide,
    by simp, by
      intro p hp
      cases hp
      exact ⟨.inl rfl, .inl rfl, by decide, by decide⟩⟩

/-- Two decimals of the form that is read, one past 128 bits and one whose first digit's place is
past 64 bits, are refused; the second in one spelling only. -/
theorem numericReads_limits :
    (pastI128.Fits 39 0 ∧ (parseDecimal pastI128.text 39 0).toOption = none) ∧
    (atLimit [] allDigits_nil).text = ".1e9223372036854775807".toList ∧
    (atLimit ['0'] (by decide)).text = "0.1e9223372036854775807".toList ∧
    (atLimit [] allDigits_nil).value = (atLimit ['0'] (by decide)).value ∧
    canonicalDecimal ".1e9223372036854775807".toList ≠
      canonicalDecimal "0.1e9223372036854775807".toList := by
  refine ⟨⟨⟨rfl, by decide, numberOfDigits_le_iff.2 (by decide)⟩, by decide +kernel⟩, rfl, rfl, ?_,
    by decide +kernel⟩
  have hvalue : Decimal.value (['0'] ++ ['1']) = Decimal.value ([] ++ ['1']) := by decide
  show _ * (_ * _) = _ * (((Decimal.value (['0'] ++ ['1']) : Nat) : Rat) * _)
  rw [hvalue]
  rfl

end Plenora.Oracle.NumericReads
