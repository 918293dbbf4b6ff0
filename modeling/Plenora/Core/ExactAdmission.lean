import Plenora.Core.ExactDecimals
import Plenora.Core.TemporalForms

/-!
# An admitted value is the value

What a bound value denotes, the value set of an operand type, and the theorem that relates
them: what `admitValue` returns denotes the same value and is admitted again unchanged, and it
belongs to the value set exactly when the operand is covered.

    admitValue p v t = .ok v' →
      (meaning t v' = meaning t v ∧ Member t (meaning t v') ∧ admitValue p v' t = .ok v' ↔
        Covered t v)                                                    (admit_exact_iff)
-/

namespace Plenora.Core.OperandAdmission

open Plenora.Lib Plenora.Lib.Decimal CastTable ParameterFidelity

/-! ## Denotations -/

/-- What a bound value stands for. -/
inductive Denotation where
  | null
  | number (value : Rat)
  | negativeZero
  | notFinite (bits : UInt64)
  | text (text : String)
  | bytes (bytes : List UInt8)
  | moment (moment : Moment)
  | zoned (moment : Moment) (offset : Int)
  | json (document : JsonText)
  | geometry (bytes : List UInt8) (srid : Option UInt32) (dimensions : Dimensions)
      (semantics : SpatialSemantics)

def doubleOf (bits : UInt64) : Denotation :=
  if ¬ Ieee.isFinite bits then .notFinite bits
  else if Ieee.isZero bits ∧ Ieee.negative bits then .negativeZero
  else .number (Ieee.toRat bits)

/-- A value by itself; a decimal outside the positional form stands for its text only. -/
def valueOf : ParameterValue → Denotation
  | .null _ => .null
  | .bool flag => .number (if flag then 1 else 0)
  | .i32 number => .number number.toInt
  | .i64 number => .number number.toInt
  | .f64 bits => doubleOf bits
  | .decimal text =>
    match DecimalLiteral.ofText text.toList with
    | some literal => .number literal.value
    | none => .text text
  | .string text => .text text
  | .uuid text => .text text
  | .enum _ label => .text label
  | .date text => .moment (momentOf text.toList)
  | .timestamp text => .moment (momentOf text.toList)
  | .timestampTz text => .zoned (momentOf text.toList) (offsetOf text.toList)
  | .bytes bytes => .bytes bytes
  | .json document => .json document
  | .wkb bytes srid dimensions semantics => .geometry bytes srid dimensions semantics

/-- A textual value as written. -/
def textOf : ParameterValue → Option String
  | .string text | .uuid text | .enum _ text | .date text | .timestamp text | .timestampTz text
  | .decimal text => some text
  | .json document => some document.text
  | _ => none

/-- An operand whose values are texts. -/
def isTextual : OperandType → Bool
  | .text .. | .enumeration => true
  | _ => false

/-- What a value stands for against an operand: in a text column a textual value is its own
text. -/
def meaning (operand : OperandType) (value : ParameterValue) : Denotation :=
  match textOf value with
  | some text => if isTextual operand then .text text else valueOf value
  | none => valueOf value

/-! ## Value sets -/

def IsFloat (mantissa : MantissaBits) (q : Rat) : Prop :=
  ∃ bits, Ieee.isFinite bits ∧ Ieee.toRat bits = q ∧
    (mantissa = .single → ∃ b : UInt32, Ieee.widen b = bits)

/-- The value set of an operand type; every type has NULL. -/
def Member : OperandType → Denotation → Prop
  | _, .null => True
  | .boolean, .number q => q = 0 ∨ q = 1
  | .integer min max, .number q => ∃ n : Int, q = n ∧ min ≤ n ∧ n ≤ max
  | .float mantissa, .number q => IsFloat mantissa q
  | .float _, .negativeZero => True
  | .float _, .notFinite _ => True
  | .scaledFloat mantissa precision scale, .number q =>
    IsFloat mantissa q ∧ IsScaled precision.toNat scale.toNat q
  | .scaledFloat .., .negativeZero => True
  | .decimal precision scale, .number q => IsScaled precision.toNat scale.toNat q
  | .roundedDecimal precision rounding, .number q => IsRounded precision.toNat rounding.toNat q
  | .unboundedDecimal digits, .number q => IsUnbounded digits.toNat q
  | .text length _ unit charset, .text s =>
    (∀ c ∈ s.toList, charset.holds c) ∧ ∀ n ∈ length, textLength s unit charset ≤ n.toNat
  | .binary length padded, .bytes b =>
    (∀ n ∈ length, b.length ≤ n.toNat) ∧ (padded → length.map (·.toNat) = some b.length)
  | .date, .moment m => m.IsDate
  | .timestamp digits, .moment m => m.IsTimestamp digits.toNat
  | .timestampTz digits, .zoned m _ => m.IsTimestamp digits.toNat
  | .uuid, .text s => isCanonicalUuid s
  | .json, .json _ => True
  | .enumeration, .text _ => True
  | _, _ => False

/-- The decimal a decimal or double value is judged by. -/
def exactOf : ParameterValue → Option ExactDecimal
  | .decimal text => (DecimalLiteral.ofText text.toList).map fun literal =>
      .normalized literal.negative literal.integer literal.fraction literal.integer_digits
        literal.fraction_digits
  | .f64 bits => exactDecimalOfF64 bits
  | _ => none

/-- Of a fixed-scale decimal: digits that a `u32` counts, and the range where the scale is
beyond the precision; of a scaled float only the range. -/
def CoversDecimal (operand : OperandType) (d : ExactDecimal) : Prop :=
  match operand with
  | .decimal precision scale =>
    d.fraction.length < 2 ^ 32 ∧ d.integer.length < 2 ^ 32 ∧
      (scale ≤ precision ∨ |d.value| * 10 ^ scale.toNat < 10 ^ precision.toNat)
  | .scaledFloat _ precision scale =>
    scale ≤ precision ∨ |d.value| * 10 ^ scale.toNat < 10 ^ precision.toNat
  | _ => True

/-- Where the digit counts `admitValue` compares decide membership. -/
def Covered (operand : OperandType) (value : ParameterValue) : Prop :=
  ∀ d ∈ exactOf value, CoversDecimal operand d

/-- `v'` is `v` as the operand's type writes it. -/
structure Faithful (provider : ProviderKind) (operand : OperandType) (v v' : ParameterValue) :
    Prop where
  meaning : meaning operand v' = meaning operand v
  member : Member operand (OperandAdmission.meaning operand v) ↔ Covered operand v
  stable : admitValue provider v' operand = .ok v'

/-! ## Unchanged values -/

theorem admit_eq_ok {provider : ProviderKind} {v v' : ParameterValue} {operand : OperandType} :
    admitValue provider v operand = .ok v' ↔
      validateForm provider v = .ok () ∧ admitChecked provider v operand = .ok v' := by
  unfold admitValue
  rw [bind_eq_ok]
  constructor
  · rintro ⟨⟨⟩, h⟩
    exact h
  · intro h
    exact ⟨(), h⟩

theorem covered_of_none {operand : OperandType} {v : ParameterValue} (h : exactOf v = none) :
    Covered operand v := by
  intro d hd
  rw [h] at hd
  contradiction

theorem faithful_self {provider : ProviderKind} {operand : OperandType} {v : ParameterValue}
    (h : admitValue provider v operand = .ok v) (hm : Member operand (meaning operand v))
    (hc : Covered operand v) : Faithful provider operand v v :=
  ⟨rfl, iff_of_true hm hc, h⟩

/-! ## Integers -/

theorem doubleOf_eq {bits : UInt64} (hfin : Ieee.isFinite bits)
    (h : Ieee.toRat bits = 0 → Ieee.negative bits = false) :
    doubleOf bits = .number (Ieee.toRat bits) := by
  unfold doubleOf
  rw [if_neg (by simpa using hfin), if_neg]
  rintro ⟨hzero, hneg⟩
  have hpattern : Ieee.pattern bits = 0 := by simpa [Ieee.isZero, Ieee.pattern] using hzero
  have h0 : Ieee.toRat bits = 0 := by
    unfold Ieee.toRat
    rw [hpattern]
    simp [Ieee.Format.magnitude]
  rw [h h0] at hneg
  contradiction

theorem doubleOf_ofInt {n : Int} (h : n.natAbs ≤ 2 ^ 53) :
    doubleOf (Ieee.ofInt n) = .number n := by
  obtain ⟨hneg, hfin, -⟩ := Ieee.ofInt_spec h
  have hrat := Ieee.toRat_ofInt h
  rw [doubleOf_eq hfin, hrat]
  intro h0
  rw [hrat] at h0
  have : n = 0 := by exact_mod_cast h0
  rw [hneg, this]
  rfl

/-- An integer has no digits after the point, and as many before it as it has. -/
theorem ExactDecimal.digits_of_int {d : ExactDecimal} {n : Int} (h : d.value = n) :
    d.fraction = [] ∧ d.integer.length = integerDigits n := by
  have hfrac : d.fraction = [] := by
    rw [← List.length_eq_zero_iff, ← Nat.le_zero, ← d.isWhole_iff]
    exact ⟨n, by rw [pow_zero, mul_one, h]⟩
  refine ⟨hfrac, ?_⟩
  have hhead := head_trimStart d.integer
  rw [d.integer_normal] at hhead
  have habs := d.abs_value
  rw [h, hfrac, fractionValue_nil, add_zero, ← Int.cast_abs, Int.abs_eq_natAbs] at habs
  rw [length_eq_numberOfDigits d.integer_digits hhead, integerDigits]
  congr 1
  exact_mod_cast habs.symm

theorem pow_mantissa_le (mantissa : MantissaBits) : 2 ^ mantissa.toNat ≤ 2 ^ 53 := by
  cases mantissa <;> decide

/-- A double of few enough bits is held by its format. -/
theorem ofInt_fits {n : Int} {mantissa : MantissaBits} (h : n.natAbs ≤ 2 ^ mantissa.toNat) :
    mantissa.toNat ≥ 53 ∨ (Ieee.exactF32 (Ieee.ofInt n)).isSome := by
  cases mantissa with
  | single => exact .inr (Ieee.exactF32_ofInt h)
  | double => exact .inl (by decide)

theorem isFloat_of_fits {bits : UInt64} {mantissa : MantissaBits} (hfin : Ieee.isFinite bits)
    (h : mantissa.toNat ≥ 53 ∨ (Ieee.exactF32 bits).isSome) :
    IsFloat mantissa (Ieee.toRat bits) := by
  refine ⟨bits, hfin, rfl, ?_⟩
  rintro rfl
  have hsome := h.resolve_left (by decide)
  unfold Ieee.exactF32 at hsome
  rw [Ieee.isNaN_of_isFinite hfin] at hsome
  split at hsome
  next hw => exact ⟨_, hw.resolve_left (by decide)⟩
  next => contradiction

theorem isScaled_of_digits {n : Int} {precision scale : Nat}
    (h : integerDigits n ≤ precision - scale) : IsScaled precision scale n := by
  by_cases hle : scale ≤ precision
  · exact (isScaled_intCast hle).2 h
  · have h0 : integerDigits n ≤ 0 := by omega
    rw [integerDigits, numberOfDigits_le_iff, pow_zero, Nat.lt_one_iff, Int.natAbs_eq_zero] at h0
    subst h0
    exact ⟨0, by simp, by positivity⟩

theorem readmit_ofInt (provider : ProviderKind) {n : Int} {mantissa : MantissaBits}
    (h : n.natAbs ≤ 2 ^ mantissa.toNat) :
    admitValue provider (.f64 (Ieee.ofInt n)) (.float mantissa) = .ok (.f64 (Ieee.ofInt n)) := by
  obtain ⟨-, hfin, -⟩ := Ieee.ofInt_spec (Nat.le_trans h (pow_mantissa_le mantissa))
  refine admit_eq_ok.2 ⟨rfl, ?_⟩
  show admitDouble provider (Ieee.ofInt n) (.float mantissa) = _
  unfold admitDouble
  rw [if_neg (by simpa using hfin)]
  exact if_pos (ofInt_fits h)

theorem readmit_scaled (provider : ProviderKind) {bits : UInt64} {d : ExactDecimal}
    {mantissa : MantissaBits} {precision scale : UInt32}
    (hd : exactDecimalOfF64 bits = some d)
    (hf : mantissa.toNat ≥ 53 ∨ (Ieee.exactF32 bits).isSome)
    (hs : scaledFloatExact d precision scale) :
    admitValue provider (.f64 bits) (.scaledFloat mantissa precision scale) = .ok (.f64 bits) := by
  have hfin := (value_exactDecimalOfF64 hd).1
  refine admit_eq_ok.2 ⟨rfl, ?_⟩
  show admitDouble provider bits (.scaledFloat mantissa precision scale) = _
  unfold admitDouble
  rw [if_neg (by simpa using hfin)]
  dsimp only
  rw [failIf_neg (by rintro ⟨h₁, h₂⟩; rcases hf with hf | hf; omega; simp_all), ok_bind, hd,
    okOr_some, ok_bind, if_pos hs]

theorem meaning_of_none {operand : OperandType} {v : ParameterValue} (h : textOf v = none) :
    meaning operand v = valueOf v := by
  unfold meaning
  rw [h]

theorem meaning_of_not_textual {operand : OperandType} (h : isTextual operand = false)
    (v : ParameterValue) : meaning operand v = valueOf v := by
  unfold meaning
  rw [h]
  cases textOf v <;> rfl

/-- Digit counts of an integer are those of its decimal. -/
theorem scaledFloatExact_of_int {d : ExactDecimal} {n : Int} {precision scale : UInt32}
    (h : d.value = n) (hp : integerDigits n ≤ precision.toNat - scale.toNat)
    (hs : integerDigits n + scale.toNat ≤ scaledFloatDigits) :
    scaledFloatExact d precision scale := by
  obtain ⟨hfrac, hlen⟩ := d.digits_of_int h
  have hlen' : lengthU32 d.integer ≤ integerDigits n := by
    rw [← hlen]
    exact Nat.min_le_left _ _
  have hfrac' : lengthU32 d.fraction = 0 := by rw [hfrac]; rfl
  unfold scaledFloatExact fitsDecimal
  simp only [Bool.and_eq_true, decide_eq_true_eq]
  omega

theorem admitInteger_faithful {provider : ProviderKind} {v v' : ParameterValue} {n : Int}
    {operand : OperandType} (hvalue : valueOf v = .number n) (htext : textOf v = none)
    (hexact : exactOf v = none) (h : admitValue provider v operand = .ok v')
    (hn : admitInteger provider v n operand = .ok v') : Faithful provider operand v v' := by
  have hmean : meaning operand v = .number n := by rw [meaning_of_none htext, hvalue]
  have hcov : Covered operand v := covered_of_none hexact
  have hself (hv : v = v') (hm : Member operand (.number n)) :
      Faithful provider operand v v' := by
    subst hv
    exact faithful_self h (hmean ▸ hm) hcov
  cases operand with
  | integer min max =>
    simp only [admitInteger] at hn
    split at hn
    next hrange => exact hself (Except.ok.inj hn) ⟨n, rfl, hrange⟩
    next => contradiction
  | float mantissa =>
    simp only [admitInteger] at hn
    split at hn
    next hfit =>
      cases hn
      have h53 := Nat.le_trans hfit (pow_mantissa_le mantissa)
      refine ⟨?_, ?_, readmit_ofInt provider hfit⟩
      · rw [hmean, meaning_of_none rfl]
        exact doubleOf_ofInt h53
      · rw [hmean]
        refine iff_of_true ?_ hcov
        show IsFloat mantissa n
        rw [← Ieee.toRat_ofInt h53]
        exact isFloat_of_fits (Ieee.ofInt_spec h53).2.1 (ofInt_fits hfit)
    next => contradiction
  | decimal precision scale =>
    simp only [admitInteger] at hn
    split at hn
    next hdigits =>
      refine hself (Except.ok.inj hn) (isScaled_of_digits ?_)
      omega
    next => contradiction
  | unboundedDecimal digits =>
    simp only [admitInteger] at hn
    split at hn
    next hdigits =>
      refine hself (Except.ok.inj hn) ⟨n, 0, by simp, .inr ?_⟩
      rw [integerDigits, numberOfDigits_le_iff] at hdigits
      rw [Int.abs_eq_natAbs]
      exact_mod_cast hdigits
    next => contradiction
  | scaledFloat mantissa precision scale =>
    simp only [admitInteger] at hn
    split at hn
    next hfit =>
      cases hn
      obtain ⟨hfit, hp, hs⟩ := hfit
      have h53 := Nat.le_trans hfit (pow_mantissa_le mantissa)
      have hrat := Ieee.toRat_ofInt h53
      have hfin := (Ieee.ofInt_spec h53).2.1
      obtain ⟨d, hd, hv⟩ := exactDecimalOfF64_spec _ hfin
      refine ⟨?_, ?_, readmit_scaled provider hd (ofInt_fits hfit)
        (scaledFloatExact_of_int (hv.trans hrat) hp hs)⟩
      · rw [hmean, meaning_of_none rfl]
        exact doubleOf_ofInt h53
      · rw [hmean]
        refine iff_of_true ⟨?_, isScaled_of_digits hp⟩ hcov
        rw [← hrat]
        exact isFloat_of_fits hfin (ofInt_fits hfit)
    next => contradiction
  | roundedDecimal precision rounding =>
    simp only [admitInteger] at hn
    split at hn
    next hfit =>
      obtain ⟨-, k, hk, hlt⟩ := fitsRounded_spec (allDigits_toDigits _) hfit
      rw [value_toDigits] at hk
      exact hself (Except.ok.inj hn) (isRounded_of_natAbs hk hlt)
    next => contradiction
  | _ => simp [admitInteger] at hn

/-! ## Decimals -/

theorem validateForm_decimal_text (provider : ProviderKind) (d : ExactDecimal) :
    validateForm provider (.decimal d.text) = .ok () := by
  have h := d.parseDecimal_text provider
  unfold parseDecimal at h
  obtain ⟨literal, hl, -⟩ := bind_eq_ok.1 h
  show (DecimalLiteral.parse provider d.text >>= fun _ => Except.ok ()) = .ok ()
  rw [hl]
  rfl

/-- What a parsed decimal text stands for. -/
theorem parseDecimal_spec {provider : ProviderKind} {text : String} {d : ExactDecimal}
    (h : parseDecimal provider text = .ok d) :
    exactOf (.decimal text) = some d ∧ valueOf (.decimal text) = .number d.value := by
  unfold parseDecimal DecimalLiteral.parse at h
  obtain ⟨literal, hl, hd⟩ := bind_eq_ok.1 h
  rw [okOr_eq_ok] at hl
  cases hd
  constructor
  · simp only [exactOf, hl, Option.map_some]
  · simp only [valueOf, hl, ExactDecimal.normalized_value]
    rfl

/-- An exact decimal in an integer or decimal operand. -/
structure ExactFaithful (provider : ProviderKind) (operand : OperandType) (d : ExactDecimal)
    (v' : ParameterValue) : Prop where
  meaning : meaning operand v' = .number d.value
  member : Member operand (.number d.value) ↔ CoversDecimal operand d
  stable : admitValue provider v' operand = .ok v'

theorem admitExact_faithful {provider : ProviderKind} {d : ExactDecimal} {v' : ParameterValue}
    {operand : OperandType} (h : admitExact provider d operand = .ok v') :
    ExactFaithful provider operand d v' := by
  have htext := d.parseDecimal_text provider
  have hvalue := (parseDecimal_spec htext).2
  -- an operand that keeps the decimal as text reads that text back
  have hdecimal (hv : v' = .decimal d.text) (ht : isTextual operand = false)
      (hagain : admitChecked provider (.decimal d.text) operand =
        admitExact provider d operand)
      (hm : Member operand (.number d.value) ↔ CoversDecimal operand d) :
      ExactFaithful provider operand d v' := by
    subst hv
    refine ⟨?_, hm, admit_eq_ok.2 ⟨validateForm_decimal_text provider d, hagain.trans h⟩⟩
    rw [meaning_of_not_textual ht, hvalue]
  have hread : (parseDecimal provider d.text >>= fun exact => admitExact provider exact operand) =
      admitExact provider d operand := by rw [htext, ok_bind]
  cases operand with
  | integer min max =>
    simp only [admitExact, okOr_eq_ok, Option.map_eq_some_iff, Option.filter_eq_some_iff,
      Bool.and_eq_true, decide_eq_true_eq] at h
    obtain ⟨n, ⟨hn, hrange, hlow, hhigh⟩, rfl⟩ := h
    have hd := ExactDecimal.asI128_eq hn
    have hto : (Int64.ofInt n).toInt = n := Int64.toInt_ofInt_of_le hlow hhigh
    refine ⟨?_, ?_, admit_eq_ok.2 ⟨rfl, ?_⟩⟩
    · rw [meaning_of_none rfl, hd]
      simp only [valueOf, hto]
    · rw [hd]
      exact iff_of_true ⟨n, rfl, hrange⟩ trivial
    · show admitInteger provider _ (Int64.ofInt n).toInt (.integer min max) = _
      rw [hto]
      exact if_pos hrange
  | decimal precision scale =>
    have h' := h
    simp only [admitExact] at h'
    split at h'
    next hfit => exact hdecimal (Except.ok.inj h').symm rfl hread (d.isScaled_of_fits hfit)
    next => contradiction
  | roundedDecimal precision rounding =>
    have h' := h
    simp only [admitExact] at h'
    split at h'
    next hfit =>
      exact hdecimal (Except.ok.inj h').symm rfl hread
        (iff_of_true (d.isRounded_of_fits hfit) trivial)
    next => contradiction
  | unboundedDecimal digits =>
    have h' := h
    simp only [admitExact] at h'
    split at h'
    next hfit =>
      exact hdecimal (Except.ok.inj h').symm rfl hread
        (iff_of_true (d.isUnbounded_of_digits hfit) trivial)
    next => contradiction
  | _ => simp [admitExact] at h

theorem isScaled_of_scaledFloatExact {d : ExactDecimal} {precision scale : UInt32}
    (h : scaledFloatExact d precision scale) :
    IsScaled precision.toNat scale.toNat d.value ↔
      (scale ≤ precision ∨ |d.value| * 10 ^ scale.toNat < 10 ^ precision.toNat) := by
  simp only [scaledFloatExact, Bool.and_eq_true, decide_eq_true_eq] at h
  obtain ⟨hfit, hdigits⟩ := h
  have hfrac : lengthU32 d.fraction ≤ scale.toNat := by
    simp only [fitsDecimal, Bool.and_eq_true, decide_eq_true_eq] at hfit
    exact hfit.1
  unfold lengthU32 scaledFloatDigits at hdigits
  unfold lengthU32 at hfrac
  rw [d.isScaled_of_fits hfit]
  have hf : d.fraction.length < 2 ^ 32 := by omega
  have hi : d.integer.length < 2 ^ 32 := by omega
  tauto

/-- Zero is positive. -/
theorem ExactDecimal.negative_of_zero {d : ExactDecimal} (h : d.value = 0) :
    d.negative = false := by
  obtain ⟨hf, hi⟩ := d.digits_of_int (n := 0) (by rw [h, Int.cast_zero])
  exact d.zero_positive (List.length_eq_zero_iff.1 hi) hf

theorem covered_of_exact {operand : OperandType} {v : ParameterValue} {d : ExactDecimal}
    (h : exactOf v = some d) : Covered operand v ↔ CoversDecimal operand d := by
  constructor
  · intro hc
    exact hc d h
  · intro hc d' hd'
    rw [h] at hd'
    cases hd'
    exact hc

theorem admitDouble_faithful {provider : ProviderKind} {bits : UInt64} {v' : ParameterValue}
    {operand : OperandType} (h : admitValue provider (.f64 bits) operand = .ok v')
    (hd : admitDouble provider bits operand = .ok v') :
    Faithful provider operand (.f64 bits) v' := by
  have hmean : meaning operand (.f64 bits) = doubleOf bits := rfl
  unfold admitDouble at hd
  split at hd
  next hinf =>
    have hnone : exactOf (.f64 bits) = none := if_pos hinf
    have hdouble : doubleOf bits = .notFinite bits := if_pos hinf
    cases operand with
    | float mantissa =>
      cases hd
      refine faithful_self h ?_ (covered_of_none hnone)
      rw [hmean, hdouble]
      trivial
    | _ => contradiction
  next hfin =>
    rw [not_not] at hfin
    obtain ⟨d, hexact, hvalue⟩ := exactDecimalOfF64_spec bits hfin
    have hcov : Covered operand (.f64 bits) ↔ CoversDecimal operand d := covered_of_exact hexact
    -- a zero with a sign, or the number of the exact decimal
    have hcases : (doubleOf bits = .negativeZero ∧ d.value = 0) ∨
        doubleOf bits = .number d.value := by
      by_cases hzero : Ieee.isZero bits ∧ Ieee.negative bits
      · refine .inl ⟨by rw [doubleOf, if_neg (by simpa using hfin), if_pos hzero], ?_⟩
        have hpattern : Ieee.pattern bits = 0 := by
          simpa [Ieee.isZero, Ieee.pattern] using hzero.1
        rw [hvalue, Ieee.toRat, hpattern]
        simp [Ieee.Format.magnitude]
      · refine .inr ?_
        rw [doubleOf, if_neg (by simpa using hfin), if_neg hzero, hvalue]
    have hother (hd : (failIf (Ieee.isZero bits ∧ Ieee.negative bits) (inexact provider) >>= fun _ =>
          okOr (exactDecimalOfF64 bits) (inexact provider) >>= fun exact =>
            admitExact provider exact operand) = .ok v') :
        Faithful provider operand (.f64 bits) v' := by
      obtain ⟨⟨⟩, hsign, hd⟩ := bind_eq_ok.1 hd
      rw [failIf_eq_ok] at hsign
      rw [hexact, okOr_some, ok_bind] at hd
      have hf := admitExact_faithful hd
      have hnumber : doubleOf bits = .number d.value := by
        rw [doubleOf, if_neg (by simpa using hfin), if_neg hsign, hvalue]
      refine ⟨by rw [hf.meaning, hmean, hnumber], ?_, hf.stable⟩
      rw [hmean, hnumber, hcov]
      exact hf.member
    cases operand with
    | scaledFloat mantissa precision scale =>
      obtain ⟨⟨⟩, hbits, hd⟩ := bind_eq_ok.1 hd
      rw [failIf_eq_ok] at hbits
      rw [hexact, okOr_some, ok_bind] at hd
      split at hd
      next hfit =>
        cases hd
        refine ⟨rfl, ?_, h⟩
        rw [hcov, hmean]
        rcases hcases with ⟨hdouble, h0⟩ | hdouble <;> rw [hdouble]
        · refine iff_of_true trivial (.inr ?_)
          rw [h0]
          simp
        · have hfloat : IsFloat mantissa d.value := by
            rw [hvalue]
            refine isFloat_of_fits hfin ?_
            by_cases hm : mantissa.toNat < 53
            · exact .inr (by simpa [hm, Option.isSome_iff_ne_none] using hbits)
            · exact .inl (by omega)
          show IsFloat mantissa d.value ∧ IsScaled _ _ d.value ↔ _
          rw [and_iff_right hfloat]
          exact isScaled_of_scaledFloatExact hfit
      next => contradiction
    | float mantissa =>
      dsimp only at hd
      split at hd
      next hfit =>
        cases hd
        refine faithful_self h ?_ (hcov.2 trivial)
        rw [hmean]
        rcases hcases with ⟨hdouble, -⟩ | hdouble <;> rw [hdouble]
        · trivial
        · show IsFloat mantissa d.value
          rw [hvalue]
          exact isFloat_of_fits hfin hfit
      next => contradiction
    | _ => exact hother hd

/-! ## Texts -/

theorem rejectNul_of_textOf {provider : ProviderKind} {v : ParameterValue} {text : String}
    (h : validateForm provider v = .ok ()) (ht : textOf v = some text) :
    rejectNul provider text = .ok () := by
  cases v with
  | string s =>
    cases ht
    exact h
  | enum typeName label =>
    cases ht
    exact h
  | uuid s =>
    cases ht
    have hu := failIf_eq_ok.1 h
    rw [not_not] at hu
    exact rejectNul_of_not_mem _ (isCanonicalUuid_nul hu)
  | date s =>
    cases ht
    have hd := failIf_eq_ok.1 h
    rw [not_not] at hd
    exact rejectNul_of_not_mem _ (not_mem_of_date hd (by decide))
  | timestamp s =>
    cases ht
    obtain ⟨⟨⟩, hs, -⟩ := bind_eq_ok.1 h
    rw [failIf_eq_ok, not_not] at hs
    exact rejectNul_of_not_mem _ (validTimestamp_spec hs).nul_not_mem
  | timestampTz s =>
    cases ht
    obtain ⟨⟨⟩, hs, -⟩ := bind_eq_ok.1 h
    rw [failIf_eq_ok, not_not] at hs
    exact rejectNul_of_not_mem _ (validTimestamp_spec hs).nul_not_mem
  | decimal s =>
    cases ht
    obtain ⟨literal, hl, -⟩ := bind_eq_ok.1 h
    rw [DecimalLiteral.parse, okOr_eq_ok] at hl
    exact rejectNul_of_not_mem _ (DecimalLiteral.nul_not_mem hl)
  | json document =>
    cases ht
    exact rejectNul_of_not_mem _ document.noNul
  | _ => contradiction

theorem admitText_faithful {provider : ProviderKind} {v v' : ParameterValue} {text : String}
    {length : Option UInt64} {padded : Bool} {unit : LengthUnit} {charset : Charset}
    (ht : textOf v = some text) (hform : validateForm provider v = .ok ())
    (h : admitText provider text length unit charset = .ok v') :
    Faithful provider (.text length padded unit charset) v v' := by
  have hadmit := h
  unfold admitText at h
  obtain ⟨⟨⟩, hchars, h⟩ := bind_eq_ok.1 h
  obtain ⟨⟨⟩, hlength, h⟩ := bind_eq_ok.1 h
  rw [failIf_eq_ok, not_not, List.all_eq_true] at hchars
  rw [failIf_eq_ok, Option.any_eq_true] at hlength
  cases h
  have hmean : meaning (.text length padded unit charset) v = .text text := by
    unfold meaning
    rw [ht]
    rfl
  refine ⟨hmean.symm ▸ rfl, ?_, ?_⟩
  · rw [hmean]
    refine iff_of_true ⟨hchars, fun n hn => ?_⟩ fun d _ => trivial
    by_contra hlt
    exact hlength ⟨n, hn, decide_eq_true (Nat.lt_of_not_le hlt)⟩
  · exact admit_eq_ok.2 ⟨rejectNul_of_textOf hform ht, hadmit⟩

theorem admitDecimal_faithful {provider : ProviderKind} {text : String} {v' : ParameterValue}
    {operand : OperandType} (hform : validateForm provider (.decimal text) = .ok ())
    (h : admitDecimal provider text operand = .ok v') :
    Faithful provider operand (.decimal text) v' := by
  unfold admitDecimal at h
  obtain ⟨d, hparse, h⟩ := bind_eq_ok.1 h
  obtain ⟨hexact, hvalue⟩ := parseDecimal_spec hparse
  have hcov : Covered operand (.decimal text) ↔ CoversDecimal operand d := covered_of_exact hexact
  have hmean (ht : isTextual operand = false) :
      meaning operand (.decimal text) = .number d.value := by
    rw [meaning_of_not_textual ht, hvalue]
  -- the double is the decimal, and not the negative zero
  have hdouble {mantissa : MantissaBits} {bits : UInt64} (hf : floatOf d mantissa = some bits) :
      Ieee.isFinite bits ∧ Ieee.toRat bits = d.value ∧ doubleOf bits = .number d.value ∧
        (mantissa.toNat ≥ 53 ∨ (Ieee.exactF32 bits).isSome) := by
    obtain ⟨hbits, hneg, hsingle⟩ := floatOf_spec hf
    obtain ⟨hfin, hrat⟩ := value_exactDecimalOfF64 hbits
    refine ⟨hfin, hrat.symm, ?_, ?_⟩
    · rw [hrat]
      refine doubleOf_eq hfin fun h0 => ?_
      rw [hneg]
      exact d.negative_of_zero (hrat.trans h0)
    · by_cases hm : mantissa.toNat < 53
      · exact .inr (hsingle hm)
      · exact .inl (by omega)
  have hother (ht : isTextual operand = false) (h : admitExact provider d operand = .ok v') :
      Faithful provider operand (.decimal text) v' := by
    have hf := admitExact_faithful h
    refine ⟨by rw [hf.meaning, hmean ht], ?_, hf.stable⟩
    rw [hmean ht, hcov]
    exact hf.member
  cases operand with
  | float mantissa =>
    dsimp only at h
    rw [okOr_eq_ok, Option.map_eq_some_iff] at h
    obtain ⟨bits, hf, rfl⟩ := h
    obtain ⟨hfin, hrat, hdouble, hfit⟩ := hdouble hf
    refine ⟨by rw [hmean rfl]; exact hdouble, ?_, admit_eq_ok.2 ⟨rfl, ?_⟩⟩
    · rw [hmean rfl, hcov]
      refine iff_of_true ?_ trivial
      show IsFloat mantissa d.value
      rw [← hrat]
      exact isFloat_of_fits hfin hfit
    · show admitDouble provider bits (.float mantissa) = _
      unfold admitDouble
      rw [if_neg (by simpa using hfin)]
      exact if_pos hfit
  | scaledFloat mantissa precision scale =>
    dsimp only at h
    split at h
    next hscaled =>
      rw [okOr_eq_ok, Option.map_eq_some_iff] at h
      obtain ⟨bits, hf, rfl⟩ := h
      obtain ⟨hfin, hrat, hdouble, hfit⟩ := hdouble hf
      refine ⟨by rw [hmean rfl]; exact hdouble, ?_,
        readmit_scaled provider (floatOf_spec hf).1 hfit hscaled⟩
      have hfloat : IsFloat mantissa d.value := hrat ▸ isFloat_of_fits hfin hfit
      rw [hmean rfl, hcov]
      show IsFloat mantissa d.value ∧ IsScaled _ _ d.value ↔ _
      rw [and_iff_right hfloat]
      exact isScaled_of_scaledFloatExact hscaled
    next => contradiction
  | text length padded unit charset => exact admitText_faithful rfl hform h
  | enumeration => simp [admitExact] at h
  | _ => exact hother rfl h

/-! ## Truth values, moments and bytes -/

theorem flag_faithful {provider : ProviderKind} {flag : Bool} {operand : OperandType}
    (hm : Member operand (.number (if flag then 1 else 0)))
    (hs : admitInteger provider (.i64 (if flag then 1 else 0)) (if flag then 1 else 0) operand =
      .ok (.i64 (if flag then 1 else 0)))
    (hoperand : operand ≠ .unknown) :
    Faithful provider operand (.bool flag) (.i64 (if flag then 1 else 0)) := by
  have hto : (if flag then 1 else 0 : Int64).toInt = if flag then 1 else 0 := by
    cases flag <;> rfl
  refine ⟨?_, iff_of_true hm (covered_of_none rfl), admit_eq_ok.2 ⟨rfl, ?_⟩⟩
  · rw [meaning_of_none rfl, meaning_of_none rfl]
    simp only [valueOf, hto]
    cases flag <;> simp
  · have hchecked : admitChecked provider (.i64 (if flag then 1 else 0)) operand =
        admitInteger provider (.i64 (if flag then 1 else 0))
          (if flag then 1 else 0 : Int64).toInt operand := by
      cases operand <;> first | rfl | contradiction
    rw [hchecked, hto]
    exact hs

theorem admitFraction_eq {provider : ProviderKind} {v v' : ParameterValue} {text : String}
    {digits : UInt32} {message : String} {zoned : Bool}
    (hvalid : validTimestamp text.toList zoned)
    (hmicro : rejectSubMicrosecond provider text = .ok ())
    (h : admitFraction provider v text digits message = .ok v') :
    v' = v ∧ (momentOf text.toList).IsTimestamp digits.toNat := by
  have form := validTimestamp_spec hvalid
  have hsix := form.length_fraction_le (by
    rw [String.ofList_toList]
    simpa [rejectSubMicrosecond, failIf_eq_ok] using hmicro)
  unfold admitFraction at h
  rw [form.temporalParts_eq] at h
  dsimp only at h
  split at h
  next hdigits =>
    cases h
    refine ⟨rfl, form.isTimestamp ?_⟩
    unfold lengthU32 at hdigits
    omega
  next => contradiction

theorem admitChecked_timestamp (provider : ProviderKind) (text : String) (digits : UInt32) :
    admitChecked provider (.timestamp text) (.timestamp digits) =
      admitFraction provider (.timestamp text) text digits
        "timestamp oltre la precisione dell'operando: il server la arrotonderebbe" := rfl

theorem admitChecked_timestampTz (provider : ProviderKind) (text : String) (digits : UInt32) :
    admitChecked provider (.timestampTz text) (.timestampTz digits) =
      admitFraction provider (.timestampTz text) text digits
        "timestamptz oltre la precisione dell'operando: il server la arrotonderebbe" := rfl

theorem admitChecked_bool_integer (provider : ProviderKind) (flag : Bool) (min max : Int) :
    admitChecked provider (.bool flag) (.integer min max) =
      if min ≤ 0 ∧ max ≥ 1 then .ok (.i64 (if flag then 1 else 0)) else .error (inexact provider) :=
  rfl

theorem admitChecked_bool_decimal (provider : ProviderKind) (flag : Bool)
    (precision scale : UInt32) :
    admitChecked provider (.bool flag) (.decimal precision scale) =
      if precision > scale then .ok (.i64 (if flag then 1 else 0)) else .error (inexact provider) :=
  rfl

theorem date_faithful {provider : ProviderKind} {date : String} {digits : UInt32}
    (h : chronoFreeDate date.toList) :
    Faithful provider (.timestamp digits) (.date date) (.timestamp (date ++ "T00:00:00")) := by
  have hlist : (date ++ "T00:00:00").toList = date.toList ++ midnight := by
    rw [String.toList_append]
    rfl
  have hform := validTimestamp_append_midnight h
  have hmicro := hasSubMicrosecond_append_midnight h
  rw [← hlist, String.ofList_toList] at hmicro
  rw [← hlist] at hform
  refine ⟨?_, iff_of_true ?_ (covered_of_none rfl), admit_eq_ok.2 ⟨?_, ?_⟩⟩
  · show Denotation.moment (momentOf (date ++ "T00:00:00").toList) = .moment (momentOf date.toList)
    rw [hlist, momentOf_append_midnight h]
  · show (momentOf date.toList).IsTimestamp digits.toNat
    obtain ⟨hday, hh, hm, hs, hf⟩ := isDate_of_chronoFreeDate h
    refine ⟨hday, by omega, by omega, by omega, ?_, 0, ?_⟩ <;> rw [hf] <;> simp
  · show (failIf _ _ >>= fun _ => rejectSubMicrosecond provider (date ++ "T00:00:00")) = .ok ()
    rw [failIf_neg (by simpa using hform), ok_bind]
    exact failIf_neg (by simp [hmicro])
  · rw [admitChecked_timestamp]
    have hparts := temporalParts_append_midnight h
    unfold admitFraction
    rw [hlist]
    generalize temporalParts (date.toList ++ midnight) = parts at hparts
    obtain ⟨d, t, f⟩ := parts
    cases hparts
    exact if_pos (Nat.zero_le _)

theorem midnight_faithful {provider : ProviderKind} {text : String} {v' : ParameterValue}
    (hvalid : validTimestamp text.toList false) (h : admitMidnight provider text = .ok v') :
    Faithful provider .date (.timestamp text) v' := by
  have form := validTimestamp_spec hvalid
  have hsuffix : (splitOnce (· = '.') (text.toList.drop 19)).1 = [] := form.splitOnce_rest.2 rfl
  unfold admitMidnight at h
  rw [form.temporalParts_eq, hsuffix, List.append_nil] at h
  dsimp only at h
  split at h
  next hmid =>
    cases h
    obtain ⟨hclock, hfrac⟩ := hmid
    have hclock' : ∀ c ∈ clockOf text.toList, c = '0' ∨ c = ':' := by
      simpa using hclock
    have hmoment := form.momentOf_take hclock' hfrac
    refine ⟨?_, iff_of_true ?_ (covered_of_none rfl), admit_eq_ok.2 ⟨?_, rfl⟩⟩
    · show Denotation.moment (momentOf (String.ofList (text.toList.take 10)).toList) =
        .moment (momentOf text.toList)
      rw [String.toList_ofList, hmoment]
    · show (momentOf text.toList).IsDate
      rw [← hmoment]
      exact isDate_of_chronoFreeDate form.date
    · refine failIf_neg ?_
      rw [String.toList_ofList, not_not]
      exact form.date
  next => contradiction

/-- **What `admitValue` returns is the value.** -/
theorem admit_faithful {provider : ProviderKind} {v v' : ParameterValue} {operand : OperandType}
    (h : admitValue provider v operand = .ok v') : Faithful provider operand v v' := by
  obtain ⟨hform, hc⟩ := admit_eq_ok.1 h
  cases v with
  | null typeName =>
    have hv : v' = .null typeName := by
      cases operand <;> exact (Except.ok.inj hc).symm
    subst hv
    refine faithful_self h ?_ (covered_of_none rfl)
    rw [meaning_of_none rfl]
    cases operand <;> trivial
  | bool flag =>
    cases operand with
    | boolean =>
      cases hc
      refine faithful_self h ?_ (covered_of_none rfl)
      rw [meaning_of_none rfl]
      cases flag
      · exact .inl rfl
      · exact .inr rfl
    | integer min max =>
      rw [admitChecked_bool_integer] at hc
      split at hc
      next hrange =>
        cases hc
        refine flag_faithful ⟨if flag then 1 else 0, by cases flag <;> simp, ?_⟩ (if_pos ?_)
          (by simp) <;> cases flag <;> constructor <;> simp <;> omega
      next => contradiction
    | decimal precision scale =>
      rw [admitChecked_bool_decimal] at hc
      split at hc
      next hlt =>
        cases hc
        have hlt : scale.toNat < precision.toNat := hlt
        have hdigits : integerDigits (if flag then 1 else 0) ≤ precision.toNat - scale.toNat := by
          refine Nat.le_trans (m := 1) ?_ (by omega)
          cases flag <;> decide
        refine flag_faithful ?_ (if_pos (by omega)) (by simp)
        show IsScaled precision.toNat scale.toNat _
        have := isScaled_of_digits hdigits
        cases flag <;> simpa using this
      next => contradiction
    | _ => contradiction
  | i32 number =>
    refine admitInteger_faithful rfl rfl rfl h (n := number.toInt) ?_
    cases operand <;> first | exact hc | contradiction
  | i64 number =>
    refine admitInteger_faithful rfl rfl rfl h (n := number.toInt) ?_
    cases operand <;> first | exact hc | contradiction
  | f64 bits =>
    refine admitDouble_faithful h ?_
    cases operand <;> first | exact hc | contradiction
  | decimal text =>
    refine admitDecimal_faithful hform ?_
    cases operand <;> first | exact hc | contradiction
  | date text =>
    have hdate := failIf_eq_ok.1 hform
    rw [not_not] at hdate
    cases operand with
    | date =>
      cases hc
      exact faithful_self h (isDate_of_chronoFreeDate hdate) (covered_of_none rfl)
    | timestamp digits =>
      cases hc
      exact date_faithful hdate
    | text length padded unit charset => exact admitText_faithful rfl hform hc
    | _ => contradiction
  | timestamp text =>
    obtain ⟨⟨⟩, hvalid, hmicro⟩ := bind_eq_ok.1 hform
    rw [failIf_eq_ok, not_not] at hvalid
    cases operand with
    | date => exact midnight_faithful hvalid hc
    | timestamp digits =>
      rw [admitChecked_timestamp] at hc
      obtain ⟨rfl, hm⟩ := admitFraction_eq hvalid hmicro hc
      exact faithful_self h hm (covered_of_none rfl)
    | text length padded unit charset => exact admitText_faithful rfl hform hc
    | _ => contradiction
  | timestampTz text =>
    obtain ⟨⟨⟩, hvalid, hmicro⟩ := bind_eq_ok.1 hform
    rw [failIf_eq_ok, not_not] at hvalid
    cases operand with
    | timestampTz digits =>
      rw [admitChecked_timestampTz] at hc
      obtain ⟨rfl, hm⟩ := admitFraction_eq hvalid hmicro hc
      exact faithful_self h hm (covered_of_none rfl)
    | text length padded unit charset => exact admitText_faithful rfl hform hc
    | _ => contradiction
  | string text =>
    cases operand with
    | text length padded unit charset => exact admitText_faithful rfl hform hc
    | enumeration =>
      cases hc
      exact ⟨rfl, iff_of_true trivial (covered_of_none rfl), admit_eq_ok.2 ⟨hform, rfl⟩⟩
    | _ => contradiction
  | uuid text =>
    cases operand with
    | uuid =>
      cases hc
      have hu := failIf_eq_ok.1 hform
      rw [not_not] at hu
      exact faithful_self h hu (covered_of_none rfl)
    | text length padded unit charset => exact admitText_faithful rfl hform hc
    | _ => contradiction
  | enum typeName label =>
    cases operand with
    | enumeration =>
      cases hc
      exact faithful_self h trivial (covered_of_none rfl)
    | text length padded unit charset => exact admitText_faithful rfl hform hc
    | _ => contradiction
  | json document =>
    cases operand with
    | json =>
      cases hc
      exact faithful_self h trivial (covered_of_none rfl)
    | text length padded unit charset =>
      cases padded with
      | true => contradiction
      | false => exact admitText_faithful rfl hform hc
    | _ => contradiction
  | bytes bytes =>
    cases operand with
    | binary length padded =>
      obtain ⟨⟨⟩, hlength, hc⟩ := bind_eq_ok.1 hc
      obtain ⟨⟨⟩, hpadded, hc⟩ := bind_eq_ok.1 hc
      rw [failIf_eq_ok, Option.any_eq_true] at hlength
      rw [failIf_eq_ok, not_and, not_not] at hpadded
      cases hc
      refine faithful_self h ⟨fun n hn => ?_, hpadded⟩ (covered_of_none rfl)
      by_contra hlt
      exact hlength ⟨n, hn, decide_eq_true (Nat.lt_of_not_le hlt)⟩
    | _ => contradiction
  | wkb bytes srid dimensions semantics => cases operand <;> contradiction

/-- **An admitted value is exact and stable, and in the value set where the operand covers
it.** -/
theorem admit_exact_iff (provider : ProviderKind) (v v' : ParameterValue) (operand : OperandType)
    (h : admitValue provider v operand = .ok v') :
    (meaning operand v' = meaning operand v ∧ Member operand (meaning operand v') ∧
      admitValue provider v' operand = .ok v') ↔ Covered operand v := by
  have hf := admit_faithful h
  rw [← hf.member, hf.meaning]
  constructor
  · intro hall
    exact hall.2.1
  · intro hm
    exact ⟨rfl, hm, hf.stable⟩

theorem admit_decimal_text (provider : ProviderKind) {d : ExactDecimal} {precision scale : UInt32}
    (h : fitsDecimal d precision scale) :
    admitValue provider (.decimal d.text) (.decimal precision scale) = .ok (.decimal d.text) := by
  refine admit_eq_ok.2 ⟨validateForm_decimal_text provider d, ?_⟩
  show (parseDecimal provider d.text >>= fun exact =>
    admitExact provider exact (.decimal precision scale)) = _
  rw [d.parseDecimal_text, ok_bind]
  exact if_pos h

/-- The decimal 0.12345. -/
def fiveDigits : ExactDecimal :=
  .normalized false [] ['1', '2', '3', '4', '5'] allDigits_nil (by simp [AllDigits])

theorem fiveDigits_text : fiveDigits.text = "0.12345" := rfl

theorem admit_exact_iff_five_digits :
    admitValue .oracle (.decimal "0.12345") (.decimal 6 5) = .ok (.decimal "0.12345") ∧
      ((meaning (.decimal 6 5) (.decimal "0.12345") = meaning (.decimal 6 5) (.decimal "0.12345") ∧
          Member (.decimal 6 5) (meaning (.decimal 6 5) (.decimal "0.12345")) ∧
          admitValue .oracle (.decimal "0.12345") (.decimal 6 5) = .ok (.decimal "0.12345")) ↔
        Covered (.decimal 6 5) (.decimal "0.12345")) :=
  have h : admitValue .oracle (.decimal "0.12345") (.decimal 6 5) = .ok (.decimal "0.12345") := by
    rw [← fiveDigits_text]
    exact admit_decimal_text .oracle rfl
  ⟨h, admit_exact_iff _ _ _ _ h⟩

/-- A `NUMBER(3, 5)` holds at most 0.00999. -/
theorem admit_beyond_precision :
    admitValue .oracle (.decimal "0.12345") (.decimal 3 5) = .ok (.decimal "0.12345") ∧
      ¬ Member (.decimal 3 5) (meaning (.decimal 3 5) (.decimal "0.12345")) := by
  have hvalue := (parseDecimal_spec (fiveDigits.parseDecimal_text .oracle)).2
  rw [← fiveDigits_text]
  refine ⟨admit_decimal_text .oracle rfl, ?_⟩
  rw [meaning_of_not_textual rfl, hvalue]
  show ¬ IsScaled 3 5 fiveDigits.value
  have hv : fiveDigits.value * 10 ^ 5 = (12345 : Int) := by
    have hv := ExactDecimal.normalized_value false [] ['1', '2', '3', '4', '5'] allDigits_nil
      (by simp [AllDigits])
    have hnat : Decimal.value ['1', '2', '3', '4', '5'] = 12345 := rfl
    rw [show fiveDigits.value = _ from hv]
    norm_num [signOf, fractionValue, hnat]
  rintro ⟨n, hn, hlt⟩
  rw [hv] at hn
  have : n = 12345 := by exact_mod_cast hn.symm
  subst this
  norm_num at hlt

end Plenora.Core.OperandAdmission
