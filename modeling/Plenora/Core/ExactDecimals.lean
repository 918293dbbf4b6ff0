import Plenora.Core.OperandAdmission

/-!
# Exact decimals are exact

The decimal of a double is the double's own value, the text of a decimal reads back as
itself, and the digit counts `admitValue` compares are bounds on the value:

    exactDecimalOfF64 bits = some d → d.value = toRat bits      (value_exactDecimalOfF64)
    parseDecimal p d.text = .ok d                               (parseDecimal_text)
    (∃ n : ℤ, d.value * 10 ^ s = n) ↔ d.fraction.length ≤ s     (isWhole_iff)
    floatOf d m = some bits → toRat bits = d.value              (exactDecimalOfF64_exact)
-/

namespace Plenora.Core.OperandAdmission

open Plenora.Lib Plenora.Lib.Decimal CastTable ParameterFidelity

/-! ## Values -/

/-- The sign a flag stands for. -/
def signOf (negative : Bool) : Rat := if negative then -1 else 1

theorem abs_signOf (negative : Bool) : |signOf negative| = 1 := by
  cases negative <;> simp [signOf]

namespace ExactDecimal

theorem value_eq (d : ExactDecimal) :
    d.value = signOf d.negative * (Decimal.value d.integer + fractionValue d.fraction) := rfl

theorem normalized_value (negative : Bool) (integer fraction : List Char)
    (hi : AllDigits integer) (hf : AllDigits fraction) :
    (normalized negative integer fraction hi hf).value =
      signOf negative * (Decimal.value integer + fractionValue fraction) := by
  have hvi := value_trimStart integer
  have hvf := fractionValue_trimEnd fraction
  rw [value_eq]
  show signOf (negative && !(trimStart integer = [] && trimEnd '0' fraction = [])) *
    (Decimal.value (trimStart integer) + fractionValue (trimEnd '0' fraction)) = _
  by_cases hzero : trimStart integer = [] ∧ trimEnd '0' fraction = []
  · rw [hzero.1, value_nil] at hvi
    rw [hzero.2, fractionValue_nil] at hvf
    rw [hzero.1, hzero.2, ← hvi, ← hvf]
    simp
  · have : (trimStart integer = [] && trimEnd '0' fraction = [] : Bool) = false := by
      simpa using hzero
    rw [this, Bool.not_false, Bool.and_true, hvi, hvf]

/-- Normalizing a normalized decimal again changes nothing. -/
theorem normalized_self (d : ExactDecimal) (integer : List Char) (hi : AllDigits integer)
    (h : trimStart integer = d.integer) :
    normalized d.negative integer d.fraction hi d.fraction_digits = d := by
  ext1
  · show (d.negative && !(trimStart integer = [] && trimEnd '0' d.fraction = [])) = d.negative
    rw [h, d.fraction_normal]
    by_cases hzero : d.integer = [] ∧ d.fraction = []
    · rw [d.zero_positive hzero.1 hzero.2, Bool.false_and]
    · have : (d.integer = [] && d.fraction = [] : Bool) = false := by simpa using hzero
      rw [this, Bool.not_false, Bool.and_true]
  · exact h
  · exact d.fraction_normal

theorem value_mul_pow (d : ExactDecimal) :
    d.value * 10 ^ d.fraction.length =
      signOf d.negative * (Decimal.value (d.integer ++ d.fraction) : Rat) := by
  rw [value_eq, mul_assoc, value_add_fractionValue]

theorem abs_value (d : ExactDecimal) :
    |d.value| = Decimal.value d.integer + fractionValue d.fraction := by
  have hf := fractionValue_nonneg d.fraction
  rw [value_eq, abs_mul, abs_signOf, one_mul, abs_of_nonneg (by positivity)]

theorem abs_value_lt (d : ExactDecimal) : |d.value| < 10 ^ d.integer.length := by
  have hi : Decimal.value d.integer + 1 ≤ 10 ^ d.integer.length := value_lt d.integer_digits
  have hf := fractionValue_lt_one d.fraction_digits
  have : (Decimal.value d.integer : Rat) + 1 ≤ 10 ^ d.integer.length := by exact_mod_cast hi
  rw [abs_value]
  linarith

theorem le_abs_value (d : ExactDecimal) (h : d.integer ≠ []) :
    10 ^ (d.integer.length - 1) ≤ |d.value| := by
  have hhead := head_trimStart d.integer
  have hdigits := d.integer_digits
  have hf := fractionValue_nonneg d.fraction
  rw [d.integer_normal] at hhead
  rw [abs_value]
  generalize d.integer = l at h hhead hdigits
  cases l with
  | nil => exact absurd rfl h
  | cons c l =>
    have hv := le_value_of_head (l := l) (hdigits c (by simp)) (hhead c (by simp))
    have : (10 : Rat) ^ l.length ≤ Decimal.value (c :: l) := by exact_mod_cast hv
    rw [List.length_cons, Nat.add_sub_cancel]
    linarith

/-- The last digit after the point is not zero. -/
theorem value_mod_ten (d : ExactDecimal) (h : d.fraction ≠ []) :
    Decimal.value (d.integer ++ d.fraction) % 10 ≠ 0 := by
  have hnormal := d.fraction_normal
  have hdigits := d.fraction_digits
  obtain ⟨l, c, hlc⟩ := (List.eq_nil_or_concat d.fraction).resolve_left h
  rw [List.concat_eq_append] at hlc
  rw [hlc] at hnormal hdigits
  have hc : c ≠ '0' := by
    intro h0
    subst h0
    rw [trimEnd_concat_self] at hnormal
    have := length_trimEnd_le '0' l
    rw [hnormal, List.length_append, List.length_singleton] at this
    omega
  have hb := isDigit_bounds (hdigits c (by simp))
  have hne : c.toNat ≠ 48 := by
    intro h48
    apply hc
    apply Char.ext
    apply UInt32.toNat.inj
    exact h48
  rw [hlc, ← List.append_assoc, value_append, value_cons]
  simp only [List.length_singleton, List.length_nil, pow_one, pow_zero, value_nil]
  omega

/-- **The digits after the point are those the value needs.** -/
theorem isWhole_iff (d : ExactDecimal) (s : Nat) :
    (∃ n : Int, d.value * 10 ^ s = n) ↔ d.fraction.length ≤ s := by
  have hv := d.value_mul_pow
  constructor
  · rintro ⟨n, hn⟩
    by_contra hlt
    rw [Nat.not_le] at hlt
    have hne : d.fraction ≠ [] := by
      intro h0
      rw [h0, List.length_nil] at hlt
      omega
    apply d.value_mod_ten hne
    -- the digits are `n` times a power of ten
    have hpow : d.fraction.length = s + (d.fraction.length - s - 1) + 1 := by omega
    rw [hpow, pow_succ, pow_add, ← mul_assoc, ← mul_assoc, hn] at hv
    have habs := congrArg abs hv
    rw [abs_mul, abs_mul, abs_mul, abs_signOf, one_mul] at habs
    have hnat : n.natAbs * 10 ^ (d.fraction.length - s - 1) * 10 =
        Decimal.value (d.integer ++ d.fraction) := by
      have : ((n.natAbs * 10 ^ (d.fraction.length - s - 1) * 10 : Nat) : Rat) =
          (Decimal.value (d.integer ++ d.fraction) : Nat) := by
        rw [← Nat.abs_cast (Decimal.value _), ← habs]
        push_cast
        rw [Nat.cast_natAbs, abs_of_pos (a := (10 : Rat)) (by norm_num),
          abs_of_pos (a := (10 : Rat) ^ _) (by positivity)]
        push_cast
        rfl
      exact_mod_cast this
    rw [← hnat, Nat.mul_mod_left]
  · intro hle
    obtain ⟨k, hk⟩ := Nat.exists_eq_add_of_le hle
    refine ⟨(if d.negative then -1 else 1) *
      (Decimal.value (d.integer ++ d.fraction) * 10 ^ k : Nat), ?_⟩
    rw [hk, pow_add, ← mul_assoc, hv]
    unfold signOf
    cases d.negative <;> simp

/-! ## Text -/

theorem ofText_digits (negative : Bool) {integer fraction : List Char}
    (hi : AllDigits integer) (hf : AllDigits fraction) (hne : integer ≠ []) :
    DecimalLiteral.ofText ((if negative then ['-'] else []) ++ integer ++
        (if fraction = [] then [] else '.' :: fraction)) =
      some { negative, integer := trimStart integer, fraction
             integer_digits := allDigits_trimStart hi, fraction_digits := hf } := by
  have hsign (rest : List Char) : splitSign ((if negative then ['-'] else []) ++ integer ++ rest) =
      (negative, integer ++ rest) := by
    obtain ⟨c, l, rfl⟩ := List.exists_cons_of_ne_nil hne
    have hc := isDigit_bounds (hi c (by simp))
    cases negative with
    | true => rfl
    | false =>
      have h₁ : c ≠ '-' := by
        rintro rfl
        simp at hc
      have h₂ : c ≠ '+' := by
        rintro rfl
        simp at hc
      simp [splitSign, h₁, h₂]
  have hpoint : splitOnce (· = '.') (integer ++ (if fraction = [] then [] else '.' :: fraction)) =
      (integer, fraction) := by
    rw [splitOnce_append]
    · split
      next h => simp [splitOnce, h]
      next h => simp [splitOnce]
    · intro c hc
      have := isDigit_bounds (hi c hc)
      have : c ≠ '.' := by
        rintro rfl
        simp at this
      simp [this]
  unfold DecimalLiteral.ofText
  rw [hsign]
  dsimp only
  rw [hpoint]
  dsimp only
  rw [dif_pos ⟨fun h => hne h.1, hi, hf⟩]

/-- **The text of a decimal reads back as the decimal.** -/
theorem parseDecimal_text (provider : ProviderKind) (d : ExactDecimal) :
    parseDecimal provider d.text = .ok d := by
  have hzero : AllDigits ['0'] := by simp [AllDigits]
  unfold parseDecimal DecimalLiteral.parse text
  rw [String.toList_ofList]
  by_cases h : d.integer = []
  · rw [if_pos h, ofText_digits d.negative hzero d.fraction_digits (by simp), okOr_some,
      ok_bind, normalized_self d _ _ (by rw [h, trimStart_trimStart]; rfl)]
  · rw [if_neg h, ofText_digits d.negative d.integer_digits d.fraction_digits h, okOr_some,
      ok_bind, normalized_self d _ _ (by rw [trimStart_trimStart, d.integer_normal])]

end ExactDecimal

/-! ## The exact decimal of a double -/

theorem multiplyLimbs_spec (factor : Nat) (limbs : List Nat) :
    ∀ carry, (Nat.ofDigits limbBase (multiplyLimbs factor limbs carry) =
        Nat.ofDigits limbBase limbs * factor + carry) ∧
      ∀ l ∈ multiplyLimbs factor limbs carry, l < limbBase := by
  have hbase : 1 < limbBase := by decide
  induction limbs with
  | nil =>
    intro carry
    refine ⟨?_, fun l hl => Nat.digits_lt_base hbase hl⟩
    simp [multiplyLimbs, Nat.ofDigits_digits]
  | cons limb limbs ih =>
    intro carry
    obtain ⟨hvalue, hlt⟩ := ih ((limb * factor + carry) / limbBase)
    constructor
    · have hdiv := Nat.mod_add_div (limb * factor + carry) limbBase
      rw [multiplyLimbs, Nat.ofDigits_cons, hvalue, Nat.ofDigits_cons]
      linear_combination hdiv
    · intro l hl
      rw [multiplyLimbs, List.mem_cons] at hl
      rcases hl with rfl | hl
      · exact Nat.mod_lt _ (by decide)
      · exact hlt l hl

theorem multiplyTimes_spec (factor n : Nat) :
    ∀ limbs, (∀ l ∈ limbs, l < limbBase) →
      (Nat.ofDigits limbBase (multiplyTimes factor n limbs) =
        Nat.ofDigits limbBase limbs * factor ^ n) ∧
      ∀ l ∈ multiplyTimes factor n limbs, l < limbBase := by
  induction n with
  | zero =>
    intro limbs hlt
    exact ⟨by simp [multiplyTimes], hlt⟩
  | succ n ih =>
    intro limbs _
    obtain ⟨hvalue, hlt⟩ := multiplyLimbs_spec factor limbs 0
    obtain ⟨hvalue', hlt'⟩ := ih _ hlt
    refine ⟨?_, hlt'⟩
    rw [multiplyTimes, hvalue', hvalue, Nat.add_zero, Nat.pow_succ']
    ring

theorem length_paddedLimb {limb : Nat} (h : limb < limbBase) : (paddedLimb limb).length = 9 := by
  have := (Nat.length_toDigits_le_iff (b := 10) (n := limb) (k := 9) (by decide) (by decide)).2 h
  rw [paddedLimb, List.length_append, List.length_replicate]
  omega

theorem value_flatMap_paddedLimb (limbs : List Nat) (h : ∀ l ∈ limbs, l < limbBase) :
    Decimal.value (limbs.flatMap paddedLimb) = Nat.ofDigits limbBase limbs.reverse ∧
      (limbs.flatMap paddedLimb).length = 9 * limbs.length := by
  induction limbs with
  | nil => simp
  | cons limb limbs ih =>
    obtain ⟨hvalue, hlen⟩ := ih fun l hl => h l (by simp [hl])
    have hlimb : Decimal.value (paddedLimb limb) = limb := by
      rw [paddedLimb, value_append, value_replicate_zero, value_toDigits, Nat.zero_mul,
        Nat.zero_add]
    constructor
    · rw [List.flatMap_cons, value_append, hlimb, hvalue, hlen, List.reverse_cons,
        Nat.ofDigits_append, Nat.ofDigits_singleton, List.length_reverse, pow_mul,
        show 10 ^ 9 = limbBase from rfl]
      ring
    · rw [List.flatMap_cons, List.length_append, length_paddedLimb (h limb (by simp)), hlen,
        List.length_cons]
      ring

theorem value_limbDigits (limbs : List Nat) (h : ∀ l ∈ limbs, l < limbBase) :
    Decimal.value (limbDigits limbs.reverse) = Nat.ofDigits limbBase limbs := by
  have h' : ∀ l ∈ limbs.reverse, l < limbBase := fun l hl => h l (List.mem_reverse.1 hl)
  have hr := List.reverse_reverse limbs
  generalize limbs.reverse = reversed at h' hr
  subst hr
  cases reversed with
  | nil => simp [limbDigits]
  | cons limb rest =>
    obtain ⟨hvalue, hlen⟩ := value_flatMap_paddedLimb rest fun l hl => h' l (by simp [hl])
    rw [limbDigits, value_append, value_toDigits, hvalue, hlen, List.reverse_cons,
      Nat.ofDigits_append, Nat.ofDigits_singleton, List.length_reverse, pow_mul,
      show 10 ^ 9 = limbBase from rfl]
    ring

theorem value_placePoint (negative : Bool) (digits : List Char) (scale : Nat)
    (h : AllDigits digits) :
    (placePoint negative digits scale h).value =
      signOf negative * (Decimal.value digits / 10 ^ scale) := by
  unfold placePoint
  split
  next hlt =>
    have hlen : (digits.drop (digits.length - scale)).length = scale := by
      rw [List.length_drop]
      omega
    have hv := value_add_fractionValue (digits.take (digits.length - scale))
      (digits.drop (digits.length - scale))
    rw [List.take_append_drop, hlen] at hv
    rw [ExactDecimal.normalized_value, ← hv, mul_div_cancel_right₀ _ (by positivity)]
  next hle =>
    rw [ExactDecimal.normalized_value, value_nil, Nat.cast_zero, zero_add, fractionValue,
      value_append, value_replicate_zero, Nat.zero_mul, Nat.zero_add, List.length_append,
      List.length_replicate, Nat.sub_add_cancel (by omega)]

/-- The mantissa and exponent are those of the format. -/
theorem mantissaExponent_spec (bits : UInt64) :
    (mantissaExponent bits).1 < 2 ^ 53 ∧
      ((Ieee.binary64.magnitude (Ieee.pattern bits) : Rat) / 2 ^ 1074 =
        (mantissaExponent bits).1 * (2 : Rat) ^ (mantissaExponent bits).2) := by
  have hlt : bits.toNat < 2 ^ 64 := bits.toNat_lt
  have hfields : Ieee.pattern bits =
      Ieee.exponent bits * 2 ^ Ieee.binary64.fractionBits + Ieee.fraction bits := by
    show bits.toNat % 2 ^ 63 = bits.toNat / 2 ^ 52 % 2 ^ 11 * 2 ^ 52 + bits.toNat % 2 ^ 52
    omega
  have hf : Ieee.fraction bits < 2 ^ 52 := Nat.mod_lt _ (by positivity)
  rw [hfields, Ieee.Format.magnitude_fields _ _ _ hf]
  unfold mantissaExponent
  split
  next h0 =>
    refine ⟨by dsimp only; omega, ?_⟩
    rw [zpow_neg, div_eq_mul_inv]
    norm_cast
  next h0 =>
    refine ⟨by dsimp only; omega, ?_⟩
    show (((2 ^ 52 + Ieee.fraction bits) * 2 ^ (Ieee.exponent bits - 1) : Nat) : Rat) / 2 ^ 1074 =
      ((Ieee.fraction bits + 2 ^ 52 : Nat) : Rat) * 2 ^ ((Ieee.exponent bits : Int) - 1075)
    have he : (Ieee.exponent bits : Int) - 1075 = ((Ieee.exponent bits - 1 : Nat) : Int) - 1074 := by
      omega
    rw [he, zpow_sub₀ (by norm_num), zpow_natCast, Nat.cast_mul, Nat.cast_pow, Nat.cast_ofNat,
      Nat.add_comm, mul_div_assoc]
    rfl

theorem scaledLimbs_spec (mantissa : Nat) (exponent : Int) (h : mantissa < 2 ^ 53) :
    (∀ l ∈ (scaledLimbs mantissa exponent).1, l < limbBase) ∧
      ((Nat.ofDigits limbBase (scaledLimbs mantissa exponent).1 : Nat) : Rat) /
        10 ^ (scaledLimbs mantissa exponent).2 = mantissa * (2 : Rat) ^ exponent := by
  have hlimbs : ∀ l ∈ [mantissa % limbBase, mantissa / limbBase], l < limbBase := by
    intro l hl
    simp only [List.mem_cons, List.not_mem_nil, or_false] at hl
    unfold limbBase at hl ⊢
    rcases hl with rfl | rfl <;> omega
  have hvalue : Nat.ofDigits limbBase [mantissa % limbBase, mantissa / limbBase] = mantissa := by
    rw [Nat.ofDigits_cons, Nat.ofDigits_singleton]
    exact Nat.mod_add_div mantissa limbBase
  unfold scaledLimbs
  split
  next hexp =>
    obtain ⟨hv, hl⟩ := multiplyTimes_spec 2 exponent.toNat _ hlimbs
    refine ⟨hl, ?_⟩
    obtain ⟨k, rfl⟩ := Int.eq_ofNat_of_zero_le hexp
    rw [hv, hvalue]
    simp
  next hexp =>
    obtain ⟨hv, hl⟩ := multiplyTimes_spec 5 (-exponent).toNat _ hlimbs
    refine ⟨hl, ?_⟩
    obtain ⟨k, hk⟩ := Int.eq_ofNat_of_zero_le (a := -exponent) (by omega)
    rw [hv, hvalue, show exponent = -(k : Int) by omega]
    simp only [neg_neg, Int.toNat_natCast, zpow_neg, zpow_natCast]
    rw [show (10 : Rat) = 5 * 2 by norm_num, mul_pow]
    push_cast
    field_simp

theorem value_decimalOfParts (negative : Bool) (mantissa : Nat) (exponent : Int)
    (h : mantissa < 2 ^ 53) :
    (decimalOfParts negative mantissa exponent).value =
      signOf negative * (mantissa * (2 : Rat) ^ exponent) := by
  unfold decimalOfParts
  split
  next h0 =>
    rw [ExactDecimal.normalized_value, h0]
    simp
  next h0 =>
    obtain ⟨hlt, hval⟩ := scaledLimbs_spec mantissa exponent h
    rw [value_placePoint, value_trimStart, value_limbDigits _ hlt, hval]

/-- **The decimal of a finite double is its value.** -/
theorem exactDecimalOfF64_spec (bits : UInt64) (h : Ieee.isFinite bits) :
    ∃ d, exactDecimalOfF64 bits = some d ∧ d.value = Ieee.toRat bits := by
  obtain ⟨hm, hmag⟩ := mantissaExponent_spec bits
  refine ⟨_, if_neg (by simpa using h), ?_⟩
  rw [value_decimalOfParts _ _ _ hm, ← hmag]
  rfl

theorem value_exactDecimalOfF64 {bits : UInt64} {d : ExactDecimal}
    (h : exactDecimalOfF64 bits = some d) :
    Ieee.isFinite bits ∧ d.value = Ieee.toRat bits := by
  have hfin : Ieee.isFinite bits := by
    by_contra hn
    rw [exactDecimalOfF64, if_pos hn] at h
    contradiction
  obtain ⟨d', hd, hv⟩ := exactDecimalOfF64_spec bits hfin
  rw [hd, Option.some.injEq] at h
  exact ⟨hfin, h ▸ hv⟩

/-! ## Numeric ranges -/

theorem ExactDecimal.asI128_eq {d : ExactDecimal} {n : Int} (h : d.asI128 = some n) :
    d.value = n := by
  unfold ExactDecimal.asI128 at h
  split at h
  next => contradiction
  next hf =>
    split at h
    next => contradiction
    next =>
      rw [Option.some.injEq] at h
      rw [not_not] at hf
      rw [d.value_eq, hf, fractionValue_nil, add_zero, ← h]
      cases d.negative <;> simp [signOf]

/-- The numbers of a decimal type. -/
def IsScaled (precision scale : Nat) (q : Rat) : Prop :=
  ∃ n : Int, q * 10 ^ scale = n ∧ |n| < 10 ^ precision

theorem isScaled_iff {precision scale : Nat} {q : Rat} :
    IsScaled precision scale q ↔
      (∃ n : Int, q * 10 ^ scale = n) ∧ |q| * 10 ^ scale < 10 ^ precision := by
  have habs {n : Int} (hn : q * 10 ^ scale = n) :
      |q| * 10 ^ scale < 10 ^ precision ↔ |n| < 10 ^ precision := by
    have : |q| * 10 ^ scale = ((|n| : Int) : Rat) := by
      rw [Int.cast_abs, ← hn, abs_mul, abs_of_pos (a := (10 : Rat) ^ scale) (by positivity)]
    rw [this]
    exact_mod_cast Iff.rfl
  constructor
  · rintro ⟨n, hn, hlt⟩
    exact ⟨⟨n, hn⟩, (habs hn).2 hlt⟩
  · rintro ⟨⟨n, hn⟩, hlt⟩
    exact ⟨n, hn, (habs hn).1 hlt⟩

theorem isScaled_intCast {precision scale : Nat} {n : Int} (h : scale ≤ precision) :
    IsScaled precision scale n ↔ integerDigits n ≤ precision - scale := by
  rw [isScaled_iff, integerDigits, numberOfDigits_le_iff]
  have hwhole : ∃ m : Int, (n : Rat) * 10 ^ scale = m := ⟨n * 10 ^ scale, by push_cast; rfl⟩
  have hpow : (10 : Rat) ^ precision = 10 ^ (precision - scale) * 10 ^ scale := by
    rw [← pow_add, Nat.sub_add_cancel h]
  rw [and_iff_right hwhole, hpow, mul_lt_mul_iff_left₀ (by positivity), ← Int.cast_abs,
    Int.abs_eq_natAbs]
  exact_mod_cast Iff.rfl

/-- What the digit counts of a decimal say of it, up to counts that fit a `u32`. -/
theorem ExactDecimal.isScaled_of_fits {d : ExactDecimal} {precision scale : UInt32}
    (h : fitsDecimal d precision scale) :
    IsScaled precision.toNat scale.toNat d.value ↔
      d.fraction.length < 2 ^ 32 ∧ d.integer.length < 2 ^ 32 ∧
        (scale ≤ precision ∨ |d.value| * 10 ^ scale.toNat < 10 ^ precision.toNat) := by
  have hs : scale.toNat < 2 ^ 32 := scale.toNat_lt
  have hp : precision.toNat < 2 ^ 32 := precision.toNat_lt
  simp only [fitsDecimal, Bool.and_eq_true, decide_eq_true_eq] at h
  unfold lengthU32 at h
  obtain ⟨hf, hi⟩ := h
  rw [isScaled_iff, d.isWhole_iff]
  have hle : scale ≤ precision ↔ scale.toNat ≤ precision.toNat := UInt32.le_iff_toNat_le
  constructor
  · rintro ⟨hfrac, hlt⟩
    refine ⟨by omega, ?_, .inr hlt⟩
    -- an integer part of 2 ^ 32 digits is larger than any precision
    by_contra hge
    have hne : d.integer ≠ [] := by
      intro h0
      rw [h0, List.length_nil] at hge
      omega
    have hlow := d.le_abs_value hne
    have hpow : (10 : Rat) ^ precision.toNat ≤ 10 ^ (d.integer.length - 1) :=
      pow_le_pow_right₀ (by norm_num) (by omega)
    have hone : (1 : Rat) ≤ 10 ^ scale.toNat := one_le_pow₀ (by norm_num)
    nlinarith [abs_nonneg d.value]
  · rintro ⟨hfl, hil, hrange⟩
    refine ⟨by omega, ?_⟩
    rcases hrange with hsp | hlt
    · have hsp := hle.1 hsp
      calc |d.value| * 10 ^ scale.toNat
          < 10 ^ d.integer.length * 10 ^ scale.toNat :=
            mul_lt_mul_of_pos_right d.abs_value_lt (by positivity)
        _ ≤ 10 ^ precision.toNat := by
            rw [← pow_add]
            exact pow_le_pow_right₀ (by norm_num) (by omega)
    · exact hlt

/-- The numbers of a decimal type of negative scale. -/
def IsRounded (precision rounding : Nat) (q : Rat) : Prop :=
  ∃ k : Int, q = k * 10 ^ rounding ∧ |k| < 10 ^ precision

/-- The numbers of a decimal type without a scale: at most `digits` significant digits, any
number of them where the type has no bound. -/
def IsUnbounded (digits : Nat) (q : Rat) : Prop :=
  ∃ m e : Int, q = m * (10 : Rat) ^ e ∧ (digits = 2 ^ 32 - 1 ∨ |m| < 10 ^ digits)

theorem fitsRounded_spec {integer fraction : List Char} {precision rounding : UInt32}
    (hi : AllDigits integer) (h : fitsRounded integer fraction precision rounding) :
    trimEnd '0' fraction = [] ∧
      ∃ k, Decimal.value integer = k * 10 ^ rounding.toNat ∧ k < 10 ^ precision.toNat := by
  have hdigits := allDigits_trimStart hi
  rw [← value_trimStart]
  unfold fitsRounded at h
  generalize trimStart integer = l at h hdigits
  simp only [Bool.and_eq_true, Bool.or_eq_true, decide_eq_true_eq] at h
  obtain ⟨hf, rfl | ⟨⟨hle, hlt⟩, hzeros⟩⟩ := h
  · exact ⟨hf, 0, by simp, by positivity⟩
  · have hdrop : l.drop (l.length - rounding.toNat) = List.replicate rounding.toNat '0' := by
      rw [List.eq_replicate_iff, List.length_drop]
      refine ⟨by omega, fun c hc => ?_⟩
      rw [List.take_reverse, List.all_reverse, List.all_eq_true] at hzeros
      simpa using hzeros c hc
    have htake := value_lt (allDigits_take hdigits (l.length - rounding.toNat))
    refine ⟨hf, Decimal.value (l.take (l.length - rounding.toNat)), ?_, ?_⟩
    · conv_lhs => rw [← List.take_append_drop (l.length - rounding.toNat) l]
      rw [value_append, hdrop, value_replicate_zero, List.length_replicate, Nat.add_zero]
    · refine Nat.lt_of_lt_of_le htake (Nat.pow_le_pow_right (by decide) ?_)
      rw [List.length_take]
      omega

theorem isRounded_of_natAbs {precision rounding k : Nat} {n : Int}
    (hk : n.natAbs = k * 10 ^ rounding) (hlt : k < 10 ^ precision) :
    IsRounded precision rounding n := by
  have habs : |(k : Int)| < 10 ^ precision := by
    rw [Nat.abs_cast]
    exact_mod_cast hlt
  rcases Int.natAbs_eq n with hn | hn
  · refine ⟨k, ?_, habs⟩
    rw [hn, hk]
    push_cast
    rfl
  · refine ⟨-k, ?_, by rwa [abs_neg]⟩
    rw [hn, hk]
    push_cast
    ring

theorem ExactDecimal.isRounded_of_fits {d : ExactDecimal} {precision rounding : UInt32}
    (h : fitsRounded d.integer d.fraction precision rounding) :
    IsRounded precision.toNat rounding.toNat d.value := by
  obtain ⟨hf, k, hk, hlt⟩ := fitsRounded_spec d.integer_digits h
  rw [d.fraction_normal] at hf
  have hv : d.value = (((if d.negative then -1 else 1) * Decimal.value d.integer : Int) : Rat) := by
    rw [d.value_eq, hf, fractionValue_nil, add_zero]
    cases d.negative <;> simp [signOf]
  rw [hv]
  refine isRounded_of_natAbs (k := k) ?_ hlt
  rw [← hk]
  cases d.negative <;> simp

theorem ExactDecimal.isUnbounded_of_digits {d : ExactDecimal} {digits : UInt32}
    (h : min d.significantDigits (2 ^ 32 - 1) ≤ digits.toNat) :
    IsUnbounded digits.toNat d.value := by
  refine ⟨(if d.negative then -1 else 1) * Decimal.value (d.integer ++ d.fraction),
    -d.fraction.length, ?_, ?_⟩
  · rw [zpow_neg, zpow_natCast, ← div_eq_mul_inv, eq_div_iff (by positivity), d.value_mul_pow]
    cases d.negative <;> simp [signOf]
  · by_cases hall : digits.toNat = 2 ^ 32 - 1
    · exact .inl hall
    · have hdigits : digits.toNat < 2 ^ 32 := digits.toNat_lt
      have hsig : d.significantDigits ≤ digits.toNat := by omega
      have hlt : Decimal.value (d.integer ++ d.fraction) < 10 ^ d.significantDigits := by
        unfold significantDigits
        split
        next h0 =>
          rw [h0, List.nil_append, ← value_trimStart]
          exact value_lt (allDigits_trimStart d.fraction_digits)
        next h0 =>
          rw [← List.length_append]
          exact value_lt (allDigits_append.2 ⟨d.integer_digits, d.fraction_digits⟩)
      have hpow := Nat.lt_of_lt_of_le hlt (Nat.pow_le_pow_right (by decide) hsig)
      refine .inr ?_
      have habs : |(if d.negative then -1 else 1) *
          (Decimal.value (d.integer ++ d.fraction) : Int)| =
          Decimal.value (d.integer ++ d.fraction) := by
        rw [abs_mul, Nat.abs_cast]
        cases d.negative <;> simp
      rw [habs]
      exact_mod_cast hpow

/-- **The double a decimal is bound as is that decimal.** -/
theorem floatOf_spec {d : ExactDecimal} {mantissa : MantissaBits} {bits : UInt64}
    (h : floatOf d mantissa = some bits) :
    exactDecimalOfF64 bits = some d ∧ Ieee.negative bits = d.negative ∧
      (mantissa.toNat < 53 → (Ieee.exactF32 bits).isSome) := by
  unfold floatOf at h
  cases mantissa with
  | single =>
    simp only [Option.ite_none_right_eq_some, Option.some.injEq] at h
    obtain ⟨hexact, rfl⟩ := h
    have hfin := (value_exactDecimalOfF64 hexact).1
    refine ⟨hexact, Ieee.negative_widen_round32 _ _ _ hfin, fun _ => ?_⟩
    rw [Ieee.exactF32_widen hfin]
    rfl
  | double =>
    simp only [Option.ite_none_right_eq_some, Option.some.injEq] at h
    obtain ⟨hexact, rfl⟩ := h
    exact ⟨hexact, Ieee.negative_round64 _ _ _, fun h53 => absurd h53 (by decide)⟩

/-! ## The sign and the digits -/

theorem ExactDecimal.head_integer (d : ExactDecimal) : d.integer.head? ≠ some '0' := by
  intro h
  have hhead := head_trimStart d.integer '0'
  rw [d.integer_normal] at hhead
  exact hhead h rfl

theorem ExactDecimal.getLast_fraction (d : ExactDecimal) : d.fraction.getLast? ≠ some '0' := by
  intro h
  obtain ⟨l, hl⟩ := List.getLast?_eq_some_iff.1 h
  have hnormal := d.fraction_normal
  rw [hl, trimEnd_concat_self] at hnormal
  have hle := length_trimEnd_le '0' l
  rw [hnormal, List.length_append, List.length_singleton] at hle
  omega

/-- A decimal with a digit is not zero. -/
theorem ExactDecimal.abs_value_pos (d : ExactDecimal) (h : d.integer ≠ [] ∨ d.fraction ≠ []) :
    0 < |d.value| := by
  by_cases hi : d.integer = []
  · have hmod := d.value_mod_ten (h.resolve_left (not_not.2 hi))
    have hne : d.value ≠ 0 := by
      intro h0
      have hv := d.value_mul_pow
      rw [h0, zero_mul, zero_eq_mul] at hv
      rcases hv with hs | hd
      · unfold signOf at hs
        cases hn : d.negative <;> rw [hn] at hs <;> norm_num at hs
      · rw [Nat.cast_eq_zero] at hd
        rw [hd] at hmod
        exact hmod rfl
    exact abs_pos.2 hne
  · have hle := d.le_abs_value hi
    have hpow : (0 : Rat) < 10 ^ (d.integer.length - 1) := by positivity
    linarith

/-- **The sign of a decimal is that of its value.** -/
theorem ExactDecimal.negative_iff (d : ExactDecimal) : d.negative ↔ d.value < 0 := by
  have hi : (0 : Rat) ≤ Decimal.value d.integer := Nat.cast_nonneg _
  have hf := fractionValue_nonneg d.fraction
  have hv := d.value_eq
  unfold signOf at hv
  constructor
  · intro h
    have hdigit : d.integer ≠ [] ∨ d.fraction ≠ [] := by
      by_contra hno
      rw [not_or, not_not, not_not] at hno
      have := d.zero_positive hno.1 hno.2
      rw [h] at this
      contradiction
    have hpos := d.abs_value_pos hdigit
    rw [d.abs_value] at hpos
    rw [h] at hv
    simp only [if_true] at hv
    linarith
  · intro h
    by_contra hn
    rw [Bool.not_eq_true] at hn
    rw [hn] at hv
    simp only [Bool.false_eq_true, if_false] at hv
    linarith

/-! ## Expanding a double and parsing one back -/

/-- The type a double of so many mantissa bits is parsed in. -/
def mantissaOf (mantissaBits : UInt32) : MantissaBits :=
  if mantissaBits ≤ 24 then .single else .double

/-- **A finite double expands to its own value, in digits that all count, and a decimal is given
a double only if that double is the decimal.** -/
theorem exactDecimalOfF64_exact (bits : UInt64) :
    (Ieee.isFinite bits →
      ∃ d, exactDecimalOfF64 bits = some d ∧ d.value = Ieee.toRat bits ∧
        d.integer.head? ≠ some '0' ∧ d.fraction.getLast? ≠ some '0' ∧
        (d.negative ↔ Ieee.toRat bits < 0)) ∧
    ∀ (d : ExactDecimal) (mantissaBits : UInt32),
      floatOf d (mantissaOf mantissaBits) = some bits →
        Ieee.isFinite bits ∧ Ieee.toRat bits = d.value := by
  constructor
  · intro hfin
    obtain ⟨d, hd, hv⟩ := exactDecimalOfF64_spec bits hfin
    refine ⟨d, hd, hv, d.head_integer, d.getLast_fraction, ?_⟩
    rw [← hv]
    exact d.negative_iff
  · intro d mantissaBits h
    obtain ⟨hexact, -, -⟩ := floatOf_spec h
    obtain ⟨hfin, hv⟩ := value_exactDecimalOfF64 hexact
    exact ⟨hfin, hv.symm⟩

/-- `0.5`. -/
def half : ExactDecimal := .normalized false ['0'] ['5'] (by decide) (by decide)

theorem exactDecimalOfF64_exact_half :
    (∃ d, exactDecimalOfF64 0x3fe0000000000000 = some d ∧
      d.value = Ieee.toRat 0x3fe0000000000000 ∧ d.integer.head? ≠ some '0' ∧
      d.fraction.getLast? ≠ some '0' ∧ (d.negative ↔ Ieee.toRat 0x3fe0000000000000 < 0)) ∧
    Ieee.isFinite 0x3fe0000000000000 ∧ Ieee.toRat 0x3fe0000000000000 = half.value :=
  ⟨(exactDecimalOfF64_exact 0x3fe0000000000000).1 (by decide),
    (exactDecimalOfF64_exact 0x3fe0000000000000).2 half 53 (by decide +kernel)⟩

end Plenora.Core.OperandAdmission
