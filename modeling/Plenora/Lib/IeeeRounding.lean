import Plenora.Lib.Ieee

/-!
# IEEE 754 rounding

A finite binary number is a whole multiple of the least subnormal of its format, and these
multiples grow with the bits.  `nearest` rounds a rational to the closest of them, ties to the
even pattern, and is exact where one of them is hit:

    a < b → magnitude fmt a < magnitude fmt b                 (magnitude_strictMono)
    num = magnitude fmt k * den → nearest fmt num den = k     (nearest_exact)
    exactF32 (widen b) = some b, b not NaN                    (exactF32_widen)
    toRat (ofInt n) = n, |n| ≤ 2 ^ 53                         (toRat_ofInt)
-/

namespace Plenora.Lib.Ieee

/-! ## Formats -/

/-- The widths of a format's fields. -/
structure Format where
  fractionBits : Nat
  exponentBits : Nat
  deriving DecidableEq, Repr

def binary64 : Format := ⟨52, 11⟩
def binary32 : Format := ⟨23, 8⟩

namespace Format

/-- The pattern of infinity: above it the NaNs, below it the finite numbers. -/
def infinity (fmt : Format) : Nat := (2 ^ fmt.exponentBits - 1) * 2 ^ fmt.fractionBits

/-- The number an unsigned pattern stands for, in units of the least subnormal. -/
def magnitude (fmt : Format) (pattern : Nat) : Nat :=
  let exponent := pattern / 2 ^ fmt.fractionBits
  let fraction := pattern % 2 ^ fmt.fractionBits
  if exponent = 0 then fraction else (2 ^ fmt.fractionBits + fraction) * 2 ^ (exponent - 1)

/-! ## Order -/

theorem magnitude_fields (fmt : Format) (e f : Nat) (hf : f < 2 ^ fmt.fractionBits) :
    fmt.magnitude (e * 2 ^ fmt.fractionBits + f) =
      if e = 0 then f else (2 ^ fmt.fractionBits + f) * 2 ^ (e - 1) := by
  have hpos : 0 < 2 ^ fmt.fractionBits := by positivity
  unfold magnitude
  rw [Nat.add_comm, Nat.add_mul_div_right _ _ hpos, Nat.add_mul_mod_self_right,
    Nat.div_eq_of_lt hf, Nat.mod_eq_of_lt hf, Nat.zero_add]

theorem magnitude_lt_succ (fmt : Format) (k : Nat) :
    fmt.magnitude k < fmt.magnitude (k + 1) := by
  have hpos : 0 < 2 ^ fmt.fractionBits := by positivity
  obtain ⟨e, f, hf, rfl⟩ : ∃ e f, f < 2 ^ fmt.fractionBits ∧ k = e * 2 ^ fmt.fractionBits + f :=
    ⟨k / 2 ^ fmt.fractionBits, k % 2 ^ fmt.fractionBits, Nat.mod_lt _ hpos,
      (Nat.div_add_mod' k _).symm⟩
  rw [magnitude_fields fmt e f hf]
  by_cases hlast : f + 1 < 2 ^ fmt.fractionBits
  · rw [Nat.add_assoc, magnitude_fields fmt e (f + 1) hlast]
    split
    next => omega
    next => exact Nat.mul_lt_mul_of_pos_right (by omega) (by positivity)
  · -- the last fraction of an exponent: the next one starts
    have hnext : e * 2 ^ fmt.fractionBits + f + 1 = (e + 1) * 2 ^ fmt.fractionBits + 0 := by
      have := Nat.add_one_mul e (2 ^ fmt.fractionBits)
      omega
    rw [hnext, magnitude_fields fmt (e + 1) 0 hpos, if_neg (Nat.succ_ne_zero e),
      Nat.add_sub_cancel, Nat.add_zero]
    split
    next h0 =>
      subst h0
      omega
    next h0 =>
      have hpow : 2 ^ e = 2 * 2 ^ (e - 1) := by
        rw [← Nat.pow_succ']
        congr 1
        omega
      rw [hpow, ← Nat.mul_assoc]
      exact Nat.mul_lt_mul_of_pos_right (by omega) (by positivity)

theorem magnitude_strictMono (fmt : Format) : StrictMono fmt.magnitude :=
  strictMono_nat_of_lt_succ fmt.magnitude_lt_succ

/-! ## Rounding -/

/-- The largest pattern whose number is at most `num / den`, its bits found from the highest
of `bits` on. -/
def floorFrom (fmt : Format) (num den : Nat) : Nat → Nat → Nat
  | 0, pattern => pattern
  | bits + 1, pattern =>
    if fmt.magnitude (pattern + 2 ^ bits) * den ≤ num then
      floorFrom fmt num den bits (pattern + 2 ^ bits)
    else floorFrom fmt num den bits pattern

/-- The finite number, or infinity, that `num / den` rounds to, ties to even. -/
def nearest (fmt : Format) (num den : Nat) : Nat :=
  let below := fmt.floorFrom num den (fmt.fractionBits + fmt.exponentBits) 0
  let low := num - fmt.magnitude below * den
  let high := fmt.magnitude (below + 1) * den - num
  min fmt.infinity
    (if low < high ∨ (low = high ∧ below % 2 = 0) then below else below + 1)

theorem floorFrom_spec (fmt : Format) (num den : Nat) (bits : Nat) :
    ∀ pattern, fmt.magnitude pattern * den ≤ num →
      num < fmt.magnitude (pattern + 2 ^ bits) * den →
      fmt.magnitude (fmt.floorFrom num den bits pattern) * den ≤ num ∧
        num < fmt.magnitude (fmt.floorFrom num den bits pattern + 1) * den := by
  induction bits with
  | zero =>
    intro pattern hle hlt
    exact ⟨hle, hlt⟩
  | succ bits ih =>
    intro pattern hle hlt
    unfold floorFrom
    split
    next h =>
      apply ih _ h
      rw [Nat.add_assoc, ← Nat.two_mul, ← Nat.pow_succ']
      exact hlt
    next h => exact ih _ hle (Nat.lt_of_not_le h)

/-- **A number of the format is its own rounding.** -/
theorem nearest_exact (fmt : Format) {num den k : Nat} (hden : 0 < den) (hk : k < fmt.infinity)
    (h : num = fmt.magnitude k * den) : fmt.nearest num den = k := by
  have hmono := fmt.magnitude_strictMono
  have hwidth : k < 2 ^ (fmt.fractionBits + fmt.exponentBits) := by
    rw [Nat.pow_add, Nat.mul_comm]
    exact Nat.lt_of_lt_of_le hk (Nat.mul_le_mul_right _ (Nat.sub_le _ _))
  have hzero : fmt.magnitude 0 = 0 := by simp [magnitude]
  obtain ⟨hle, hlt⟩ := floorFrom_spec fmt num den (fmt.fractionBits + fmt.exponentBits) 0
    (by rw [hzero]; omega)
    (by
      rw [h, Nat.zero_add]
      exact Nat.mul_lt_mul_of_pos_right (hmono hwidth) hden)
  have hbelow : fmt.floorFrom num den (fmt.fractionBits + fmt.exponentBits) 0 = k := by
    rw [h] at hle hlt ⊢
    have h₁ := hmono.le_iff_le.1 (Nat.le_of_mul_le_mul_right hle hden)
    have h₂ := hmono.lt_iff_lt.1 (Nat.lt_of_mul_lt_mul_right hlt)
    omega
  unfold nearest
  rw [hbelow, h]
  have hnext : fmt.magnitude k * den < fmt.magnitude (k + 1) * den :=
    Nat.mul_lt_mul_of_pos_right (hmono (Nat.lt_succ_self k)) hden
  simp only []
  rw [if_pos (.inl (by omega))]
  omega

/-- A whole number of at most `fractionBits + 1` bits, scaled by a power of two, is a number of
the format. -/
theorem exists_magnitude (fmt : Format) {n : Nat} (hn : n ≤ 2 ^ (fmt.fractionBits + 1))
    {shift : Nat} (hshift : fmt.fractionBits ≤ shift) :
    ∃ k, k ≤ (shift + 2) * 2 ^ fmt.fractionBits ∧ fmt.magnitude k = n * 2 ^ shift := by
  have hpos : 0 < 2 ^ fmt.fractionBits := by positivity
  by_cases h0 : n = 0
  · subst h0
    exact ⟨0, by omega, by simp [magnitude]⟩
  · by_cases htop : n = 2 ^ (fmt.fractionBits + 1)
    · refine ⟨(shift + 2) * 2 ^ fmt.fractionBits + 0, by omega, ?_⟩
      rw [magnitude_fields fmt _ 0 hpos, if_neg (by omega), htop, Nat.add_zero, ← Nat.pow_add,
        ← Nat.pow_add]
      congr 1
      omega
    · have hle : 2 ^ n.log2 ≤ n := Nat.log2_self_le h0
      have hlt : n < 2 ^ (n.log2 + 1) := Nat.lt_log2_self
      have hlog : n.log2 ≤ fmt.fractionBits := by
        have := (Nat.log2_lt h0).2 (Nat.lt_of_le_of_ne hn htop)
        omega
      -- the fraction is what the leading bit leaves, moved up to the field's top
      have hfield : n * 2 ^ (fmt.fractionBits - n.log2) =
          2 ^ fmt.fractionBits + (n - 2 ^ n.log2) * 2 ^ (fmt.fractionBits - n.log2) := by
        have hpow : 2 ^ n.log2 * 2 ^ (fmt.fractionBits - n.log2) = 2 ^ fmt.fractionBits := by
          rw [← Nat.pow_add, Nat.add_sub_cancel' hlog]
        rw [← hpow, ← Nat.add_mul, Nat.add_sub_cancel' hle]
      have hf : (n - 2 ^ n.log2) * 2 ^ (fmt.fractionBits - n.log2) < 2 ^ fmt.fractionBits := by
        calc (n - 2 ^ n.log2) * 2 ^ (fmt.fractionBits - n.log2)
            < 2 ^ n.log2 * 2 ^ (fmt.fractionBits - n.log2) :=
              Nat.mul_lt_mul_of_pos_right (by rw [Nat.pow_succ] at hlt; omega) (by positivity)
          _ = 2 ^ fmt.fractionBits := by rw [← Nat.pow_add, Nat.add_sub_cancel' hlog]
      refine ⟨(shift + n.log2 - fmt.fractionBits + 1) * 2 ^ fmt.fractionBits +
        (n - 2 ^ n.log2) * 2 ^ (fmt.fractionBits - n.log2), ?_, ?_⟩
      · have : (shift + n.log2 - fmt.fractionBits + 1) * 2 ^ fmt.fractionBits ≤
            (shift + 1) * 2 ^ fmt.fractionBits := Nat.mul_le_mul_right _ (by omega)
        have : (shift + 2) * 2 ^ fmt.fractionBits =
            (shift + 1) * 2 ^ fmt.fractionBits + 2 ^ fmt.fractionBits := by ring
        omega
      · rw [magnitude_fields fmt _ _ hf, if_neg (by omega), ← hfield, Nat.mul_assoc,
          ← Nat.pow_add]
        congr 2
        omega

end Format

/-! ## Binary64 and binary32 -/

/-- The unsigned pattern of a number. -/
def pattern (bits : UInt64) : Nat := bits.toNat % 2 ^ 63
def pattern32 (bits : UInt32) : Nat := bits.toNat % 2 ^ 31

def ofPattern (negative : Bool) (pattern : Nat) : UInt64 :=
  UInt64.ofNat (negative.toNat * 2 ^ 63 + pattern)

def ofPattern32 (negative : Bool) (pattern : Nat) : UInt32 :=
  UInt32.ofNat (negative.toNat * 2 ^ 31 + pattern)

/-- The number a finite binary64 stands for. -/
def toRat (bits : UInt64) : Rat :=
  (if negative bits then -1 else 1) * (binary64.magnitude (pattern bits) / 2 ^ 1074)

/-- The binary32 a binary64 rounds to; a NaN keeps its sign and the top of its payload. -/
def narrow (bits : UInt64) : UInt32 :=
  ofPattern32 (negative bits)
    (if isNaN bits then binary32.infinity + 2 ^ 22 + fraction bits / 2 ^ 29 % 2 ^ 22
    else binary32.nearest (binary64.magnitude (pattern bits)) (2 ^ 925))

/-- The binary32 of the same value, if there is one. -/
def exactF32 (bits : UInt64) : Option UInt32 :=
  if isNaN bits ∨ widen (narrow bits) = bits then some (narrow bits) else none

/-- The binary64 closest to an integer. -/
def ofInt (n : Int) : UInt64 :=
  ofPattern (decide (n < 0)) (binary64.nearest (n.natAbs * 2 ^ 1074) 1)

/-- The number closest to `num / den`. -/
def round64 (negative : Bool) (num den : Nat) : UInt64 :=
  ofPattern negative (binary64.nearest (num * 2 ^ 1074) den)

def round32 (negative : Bool) (num den : Nat) : UInt32 :=
  ofPattern32 negative (binary32.nearest (num * 2 ^ 149) den)

/-! ## Lemmas -/

theorem pattern_ofPattern (s : Bool) {k : Nat} (hk : k < 2 ^ 63) :
    pattern (ofPattern s k) = k := by
  unfold pattern ofPattern
  rw [UInt64.toNat_ofNat']
  cases s <;> simp only [Bool.toNat_false, Bool.toNat_true] <;> omega

theorem negative_ofPattern (s : Bool) {k : Nat} (hk : k < 2 ^ 63) :
    negative (ofPattern s k) = s := by
  unfold negative ofPattern
  rw [UInt64.toNat_ofNat']
  cases s <;> simp only [Bool.toNat_false, Bool.toNat_true, decide_eq_true_eq,
    decide_eq_false_iff_not] <;> omega

/-- A number is its sign and its pattern. -/
theorem eq_of_pattern_eq {a b : UInt64} (hs : negative a = negative b)
    (hp : pattern a = pattern b) : a = b := by
  have ha : a.toNat < 2 ^ 64 := a.toNat_lt
  have hb : b.toNat < 2 ^ 64 := b.toNat_lt
  unfold negative at hs
  rw [decide_eq_decide] at hs
  unfold pattern at hp
  apply UInt64.toNat.inj
  omega

theorem isFinite_iff (bits : UInt64) : isFinite bits ↔ pattern bits < binary64.infinity := by
  have : binary64.infinity = 2047 * 2 ^ 52 := by decide
  rw [this]
  unfold isFinite exponent pattern
  rw [decide_eq_true_eq]
  omega

theorem isNaN_of_isFinite {bits : UInt64} (h : isFinite bits) : isNaN bits = false := by
  unfold isFinite at h
  unfold isNaN
  simp_all

theorem pattern_pack {s e f : Nat} (hs : s < 2) (he : e < 2 ^ 11) (hf : f < 2 ^ 52) :
    pattern (pack s e f) = e * 2 ^ 52 + f := by
  unfold pattern
  rw [pack_toNat hs he hf]
  omega

/-- Widening keeps the sign and the number. -/
theorem widen_spec {b : UInt32} (hb : pattern32 b < binary32.infinity) :
    negative (widen b) = decide (b.toNat / 2 ^ 31 = 1) ∧ isFinite (widen b) ∧
      binary64.magnitude (pattern (widen b)) = binary32.magnitude (pattern32 b) * 2 ^ 925 := by
  have hlt : b.toNat < 2 ^ 32 := b.toNat_lt
  have hinf : binary32.infinity = 255 * 2 ^ 23 := by decide
  rw [hinf] at hb
  unfold pattern32 at hb ⊢
  generalize he : b.toNat / 2 ^ 23 % 2 ^ 8 = e
  generalize hf : b.toNat % 2 ^ 23 = f
  have hsplit : b.toNat % 2 ^ 31 = e * 2 ^ binary32.fractionBits + f := by
    show _ = e * 2 ^ 23 + f
    omega
  have he' : e < 255 := by omega
  have hf' : f < 2 ^ 23 := by omega
  obtain ⟨hw₁, hw₂⟩ := widenFields_lt (e := e) (f := f) (by omega) hf'
  have hpat : pattern (widen b) =
      (widenFields e f).1 * 2 ^ binary64.fractionBits + (widenFields e f).2 := by
    rw [widen, he, hf]
    exact pattern_pack (by omega) hw₁ hw₂
  obtain ⟨hexp, -, hsign⟩ := widen_fields b
  rw [he, hf] at hexp
  refine ⟨by rw [negative, hsign], ?_, ?_⟩
  · unfold isFinite
    rw [hexp, decide_eq_true_eq]
    have hlog : f ≠ 0 → f.log2 < 23 := fun h0 => (Nat.log2_lt h0).2 hf'
    rcases widenFields_cases e f with ⟨h₁, hw⟩ | ⟨h₁, h₂, hw⟩ | ⟨h₁, h₂, hw⟩ | ⟨h₁, h₂, hw⟩ <;>
      rw [hw] <;> dsimp only <;> omega
  · rw [hpat, hsplit, Format.magnitude_fields _ _ _ hw₂, Format.magnitude_fields _ _ _ hf']
    show (if (widenFields e f).1 = 0 then (widenFields e f).2
      else (2 ^ 52 + (widenFields e f).2) * 2 ^ ((widenFields e f).1 - 1)) =
      (if e = 0 then f else (2 ^ 23 + f) * 2 ^ (e - 1)) * 2 ^ 925
    rcases widenFields_cases e f with ⟨h₁, hw⟩ | ⟨h₁, h₂, hw⟩ | ⟨h₁, h₂, hw⟩ | ⟨h₁, h₂, hw⟩ <;>
      rw [hw] <;> dsimp only
    · omega
    · -- a normal number stays normal
      have hsplit : 2 ^ 52 + f * 2 ^ 29 = (2 ^ 23 + f) * 2 ^ 29 := by omega
      rw [if_neg (by omega), if_neg h₂, hsplit, Nat.mul_assoc, Nat.mul_assoc, ← Nat.pow_add,
        ← Nat.pow_add]
      exact congrArg (fun k => (2 ^ 23 + f) * 2 ^ k) (by omega)
    · rw [if_pos rfl, if_pos h₁, h₂, Nat.zero_mul]
    · -- a subnormal number becomes normal
      have hle : 2 ^ f.log2 ≤ f := Nat.log2_self_le h₂
      have hlog : f.log2 < 23 := (Nat.log2_lt h₂).2 hf'
      have hpow : 2 ^ 52 = 2 ^ f.log2 * 2 ^ (52 - f.log2) := by
        rw [← Nat.pow_add, Nat.add_sub_cancel' (by omega)]
      rw [if_neg (by omega), if_pos h₁, hpow, ← Nat.add_mul, Nat.add_sub_cancel' hle,
        Nat.mul_assoc, ← Nat.pow_add]
      exact congrArg (fun k => f * 2 ^ k) (by omega)

theorem pattern32_lt_of_isFinite {b : UInt32} (h : isFinite (widen b)) :
    pattern32 b < binary32.infinity := by
  obtain ⟨hexp, -, -⟩ := widen_fields b
  have hlt : b.toNat < 2 ^ 32 := b.toNat_lt
  have hinf : binary32.infinity = 255 * 2 ^ 23 := by decide
  unfold isFinite at h
  rw [hexp, decide_eq_true_eq] at h
  unfold pattern32
  rw [hinf]
  by_contra hge
  apply h
  unfold widenFields
  rw [if_pos (by omega)]

/-- **A widened binary32 narrows to itself.** -/
theorem exactF32_widen {b : UInt32} (h : isFinite (widen b)) : exactF32 (widen b) = some b := by
  have hb := pattern32_lt_of_isFinite h
  obtain ⟨hs, -, hm⟩ := widen_spec hb
  have hlt : b.toNat < 2 ^ 32 := b.toNat_lt
  have hn : narrow (widen b) = b := by
    unfold narrow
    rw [isNaN_of_isFinite h, if_neg (by decide), hs,
      binary32.nearest_exact (by positivity) hb hm]
    apply UInt32.toNat.inj
    unfold ofPattern32 pattern32
    rw [UInt32.toNat_ofNat']
    by_cases h1 : b.toNat / 2 ^ 31 = 1 <;> simp only [h1, decide_true, decide_false,
      Bool.toNat_true, Bool.toNat_false] <;> omega
  unfold exactF32
  rw [hn, if_pos (.inr rfl)]

theorem Format.nearest_le_infinity (fmt : Format) (num den : Nat) :
    fmt.nearest num den ≤ fmt.infinity :=
  Nat.min_le_left _ _

theorem negative_round64 (s : Bool) (num den : Nat) : negative (round64 s num den) = s :=
  negative_ofPattern s (Nat.lt_of_le_of_lt (binary64.nearest_le_infinity _ _) (by decide))

theorem negative_widen_round32 (s : Bool) (num den : Nat)
    (h : isFinite (widen (round32 s num den))) : negative (widen (round32 s num den)) = s := by
  have hle : binary32.nearest (num * 2 ^ 149) den < 2 ^ 31 :=
    Nat.lt_of_le_of_lt (binary32.nearest_le_infinity _ _) (by decide)
  rw [(widen_spec (pattern32_lt_of_isFinite h)).1]
  unfold round32 ofPattern32
  rw [UInt32.toNat_ofNat']
  cases s <;> simp only [Bool.toNat_false, Bool.toNat_true, decide_eq_true_eq,
    decide_eq_false_iff_not] <;> omega

theorem ofInt_spec {n : Int} (h : n.natAbs ≤ 2 ^ 53) :
    negative (ofInt n) = decide (n < 0) ∧ isFinite (ofInt n) ∧
      binary64.magnitude (pattern (ofInt n)) = n.natAbs * 2 ^ 1074 := by
  obtain ⟨k, hk, hm⟩ := @Format.exists_magnitude binary64 n.natAbs h 1074 (by decide)
  have hinf : k < binary64.infinity := Nat.lt_of_le_of_lt hk (by decide)
  have hk' : k < 2 ^ 63 := Nat.lt_trans hinf (by decide)
  have hnear : binary64.nearest (n.natAbs * 2 ^ 1074) 1 = k :=
    binary64.nearest_exact Nat.one_pos hinf (by rw [hm, Nat.mul_one])
  have heq : ofInt n = ofPattern (decide (n < 0)) k := by rw [ofInt, hnear]
  rw [heq, isFinite_iff, negative_ofPattern _ hk', pattern_ofPattern _ hk']
  exact ⟨rfl, hinf, hm⟩

theorem toRat_ofInt {n : Int} (h : n.natAbs ≤ 2 ^ 53) : toRat (ofInt n) = n := by
  obtain ⟨hs, -, hm⟩ := ofInt_spec h
  unfold toRat
  rw [hs, hm, Nat.cast_mul, Nat.cast_pow, Nat.cast_ofNat, mul_div_assoc,
    div_self (by positivity), mul_one, Nat.cast_natAbs]
  by_cases h0 : n < 0
  · simp [h0, abs_of_neg h0]
  · simp [h0, abs_of_nonneg (Int.not_lt.1 h0)]

/-- A small integer is a binary32 too. -/
theorem exactF32_ofInt {n : Int} (h : n.natAbs ≤ 2 ^ 24) : (exactF32 (ofInt n)).isSome := by
  obtain ⟨k, hk, hm⟩ := @Format.exists_magnitude binary32 n.natAbs h 149 (by decide)
  have hinf : k < binary32.infinity := Nat.lt_of_le_of_lt hk (by decide)
  have hk' : k < 2 ^ 31 := Nat.lt_trans hinf (by decide)
  obtain ⟨hs, hfin, hmag⟩ := ofInt_spec (n := n) (Nat.le_trans h (by decide))
  have hto : (ofPattern32 (decide (n < 0)) k).toNat = (decide (n < 0)).toNat * 2 ^ 31 + k := by
    unfold ofPattern32
    rw [UInt32.toNat_ofNat']
    cases decide (n < 0) <;> simp only [Bool.toNat_false, Bool.toNat_true] <;> omega
  have hpat : pattern32 (ofPattern32 (decide (n < 0)) k) = k := by
    unfold pattern32
    rw [hto]
    cases decide (n < 0) <;> simp only [Bool.toNat_false, Bool.toNat_true] <;> omega
  obtain ⟨hws, hwf, hwm⟩ := widen_spec (b := ofPattern32 (decide (n < 0)) k) (by rwa [hpat])
  have heq : widen (ofPattern32 (decide (n < 0)) k) = ofInt n := by
    apply eq_of_pattern_eq
    · rw [hws, hs, hto]
      cases decide (n < 0) <;> simp only [Bool.toNat_false, Bool.toNat_true, decide_eq_true_eq,
        decide_eq_false_iff_not] <;> omega
    · apply binary64.magnitude_strictMono.injective
      rw [hwm, hmag, hpat, hm, Nat.mul_assoc, show 1074 = 149 + 925 from rfl, Nat.pow_add]
  rw [← heq, exactF32_widen hwf]
  rfl

end Plenora.Lib.Ieee
