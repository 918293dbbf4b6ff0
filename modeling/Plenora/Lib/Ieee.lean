import Mathlib

/-!
# IEEE 754 bit patterns

Binary64 and binary32 numbers as their bits: the fields, the comparisons a
program makes on them, and the exact widening of a binary32.

    widen a = widen b ↔ a = b          (widen_inj)
    isNaN (widen a) ↔ isNaN32 a        (isNaN_widen)
-/

namespace Plenora.Lib.Ieee

/-! ## Fields -/

def negative (bits : UInt64) : Bool := bits.toNat / 2 ^ 63 = 1
def exponent (bits : UInt64) : Nat := bits.toNat / 2 ^ 52 % 2 ^ 11
def fraction (bits : UInt64) : Nat := bits.toNat % 2 ^ 52

/-- The bits of a number with these fields. -/
def pack (sign exponent fraction : Nat) : UInt64 :=
  UInt64.ofNat (sign * 2 ^ 63 + exponent * 2 ^ 52 + fraction)

def isFinite (bits : UInt64) : Bool := exponent bits ≠ 2047
def isNaN (bits : UInt64) : Bool := exponent bits = 2047 ∧ fraction bits ≠ 0
def isZero (bits : UInt64) : Bool := bits.toNat % 2 ^ 63 = 0

/-- The same number without its sign. -/
def abs (bits : UInt64) : UInt64 := UInt64.ofNat (bits.toNat % 2 ^ 63)

/-- Where a number that is not NaN stands: both zeros at 0. -/
def rank (bits : UInt64) : Int :=
  if negative bits then -((bits.toNat % 2 ^ 63 : Nat) : Int) else (bits.toNat % 2 ^ 63 : Nat)

/-- `a < b`, false as soon as one is NaN. -/
def lt (a b : UInt64) : Bool := !isNaN a && !isNaN b && rank a < rank b

/-! ## Widening -/

def isNaN32 (bits : UInt32) : Bool := bits.toNat / 2 ^ 23 % 2 ^ 8 = 255 ∧ bits.toNat % 2 ^ 23 ≠ 0
def isZero32 (bits : UInt32) : Bool := bits.toNat % 2 ^ 31 = 0

/-- The exponent and fraction, in binary64, of a binary32 with these fields. -/
def widenFields (exponent fraction : Nat) : Nat × Nat :=
  if exponent = 255 then (2047, fraction * 2 ^ 29)
  else if exponent ≠ 0 then (exponent + 896, fraction * 2 ^ 29)
  else if fraction = 0 then (0, 0)
  else (fraction.log2 + 874, (fraction - 2 ^ fraction.log2) * 2 ^ (52 - fraction.log2))

/-- The binary64 of the same value. -/
def widen (bits : UInt32) : UInt64 :=
  let fields := widenFields (bits.toNat / 2 ^ 23 % 2 ^ 8) (bits.toNat % 2 ^ 23)
  pack (bits.toNat / 2 ^ 31) fields.1 fields.2

/-! ## Lemmas -/

section Pack

variable {s e f : Nat} (hs : s < 2) (he : e < 2 ^ 11) (hf : f < 2 ^ 52)

include hs he hf

theorem pack_toNat : (pack s e f).toNat = s * 2 ^ 63 + e * 2 ^ 52 + f := by
  rw [pack, UInt64.toNat_ofNat']
  omega

theorem exponent_pack : exponent (pack s e f) = e := by
  rw [exponent, pack_toNat hs he hf]
  omega

theorem fraction_pack : fraction (pack s e f) = f := by
  rw [fraction, pack_toNat hs he hf]
  omega

end Pack

theorem widenFields_lt {e f : Nat} (he : e < 2 ^ 8) (hf : f < 2 ^ 23) :
    (widenFields e f).1 < 2 ^ 11 ∧ (widenFields e f).2 < 2 ^ 52 := by
  unfold widenFields
  split
  next => exact ⟨by omega, by dsimp only; omega⟩
  next =>
  split
  next => exact ⟨by dsimp only; omega, by dsimp only; omega⟩
  next =>
  split
  next => exact ⟨by omega, by omega⟩
  next h0 =>
    have hlog : f.log2 < 23 := (Nat.log2_lt h0).2 hf
    have hlo : 2 ^ f.log2 ≤ f := Nat.log2_self_le h0
    have hhi : f < 2 ^ (f.log2 + 1) := Nat.lt_log2_self
    refine ⟨by dsimp only; omega, ?_⟩
    have hpow : 2 ^ f.log2 * 2 ^ (52 - f.log2) = 2 ^ 52 := by
      rw [← Nat.pow_add, Nat.add_sub_cancel' (by omega)]
    calc (f - 2 ^ f.log2) * 2 ^ (52 - f.log2)
        < 2 ^ f.log2 * 2 ^ (52 - f.log2) :=
          Nat.mul_lt_mul_of_pos_right (by rw [Nat.pow_succ] at hhi; omega) (by positivity)
      _ = 2 ^ 52 := hpow

/-- Infinite or NaN, normal, zero, subnormal. -/
theorem widenFields_cases (e f : Nat) :
    (e = 255 ∧ widenFields e f = (2047, f * 2 ^ 29)) ∨
    (e ≠ 255 ∧ e ≠ 0 ∧ widenFields e f = (e + 896, f * 2 ^ 29)) ∨
    (e = 0 ∧ f = 0 ∧ widenFields e f = (0, 0)) ∨
    (e = 0 ∧ f ≠ 0 ∧
      widenFields e f = (f.log2 + 874, (f - 2 ^ f.log2) * 2 ^ (52 - f.log2))) := by
  unfold widenFields
  split_ifs <;> simp_all

/-- The ranges of exponents do not meet, and in each the fraction is recovered. -/
theorem widenFields_inj {e f e' f' : Nat} (he : e < 2 ^ 8) (hf : f < 2 ^ 23) (he' : e' < 2 ^ 8)
    (hf' : f' < 2 ^ 23) (h : widenFields e f = widenFields e' f') : e = e' ∧ f = f' := by
  have hlog {g : Nat} (hg : g < 2 ^ 23) : g.log2 < 23 := by
    by_cases h0 : g = 0
    · subst h0
      decide
    · exact (Nat.log2_lt h0).2 hg
  have hl := hlog hf
  have hl' := hlog hf'
  -- two subnormal numbers with the same exponent have the same leading bit
  have hsub (h0 : f ≠ 0) (h0' : f' ≠ 0) (hexp : f.log2 = f'.log2)
      (hfrac : (f - 2 ^ f.log2) * 2 ^ (52 - f.log2) = (f' - 2 ^ f'.log2) * 2 ^ (52 - f'.log2)) :
      f = f' := by
    have hle : 2 ^ f.log2 ≤ f := Nat.log2_self_le h0
    have hle' : 2 ^ f'.log2 ≤ f' := Nat.log2_self_le h0'
    rw [hexp] at hfrac hle
    have := Nat.eq_of_mul_eq_mul_right (by positivity) hfrac
    omega
  rcases widenFields_cases e f with ⟨h₁, hw⟩ | ⟨h₁, h₂, hw⟩ | ⟨h₁, h₂, hw⟩ | ⟨h₁, h₂, hw⟩ <;>
    rcases widenFields_cases e' f' with ⟨h₁', hw'⟩ | ⟨h₁', h₂', hw'⟩ | ⟨h₁', h₂', hw'⟩ |
      ⟨h₁', h₂', hw'⟩ <;>
    rw [hw, hw', Prod.mk.injEq] at h <;> obtain ⟨hexp, hfrac⟩ := h <;> try omega

theorem widen_fields (bits : UInt32) :
    exponent (widen bits) =
        (widenFields (bits.toNat / 2 ^ 23 % 2 ^ 8) (bits.toNat % 2 ^ 23)).1 ∧
      fraction (widen bits) =
        (widenFields (bits.toNat / 2 ^ 23 % 2 ^ 8) (bits.toNat % 2 ^ 23)).2 ∧
      (widen bits).toNat / 2 ^ 63 = bits.toNat / 2 ^ 31 := by
  have hlt : bits.toNat < 2 ^ 32 := bits.toNat_lt
  obtain ⟨he, hf⟩ := widenFields_lt (e := bits.toNat / 2 ^ 23 % 2 ^ 8) (f := bits.toNat % 2 ^ 23)
    (by omega) (by omega)
  have hs : bits.toNat / 2 ^ 31 < 2 := by omega
  refine ⟨exponent_pack hs he hf, fraction_pack hs he hf, ?_⟩
  rw [widen, pack_toNat hs he hf]
  omega

theorem widen_inj {a b : UInt32} : widen a = widen b ↔ a = b := by
  refine ⟨fun h => ?_, fun h => h ▸ rfl⟩
  have ha : a.toNat < 2 ^ 32 := a.toNat_lt
  have hb : b.toNat < 2 ^ 32 := b.toNat_lt
  obtain ⟨hae, haf, has⟩ := widen_fields a
  obtain ⟨hbe, hbf, hbs⟩ := widen_fields b
  rw [h] at hae haf has
  obtain ⟨he, hf⟩ := widenFields_inj (by omega) (by omega) (by omega) (by omega)
    (Prod.ext (hae.symm.trans hbe) (haf.symm.trans hbf))
  have hs := has.symm.trans hbs
  apply UInt32.toNat.inj
  omega

theorem isNaN_widen (bits : UInt32) : isNaN (widen bits) = isNaN32 bits := by
  obtain ⟨he, hf, -⟩ := widen_fields bits
  have hlt : bits.toNat < 2 ^ 32 := bits.toNat_lt
  have hlog : (bits.toNat % 2 ^ 23).log2 < 23 := by
    by_cases h0 : bits.toNat % 2 ^ 23 = 0
    · rw [h0]
      decide
    · exact (Nat.log2_lt h0).2 (by omega)
  unfold isNaN isNaN32
  rw [he, hf]
  rcases widenFields_cases (bits.toNat / 2 ^ 23 % 2 ^ 8) (bits.toNat % 2 ^ 23) with
    ⟨h₁, hw⟩ | ⟨h₁, h₂, hw⟩ | ⟨h₁, h₂, hw⟩ | ⟨h₁, h₂, hw⟩ <;> rw [hw] <;>
    rw [decide_eq_decide] <;> dsimp only <;> omega

theorem isZero_iff (bits : UInt64) : isZero bits ↔ exponent bits = 0 ∧ fraction bits = 0 := by
  unfold isZero exponent fraction
  rw [decide_eq_true_eq]
  omega

theorem isZero_widen (bits : UInt32) : isZero (widen bits) = isZero32 bits := by
  obtain ⟨he, hf, -⟩ := widen_fields bits
  rw [Bool.eq_iff_iff, isZero_iff, he, hf]
  unfold isZero32
  rw [decide_eq_true_eq]
  rcases widenFields_cases (bits.toNat / 2 ^ 23 % 2 ^ 8) (bits.toNat % 2 ^ 23) with
    ⟨h₁, hw⟩ | ⟨h₁, h₂, hw⟩ | ⟨h₁, h₂, hw⟩ | ⟨h₁, h₂, hw⟩ <;> rw [hw] <;> dsimp only <;> omega

end Plenora.Lib.Ieee
