import Plenora.Lib.Decimal

/-!
# Numbers in at least so many digits

    Decimal.value (padded w n) = n,   (padded w n).length = w if n < 10 ^ w       (value_padded)
-/

namespace Plenora.Lib.Decimal

/-- A number in at least `width` digits. -/
def padded (width n : Nat) : List Char :=
  List.replicate (width - (Nat.toDigits 10 n).length) '0' ++ Nat.toDigits 10 n

theorem allDigits_padded (width n : Nat) : AllDigits (padded width n) :=
  allDigits_append.2 ⟨allDigits_replicate_zero _, allDigits_toDigits n⟩

@[simp] theorem value_padded (width n : Nat) : value (padded width n) = n := by
  rw [padded, value_append, value_replicate_zero, Nat.zero_mul, Nat.zero_add, value_toDigits]

theorem length_padded {width n : Nat} (hw : 0 < width) (h : n < 10 ^ width) :
    (padded width n).length = width := by
  have := (Nat.length_toDigits_le_iff (b := 10) (n := n) (k := width) (by decide) hw).2 h
  rw [padded, List.length_append, List.length_replicate]
  omega

theorem padded_ne_nil (width n : Nat) : padded width n ≠ [] := by
  intro h
  exact Nat.toDigits_ne_nil (List.append_eq_nil_iff.1 h).2

end Plenora.Lib.Decimal
