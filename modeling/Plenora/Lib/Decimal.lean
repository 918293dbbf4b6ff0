import Plenora.Lib.Padding

/-!
# Decimal digit strings

The number a string of digits stands for, before and after a decimal point, and what
dropping the zeros that do not count does to it:

    value (l ++ m)                = value l * 10 ^ m.length + value m      (value_append)
    value (trimStart l)           = value l                                (value_trimStart)
    fractionValue (trimEnd '0' l) = fractionValue l                        (fractionValue_trimEnd)
    numberOfDigits n ≤ k          ↔ n < 10 ^ k                             (numberOfDigits_le_iff)
-/

namespace Plenora.Lib.Decimal

/-! ## Data model -/

/-- The number the digits are read as. -/
def value (digits : List Char) : Nat := Nat.ofDigitChars 10 digits 0

/-- The number the digits are read as after the point. -/
def fractionValue (digits : List Char) : Rat := (value digits : Rat) / 10 ^ digits.length

/-- Without its leading zeros. -/
def trimStart (digits : List Char) : List Char := digits.dropWhile (· = '0')

/-- The digits of `n` without leading zeros: none for zero. -/
def numberOfDigits (n : Nat) : Nat := if n = 0 then 0 else Nat.log 10 n + 1

def AllDigits (digits : List Char) : Prop := ∀ c ∈ digits, c.isDigit

instance (digits : List Char) : Decidable (AllDigits digits) :=
  decidable_of_iff (digits.all Char.isDigit = true) List.all_eq_true

/-! ## Value -/

theorem isDigit_bounds {c : Char} (h : c.isDigit) : 48 ≤ c.toNat ∧ c.toNat ≤ 57 := by
  simpa [Char.isDigit, UInt32.le_iff_toNat_le] using h

@[simp] theorem value_nil : value [] = 0 := by simp [value]

theorem value_append (l m : List Char) :
    value (l ++ m) = value l * 10 ^ m.length + value m := by
  unfold value
  rw [Nat.ofDigitChars_append, Nat.ofDigitChars_eq_ofDigitChars_zero, Nat.mul_comm]

theorem value_cons (c : Char) (l : List Char) :
    value (c :: l) = (c.toNat - 48) * 10 ^ l.length + value l := by
  have h := value_append [c] l
  rw [List.singleton_append] at h
  rw [h]
  simp [value, Nat.ofDigitChars_cons]

@[simp] theorem value_replicate_zero (n : Nat) : value (List.replicate n '0') = 0 := by
  simp [value]

theorem value_lt {l : List Char} (h : AllDigits l) : value l < 10 ^ l.length := by
  induction l with
  | nil => simp
  | cons c l ih =>
    have hc := isDigit_bounds (h c (by simp))
    have hl := ih fun d hd => h d (by simp [hd])
    rw [value_cons, List.length_cons, Nat.pow_succ]
    have : (c.toNat - 48) * 10 ^ l.length ≤ 9 * 10 ^ l.length :=
      Nat.mul_le_mul_right _ (by omega)
    omega

@[simp] theorem value_toDigits (n : Nat) : value (Nat.toDigits 10 n) = n :=
  Nat.ofDigitChars_ten_toDigits

theorem allDigits_toDigits (n : Nat) : AllDigits (Nat.toDigits 10 n) :=
  fun _ hc => Nat.isDigit_of_mem_toDigits (by decide) (by decide) hc

theorem allDigits_nil : AllDigits [] := by simp [AllDigits]

theorem allDigits_take {l : List Char} (h : AllDigits l) (n : Nat) : AllDigits (l.take n) :=
  fun c hc => h c (List.mem_of_mem_take hc)

theorem allDigits_drop {l : List Char} (h : AllDigits l) (n : Nat) : AllDigits (l.drop n) :=
  fun c hc => h c (List.mem_of_mem_drop hc)

theorem allDigits_append {l m : List Char} :
    AllDigits (l ++ m) ↔ AllDigits l ∧ AllDigits m := by
  unfold AllDigits
  simp only [List.mem_append]
  constructor
  · intro h
    exact ⟨fun c hc => h c (.inl hc), fun c hc => h c (.inr hc)⟩
  · rintro ⟨hl, hm⟩ c (hc | hc)
    · exact hl c hc
    · exact hm c hc

theorem allDigits_replicate_zero (n : Nat) : AllDigits (List.replicate n '0') := by
  intro c hc
  rw [List.eq_of_mem_replicate hc]
  rfl

/-! ## Leading zeros -/

theorem trimStart_suffix (l : List Char) : trimStart l <:+ l := List.dropWhile_suffix _

theorem allDigits_trimStart {l : List Char} (h : AllDigits l) : AllDigits (trimStart l) :=
  fun c hc => h c ((trimStart_suffix l).subset hc)

@[simp] theorem value_trimStart (l : List Char) : value (trimStart l) = value l := by
  induction l with
  | nil => rfl
  | cons c l ih =>
    by_cases hc : c = '0'
    · subst hc
      rw [value_cons]
      simpa [trimStart] using ih
    · simp [trimStart, hc]

theorem trimStart_of_head {l : List Char} (h : ∀ c ∈ l.head?, c ≠ '0') : trimStart l = l := by
  cases l with
  | nil => rfl
  | cons c l =>
    have : c ≠ '0' := h c (by simp)
    simp [trimStart, this]

theorem head_trimStart (l : List Char) : ∀ c ∈ (trimStart l).head?, c ≠ '0' := by
  intro c hc
  have := List.head?_dropWhile_not (fun c : Char => decide (c = '0')) l
  rw [show List.dropWhile (fun c : Char => decide (c = '0')) l = trimStart l from rfl] at this
  rw [Option.mem_def.1 hc] at this
  simpa using this

@[simp] theorem trimStart_trimStart (l : List Char) : trimStart (trimStart l) = trimStart l :=
  trimStart_of_head (head_trimStart l)

/-- A first digit that is not zero makes the number as large as its length says. -/
theorem le_value_of_head {c : Char} {l : List Char} (hc : c.isDigit) (h0 : c ≠ '0') :
    10 ^ l.length ≤ value (c :: l) := by
  have hb := isDigit_bounds hc
  have : c.toNat ≠ 48 := by
    intro h
    apply h0
    apply Char.ext
    apply UInt32.toNat.inj
    exact h
  rw [value_cons]
  have : 1 * 10 ^ l.length ≤ (c.toNat - 48) * 10 ^ l.length :=
    Nat.mul_le_mul_right _ (by omega)
  omega

theorem numberOfDigits_le_iff {n k : Nat} : numberOfDigits n ≤ k ↔ n < 10 ^ k := by
  unfold numberOfDigits
  split
  next h =>
    subst h
    simp
  next h =>
    rw [Nat.succ_le_iff, Nat.log_lt_iff_lt_pow (by decide) h]

theorem length_eq_numberOfDigits {l : List Char} (h : AllDigits l)
    (h0 : ∀ c ∈ l.head?, c ≠ '0') : l.length = numberOfDigits (value l) := by
  cases l with
  | nil => simp [numberOfDigits]
  | cons c l =>
    apply Nat.le_antisymm
    · rw [List.length_cons, Nat.succ_le_iff]
      by_contra hle
      have hlt := numberOfDigits_le_iff.1 (Nat.le_of_not_lt hle)
      have := le_value_of_head (l := l) (h c (by simp)) (h0 c (by simp))
      omega
    · exact numberOfDigits_le_iff.2 (value_lt h)

/-! ## After the point -/

@[simp] theorem fractionValue_nil : fractionValue [] = 0 := by simp [fractionValue]

theorem fractionValue_nonneg (l : List Char) : 0 ≤ fractionValue l := by
  unfold fractionValue
  positivity

theorem fractionValue_lt_one {l : List Char} (h : AllDigits l) : fractionValue l < 1 := by
  unfold fractionValue
  rw [div_lt_one (by positivity)]
  exact_mod_cast value_lt h

theorem fractionValue_append_replicate_zero (l : List Char) (n : Nat) :
    fractionValue (l ++ List.replicate n '0') = fractionValue l := by
  unfold fractionValue
  rw [value_append, value_replicate_zero, List.length_append, List.length_replicate, pow_add]
  push_cast
  field_simp
  ring

@[simp] theorem fractionValue_trimEnd (l : List Char) :
    fractionValue (trimEnd '0' l) = fractionValue l := by
  obtain ⟨n, hn⟩ := eq_trimEnd_append '0' l
  calc fractionValue (trimEnd '0' l)
      = fractionValue (trimEnd '0' l ++ List.replicate n '0') :=
        (fractionValue_append_replicate_zero _ n).symm
    _ = fractionValue l := by rw [← hn]

theorem allDigits_trimEnd {l : List Char} (h : AllDigits l) : AllDigits (trimEnd '0' l) :=
  fun c hc => h c ((List.rdropWhile_prefix _ l).subset hc)

/-- Before and after the point, over one power of ten. -/
theorem value_add_fractionValue (l m : List Char) :
    ((value l : Rat) + fractionValue m) * 10 ^ m.length = value (l ++ m) := by
  unfold fractionValue
  rw [value_append]
  push_cast
  field_simp

theorem fractionValue_mul_pow {l : List Char} {s : Nat} (h : l.length ≤ s) :
    fractionValue l * 10 ^ s = ((value l * 10 ^ (s - l.length) : Nat) : Rat) := by
  obtain ⟨k, rfl⟩ := Nat.exists_eq_add_of_le h
  unfold fractionValue
  rw [Nat.add_sub_cancel_left, pow_add]
  push_cast
  field_simp

end Plenora.Lib.Decimal
