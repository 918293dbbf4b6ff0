import Plenora.Lib.Decimal

/-!
# Digit strings in groups

Digits cut into groups of four are the digits of a number in base 10000, first group
first; a group written with four digits gives its digits back, and the first one
written without its zeros starts the number.

    AllDigits l → Nat.toDigits 10 (value l) = canonical l                (toDigits_value)
    AllDigits l → l.length = 4 * n → (groups l).flatMap four = l         (flatMap_four_groups)
    fractionValue l * 10 ^ p = fractionValue m * 10 ^ q → l = m, p = q      (scientific_inj)
    magnitude weight gs = baseValue gs * 10000 ^ (weight + 1 - gs.length)   (magnitude_eq)
-/

namespace Plenora.Lib.Decimal

/-! ## Data model -/

/-- A number as it is written: without its leading zeros, and one digit at least. -/
def canonical (l : List Char) : List Char := if trimStart l = [] then ['0'] else trimStart l

/-- The digits in groups of four, as far as they fill groups. -/
def fours : List Char → List (List Char)
  | a :: b :: c :: d :: rest => [a, b, c, d] :: fours rest
  | _ => []

/-- The numbers of the groups. -/
def groups (l : List Char) : List Nat := (fours l).map value

/-- A number in four digits, or more where it needs them. -/
def four (n : Nat) : List Char :=
  List.replicate (4 - (Nat.toDigits 10 n).length) '0' ++ Nat.toDigits 10 n

/-- The number of a list of groups. -/
def baseValue (gs : List Nat) : Nat := gs.foldl (fun n g => n * 10000 + g) 0

/-- The groups with their weights: the first counts `10000 ^ weight`. -/
def magnitude (weight : Int) : List Nat → Rat
  | [] => 0
  | g :: gs => g * 10000 ^ weight + magnitude (weight - 1) gs

/-! ## Digits are determined by their number -/

theorem value_inj {l m : List Char} (hl : AllDigits l) (hm : AllDigits m)
    (hlen : l.length = m.length) (h : value l = value m) : l = m := by
  induction l generalizing m with
  | nil => exact (List.length_eq_zero_iff.1 hlen.symm).symm
  | cons c l ih =>
    cases m with
    | nil => cases hlen
    | cons d m =>
      have hlen' : l.length = m.length := Nat.succ.inj hlen
      have hl' : AllDigits l := fun x hx => hl x (List.mem_cons_of_mem c hx)
      have hm' : AllDigits m := fun x hx => hm x (List.mem_cons_of_mem d hx)
      have hltl := value_lt hl'
      have hltm := value_lt hm'
      have hc := isDigit_bounds (hl c List.mem_cons_self)
      have hd := isDigit_bounds (hm d List.mem_cons_self)
      rw [value_cons, value_cons, hlen'] at h
      rw [hlen'] at hltl
      have hdigit : c.toNat - 48 = d.toNat - 48 := by
        have hpos : 0 < 10 ^ m.length := Nat.pow_pos (by decide)
        have hdiv (k r : Nat) (hr : r < 10 ^ m.length) : (k * 10 ^ m.length + r) / 10 ^ m.length = k := by
          rw [Nat.mul_comm, Nat.mul_add_div hpos, Nat.div_eq_of_lt hr, Nat.add_zero]
        rw [← hdiv (c.toNat - 48) _ hltl, h, hdiv _ _ hltm]
      have hcd : c = d := by
        apply Char.ext
        apply UInt32.toNat.inj
        have hc' : c.val.toNat = c.toNat := rfl
        have hd' : d.val.toNat = d.toNat := rfl
        omega
      rw [hdigit] at h
      rw [hcd, ih hl' hm' hlen' (Nat.add_left_cancel h)]

theorem length_toDigits (n : Nat) (hn : n ≠ 0) :
    (Nat.toDigits 10 n).length = numberOfDigits n := by
  have hpos : 0 < numberOfDigits n := by
    by_contra hzero
    have := numberOfDigits_le_iff.1 (Nat.le_of_not_lt hzero)
    exact hn (by simpa using this)
  apply Nat.le_antisymm
  · exact (Nat.length_toDigits_le_iff (by decide) hpos).2 (numberOfDigits_le_iff.1 (Nat.le_refl _))
  · exact numberOfDigits_le_iff.2
      ((Nat.length_toDigits_le_iff (by decide) Nat.length_toDigits_pos).1 (Nat.le_refl _))

theorem value_eq_zero_iff {l : List Char} (h : AllDigits l) : value l = 0 ↔ trimStart l = [] := by
  rw [← value_trimStart]
  constructor
  · intro hzero
    cases ht : trimStart l with
    | nil => rfl
    | cons c m =>
      have hall := allDigits_trimStart h
      rw [ht] at hall
      have hhead : c ≠ '0' := head_trimStart l c (by rw [ht]; rfl)
      have hle := le_value_of_head (l := m) (hall c List.mem_cons_self) hhead
      have : 0 < 10 ^ m.length := Nat.pow_pos (by decide)
      rw [ht] at hzero
      omega
  · intro hnil
    rw [hnil, value_nil]

/-! ## Significant digits -/

/-- Digits without zeros at their end are determined by the number they are after the point. -/
theorem fractionValue_inj {l m : List Char} (hl : AllDigits l) (hm : AllDigits m)
    (h : fractionValue l = fractionValue m) : trimEnd '0' l = trimEnd '0' m := by
  have hcross : value l * 10 ^ m.length = value m * 10 ^ l.length := by
    unfold fractionValue at h
    rw [div_eq_div_iff (by positivity) (by positivity)] at h
    exact_mod_cast h
  rw [trimEnd_eq_iff]
  refine ⟨m.length, l.length, value_inj ?_ ?_ ?_ ?_⟩
  · exact allDigits_append.2 ⟨hl, allDigits_replicate_zero _⟩
  · exact allDigits_append.2 ⟨hm, allDigits_replicate_zero _⟩
  · simp [Nat.add_comm]
  · simp [value_append, hcross]

/-- A first digit that is not zero is worth at least a tenth. -/
theorem le_fractionValue {l : List Char} (h : AllDigits l) (hne : l ≠ [])
    (hhead : ∀ c ∈ l.head?, c ≠ '0') : 1 / 10 ≤ fractionValue l := by
  cases l with
  | nil => contradiction
  | cons c l =>
    have hle := le_value_of_head (l := l) (h c List.mem_cons_self) (hhead c rfl)
    have hle' : (10 : Rat) ^ l.length ≤ value (c :: l) := mod_cast hle
    unfold fractionValue
    rw [List.length_cons, pow_succ, div_le_div_iff₀ (by norm_num) (by positivity)]
    linarith

/-- **Digits without zeros around them and the place of the first one are determined by the
number.** -/
theorem scientific_inj {l m : List Char} {p q : Int} (hl : AllDigits l) (hm : AllDigits m)
    (hlne : l ≠ []) (hmne : m ≠ []) (hlhead : ∀ c ∈ l.head?, c ≠ '0')
    (hmhead : ∀ c ∈ m.head?, c ≠ '0') (h : fractionValue l * 10 ^ p = fractionValue m * 10 ^ q) :
    trimEnd '0' l = trimEnd '0' m ∧ p = q := by
  have hbounds {l : List Char} (hl : AllDigits l) (hne : l ≠ []) (hhead : ∀ c ∈ l.head?, c ≠ '0')
      (p : Int) : (10 : Rat) ^ (p - 1) ≤ fractionValue l * 10 ^ p ∧
        fractionValue l * 10 ^ p < 10 ^ p := by
    have hpos : (0 : Rat) < 10 ^ p := by positivity
    have hlo := le_fractionValue hl hne hhead
    have hhi := fractionValue_lt_one hl
    constructor
    · rw [zpow_sub_one₀ (by norm_num)]
      nlinarith
    · nlinarith
  have hnot {a b : Int} {x : Rat} (ha : x < 10 ^ a) (hb : 10 ^ (b - 1) ≤ x) : b ≤ a := by
    by_contra hlt
    have : (10 : Rat) ^ a ≤ 10 ^ (b - 1) := zpow_le_zpow_right₀ (by norm_num) (by omega)
    linarith
  obtain ⟨hplo, hphi⟩ := hbounds hl hlne hlhead p
  obtain ⟨hqlo, hqhi⟩ := hbounds hm hmne hmhead q
  have hpq : p = q := le_antisymm (hnot (h ▸ hqhi) hplo) (hnot (h ▸ hphi) (h ▸ hqlo))
  subst hpq
  refine ⟨fractionValue_inj hl hm ?_, rfl⟩
  exact mul_right_cancel₀ (by positivity) h

/-! ## A number as it is written -/

/-- **A number is written without leading zeros.** -/
theorem toDigits_value {l : List Char} (h : AllDigits l) :
    Nat.toDigits 10 (value l) = canonical l := by
  unfold canonical
  split
  next hnil => rw [(value_eq_zero_iff h).2 hnil, Nat.toDigits_zero]
  next hne =>
    have hvalue : value l ≠ 0 := fun hzero => hne ((value_eq_zero_iff h).1 hzero)
    refine value_inj (allDigits_toDigits _) (allDigits_trimStart h) ?_ ?_
    · rw [length_toDigits _ hvalue, length_eq_numberOfDigits (allDigits_trimStart h)
        (head_trimStart l), value_trimStart]
    · rw [value_toDigits, value_trimStart]

theorem canonical_toDigits (n : Nat) : canonical (Nat.toDigits 10 n) = Nat.toDigits 10 n := by
  have h := toDigits_value (allDigits_toDigits n)
  rw [value_toDigits] at h
  exact h.symm

theorem canonical_zeros (n : Nat) (l : List Char) :
    canonical (List.replicate n '0' ++ l) = canonical l := by
  have htrim : trimStart (List.replicate n '0' ++ l) = trimStart l := by
    induction n with
    | zero => rfl
    | succ n ih => rw [List.replicate_succ, List.cons_append, trimStart,
        List.dropWhile_cons_of_pos (by decide)]; exact ih
  unfold canonical
  rw [htrim]

/-! ## Groups of four -/

theorem fours_cons {c l : List Char} (hc : c.length = 4) : fours (c ++ l) = c :: fours l := by
  match c, hc with
  | [a, b, d, e], _ => rfl

theorem length_fours {n : Nat} {l : List Char} (h : l.length = 4 * n) : (fours l).length = n := by
  induction n generalizing l with
  | zero =>
    rw [List.length_eq_zero_iff.1 h]
    rfl
  | succ n ih =>
    have hsplit := List.take_append_drop 4 l
    rw [← hsplit, fours_cons (by rw [List.length_take]; omega), List.length_cons,
      ih (by rw [List.length_drop]; omega)]

theorem fours_append {n : Nat} {l m : List Char} (h : l.length = 4 * n) :
    fours (l ++ m) = fours l ++ fours m := by
  induction n generalizing l with
  | zero =>
    rw [List.length_eq_zero_iff.1 h]
    rfl
  | succ n ih =>
    have htake : (l.take 4).length = 4 := by rw [List.length_take]; omega
    have hdrop : (l.drop 4).length = 4 * n := by rw [List.length_drop]; omega
    rw [← List.take_append_drop 4 l, List.append_assoc, fours_cons htake, fours_cons htake,
      ih hdrop, List.cons_append]

theorem mem_fours {l : List Char} {c : List Char} (h : c ∈ fours l) :
    c.length = 4 ∧ ∀ x ∈ c, x ∈ l := by
  fun_induction fours l with
  | case1 a b d e rest ih =>
    rcases List.mem_cons.1 h with rfl | h
    · refine ⟨rfl, fun x hx => ?_⟩
      simp only [List.mem_cons, List.not_mem_nil, or_false] at hx ⊢
      tauto
    · obtain ⟨hlen, hsub⟩ := ih h
      refine ⟨hlen, fun x hx => ?_⟩
      simp only [List.mem_cons]
      exact .inr (.inr (.inr (.inr (hsub x hx))))
  | case2 => cases h

theorem four_value {c : List Char} (hlen : c.length = 4) (h : AllDigits c) : four (value c) = c := by
  have hlt := value_lt h
  rw [hlen] at hlt
  have hdigits := (Nat.length_toDigits_le_iff (b := 10) (n := value c) (k := 4) (by decide)
    (by decide)).2 hlt
  unfold four
  refine value_inj (allDigits_append.2 ⟨allDigits_replicate_zero _, allDigits_toDigits _⟩) h ?_ ?_
  · rw [List.length_append, List.length_replicate, hlen]
    omega
  · rw [value_append, value_replicate_zero, value_toDigits, Nat.zero_mul, Nat.zero_add]

/-- **Groups give their digits back.** -/
theorem flatMap_four_groups {n : Nat} {l : List Char} (h : AllDigits l) (hlen : l.length = 4 * n) :
    (groups l).flatMap four = l := by
  unfold groups
  induction n generalizing l with
  | zero =>
    rw [List.length_eq_zero_iff.1 hlen]
    rfl
  | succ n ih =>
    have htake : (l.take 4).length = 4 := by rw [List.length_take]; omega
    have hdrop : (l.drop 4).length = 4 * n := by rw [List.length_drop]; omega
    conv_lhs => rw [← List.take_append_drop 4 l]
    rw [fours_cons htake, List.map_cons, List.flatMap_cons, four_value htake (allDigits_take h 4),
      ih (allDigits_drop h 4) hdrop, List.take_append_drop]

/-! ## The number of the groups -/

theorem foldl_baseValue (n : Nat) (gs : List Nat) :
    gs.foldl (fun n g => n * 10000 + g) n = n * 10000 ^ gs.length + baseValue gs := by
  unfold baseValue
  induction gs generalizing n with
  | nil => simp
  | cons g gs ih =>
    rw [List.foldl_cons, List.foldl_cons, ih, ih (0 * 10000 + g), List.length_cons, Nat.pow_succ]
    ring

theorem baseValue_cons (g : Nat) (gs : List Nat) :
    baseValue (g :: gs) = g * 10000 ^ gs.length + baseValue gs := by
  unfold baseValue
  rw [List.foldl_cons, foldl_baseValue, Nat.zero_mul, Nat.zero_add]
  rfl

theorem baseValue_groups {n : Nat} {l : List Char} (hlen : l.length = 4 * n) :
    baseValue (groups l) = value l := by
  induction n generalizing l with
  | zero =>
    rw [List.length_eq_zero_iff.1 hlen]
    rfl
  | succ n ih =>
    have htake : (l.take 4).length = 4 := by rw [List.length_take]; omega
    have hdrop : (l.drop 4).length = 4 * n := by rw [List.length_drop]; omega
    have hgroups : groups l = value (l.take 4) :: groups (l.drop 4) := by
      unfold groups
      conv_lhs => rw [← List.take_append_drop 4 l]
      rw [fours_cons htake, List.map_cons]
    have hcount : (groups (l.drop 4)).length = n := by
      unfold groups
      rw [List.length_map, length_fours hdrop]
    conv_rhs => rw [← List.take_append_drop 4 l]
    rw [hgroups, baseValue_cons, ih hdrop, value_append, hcount, hdrop, Nat.pow_mul]

theorem magnitude_eq (weight : Int) (gs : List Nat) :
    magnitude weight gs = baseValue gs * (10000 : Rat) ^ (weight + 1 - gs.length) := by
  induction gs generalizing weight with
  | nil => simp [magnitude, baseValue]
  | cons g gs ih =>
    have hfirst : (10000 : Rat) ^ weight =
        10000 ^ gs.length * 10000 ^ (weight + 1 - (gs.length + 1 : Int)) := by
      rw [← zpow_natCast, ← zpow_add₀ (by norm_num)]
      congr 1
      ring
    rw [magnitude, ih, baseValue_cons, List.length_cons]
    push_cast
    rw [hfirst, show weight - 1 + 1 - (gs.length : Int) = weight + 1 - (gs.length + 1) by ring]
    ring

/-- Leading zero groups only lower the weight. -/
theorem magnitude_zeros (weight : Int) (n : Nat) (gs : List Nat) :
    magnitude weight (List.replicate n 0 ++ gs) = magnitude (weight - n) gs := by
  induction n generalizing weight with
  | zero => simp
  | succ n ih =>
    rw [List.replicate_succ, List.cons_append, magnitude, ih]
    push_cast
    rw [zero_mul, zero_add, show weight - 1 - (n : Int) = weight - (n + 1) by ring]

/-- Zero groups at the end do not count. -/
theorem magnitude_append_zeros (weight : Int) (gs : List Nat) (n : Nat) :
    magnitude weight (gs ++ List.replicate n 0) = magnitude weight gs := by
  induction gs generalizing weight with
  | nil =>
    rw [List.nil_append, ← List.append_nil (List.replicate n 0), magnitude_zeros]
    rfl
  | cons g gs ih => rw [List.cons_append, magnitude, magnitude, ih]

end Plenora.Lib.Decimal
