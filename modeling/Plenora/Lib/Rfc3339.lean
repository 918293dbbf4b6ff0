import Plenora.Lib.Decimal
import Plenora.Lib.Utf8

/-!
# The texts of RFC 3339

A date and a time as they are written, with `T` or `t` between them, an optional fraction and the
offset, and the moment they stand for.

    s.WellFormed → read s.text = some s.value                                        (read_text)
-/

namespace Plenora.Lib.Rfc3339

open Plenora.Lib.Decimal

abbrev Text := List Char

/-- `Z`, or a numeric offset with its sign. -/
inductive Zone where
  | utc (letter : Char)
  | offset (sign : Char) (hour minute : Text)
  deriving DecidableEq

/-- The parts of a text. -/
structure Stamp where
  year : Text
  month : Text
  day : Text
  mark : Char
  hour : Text
  minute : Text
  second : Text
  fraction : Text
  zone : Zone
  deriving DecidableEq

def Zone.text : Zone → Text
  | .utc letter => [letter]
  | .offset sign hour minute => sign :: (hour ++ ':' :: minute)

def fractionText (fraction : Text) : Text := if fraction = [] then [] else '.' :: fraction

def Stamp.text (s : Stamp) : Text :=
  s.year ++ '-' :: (s.month ++ '-' :: (s.day ++ s.mark :: (s.hour ++ ':' :: (s.minute ++
    ':' :: (s.second ++ (fractionText s.fraction ++ s.zone.text))))))

/-- So many digits. -/
def Digits (text : Text) (width : Nat) : Prop := text.length = width ∧ AllDigits text

instance (text : Text) (width : Nat) : Decidable (Digits text width) :=
  inferInstanceAs (Decidable (_ ∧ _))

def isLeapYear (year : Nat) : Bool := (year % 4 = 0 && year % 100 ≠ 0) || year % 400 = 0

def monthDays (year month : Nat) : Nat :=
  if month ∈ [1, 3, 5, 7, 8, 10, 12] then 31
  else if month ∈ [4, 6, 9, 11] then 30
  else if month = 2 then (if isLeapYear year then 29 else 28)
  else 0

def Zone.WellFormed : Zone → Prop
  | .utc letter => letter = 'Z' ∨ letter = 'z'
  | .offset sign hour minute => (sign = '+' ∨ sign = '-') ∧ Digits hour 2 ∧ value hour ≤ 23 ∧
      Digits minute 2 ∧ value minute ≤ 59

instance (z : Zone) : Decidable z.WellFormed :=
  match z with
  | .utc _ => inferInstanceAs (Decidable (_ ∨ _))
  | .offset _ _ _ => inferInstanceAs (Decidable (_ ∧ _ ∧ _ ∧ _ ∧ _))

/-- A day of the calendar, a time of day, with the sixtieth second of a leap, and an offset of
less than a day. -/
def Stamp.WellFormed (s : Stamp) : Prop :=
  (Digits s.year 4 ∧ Digits s.month 2 ∧ Digits s.day 2) ∧
  (1 ≤ value s.day ∧ value s.day ≤ monthDays (value s.year) (value s.month)) ∧
  (s.mark = 'T' ∨ s.mark = 't') ∧
  (Digits s.hour 2 ∧ Digits s.minute 2 ∧ Digits s.second 2) ∧
  (value s.hour ≤ 23 ∧ value s.minute ≤ 59 ∧ value s.second ≤ 60) ∧
  AllDigits s.fraction ∧ s.zone.WellFormed

instance (s : Stamp) : Decidable s.WellFormed :=
  inferInstanceAs (Decidable (_ ∧ _ ∧ _ ∧ _ ∧ _ ∧ _ ∧ _))

/-! ## The moment -/

/-- What a text is read as: the offset, and the seconds and nanoseconds since 1970. -/
structure Parsed where
  offset : Int
  timestamp : Int
  nanos : Nat
  deriving DecidableEq

/-- The seconds the local time is ahead. -/
def Zone.seconds : Zone → Int
  | .utc _ => 0
  | .offset sign hour minute =>
    (if sign = '-' then -1 else 1) * (value hour * 3600 + value minute * 60 : Nat)

/-- The days from the first of January of the year 0 to that of `year`. -/
def daysToYear (year : Nat) : Nat :=
  365 * year + ((year + 3) / 4 - (year + 99) / 100 + (year + 399) / 400)

def daysToMonth (year month : Nat) : Nat :=
  ((List.range (month - 1)).map fun m => monthDays year (m + 1)).sum

/-- The days since the first of January 1970. -/
def Stamp.days (s : Stamp) : Int :=
  (daysToYear (value s.year) + daysToMonth (value s.year) (value s.month) +
    (value s.day - 1) : Nat) - 719528

/-- The first nine digits of a fraction. -/
def nanosOf (fraction : Text) : Nat :=
  value (fraction.take 9) * 10 ^ (9 - (fraction.take 9).length)

/-- A leap second is the second before it, with more than a billion nanoseconds. -/
def Stamp.value (s : Stamp) : Parsed where
  offset := s.zone.seconds
  timestamp := s.days * 86400 + (Decimal.value s.hour * 3600 + Decimal.value s.minute * 60 +
    min (Decimal.value s.second) 59 : Nat) - s.zone.seconds
  nanos := nanosOf s.fraction + if Decimal.value s.second = 60 then 10 ^ 9 else 0

/-! ## Reading -/

/-- The zone at the end of a text. -/
def zoneOf : Text → Zone
  | [letter] => .utc letter
  | sign :: rest => .offset sign (rest.take 2) (rest.drop 3)
  | [] => .utc ' '

/-- The parts of a text by position. -/
def partsOf (text : Text) : Stamp where
  year := text.take 4
  month := (text.drop 5).take 2
  day := (text.drop 8).take 2
  mark := text.getD 10 ' '
  hour := (text.drop 11).take 2
  minute := (text.drop 14).take 2
  second := (text.drop 17).take 2
  fraction := if (text.drop 19).head? = some '.' then (text.drop 20).takeWhile Char.isDigit else []
  zone := zoneOf (if (text.drop 19).head? = some '.' then (text.drop 20).dropWhile Char.isDigit
    else text.drop 19)

/-- The moment of a text that is one of the grammar. -/
def read (text : Text) : Option Parsed :=
  if (partsOf text).WellFormed ∧ (partsOf text).text = text then some (partsOf text).value else none

theorem read_sound {text : Text} {p : Parsed} (h : read text = some p) :
    ∃ s : Stamp, s.WellFormed ∧ s.text = text := by
  unfold read at h
  split at h
  next hparts => exact ⟨_, hparts⟩
  next => cases h

theorem zoneOf_text {z : Zone} (h : z.WellFormed) : zoneOf z.text = z := by
  cases z with
  | utc letter => rfl
  | offset sign hour minute =>
    obtain ⟨-, ⟨hhour, -⟩, -⟩ := h
    obtain ⟨a, b, rfl⟩ := List.length_eq_two.1 hhour
    rfl

/-- An offset does not begin with a digit or with a point. -/
theorem zone_front {z : Zone} (h : z.WellFormed) :
    ∃ c rest, z.text = c :: rest ∧ c.isDigit = false ∧ c ≠ '.' := by
  cases z with
  | utc letter => rcases h with rfl | rfl <;> exact ⟨_, _, rfl, by decide⟩
  | offset sign hour minute =>
    obtain ⟨rfl | rfl, -⟩ := h <;> exact ⟨_, _, rfl, by decide⟩

theorem partsOf_text {s : Stamp} (h : s.WellFormed) : partsOf s.text = s := by
  obtain ⟨⟨hyear, hmonth, hday⟩, -, -, ⟨hhour, hminute, hsecond⟩, -, hfraction, hzone⟩ := h
  obtain ⟨year, month, day, mark, hour, minute, second, fraction, zone⟩ := s
  obtain ⟨z, more, hfront, hdigit, hpoint⟩ := zone_front hzone
  obtain ⟨y₁, y₂, y₃, y₄, rfl⟩ : ∃ a b c d, year = [a, b, c, d] := by
    obtain ⟨a, rest, rfl⟩ := List.exists_cons_of_length_eq_add_one hyear.1
    obtain ⟨b, c, d, rfl⟩ := List.length_eq_three.1 (Nat.succ.inj hyear.1)
    exact ⟨a, b, c, d, rfl⟩
  obtain ⟨m₁, m₂, rfl⟩ := List.length_eq_two.1 hmonth.1
  obtain ⟨d₁, d₂, rfl⟩ := List.length_eq_two.1 hday.1
  obtain ⟨h₁, h₂, rfl⟩ := List.length_eq_two.1 hhour.1
  obtain ⟨i₁, i₂, rfl⟩ := List.length_eq_two.1 hminute.1
  obtain ⟨s₁, s₂, rfl⟩ := List.length_eq_two.1 hsecond.1
  dsimp only at hfront
  have hparts (t : Text) : partsOf (y₁ :: y₂ :: y₃ :: y₄ :: '-' :: m₁ :: m₂ :: '-' :: d₁ :: d₂ ::
      mark :: h₁ :: h₂ :: ':' :: i₁ :: i₂ :: ':' :: s₁ :: s₂ :: t) =
      ⟨[y₁, y₂, y₃, y₄], [m₁, m₂], [d₁, d₂], mark, [h₁, h₂], [i₁, i₂], [s₁, s₂],
        if t.head? = some '.' then (t.drop 1).takeWhile Char.isDigit else [],
        zoneOf (if t.head? = some '.' then (t.drop 1).dropWhile Char.isDigit else t)⟩ := rfl
  refine (hparts (fractionText fraction ++ zone.text)).trans ?_
  by_cases hnil : fraction = []
  · subst hnil
    have hhead : ¬ (zone.text.head? = some '.') := by
      rw [hfront]
      exact fun heq => hpoint (Option.some.inj heq)
    show (⟨_, _, _, _, _, _, _, if zone.text.head? = some '.' then _ else _,
      zoneOf (if zone.text.head? = some '.' then _ else _)⟩ : Stamp) = _
    rw [if_neg hhead, if_neg hhead]
    show (⟨_, _, _, _, _, _, _, [], zoneOf zone.text⟩ : Stamp) = _
    rw [zoneOf_text hzone]
  · have htail : fractionText fraction ++ zone.text = '.' :: (fraction ++ zone.text) := by
      rw [fractionText, if_neg hnil]
      rfl
    have htake : zone.text.takeWhile Char.isDigit = [] := by
      rw [hfront, List.takeWhile_cons_of_neg (by simp [hdigit])]
    have hdrop : zone.text.dropWhile Char.isDigit = zone.text := by
      rw [hfront, List.dropWhile_cons_of_neg (by simp [hdigit])]
    rw [htail, List.head?_cons, if_pos rfl, if_pos rfl, List.drop_succ_cons, List.drop_zero,
      List.takeWhile_append_of_pos hfraction, List.dropWhile_append_of_pos hfraction, htake, hdrop,
      zoneOf_text hzone, List.append_nil]

/-- **A text of the grammar is read as its moment.** -/
theorem read_text {s : Stamp} (h : s.WellFormed) : read s.text = some s.value := by
  unfold read
  rw [partsOf_text h, if_pos ⟨h, rfl⟩]

/-! ## Bounds -/

theorem digits_lt {text : Text} {n : Nat} (h : Digits text n) : Decimal.value text < 10 ^ n := by
  rw [← h.1]
  exact value_lt h.2

theorem monthDays_le (year month : Nat) : monthDays year month ≤ 31 := by
  unfold monthDays
  split
  · omega
  · split
    · omega
    · split
      · split <;> omega
      · omega

theorem month_le {year month day : Nat} (h : 1 ≤ day ∧ day ≤ monthDays year month) :
    month ≤ 12 := by
  by_contra hmonth
  have hzero : monthDays year month = 0 := by
    unfold monthDays
    rw [if_neg (by simp; omega), if_neg (by simp; omega), if_neg (by omega)]
  omega

theorem daysToMonth_le (year : Nat) {month : Nat} (h : month ≤ 12) : daysToMonth year month ≤ 372 := by
  have hsum (l : List Nat) : (l.map fun m => monthDays year (m + 1)).sum ≤ 31 * l.length := by
    induction l with
    | nil => exact Nat.le_refl _
    | cons m l ih =>
      have := monthDays_le year (m + 1)
      rw [List.map_cons, List.sum_cons, List.length_cons]
      omega
  have hle := hsum (List.range (month - 1))
  rw [List.length_range] at hle
  unfold daysToMonth
  omega

/-- **The moment of four digits of year is within 2^40 seconds of 1970.** -/
theorem timestamp_lt {s : Stamp} (h : s.WellFormed) : s.value.timestamp < 2 ^ 40 := by
  obtain ⟨⟨hyear, -, -⟩, hday, -, -, ⟨hhour, hminute, -⟩, -, hzone⟩ := h
  have hy := digits_lt hyear
  have hmonth := daysToMonth_le (Decimal.value s.year) (month_le hday)
  have hd := monthDays_le (Decimal.value s.year) (Decimal.value s.month)
  have hseconds : -86400 ≤ s.zone.seconds := by
    cases hz : s.zone with
    | utc letter => simp [Zone.seconds]
    | offset sign hour minute =>
      rw [hz] at hzone
      obtain ⟨-, -, hh, -, hm⟩ := hzone
      simp only [Zone.seconds]
      split <;> push_cast <;> omega
  have hdays : s.days ≤ 4000000 := by
    unfold Stamp.days daysToYear
    omega
  show s.days * 86400 + _ - s.zone.seconds < 2 ^ 40
  omega

theorem nanos_lt {s : Stamp} (h : s.WellFormed) : s.value.nanos < 2 * 10 ^ 9 := by
  obtain ⟨-, -, -, -, -, hfraction, -⟩ := h
  have hlt := value_lt (allDigits_take hfraction 9)
  have hlength : (s.fraction.take 9).length ≤ 9 := List.length_take_le _ _
  have hnanos : nanosOf s.fraction < 10 ^ 9 := by
    have hpow : 10 ^ (s.fraction.take 9).length * 10 ^ (9 - (s.fraction.take 9).length) = 10 ^ 9 := by
      rw [← Nat.pow_add, Nat.add_sub_cancel' hlength]
    rw [← hpow]
    exact Nat.mul_lt_mul_of_pos_right hlt (Nat.pow_pos (by decide))
  have hleap : (if Decimal.value s.second = 60 then 10 ^ 9 else 0) ≤ 10 ^ 9 := by
    split
    · exact Nat.le_refl _
    · exact Nat.zero_le _
  exact (Nat.add_lt_add_of_lt_of_le hnanos hleap).trans_eq (by decide)

end Plenora.Lib.Rfc3339
