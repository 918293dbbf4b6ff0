import Plenora.Core.OperandAdmission

/-!
# The moment a text writes

A checked date or timestamp is read by position, and the rewritings between the two keep
the moment:

    momentOf (date ++ "T00:00:00") = momentOf date                 (momentOf_append_midnight)
    momentOf (text.take 10) = momentOf text, at midnight           (momentOf_take_midnight)
-/

namespace Plenora.Core.OperandAdmission

open Plenora.Lib Plenora.Lib.Decimal CastTable ParameterFidelity

/-! ## Moments -/

structure Moment where
  year : Nat
  month : Nat
  day : Nat
  hour : Nat
  minute : Nat
  second : Nat
  fraction : Rat
  deriving DecidableEq

namespace Moment

/-- On a day of the calendar. -/
def OnCalendar (m : Moment) : Prop :=
  ∃ days, daysInMonth m.year m.month = some days ∧ 1 ≤ m.day ∧ m.day ≤ days

def IsDate (m : Moment) : Prop :=
  m.OnCalendar ∧ m.hour = 0 ∧ m.minute = 0 ∧ m.second = 0 ∧ m.fraction = 0

/-- A time of day with at most `digits` digits after the seconds. -/
def IsTimestamp (digits : Nat) (m : Moment) : Prop :=
  m.OnCalendar ∧ m.hour ≤ 23 ∧ m.minute ≤ 59 ∧ m.second ≤ 59 ∧ m.fraction < 1 ∧
    ∃ n : Nat, m.fraction * 10 ^ digits = n

end Moment

/-- The two digits at a position. -/
def pair (text : List Char) (start : Nat) : Nat := Decimal.value ((text.drop start).take 2)

/-- The moment a date or a timestamp writes. -/
def momentOf (text : List Char) : Moment where
  year := Decimal.value (text.take 4)
  month := pair text 5
  day := pair text 8
  hour := pair text 11
  minute := pair text 14
  second := pair text 17
  fraction := fractionValue (secondFraction (text.drop 19)).1

/-- The minutes a zoned timestamp is ahead. -/
def offsetOf (text : List Char) : Int :=
  let suffix := (secondFraction (text.drop 19)).2
  (if suffix[0]? = some '-' then -1 else 1) * (60 * pair suffix 1 + pair suffix 4)

/-! ## Dates -/

theorem chronoFreeDate_spec {text : List Char} (h : chronoFreeDate text) :
    text.length = 10 ∧ (∀ c ∈ text, c.isDigit ∨ c = '-') ∧
      ∃ days, daysInMonth (Decimal.value (text.take 4)) (pair text 5) = some days ∧
        1 ≤ pair text 8 ∧ pair text 8 ≤ days := by
  unfold chronoFreeDate at h
  split at h
  next year month day hsplit =>
    have htext : ['-'].intercalate (text.splitOn '-') = text := List.intercalate_splitOn '-'
    rw [hsplit] at htext
    simp only [isDigits, Bool.and_eq_true, decide_eq_true_eq, List.all_eq_true] at h
    obtain ⟨⟨⟨⟨hyl, hy⟩, hml, hm⟩, hdl, hd⟩, hdays⟩ := h
    rw [Option.any_eq_true] at hdays
    obtain ⟨days, hdays, hrange⟩ := hdays
    have htext : text = year ++ '-' :: (month ++ '-' :: day) := by
      rw [← htext]
      simp [List.intercalate, List.intersperse]
    subst htext
    refine ⟨by simp [hyl, hml, hdl], ?_, days, ?_⟩
    · intro c hc
      simp only [List.mem_append, List.mem_cons] at hc
      rcases hc with hc | hc | hc | hc | hc
      · exact .inl (hy c hc)
      · exact .inr hc
      · exact .inl (hm c hc)
      · exact .inr hc
      · exact .inl (hd c hc)
    · have h₁ : (year ++ '-' :: (month ++ '-' :: day)).take 4 = year := by
        rw [← hyl, List.take_left]
      have h₂ : ((year ++ '-' :: (month ++ '-' :: day)).drop 5).take 2 = month := by
        simp [List.drop_append, List.drop_eq_nil_of_le, hyl, hml]
      have h₃ : ((year ++ '-' :: (month ++ '-' :: day)).drop 8).take 2 = day := by
        simp [List.drop_append, List.drop_eq_nil_of_le, hyl, hml, hdl, List.take_of_length_le]
      rw [pair, pair, h₁, h₂, h₃]
      simpa using And.intro hdays hrange
  next => contradiction

theorem not_mem_of_date {text : List Char} (h : chronoFreeDate text) {c : Char}
    (hc : ¬ c.isDigit ∧ c ≠ '-') : c ∉ text := by
  intro hmem
  rcases (chronoFreeDate_spec h).2.1 c hmem with hd | hd
  · exact hc.1 hd
  · exact hc.2 hd

/-- A date is at midnight. -/
theorem isDate_of_chronoFreeDate {text : List Char} (h : chronoFreeDate text) :
    (momentOf text).IsDate := by
  obtain ⟨hlen, -, days, hdays, hrange⟩ := chronoFreeDate_spec h
  have hdrop (n : Nat) (hn : 10 ≤ n) : text.drop n = [] := List.drop_eq_nil_of_le (by omega)
  refine ⟨⟨days, hdays, hrange⟩, ?_⟩
  simp [momentOf, pair, hdrop, secondFraction]

/-! ## A date as a timestamp -/

def midnight : List Char := ['T', '0', '0', ':', '0', '0', ':', '0', '0']

section Midnight

variable {date : List Char} (h : chronoFreeDate date)

include h

theorem drop_append_midnight (n : Nat) (hn : 10 ≤ n) :
    (date ++ midnight).drop n = midnight.drop (n - 10) := by
  have hlen := (chronoFreeDate_spec h).1
  rw [List.drop_append, List.drop_eq_nil_of_le (by omega), hlen, List.nil_append]

theorem validTimestamp_append_midnight : validTimestamp (date ++ midnight) false := by
  obtain ⟨hlen, hchars, -⟩ := chronoFreeDate_spec h
  have hascii : ∀ c ∈ date, isAscii c := by
    intro c hc
    unfold isAscii
    rcases hchars c hc with hd | rfl
    · have := isDigit_bounds hd
      exact decide_eq_true (by omega)
    · rfl
  have htake : (date ++ midnight).take 10 = date := by rw [← hlen, List.take_left]
  have hget (n : Nat) (hn : 10 ≤ n) : (date ++ midnight)[n]? = midnight[n - 10]? := by
    rw [List.getElem?_append_right (by omega), hlen]
  have hascii' : (date ++ midnight).all isAscii := by
    rw [List.all_append, Bool.and_eq_true, List.all_eq_true]
    exact ⟨hascii, by decide⟩
  simp only [validTimestamp, isNumber, htake, h, hascii', hget, drop_append_midnight h,
    Nat.reduceLeDiff, Nat.reduceSub, List.length_append, hlen]
  decide

theorem momentOf_append_midnight : momentOf (date ++ midnight) = momentOf date := by
  obtain ⟨hlen, -⟩ := chronoFreeDate_spec h
  have htake (n k : Nat) (hn : n + k ≤ 10) :
      ((date ++ midnight).drop n).take k = (date.drop n).take k := by
    rw [List.drop_append_of_le_length (by omega),
      List.take_append_of_le_length (by rw [List.length_drop]; omega)]
  have hlate (n : Nat) (hn : 10 ≤ n) : date.drop n = [] := List.drop_eq_nil_of_le (by omega)
  have hyear : (date ++ midnight).take 4 = date.take 4 := List.take_append_of_le_length (by omega)
  unfold momentOf pair
  rw [hyear, htake 5 2 (by omega), htake 8 2 (by omega)]
  simp only [drop_append_midnight h, hlate, Nat.reduceLeDiff, Nat.reduceSub]
  rfl

theorem temporalParts_append_midnight : (temporalParts (date ++ midnight)).2.2 = [] := by
  have hsep : ∀ c ∈ date, isSeparator c = false := by
    intro c hc
    by_contra hne
    rw [Bool.not_eq_false] at hne
    simp only [isSeparator, Bool.or_eq_true, decide_eq_true_eq] at hne
    refine not_mem_of_date h ?_ hc
    rcases hne with (rfl | rfl) | rfl <;> decide
  unfold temporalParts
  rw [splitOnce_append hsep]
  rfl

theorem hasSubMicrosecond_append_midnight :
    hasSubMicrosecond (.ofList (date ++ midnight)) = false := by
  have hdot : '.' ∉ date ++ midnight := by
    rw [List.mem_append, not_or]
    exact ⟨not_mem_of_date h (by decide), by decide⟩
  simp [hasSubMicrosecond, String.toList_ofList, hdot]

end Midnight

/-! ## Timestamps -/

theorem drop_eq_cons {α : Type} {l : List α} {n : Nat} {a : α} (h : l[n]? = some a) :
    l.drop n = a :: l.drop (n + 1) := by
  obtain ⟨hn, rfl⟩ := List.getElem?_eq_some_iff.1 h
  exact List.drop_eq_getElem_cons hn

theorem isNumber_spec {text : List Char} {start max : Nat} (h : isNumber text start max) :
    AllDigits ((text.drop start).take 2) ∧ pair text start ≤ max := by
  simpa [isNumber, AllDigits, pair] using h

/-- The time of day, `hh:mm:ss`. -/
def clockOf (text : List Char) : List Char :=
  (text.drop 11).take 2 ++ ':' :: ((text.drop 14).take 2 ++ ':' :: (text.drop 17).take 2)

/-- What a valid timestamp is made of. -/
structure TimestampForm (text : List Char) (zoned : Bool) : Prop where
  date : chronoFreeDate (text.take 10)
  separator : ∃ c, isSeparator c ∧ text.drop 10 = c :: text.drop 11
  time : text.drop 11 = clockOf text ++ text.drop 19
  hour : AllDigits ((text.drop 11).take 2) ∧ pair text 11 ≤ 23
  minute : AllDigits ((text.drop 14).take 2) ∧ pair text 14 ≤ 59
  second : AllDigits ((text.drop 17).take 2) ∧ pair text 17 ≤ 59
  suffix : if zoned then isOffset (secondFraction (text.drop 19)).2
    else (secondFraction (text.drop 19)).2 = []

theorem validTimestamp_spec {text : List Char} {zoned : Bool} (h : validTimestamp text zoned) :
    TimestampForm text zoned := by
  simp only [validTimestamp, Bool.and_eq_true, decide_eq_true_eq] at h
  obtain ⟨⟨⟨⟨⟨⟨⟨⟨⟨⟨hlen, -⟩, hdate⟩, hsep⟩, h13⟩, h16⟩, hh⟩, hm⟩, hs⟩, -⟩, hsuffix⟩ := h
  rw [Option.any_eq_true] at hsep
  obtain ⟨c, hc, hsep⟩ := hsep
  have hsplit (n : Nat) : text.drop n = (text.drop n).take 2 ++ text.drop (n + 2) := by
    rw [← List.drop_drop, List.take_append_drop]
  refine ⟨hdate, ⟨c, hsep, drop_eq_cons hc⟩, ?_, isNumber_spec hh, isNumber_spec hm,
    isNumber_spec hs, ?_⟩
  · conv_lhs =>
      rw [hsplit 11, drop_eq_cons h13, hsplit 14, drop_eq_cons h16, hsplit 17]
    simp [clockOf]
  · cases zoned <;> simpa using hsuffix

theorem secondFraction_of_ne {rest : List Char} (h : ∀ r, rest ≠ '.' :: r) :
    secondFraction rest = ([], rest) := by
  unfold secondFraction
  split
  next r => exact absurd rfl (h r)
  next => rfl

theorem allDigits_secondFraction (rest : List Char) : AllDigits (secondFraction rest).1 := by
  unfold secondFraction
  split
  next rest => exact fun c hc => List.mem_takeWhile_imp hc
  next => exact allDigits_nil

theorem isOffset_chars {suffix : List Char} (h : isOffset suffix) :
    ∀ c ∈ suffix, c.isDigit ∨ c ∈ ['Z', 'z', '+', '-', ':'] := by
  unfold isOffset at h
  simp only [Bool.or_eq_true, Bool.and_eq_true, decide_eq_true_eq] at h
  rcases h with (rfl | rfl) | ⟨⟨⟨⟨hlen, hsign⟩, hcolon⟩, hh⟩, hm⟩
  · simp
  · simp
  · match suffix, hlen with
    | [sign, h₁, h₂, colon, m₁, m₂], _ =>
      have hh := (isNumber_spec hh).1
      have hm := (isNumber_spec hm).1
      simp only [List.drop_succ_cons, List.drop_zero, List.take_succ_cons, List.take_zero,
        AllDigits, List.mem_cons, List.not_mem_nil, or_false, forall_eq_or_imp,
        forall_eq] at hh hm
      simp only [List.getElem?_cons_zero, List.getElem?_cons_succ, Option.some.injEq] at hsign hcolon
      intro c hc
      simp only [List.mem_cons, List.not_mem_nil, or_false] at hc
      rcases hc with rfl | rfl | rfl | rfl | rfl | rfl
      · right
        rcases hsign with rfl | rfl <;> decide
      · exact .inl hh.1
      · exact .inl hh.2
      · right
        rw [hcolon]
        decide
      · exact .inl hm.1
      · exact .inl hm.2

namespace TimestampForm

variable {text : List Char} {zoned : Bool} (form : TimestampForm text zoned)

include form

theorem suffix_chars :
    ∀ c ∈ (secondFraction (text.drop 19)).2, c.isDigit ∨ c ∈ ['Z', 'z', '+', '-', ':'] := by
  have h := form.suffix
  cases zoned with
  | true => exact isOffset_chars h
  | false =>
    have h : (secondFraction (text.drop 19)).2 = [] := h
    rw [h]
    intro c hc
    contradiction

theorem suffix_ne_point : '.' ∉ (secondFraction (text.drop 19)).2 := by
  intro h
  exact absurd (form.suffix_chars _ h) (by decide)

theorem clock_chars : ∀ c ∈ clockOf text, c.isDigit ∨ c = ':' := by
  intro c hc
  simp only [clockOf, List.mem_append, List.mem_cons] at hc
  rcases hc with hc | hc | hc | hc | hc
  · exact .inl (form.hour.1 c hc)
  · exact .inr hc
  · exact .inl (form.minute.1 c hc)
  · exact .inr hc
  · exact .inl (form.second.1 c hc)

/-- After the seconds: nothing before the point, the same digits after it. -/
theorem splitOnce_rest :
    ((splitOnce (· = '.') (text.drop 19)).2.takeWhile Char.isDigit =
        (secondFraction (text.drop 19)).1) ∧
      (zoned = false → (splitOnce (· = '.') (text.drop 19)).1 = []) := by
  have hpoint := form.suffix_ne_point
  have hsuffix := form.suffix
  generalize text.drop 19 = rest at hpoint hsuffix ⊢
  by_cases h : ∃ r, rest = '.' :: r
  · obtain ⟨r, rfl⟩ := h
    simp [splitOnce, secondFraction]
  · rw [secondFraction_of_ne fun r hr => h ⟨r, hr⟩] at hpoint hsuffix ⊢
    have hall : ∀ c ∈ rest, (decide (c = '.')) = false := by
      intro c hc
      rw [decide_eq_false_iff_not]
      rintro rfl
      exact hpoint hc
    have happ := splitOnce_append hall []
    rw [List.append_nil] at happ
    rw [happ]
    refine ⟨rfl, ?_⟩
    rintro rfl
    have hnil : rest = [] := hsuffix
    simp [hnil, splitOnce]

theorem temporalParts_eq :
    temporalParts text = (text.take 10,
      clockOf text ++ (splitOnce (· = '.') (text.drop 19)).1,
      trimEnd '0' (secondFraction (text.drop 19)).1) := by
  obtain ⟨c, hc, hsep⟩ := form.separator
  have hdate : ∀ d ∈ text.take 10, isSeparator d = false := by
    intro d hd
    by_contra hne
    rw [Bool.not_eq_false] at hne
    simp only [isSeparator, Bool.or_eq_true, decide_eq_true_eq] at hne
    refine not_mem_of_date form.date ?_ hd
    rcases hne with (rfl | rfl) | rfl <;> decide
  have hsplit : splitOnce isSeparator text = (text.take 10, text.drop 11) := by
    conv_lhs => rw [← List.take_append_drop 10 text, hsep]
    rw [splitOnce_append hdate]
    simp [splitOnce, hc]
  have hclock : ∀ d ∈ clockOf text, (decide (d = '.')) = false := by
    intro d hd
    rw [decide_eq_false_iff_not]
    rintro rfl
    rcases form.clock_chars _ hd with h | h <;> contradiction
  unfold temporalParts
  rw [hsplit]
  dsimp only
  rw [form.time, splitOnce_append hclock]
  dsimp only
  rw [form.splitOnce_rest.1]

/-- No NUL in a timestamp. -/
theorem nul_not_mem : '\x00' ∉ text := by
  intro h
  obtain ⟨c, hc, hsep⟩ := form.separator
  rw [← List.take_append_drop 10 text, hsep, form.time] at h
  simp only [List.mem_append, List.mem_cons] at h
  rcases h with h | h | h | h
  · exact not_mem_of_date form.date (by decide) h
  · subst h
    contradiction
  · exact absurd (form.clock_chars _ h) (by decide)
  · have hsuffix := form.suffix_chars
    by_cases hpoint : ∃ r, text.drop 19 = '.' :: r
    · obtain ⟨r, hr⟩ := hpoint
      rw [hr] at h hsuffix
      rcases List.mem_cons.1 h with h | h
      · contradiction
      · rw [← List.takeWhile_append_dropWhile (p := Char.isDigit) (l := r),
          List.mem_append] at h
        rcases h with h | h
        · exact absurd (List.mem_takeWhile_imp h) (by decide)
        · exact absurd (hsuffix _ h) (by decide)
    · rw [secondFraction_of_ne fun r hr => hpoint ⟨r, hr⟩] at hsuffix
      exact absurd (hsuffix _ h) (by decide)

/-- A timestamp of the precision its significant digits need. -/
theorem isTimestamp {digits : Nat}
    (h : (trimEnd '0' (secondFraction (text.drop 19)).1).length ≤ digits) :
    (momentOf text).IsTimestamp digits := by
  obtain ⟨-, -, days, hdays, hrange⟩ := chronoFreeDate_spec form.date
  have hyear : (text.take 10).take 4 = text.take 4 := by rw [List.take_take]; rfl
  have hpair (n : Nat) (hn : n + 2 ≤ 10) : pair (text.take 10) n = pair text n := by
    rw [pair, pair, List.drop_take, List.take_take, Nat.min_eq_left (by omega)]
  rw [hyear, hpair 5 (by omega)] at hdays
  rw [hpair 8 (by omega)] at hrange
  refine ⟨⟨days, hdays, hrange⟩, form.hour.2, form.minute.2, form.second.2,
    fractionValue_lt_one (allDigits_secondFraction _), ?_⟩
  show ∃ n : Nat, fractionValue (secondFraction (text.drop 19)).1 * 10 ^ digits = n
  rw [← fractionValue_trimEnd]
  exact ⟨_, fractionValue_mul_pow h⟩

/-- Within the microsecond there are at most six significant digits. -/
theorem length_fraction_le (hmicro : hasSubMicrosecond (.ofList text) = false) :
    (trimEnd '0' (secondFraction (text.drop 19)).1).length ≤ 6 := by
  have hpoint := form.suffix_ne_point
  by_cases h : ∃ r, text.drop 19 = '.' :: r
  · obtain ⟨r, hr⟩ := h
    rw [hr] at hpoint ⊢
    have hdot : '.' ∉ r := by
      intro hmem
      rw [← List.takeWhile_append_dropWhile (p := Char.isDigit) (l := r), List.mem_append] at hmem
      rcases hmem with hmem | hmem
      · exact absurd (List.mem_takeWhile_imp hmem) (by decide)
      · exact hpoint hmem
    have htext : text = text.take 19 ++ '.' :: r := by rw [← hr, List.take_append_drop]
    -- the point after the seconds is the last one
    have hlast : (text.reverse.takeWhile (· ≠ '.')).reverse = r := by
      have hr' : ∀ c ∈ r.reverse, (decide (c ≠ '.')) = true := by
        intro c hc
        rw [decide_eq_true_eq]
        rintro rfl
        exact hdot (List.mem_reverse.1 hc)
      rw [htext, List.reverse_append, List.reverse_cons, List.append_assoc,
        List.takeWhile_append_of_pos hr']
      simp
    apply length_trimEnd_le_of_drop
    intro c hc
    unfold hasSubMicrosecond at hmicro
    rw [String.toList_ofList, hlast, Bool.and_eq_false_iff] at hmicro
    rcases hmicro with hmem | hany
    · rw [decide_eq_false_iff_not] at hmem
      exact absurd (by rw [htext]; simp) hmem
    · rw [List.any_eq_false] at hany
      simpa using hany c hc
  · rw [secondFraction_of_ne fun r hr => h ⟨r, hr⟩]
    simp [trimEnd]

/-- Midnight, and what its date keeps of it. -/
theorem momentOf_take (htime : ∀ c ∈ clockOf text, c = '0' ∨ c = ':')
    (hfrac : trimEnd '0' (secondFraction (text.drop 19)).1 = []) :
    momentOf (text.take 10) = momentOf text := by
  have hlate (n : Nat) (hn : 10 ≤ n) : (text.take 10).drop n = [] :=
    List.drop_eq_nil_of_le (by rw [List.length_take]; omega)
  have hearly (n : Nat) (hn : n + 2 ≤ 10) :
      ((text.take 10).drop n).take 2 = (text.drop n).take 2 := by
    rw [List.drop_take, List.take_take, Nat.min_eq_left (by omega)]
  have hzero {l : List Char} (hd : AllDigits l) (hl : ∀ c ∈ l, c ∈ clockOf text) :
      Decimal.value l = 0 := by
    have : l = List.replicate l.length '0' := by
      rw [List.eq_replicate_iff]
      refine ⟨rfl, fun c hc => (htime c (hl c hc)).resolve_right ?_⟩
      rintro rfl
      exact absurd (hd _ hc) (by decide)
    rw [this, value_replicate_zero]
  have hh := hzero form.hour.1 (by simp [clockOf]; tauto)
  have hm := hzero form.minute.1 (by simp [clockOf]; tauto)
  have hs := hzero form.second.1 (by simp [clockOf]; tauto)
  have hf : fractionValue (secondFraction (text.drop 19)).1 = 0 := by
    rw [← fractionValue_trimEnd, hfrac, fractionValue_nil]
  have hyear : (text.take 10).take 4 = text.take 4 := by rw [List.take_take]; rfl
  unfold momentOf pair
  rw [hyear, hearly 5 (by omega), hearly 8 (by omega), hh, hm, hs, hf]
  simp [hlate, secondFraction]

end TimestampForm

end Plenora.Core.OperandAdmission
