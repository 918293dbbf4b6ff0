import Plenora.Lib.IntervalInput
import Plenora.Core.Error

/-!
# Interval texts

`interval_text` writes months, days and a time, each with its sign; the server reads the triple
back whatever the session's style.  The least 64-bit count of microseconds has no positive
counterpart the server could count to, and no Arrow value gives it.

    v.microseconds ≠ minValue → readInterval style (intervalText v) = some v.interval
                                                                        (readInterval_intervalText)
-/

namespace Plenora.Postgres.IntervalText

open Plenora.Core Plenora.Lib.Decimal Plenora.Lib.IntervalInput

structure PostgresIntervalBinary where
  microseconds : Int64
  days : Int32
  months : Int32
  deriving DecidableEq

/-- The interval the three integers stand for. -/
def PostgresIntervalBinary.interval (v : PostgresIntervalBinary) : Interval :=
  ⟨v.months.toInt, v.days.toInt, v.microseconds.toInt⟩

/-- `postgres_interval` of a `MonthDayNano` value. -/
def postgresInterval (months days : Int32) (nanoseconds : Int64) :
    Result PostgresIntervalBinary :=
  if nanoseconds % 1000 ≠ 0 then
    .error (.new .dataMapping .write (some .postgres)
      "interval Arrow richiede precisione massima al microsecondo per PostgreSQL")
  else .ok { microseconds := nanoseconds / 1000, days, months }

/-- A sign, always. -/
def signOf (n : Int) : Char := if n < 0 then '-' else '+'

/-- `{:+}` -/
def signedText (n : Int) : Text := signOf n :: Nat.toDigits 10 n.natAbs

def microsPerSecond : Nat := 1000000
def microsPerMinute : Nat := 60 * microsPerSecond
def microsPerHour : Nat := 60 * microsPerMinute

/-- `hours:minutes:seconds.microseconds` -/
def timeText (absolute : Nat) : Text :=
  let hours := absolute / microsPerHour
  let minutes := absolute % microsPerHour / microsPerMinute
  let seconds := absolute % microsPerMinute / microsPerSecond
  let microseconds := absolute % microsPerSecond
  padded 2 hours ++ ':' :: (padded 2 minutes ++ ':' :: (padded 2 seconds ++
    '.' :: padded 6 microseconds))

def intervalText (v : PostgresIntervalBinary) : Text :=
  signedText v.months.toInt ++ ' ' :: ("mons".toList ++ ' ' :: (signedText v.days.toInt ++
    ' ' :: ("days".toList ++ ' ' :: (signOf v.microseconds.toInt ::
      timeText v.microseconds.toInt.natAbs))))

example : intervalText ⟨-3723000004, 0, -1⟩ = "-1 mons +0 days -01:02:03.000004".toList := by
  decide +kernel

/-! ## The fields of the text -/

def fields (v : PostgresIntervalBinary) : List Text :=
  [signedText v.months.toInt, "mons".toList, signedText v.days.toInt, "days".toList,
    signOf v.microseconds.toInt :: timeText v.microseconds.toInt.natAbs]

theorem isSign_signOf (n : Int) : isSign (signOf n) := by
  unfold signOf
  split <;> decide

theorem signed_signOf (n : Int) : signed (signOf n = '-') n.natAbs = n := by
  unfold signOf signed
  split
  next h =>
    simp only [decide_true, if_true]
    omega
  next h =>
    simp only [show ¬ ('+' = '-') by decide, decide_false, Bool.false_eq_true, if_false]
    omega

theorem space_not_mem_signedText (n : Int) : ' ' ∉ signedText n := by
  rw [signedText, List.mem_cons, not_or]
  refine ⟨?_, not_mem_of_digits (allDigits_toDigits _) (by decide)⟩
  unfold signOf
  split <;> decide

theorem space_not_mem_timeText (n : Nat) : ' ' ∉ timeText n := by
  have h (width n : Nat) : ' ' ∉ padded width n :=
    not_mem_of_digits (allDigits_padded width n) (by decide)
  simp [timeText, h]

theorem splitOn_intervalText (v : PostgresIntervalBinary) :
    ((intervalText v).splitOn ' ').filter (· ≠ []) = fields v := by
  have hmem : ∀ l ∈ fields v, ' ' ∉ l := by
    have htime : ' ' ∉ signOf v.microseconds.toInt :: timeText v.microseconds.toInt.natAbs := by
      rw [List.mem_cons, not_or]
      refine ⟨?_, space_not_mem_timeText _⟩
      unfold signOf
      split <;> decide
    simp only [fields, List.mem_cons, List.not_mem_nil, or_false]
    rintro l (rfl | rfl | rfl | rfl | rfl)
    · exact space_not_mem_signedText _
    · decide
    · exact space_not_mem_signedText _
    · decide
    · exact htime
  have hsplit : (intervalText v).splitOn ' ' = fields v := by
    have htext : intervalText v = [' '].intercalate (fields v) := by
      simp [intervalText, fields, List.intercalate]
    rw [htext]
    exact List.splitOn_intercalate ' ' hmem (by simp [fields])
  rw [hsplit]
  simp [fields, signedText]

/-- No sign is left for another field to take. -/
theorem forceNegative_fields (style : IntervalStyle) (v : PostgresIntervalBinary) :
    forceNegative style (fields v) = false := by
  have h := isSign_signOf v.days.toInt
  simp [forceNegative, fields, signedText, h]

/-! ## The time -/

/-- **The parts of a time add up to it.** -/
theorem timeOf_timeText (n : Nat) :
    timeOf (timeText n) = if n < 2 ^ 63 then some n else none := by
  have hminutes : n % microsPerHour / microsPerMinute ≤ 59 := by
    unfold microsPerHour microsPerMinute microsPerSecond
    omega
  have hseconds : n % microsPerMinute / microsPerSecond ≤ 60 := by
    unfold microsPerMinute microsPerSecond
    omega
  have hmicros : n % microsPerSecond < 10 ^ 6 := Nat.mod_lt _ (by decide)
  have htotal : (n / microsPerHour * 60 + n % microsPerHour / microsPerMinute) * 60 * 10 ^ 6 +
      (n % microsPerMinute / microsPerSecond * 10 ^ 6 + n % microsPerSecond) = n := by
    unfold microsPerHour microsPerMinute microsPerSecond
    omega
  rw [timeText, timeOf_text (allDigits_padded _ _) (allDigits_padded _ _) (allDigits_padded _ _)
    (allDigits_padded _ _) (padded_ne_nil _ _) (padded_ne_nil _ _) (padded_ne_nil _ _)
    (by rwa [value_padded]) (by rwa [value_padded]) (length_padded (by decide) hmicros)]
  simp only [value_padded, htotal]

theorem colon_mem_timeText (n : Nat) : ':' ∈ timeText n := by simp [timeText]

/-! ## Round trip -/

theorem natAbs_microseconds (n : Int64) : n.toInt.natAbs < 2 ^ 63 ↔ n ≠ Int64.minValue := by
  have hlow := n.le_toInt
  have hhigh := n.toInt_lt
  rw [ne_eq, ← Int64.toInt_inj, Int64.toInt_minValue]
  omega

theorem add_eq {m m' m'' d d' d'' u u' u'' : Int}
    (hmonths : m + m' = m'' ∧ -2 ^ 31 ≤ m'' ∧ m'' < 2 ^ 31)
    (hdays : d + d' = d'' ∧ -2 ^ 31 ≤ d'' ∧ d'' < 2 ^ 31)
    (hmicros : u + u' = u'' ∧ -2 ^ 63 ≤ u'' ∧ u'' < 2 ^ 63) :
    Interval.add ⟨m, d, u⟩ ⟨m', d', u'⟩ = some ⟨m'', d'', u''⟩ := by
  rw [Interval.add, hmonths.1, hdays.1, hmicros.1]
  exact if_pos ⟨hmonths.2, hdays.2, hmicros.2⟩

/-- **The server reads back the triple.** -/
theorem readInterval_intervalText (style : IntervalStyle) (v : PostgresIntervalBinary)
    (h : v.microseconds ≠ Int64.minValue) :
    readInterval style (intervalText v) = some v.interval := by
  have hmonths := v.months.le_toInt
  have hmonths' := v.months.toInt_lt
  have hdays := v.days.le_toInt
  have hdays' := v.days.toInt_lt
  have hmicros := v.microseconds.le_toInt
  have hmicros' := v.microseconds.toInt_lt
  have htime := timeOf_timeText v.microseconds.toInt.natAbs
  rw [if_pos ((natAbs_microseconds _).2 h)] at htime
  -- from the last field to the first
  have h₁ : readField false (signOf v.microseconds.toInt ::
        timeText v.microseconds.toInt.natAbs) start =
      some ⟨⟨0, 0, v.microseconds.toInt⟩, .day, timeUnits, false⟩ := by
    refine readField_time (isSign_signOf _) (colon_mem_timeText _) htime (by decide) ?_
    rw [signed_signOf]
    exact add_eq (by omega) (by omega) (by omega)
  have h₂ (i : Interval) (u : TimeUnit) (l : List TimeUnit) :
      readField false "days".toList ⟨i, u, l, false⟩ = some ⟨i, .day, l, true⟩ := rfl
  have h₃ : readField false (signedText v.days.toInt)
        ⟨⟨0, 0, v.microseconds.toInt⟩, .day, timeUnits, true⟩ =
      some ⟨⟨0, v.days.toInt, v.microseconds.toInt⟩, .day, .day :: timeUnits, false⟩ := by
    refine readField_quantity (isSign_signOf _) Nat.toDigits_ne_nil (allDigits_toDigits _)
      (show TimeUnit.day ∉ timeUnits by decide) ?_
    rw [value_toDigits, signed_signOf]
    exact add_eq (by omega) (by omega) (by omega)
  have h₄ (i : Interval) (u : TimeUnit) (l : List TimeUnit) :
      readField false "mons".toList ⟨i, u, l, false⟩ = some ⟨i, .month, l, true⟩ := rfl
  have h₅ : readField false (signedText v.months.toInt)
        ⟨⟨0, v.days.toInt, v.microseconds.toInt⟩, .month, .day :: timeUnits, true⟩ =
      some ⟨v.interval, .month, .month :: .day :: timeUnits, false⟩ := by
    refine readField_quantity (isSign_signOf _) Nat.toDigits_ne_nil (allDigits_toDigits _)
      (show TimeUnit.month ∉ .day :: timeUnits by decide) ?_
    rw [value_toDigits, signed_signOf]
    exact add_eq (by omega) (by omega) (by omega)
  rw [readInterval, splitOn_intervalText, forceNegative_fields]
  simp only [fields, List.foldrM_cons, List.foldrM_nil, Option.bind_eq_bind, Option.pure_def,
    Option.bind_some, h₁, h₂, h₃, h₄, h₅]
  rfl

/-- What `postgres_interval` accepts is whole microseconds. -/
theorem postgresInterval_spec {months days : Int32} {nanoseconds : Int64}
    {v : PostgresIntervalBinary} (h : postgresInterval months days nanoseconds = .ok v) :
    v.months = months ∧ v.days = days ∧
      v.microseconds.toInt * 1000 = nanoseconds.toInt := by
  unfold postgresInterval at h
  split at h
  next => contradiction
  next hmod =>
    obtain rfl := Except.ok.inj h
    refine ⟨rfl, rfl, ?_⟩
    rw [not_not] at hmod
    have hrest := congrArg Int64.toInt hmod
    rw [Int64.toInt_mod] at hrest
    have hzero : nanoseconds.toInt.tmod 1000 = 0 := hrest
    show (nanoseconds / 1000).toInt * 1000 = nanoseconds.toInt
    rw [Int64.toInt_div_of_ne_right _ _ (by decide)]
    exact Int.tdiv_mul_cancel (Int.dvd_of_tmod_eq_zero hzero)

/-- **Every triple but the least count of microseconds comes back as it was, and every triple of
an Arrow value is one of these.** -/
theorem intervalText_roundTrip :
    (∀ (style : IntervalStyle) (v : PostgresIntervalBinary), v.microseconds ≠ Int64.minValue →
      readInterval style (intervalText v) = some v.interval) ∧
    ∀ (months days : Int32) (nanoseconds : Int64) (v : PostgresIntervalBinary),
      postgresInterval months days nanoseconds = .ok v →
        v.microseconds.toInt * 1000 = nanoseconds.toInt ∧
        ∀ style, readInterval style (intervalText v) =
          some ⟨months.toInt, days.toInt, v.microseconds.toInt⟩ := by
  refine ⟨readInterval_intervalText, fun months days nanoseconds v h => ?_⟩
  obtain ⟨rfl, rfl, hmicros⟩ := postgresInterval_spec h
  refine ⟨hmicros, fun style => readInterval_intervalText style v fun hmin => ?_⟩
  have hlow := nanoseconds.le_toInt
  rw [hmin, Int64.toInt_minValue] at hmicros
  omega

theorem intervalText_roundTrip_mixedSigns :
    readInterval .sqlStandard (intervalText ⟨10800000000, 2, -1⟩) = some ⟨-1, 2, 10800000000⟩ ∧
    readInterval .sqlStandard (intervalText ⟨-9223372036854775, 0, 0⟩) =
      some ⟨0, 0, -9223372036854775⟩ :=
  ⟨intervalText_roundTrip.1 .sqlStandard ⟨10800000000, 2, -1⟩ (by decide),
    (intervalText_roundTrip.2 0 0 (-9223372036854775000) ⟨-9223372036854775, 0, 0⟩
      (by decide)).2 .sqlStandard⟩

/-- The time of the least count is one the server cannot count to before its sign. -/
theorem intervalText_minValue :
    ¬ ∀ (style : IntervalStyle) (v : PostgresIntervalBinary),
      readInterval style (intervalText v) = some v.interval := by
  intro h
  have hnone : readInterval .postgres (intervalText ⟨Int64.minValue, 0, 0⟩) = none := by
    decide +kernel
  have := h .postgres ⟨Int64.minValue, 0, 0⟩
  rw [hnone] at this
  contradiction

end Plenora.Postgres.IntervalText
