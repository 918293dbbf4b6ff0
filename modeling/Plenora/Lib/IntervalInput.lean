import Plenora.Lib.PaddedNumber

/-!
# Interval input

The interval input of PostgreSQL from version 15 on, for whole quantities: fields between spaces,
a quantity before the name of its unit, and a time of hours, minutes and seconds, each with a sign
of its own or none.  They are read from the last to the first.  A time is counted in 64 bits
before its sign is applied.

    timeOf "hh:mm:ss.ffffff" = its microseconds, below 2 ^ 63                       (timeOf_text)
    readField (sign :: digits) r = r with the quantity added               (readField_quantity)
    readField (sign :: time) r   = r with the time added                   (readField_time)
-/

namespace Plenora.Lib.IntervalInput

open Plenora.Lib.Decimal

abbrev Text := List Char

/-! ## Intervals -/

@[ext]
structure Interval where
  months : Int
  days : Int
  microseconds : Int
  deriving DecidableEq, Repr

/-- The session setting: with `sqlStandard` the sign of the first field may hold for the others. -/
inductive IntervalStyle where
  | postgres | postgresVerbose | sqlStandard | iso8601
  deriving DecidableEq, Repr

inductive TimeUnit where
  | year | month | week | day | hour | minute | second
  deriving DecidableEq, Repr

def words : TimeUnit → List String
  | .year => ["y", "yr", "yrs", "year", "years"]
  | .month => ["mon", "mons", "month", "months"]
  | .week => ["w", "week", "weeks"]
  | .day => ["d", "day", "days"]
  | .hour => ["h", "hr", "hrs", "hour", "hours"]
  | .minute => ["m", "min", "mins", "minute", "minutes"]
  | .second => ["s", "sec", "secs", "second", "seconds"]

def units : List TimeUnit := [.year, .month, .week, .day, .hour, .minute, .second]

def unitOf (field : Text) : Option TimeUnit :=
  units.find? fun unit => (words unit).any (·.toList = field)

def microsPerSecond : Int := 1000000

/-- So many of a unit. -/
def amount (n : Int) : TimeUnit → Interval
  | .year => ⟨12 * n, 0, 0⟩
  | .month => ⟨n, 0, 0⟩
  | .week => ⟨0, 7 * n, 0⟩
  | .day => ⟨0, n, 0⟩
  | .hour => ⟨0, 0, 3600 * microsPerSecond * n⟩
  | .minute => ⟨0, 0, 60 * microsPerSecond * n⟩
  | .second => ⟨0, 0, microsPerSecond * n⟩

/-- The sum, if the server's integers hold it. -/
def Interval.add (a b : Interval) : Option Interval :=
  let months := a.months + b.months
  let days := a.days + b.days
  let microseconds := a.microseconds + b.microseconds
  if (-2 ^ 31 ≤ months ∧ months < 2 ^ 31) ∧ (-2 ^ 31 ≤ days ∧ days < 2 ^ 31) ∧
      (-2 ^ 63 ≤ microseconds ∧ microseconds < 2 ^ 63) then
    some ⟨months, days, microseconds⟩
  else none

/-! ## Fields -/

/-- The fields to the right, read: their interval, the unit of the next quantity, the units that
were given, and whether the last field read names a unit. -/
structure Reading where
  interval : Interval
  unit : TimeUnit
  seen : List TimeUnit
  named : Bool

/-- A number of digits, at least one. -/
def number (digits : Text) : Option Nat :=
  if digits ≠ [] ∧ digits.all Char.isDigit then some (value digits) else none

/-- The microseconds of the digits after the point, rounded to the nearest. -/
def fractionMicros (digits : Text) : Nat :=
  (2 * value digits * 10 ^ 6 + 10 ^ digits.length) / (2 * 10 ^ digits.length)

/-- Seconds with or without a fraction, in microseconds. -/
def secondsOf (text : Text) : Option Nat :=
  match text.splitOn '.' with
  | [seconds] => do
    let s ← number seconds
    if s ≤ 60 then some (s * 10 ^ 6) else none
  | [seconds, fraction] => do
    let s ← number seconds
    if s ≤ 60 ∧ fraction.all Char.isDigit then some (s * 10 ^ 6 + fractionMicros fraction) else none
  | _ => none

/-- `hours:minutes` or `hours:minutes:seconds`, in microseconds that 64 bits hold. -/
def timeOf (text : Text) : Option Nat := do
  let total ← match text.splitOn ':' with
    | [hours, minutes] => do
      let h ← number hours
      let m ← number minutes
      if m ≤ 59 then some ((h * 60 + m) * 60 * 10 ^ 6) else none
    | [hours, minutes, seconds] => do
      let h ← number hours
      let m ← number minutes
      let s ← secondsOf seconds
      if m ≤ 59 then some ((h * 60 + m) * 60 * 10 ^ 6 + s) else none
    | _ => none
  if total < 2 ^ 63 then some total else none

def isSign (c : Char) : Bool := c = '+' || c = '-'

/-- A field after its sign. -/
def unsigned (field : Text) : Text := if field.head?.any isSign then field.tail else field

/-- The sign of the field, or the one that holds for all. -/
def isNegative (force : Bool) (field : Text) : Bool := field.head? = some '-' || force

def signed (negative : Bool) (n : Nat) : Int := if negative then -n else n

def timeUnits : List TimeUnit := [.hour, .minute, .second]

/-- A time. -/
def readTime (force : Bool) (field : Text) (r : Reading) : Option Reading := do
  let micros ← timeOf (unsigned field)
  if timeUnits.any (· ∈ r.seen) then none
  let interval ← r.interval.add ⟨0, 0, signed (isNegative force field) micros⟩
  return ⟨interval, .day, timeUnits ++ r.seen, false⟩

/-- A quantity of the unit that follows it. -/
def readQuantity (force : Bool) (field : Text) (r : Reading) : Option Reading := do
  let n ← number (unsigned field)
  if r.unit ∈ r.seen then none
  let interval ← r.interval.add (amount (signed (isNegative force field) n) r.unit)
  return ⟨interval, r.unit, r.unit :: r.seen, false⟩

def readField (force : Bool) (field : Text) (r : Reading) : Option Reading :=
  match unitOf field with
  | some unit => if r.named then none else some { r with unit, named := true }
  | none => if ':' ∈ field then readTime force field r else readQuantity force field r

/-- The sign of the first field holds for all when no other has one. -/
def forceNegative (style : IntervalStyle) (fields : List Text) : Bool :=
  style = .sqlStandard && fields.head?.any (·.head? = some '-') &&
    fields.tail.all fun field => !field.head?.any isSign

def start : Reading := ⟨⟨0, 0, 0⟩, .second, [], false⟩

/-- `interval_in` under a session's style. -/
def readInterval (style : IntervalStyle) (text : Text) : Option Interval := do
  let fields := (text.splitOn ' ').filter (· ≠ [])
  let r ← fields.foldrM (readField (forceNegative style fields)) start
  if r.seen = [] ∨ r.named then none
  return r.interval

example : readInterval .postgres "1 year 2 mons -3 days 04:05".toList =
    some ⟨14, -3, 14700000000⟩ := by decide +kernel

example : readInterval .postgres "1 day hour".toList = none := by decide +kernel

/-! ## Fields with a sign -/

theorem unitOf_signed {c : Char} (hc : isSign c) (l : Text) : unitOf (c :: l) = none := by
  simp only [isSign, Bool.or_eq_true, decide_eq_true_eq] at hc
  rcases hc with rfl | rfl <;> simp [unitOf, units, words]

theorem unsigned_signed {c : Char} (hc : isSign c) (l : Text) : unsigned (c :: l) = l := by
  simp [unsigned, hc]

theorem number_of_digits {digits : Text} (hne : digits ≠ []) (h : AllDigits digits) :
    number digits = some (value digits) :=
  if_pos ⟨hne, List.all_eq_true.2 h⟩

theorem not_mem_of_digits {digits : Text} (h : AllDigits digits) {c : Char}
    (hc : c.isDigit = false) : c ∉ digits := by
  intro hmem
  rw [h c hmem] at hc
  contradiction

theorem fractionMicros_six {digits : Text} (h : digits.length = 6) :
    fractionMicros digits = value digits := by
  rw [fractionMicros, h]
  omega

theorem secondsOf_text {seconds fraction : Text} (hne : seconds ≠ []) (hs : AllDigits seconds)
    (hf : AllDigits fraction) (hlt : value seconds ≤ 60) (hlen : fraction.length = 6) :
    secondsOf (seconds ++ '.' :: fraction) = some (value seconds * 10 ^ 6 + value fraction) := by
  have hsplit : (seconds ++ '.' :: fraction).splitOn '.' = [seconds, fraction] := by
    have hmem : ∀ l ∈ [seconds, fraction], '.' ∉ l := by
      simp [not_mem_of_digits hs, not_mem_of_digits hf]
    have := List.splitOn_intercalate '.' hmem (by simp)
    simpa [List.intercalate] using this
  rw [secondsOf, hsplit]
  dsimp only
  rw [number_of_digits hne hs, Option.bind_eq_bind, Option.bind_some,
    if_pos ⟨hlt, List.all_eq_true.2 hf⟩, fractionMicros_six hlen]

/-- **A time in hours, minutes, seconds and millionths.** -/
theorem timeOf_text {hours minutes seconds fraction : Text}
    (hh : AllDigits hours) (hm : AllDigits minutes) (hs : AllDigits seconds)
    (hf : AllDigits fraction) (hhne : hours ≠ []) (hmne : minutes ≠ []) (hsne : seconds ≠ [])
    (hmlt : value minutes ≤ 59) (hslt : value seconds ≤ 60) (hlen : fraction.length = 6) :
    timeOf (hours ++ ':' :: (minutes ++ ':' :: (seconds ++ '.' :: fraction))) =
      let total := (value hours * 60 + value minutes) * 60 * 10 ^ 6 +
        (value seconds * 10 ^ 6 + value fraction)
      if total < 2 ^ 63 then some total else none := by
  have hsplit : (hours ++ ':' :: (minutes ++ ':' :: (seconds ++ '.' :: fraction))).splitOn ':' =
      [hours, minutes, seconds ++ '.' :: fraction] := by
    have hmem : ∀ l ∈ [hours, minutes, seconds ++ '.' :: fraction], ':' ∉ l := by
      simp [not_mem_of_digits hh, not_mem_of_digits hm, not_mem_of_digits hs,
        not_mem_of_digits hf]
    have := List.splitOn_intercalate ':' hmem (by simp)
    simpa [List.intercalate] using this
  have hbind : ∀ (n : Nat) (f : Nat → Option Nat), (some n >>= f) = f n := fun _ _ => rfl
  unfold timeOf
  rw [hsplit]
  dsimp only
  rw [number_of_digits hhne hh, hbind, number_of_digits hmne hm, hbind,
    secondsOf_text hsne hs hf hslt hlen, hbind, if_pos hmlt, hbind]

theorem isNegative_signed (force : Bool) {c : Char} (hforce : force = false) (l : Text) :
    isNegative force (c :: l) = decide (c = '-') := by
  simp [isNegative, hforce]

/-- **A quantity with a sign of its own.** -/
theorem readField_quantity {c : Char} (hc : isSign c) {digits : Text} (hne : digits ≠ [])
    (h : AllDigits digits) {r : Reading} (hseen : r.unit ∉ r.seen) {interval : Interval}
    (hadd : r.interval.add (amount (signed (c = '-') (value digits)) r.unit) = some interval) :
    readField false (c :: digits) r = some ⟨interval, r.unit, r.unit :: r.seen, false⟩ := by
  have hcolon : ':' ∉ c :: digits := by
    rw [List.mem_cons, not_or]
    refine ⟨?_, not_mem_of_digits h (by decide)⟩
    rintro rfl
    simp [isSign] at hc
  rw [readField, unitOf_signed hc]
  dsimp only
  rw [if_neg hcolon, readQuantity, unsigned_signed hc, number_of_digits hne h,
    isNegative_signed false rfl]
  simp only [Option.bind_eq_bind, Option.bind_some, if_neg hseen, hadd]
  rfl

/-- **A time with a sign of its own.** -/
theorem readField_time {c : Char} (hc : isSign c) {time : Text} (hcolon : ':' ∈ time)
    {micros : Nat} (htime : timeOf time = some micros) {r : Reading}
    (hseen : ∀ unit ∈ timeUnits, unit ∉ r.seen) {interval : Interval}
    (hadd : r.interval.add ⟨0, 0, signed (c = '-') micros⟩ = some interval) :
    readField false (c :: time) r = some ⟨interval, .day, timeUnits ++ r.seen, false⟩ := by
  have hnone : timeUnits.any (· ∈ r.seen) = false := by
    rw [List.any_eq_false]
    intro unit hunit
    simpa using hseen unit hunit
  rw [readField, unitOf_signed hc]
  dsimp only
  rw [if_pos (List.mem_cons_of_mem c hcolon), readTime, unsigned_signed hc, htime,
    isNegative_signed false rfl]
  simp only [Option.bind_eq_bind, Option.bind_some, hnone, Bool.false_eq_true, if_false, hadd]
  rfl

end Plenora.Lib.IntervalInput
