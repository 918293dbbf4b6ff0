import Plenora.Db2.ArrayMeaning

/-!
# What an admitted value is bound to

A value that was admitted against its described type passes the checks again exactly when it is
bound, and the bound value denotes the admitted one.

    validateOne dates timestamps v' = .ok () ↔ ∃ b, bindAdmitted timestamps described v' = .ok b
                                                                        (validateOne_iff_bind)
    bindAdmitted timestamps described v' = .ok b → boundDenotes operand b = valueOf v'
                                                                        (bindAdmitted_denotes)
-/

namespace Plenora.Db2.ParameterArray

open Plenora.Lib Plenora.Lib.Decimal Plenora.Core Plenora.Core.CastTable
open Plenora.Core.OperandAdmission Plenora.Core.ParameterFidelity Plenora.Db2.Parameter

/-! ## Integers -/

theorem splitSign_digits {l : List Char} (h : AllDigits l) : splitSign l = (false, l) := by
  unfold splitSign
  split
  next rest => exact absurd (h '-' (List.mem_cons_self ..)) (by decide)
  next rest => exact absurd (h '+' (List.mem_cons_self ..)) (by decide)
  next => rfl

theorem splitOnce_digits {l : List Char} (h : AllDigits l) : splitOnce (· = '.') l = (l, []) := by
  have hall : ∀ c ∈ l, decide (c = '.') = false := by
    intro c hc
    rw [decide_eq_false_iff_not]
    rintro rfl
    exact absurd (h _ hc) (by decide)
  have happ := splitOnce_append hall []
  rw [List.append_nil] at happ
  rw [happ]
  simp [splitOnce]

/-- The text of an integer reads as the integer. -/
theorem ofText_intText (n : Int) :
    ∃ literal, DecimalLiteral.ofText (intText n) = some literal ∧ literal.value = n := by
  have hd := allDigits_toDigits n.natAbs
  have hne : Nat.toDigits 10 n.natAbs ≠ [] := Nat.toDigits_ne_nil
  have hsplit := splitOnce_digits hd
  unfold intText
  split_ifs with hneg
  · have hsign : splitSign ('-' :: Nat.toDigits 10 n.natAbs) = (true, Nat.toDigits 10 n.natAbs) :=
      rfl
    unfold DecimalLiteral.ofText
    rw [hsign]
    dsimp only
    rw [hsplit, dif_pos ⟨fun h => hne h.1, hd, allDigits_nil⟩]
    refine ⟨_, rfl, ?_⟩
    simp only [DecimalLiteral.value, value_trimStart, value_toDigits, fractionValue_nil, if_true]
    have habs : (n.natAbs : Int) = -n := by omega
    have hcast : ((n.natAbs : Nat) : Rat) = -(n : Rat) := by
      rw [← Int.cast_natCast, habs, Int.cast_neg]
    rw [hcast]
    ring
  · unfold DecimalLiteral.ofText
    rw [splitSign_digits hd]
    dsimp only
    rw [hsplit, dif_pos ⟨fun h => hne h.1, hd, allDigits_nil⟩]
    refine ⟨_, rfl, ?_⟩
    simp only [DecimalLiteral.value, value_trimStart, value_toDigits, fractionValue_nil]
    have habs : (n.natAbs : Int) = n := by omega
    have hcast : ((n.natAbs : Nat) : Rat) = (n : Rat) := by
      rw [← Int.cast_natCast, habs]
    rw [hcast]
    simp

/-! ## Timestamps -/

/-- Within what the written form holds. -/
structure Written (m : Moment) : Prop where
  year : m.year < 10 ^ 4
  month : m.month < 10 ^ 2
  day : m.day < 10 ^ 2
  hour : m.hour < 10 ^ 2
  minute : m.minute < 10 ^ 2
  second : m.second < 10 ^ 2
  fraction : ∃ n : Nat, n < 10 ^ 6 ∧ m.fraction = n / 10 ^ 6

theorem momentOf_formatTimestamp {m : Moment} (h : Written m) :
    momentOf (formatTimestamp m) = m := by
  obtain ⟨n, hn, hfraction⟩ := h.fraction
  have hfloor : (m.fraction * 10 ^ 6).floor.toNat = n := by
    have hq : m.fraction * 10 ^ 6 = ((n : Int) : Rat) := by
      rw [hfraction]
      field_simp
      norm_cast
    rw [hq, Rat.floor_intCast]
    rfl
  have hy := length_padded (by decide) h.year
  have hmo := length_padded (by decide) h.month
  have hd := length_padded (by decide) h.day
  have hh := length_padded (by decide) h.hour
  have hmi := length_padded (by decide) h.minute
  have hs := length_padded (by decide) h.second
  have hf := length_padded (by decide) hn
  have hdigits := allDigits_padded 6 n
  have hlast : secondFraction ('.' :: padded 6 n) = (padded 6 n, []) := by
    have htake : (padded 6 n).takeWhile Char.isDigit = padded 6 n :=
      List.takeWhile_eq_self_iff.2 hdigits
    have hdrop : (padded 6 n).dropWhile Char.isDigit = [] := List.dropWhile_eq_nil_iff.2 hdigits
    show ((padded 6 n).takeWhile Char.isDigit, (padded 6 n).dropWhile Char.isDigit) = _
    rw [htake, hdrop]
  unfold momentOf pair formatTimestamp
  rw [hfloor]
  have hfv : fractionValue (padded 6 n) = m.fraction := by
    rw [fractionValue, value_padded, hf, hfraction]
  simp [List.drop_append, List.drop_eq_nil_of_le, hy, hmo, hd, hh, hmi, hs, value_padded, hlast, hfv]

theorem year_lt {date : List Char} (h : chronoFreeDate date) :
    Decimal.value (date.take 4) < 10 ^ 4 := by
  unfold chronoFreeDate at h
  split at h
  next year month day hsplit =>
    have htext : ['-'].intercalate (date.splitOn '-') = date := List.intercalate_splitOn '-'
    rw [hsplit] at htext
    simp only [isDigits, Bool.and_eq_true, decide_eq_true_eq, List.all_eq_true] at h
    obtain ⟨⟨⟨⟨hlen, hyear⟩, -⟩, -⟩, -⟩ := h
    have htake : date.take 4 = year := by
      rw [← htext, ← hlen]
      simp [List.intercalate, List.intersperse]
    rw [htake, ← hlen]
    exact value_lt hyear
  next => contradiction

theorem daysInMonth_le {year month days : Nat} (h : daysInMonth year month = some days) :
    month ≤ 12 ∧ days ≤ 31 := by
  unfold daysInMonth at h
  split_ifs at h with h₁ h₂ h₃
  all_goals cases h
  all_goals simp only [List.mem_cons, List.not_mem_nil, or_false] at *
  all_goals omega

/-- The moment of a timestamp within the microsecond. -/
theorem written_of_timestamp {text : List Char} (h : validTimestamp text false)
    (hmicro : hasSubMicrosecond (.ofList text) = false) : Written (momentOf text) := by
  have form := validTimestamp_spec h
  obtain ⟨⟨days, hdays, hday⟩, hh, hmi, hs, hlt, n, hn⟩ :=
    form.isTimestamp (form.length_fraction_le hmicro)
  obtain ⟨hmonth, hle⟩ := daysInMonth_le hdays
  have hyear := year_lt form.date
  rw [List.take_take, Nat.min_eq_left (by decide)] at hyear
  refine ⟨hyear, by omega, by omega, by omega, by omega, by omega, n, ?_, ?_⟩
  · have hcast : (n : Rat) < 10 ^ 6 := by
      rw [← hn]
      linarith
    exact_mod_cast hcast
  · rw [← hn]
    field_simp

/-! ## Doubles -/

/-- The least number a `DOUBLE` of Db2 has beside zero. -/
def leastNormal : Rat := 1 / 2 ^ 1022

theorem abs_toRat_of_subnormal {bits : UInt64} (h : isSubnormal bits) :
    Ieee.toRat bits ≠ 0 ∧ |Ieee.toRat bits| < leastNormal := by
  unfold isSubnormal at h
  rw [Bool.and_eq_true, decide_eq_true_eq, decide_eq_true_eq] at h
  obtain ⟨hexponent, hfraction⟩ := h
  have hmagnitude : Ieee.binary64.magnitude (Ieee.pattern bits) = Ieee.fraction bits := by
    have hp : Ieee.pattern bits = 0 * 2 ^ 52 + Ieee.fraction bits := by
      unfold Ieee.pattern Ieee.fraction
      unfold Ieee.exponent at hexponent
      omega
    rw [hp]
    exact Ieee.Format.magnitude_fields Ieee.binary64 0 _ (Nat.mod_lt _ (by decide))
  have hlt : Ieee.fraction bits < 2 ^ 52 := Nat.mod_lt _ (by decide)
  have hpos : (0 : Rat) < 2 ^ 1074 := by positivity
  have habs : |Ieee.toRat bits| = Ieee.fraction bits / 2 ^ 1074 := by
    unfold Ieee.toRat
    rw [hmagnitude, abs_mul, abs_of_nonneg (a := (Ieee.fraction bits : Rat) / _) (by positivity)]
    split_ifs <;> simp
  constructor
  · rw [← abs_pos, habs]
    have : (0 : Rat) < Ieee.fraction bits := by
      exact_mod_cast Nat.pos_of_ne_zero hfraction
    positivity
  · rw [habs, leastNormal, div_lt_div_iff₀ hpos (by positivity), one_mul]
    have hsplit : (2 : Rat) ^ 1074 = 2 ^ 52 * 2 ^ 1022 := by rw [← pow_add]
    rw [hsplit]
    have hcast : (Ieee.fraction bits : Rat) < 2 ^ 52 := by exact_mod_cast hlt
    exact mul_lt_mul_of_pos_right hcast (by positivity)

/-- Every number of single precision is a normal one. -/
theorem not_subnormal_of_exactF32 {bits : UInt64}
    (h : (Ieee.exactF32 bits).isSome) : ¬ isSubnormal bits := by
  intro hsub
  unfold isSubnormal at hsub
  rw [Bool.and_eq_true, decide_eq_true_eq, decide_eq_true_eq] at hsub
  have hwiden : Ieee.widen (Ieee.narrow bits) = bits := by
    unfold Ieee.exactF32 at h
    split at h
    next hor =>
      refine hor.resolve_left fun hnan => ?_
      simp [Ieee.isNaN] at hnan
      omega
    next => cases h
  obtain ⟨hexponent, hfraction, -⟩ := Ieee.widen_fields (Ieee.narrow bits)
  rw [hwiden] at hexponent hfraction
  rcases Ieee.widenFields_cases ((Ieee.narrow bits).toNat / 2 ^ 23 % 2 ^ 8)
    ((Ieee.narrow bits).toNat % 2 ^ 23) with ⟨-, hw⟩ | ⟨-, -, hw⟩ | ⟨-, -, hw⟩ | ⟨-, -, hw⟩ <;>
    rw [hw] at hexponent hfraction <;> omega

theorem doubleOf_eq_number {bits : UInt64} {q : Rat} (h : doubleOf bits = .number q) :
    Ieee.isFinite bits ∧ ¬ (Ieee.isZero bits ∧ Ieee.negative bits) ∧ Ieee.toRat bits = q := by
  unfold doubleOf at h
  split_ifs at h with hfin hzero
  cases h
  exact ⟨hfin, hzero, rfl⟩

/-- A double that Db2 keeps. -/
def IsKept (bits : UInt64) : Prop :=
  Ieee.isFinite bits ∧ ¬ isSubnormal bits ∧ bits ≠ negativeZero

section Binding

variable {dates : String → Bool} {timestamps : String → Option Moment}

theorem validateOne_double {bits : UInt64} :
    validateOne dates timestamps (.f64 bits) = .ok () ↔ IsKept bits := by
  unfold validateOne IsKept
  dsimp only
  constructor
  · intro h
    obtain ⟨⟨⟩, hfin, h⟩ := bind_eq_ok.1 h
    obtain ⟨⟨⟩, hsub, h⟩ := bind_eq_ok.1 h
    exact ⟨not_not.1 (failIf_eq_ok.1 hfin), failIf_eq_ok.1 hsub, failIf_eq_ok.1 h⟩
  · rintro ⟨hfin, hsub, hzero⟩
    rw [failIf_neg (not_not.2 hfin), ok_bind, failIf_neg hsub, ok_bind, failIf_neg hzero]

theorem isKept_of_number {bits : UInt64} {q : Rat} (h : doubleOf bits = .number q)
    (hq : q = 0 ∨ leastNormal ≤ |q|) : IsKept bits := by
  obtain ⟨hfin, hzero, hrat⟩ := doubleOf_eq_number h
  refine ⟨hfin, fun hsub => ?_, ?_⟩
  · obtain ⟨hne, hlt⟩ := abs_toRat_of_subnormal hsub
    rw [hrat] at hne hlt
    rcases hq with rfl | hq
    · exact hne rfl
    · exact absurd hlt (not_lt.2 hq)
  · rintro rfl
    exact hzero (by decide)

theorem leastNormal_le_int {n : Int} (h : n ≠ 0) : leastNormal ≤ |(n : Rat)| := by
  have hone : (1 : Rat) ≤ |(n : Rat)| := by
    rw [← Int.cast_abs]
    exact_mod_cast Int.one_le_abs h
  refine le_trans ?_ hone
  unfold leastNormal
  rw [div_le_one (by positivity)]
  exact one_le_pow₀ (by norm_num)

/-! ## Ready values -/

/-- A decimal for a column of doubles that is a subnormal one. -/
def IsTiny (described : DataType) (value : ParameterValue) : Prop :=
  ∃ text literal bits, value = .decimal text ∧ operandOf described = .float .double ∧
    DecimalLiteral.ofText text.toList = some literal ∧
    isSubnormal bits ∧ literal.value = Ieee.toRat bits

/-- What is known of an admitted value. -/
def Ready (described : DataType) : ParameterValue → Prop
  | .f64 bits => IsKept bits ∧ (isReal described → (Ieee.exactF32 bits).isSome)
  | .decimal text => (DecimalLiteral.ofText text.toList).isSome
  | .date text => chronoFreeDate text.toList
  | .timestamp text => validTimestamp text.toList false ∧ hasSubMicrosecond text = false
  | _ => True

theorem operandOf_of_isReal {described : DataType} (h : isReal described) :
    operandOf described = .float .single := by
  unfold isReal at h
  split at h
  next => rfl
  next precision =>
    show OperandType.float (if precision ≤ 24 then .single else .double) = _
    rw [if_pos (by simpa using h)]
  next => contradiction

theorem isKept_accept {described : DataType} {v : ParameterValue} {bits : UInt64}
    {mantissa : MantissaBits} (hvalid : validateOne dates timestamps v = .ok ())
    (htiny : ¬ IsTiny described v) (hop : operandOf described = .float mantissa)
    (h : admitValue .db2 v (.float mantissa) = .ok (.f64 bits)) : IsKept bits := by
  have hmean : doubleOf bits = meaning (.float mantissa) v := (admit_faithful h).meaning
  obtain ⟨hform, hc⟩ := admit_eq_ok.1 h
  cases v with
  | i32 number =>
    refine isKept_of_number (q := number.toInt) hmean ?_
    by_cases hzero : number.toInt = 0
    · exact .inl (by rw [hzero, Int.cast_zero])
    · exact .inr (leastNormal_le_int hzero)
  | i64 number =>
    refine isKept_of_number (q := number.toInt) hmean ?_
    by_cases hzero : number.toInt = 0
    · exact .inl (by rw [hzero, Int.cast_zero])
    · exact .inr (leastNormal_le_int hzero)
  | f64 bits' =>
    have hsame : ParameterValue.f64 bits' = .f64 bits := by
      have hd : admitDouble .db2 bits' (.float mantissa) = .ok (.f64 bits) := hc
      unfold admitDouble at hd
      dsimp only at hd
      split_ifs at hd <;> exact Except.ok.inj hd
    cases hsame
    exact validateOne_double.1 hvalid
  | decimal text =>
    obtain ⟨literal, hl, -⟩ := bind_eq_ok.1 hform
    rw [DecimalLiteral.parse, okOr_eq_ok] at hl
    have hvalue : meaning (.float mantissa) (.decimal text) = .number literal.value := by
      rw [meaning_of_not_textual rfl, valueOf, hl]
    rw [hvalue] at hmean
    obtain ⟨hfinite, hzero, hrat⟩ := doubleOf_eq_number hmean
    refine ⟨hfinite, fun hsub => ?_, fun hnegative => hzero (hnegative ▸ by decide)⟩
    cases mantissa with
    | double => exact htiny ⟨text, literal, bits, rfl, hop, hl, hsub, hrat.symm⟩
    | single =>
      have hd : admitDouble .db2 bits (.float .single) = .ok (.f64 bits) :=
        (admit_eq_ok.1 (admit_faithful h).stable).2
      unfold admitDouble at hd
      rw [if_neg (not_not.2 hfinite)] at hd
      dsimp only at hd
      split_ifs at hd with hfit
      exact not_subnormal_of_exactF32 (hfit.resolve_left (by decide)) hsub
  | _ => cases hc

theorem ready_accept {described : DataType} {v v' : ParameterValue}
    (hvalid : validateOne dates timestamps v = .ok ()) (htiny : ¬ IsTiny described v)
    (h : admitValue .db2 v (operandOf described) = .ok v') : Ready described v' := by
  have hfit := fits_accept (isDescribed_operandOf described) h
  have hstable := (admit_faithful h).stable
  obtain ⟨hform, hc⟩ := admit_eq_ok.1 hstable
  cases v' with
  | f64 bits =>
    cases hop : operandOf described with
    | float mantissa =>
      rw [hop] at h hc
      have hkept := isKept_accept hvalid htiny hop h
      refine ⟨hkept, fun hreal => ?_⟩
      rw [operandOf_of_isReal hreal] at hop
      cases hop
      have hd : admitDouble .db2 bits (.float .single) = .ok (.f64 bits) := hc
      unfold admitDouble at hd
      rw [if_neg (not_not.2 hkept.1)] at hd
      dsimp only at hd
      split_ifs at hd with hfit
      exact hfit.resolve_left (by decide)
    | _ => rw [hop] at hfit; cases hfit
  | decimal text =>
    obtain ⟨literal, hl, -⟩ := bind_eq_ok.1 hform
    rw [DecimalLiteral.parse, okOr_eq_ok] at hl
    exact Option.isSome_iff_exists.2 ⟨literal, hl⟩
  | date text =>
    have hdate := failIf_eq_ok.1 hform
    rw [not_not] at hdate
    exact hdate
  | timestamp text =>
    obtain ⟨⟨⟩, hts, hmicro⟩ := bind_eq_ok.1 hform
    rw [failIf_eq_ok, not_not] at hts
    exact ⟨hts, by simpa [rejectSubMicrosecond, failIf_eq_ok] using hmicro⟩
  | _ => trivial

theorem admitDescribed_spec {described : DataType} {v v' : ParameterValue}
    (htiny : ¬ IsTiny described v) (h : admitDescribed dates timestamps v described = .ok v') :
    Fits (operandOf described) v' ∧ Ready described v' := by
  have hd := isDescribed_operandOf described
  unfold admitDescribed at h
  obtain ⟨⟨⟩, hvalid, h⟩ := bind_eq_ok.1 h
  split at h
  next bytes hbytes =>
    have hbytes : validateOne dates timestamps (.bytes bytes) = .ok () := rfl
    refine ⟨fits_accept hd h, ready_accept hbytes ?_ h⟩
    rintro ⟨text, literal, mantissa, hv, -⟩
    cases hv
  next hnone =>
    obtain ⟨admitted, haccept, h⟩ := bind_eq_ok.1 h
    obtain ⟨-, -, h⟩ := bind_eq_ok.1 h
    cases h
    exact ⟨fits_accept hd haccept, ready_accept hvalid htiny haccept⟩

theorem fits_text {kind operand : OperandType} {v : ParameterValue} (hk : isText kind)
    (ho : isText operand) (h : Fits kind v) : Fits operand v := by
  cases kind with
  | text length padded unit charset =>
    cases operand with
    | text length' padded' unit' charset' => cases v <;> exact h
    | _ => cases ho
  | _ => cases hk

theorem ready_text {described : DataType} {kind : OperandType} {v : ParameterValue}
    (hk : isText kind) (h : Fits kind v) : Ready described v := by
  cases kind with
  | text length padded unit charset => cases v <;> trivial
  | _ => cases hk

theorem isDescribed_of_isText {kind : OperandType} (h : isText kind) : isDescribed kind := by
  cases kind <;> first | rfl | cases h

theorem admitWithCatalog_spec {described : DataType} {catalog : Option OperandType}
    {v v' : ParameterValue} (htiny : ¬ IsTiny described v)
    (h : admitWithCatalog dates timestamps v described catalog = .ok v') :
    Fits (operandOf described) v' ∧ Ready described v' := by
  unfold admitWithCatalog at h
  obtain ⟨⟨⟩, hvalid, h⟩ := bind_eq_ok.1 h
  split at h
  next kind hkind =>
    split_ifs at hkind with htext
    have hk : isText kind := (Option.filter_eq_some_iff.1 hkind).2
    have hfit := fits_accept (isDescribed_of_isText hk) h
    exact ⟨fits_text hk htext hfit, ready_text hk hfit⟩
  next => exact admitDescribed_spec htiny h

/-! ## Binding -/

/-- What the readers of dates and timestamps do: a day of the calendar is read, and a timestamp
that is read is the moment it writes. -/
structure ReadsChrono (dates : String → Bool) (timestamps : String → Option Moment) : Prop where
  day : ∀ text : String, chronoFreeDate text.toList → dates text
  moment : ∀ (text : String) (m : Moment), validTimestamp text.toList false →
    timestamps text = some m → m = momentOf text.toList

theorem timestamp_eq_ok {text : String} {m : Moment} :
    timestamp timestamps text = .ok m ↔
      rejectSubMicrosecond .db2 text = .ok () ∧ timestamps text = some m := by
  unfold timestamp
  rw [bind_eq_ok]
  constructor
  · rintro ⟨⟨⟩, hmicro, h⟩
    exact ⟨hmicro, okOr_eq_ok.1 h⟩
  · rintro ⟨hmicro, h⟩
    exact ⟨(), hmicro, okOr_eq_ok.2 h⟩

/-- **An admitted value passes the checks again exactly when it is bound.** -/
theorem validateOne_iff_bind (hchrono : ReadsChrono dates timestamps) {described : DataType}
    {v : ParameterValue} (hfit : Fits (operandOf described) v) (hready : Ready described v) :
    validateOne dates timestamps v = .ok () ↔ ∃ b, bindAdmitted timestamps described v = .ok b := by
  cases v with
  | f64 bits =>
    refine iff_of_true (validateOne_double.2 hready.1) ?_
    unfold bindAdmitted
    dsimp only
    split_ifs with hreal
    · obtain ⟨narrowed, hn⟩ := Option.isSome_iff_exists.1 (hready.2 hreal)
      unfold narrow
      rw [hn, okOr_some, ok_bind]
      exact ⟨_, rfl⟩
    · exact ⟨_, rfl⟩
  | decimal text =>
    obtain ⟨literal, hl⟩ := Option.isSome_iff_exists.1 hready
    refine iff_of_true ?_ ⟨_, rfl⟩
    show (DecimalLiteral.parse .db2 text >>= fun _ => Except.ok ()) = .ok ()
    rw [DecimalLiteral.parse, hl]
    rfl
  | date text =>
    refine iff_of_true ?_ ⟨_, rfl⟩
    exact failIf_neg (not_not.2 (hchrono.day text hready))
  | timestamp text =>
    constructor
    · intro h
      obtain ⟨m, hm, -⟩ := bind_eq_ok.1 h
      exact ⟨_, bind_eq_ok.2 ⟨m, hm, rfl⟩⟩
    · rintro ⟨b, h⟩
      obtain ⟨m, hm, -⟩ := bind_eq_ok.1 h
      exact bind_eq_ok.2 ⟨m, hm, rfl⟩
  | null typeName => exact iff_of_true rfl ⟨_, rfl⟩
  | bool flag => exact iff_of_true rfl ⟨_, rfl⟩
  | i32 number => exact iff_of_true rfl ⟨_, rfl⟩
  | i64 number => exact iff_of_true rfl ⟨_, rfl⟩
  | string text => exact iff_of_true rfl ⟨_, rfl⟩
  | bytes bytes => exact iff_of_true rfl ⟨_, rfl⟩
  | _ => cases hop : operandOf described <;> rw [hop] at hfit <;> cases hfit

theorem textDenotes_decimal {operand : OperandType} {text : String}
    (hfit : Fits operand (.decimal text)) :
    textDenotes operand text.toList = valueOf (.decimal text) := by
  cases operand with
  | decimal precision scale =>
    cases hliteral : DecimalLiteral.ofText text.toList <;>
      simp only [textDenotes, valueOf, String.ofList_toList, hliteral]
  | unboundedDecimal digits =>
    cases hliteral : DecimalLiteral.ofText text.toList <;>
      simp only [textDenotes, valueOf, String.ofList_toList, hliteral]
  | _ => cases hfit

theorem textDenotes_string {operand : OperandType} {text : String}
    (hfit : Fits operand (.string text)) :
    textDenotes operand text.toList = valueOf (.string text) := by
  cases operand with
  | text length padded unit charset => simp only [textDenotes, valueOf, String.ofList_toList]
  | _ => cases hfit

theorem textDenotes_bool {operand : OperandType} {flag : Bool} (hfit : Fits operand (.bool flag)) :
    textDenotes operand (boolText flag) = valueOf (.bool flag) := by
  cases operand with
  | boolean =>
    have hflag : boolText flag = boolText true ↔ flag = true := by cases flag <;> decide
    simp only [textDenotes, valueOf, hflag]
  | _ => cases hfit

theorem textDenotes_int {operand : OperandType} {v : ParameterValue} {n : Int}
    (hv : (∃ k : Int32, v = .i32 k) ∨ ∃ k : Int64, v = .i64 k) (hfit : Fits operand v) :
    textDenotes operand (intText n) = .number n := by
  obtain ⟨literal, hl, hvalue⟩ := ofText_intText n
  rcases hv with ⟨k, rfl⟩ | ⟨k, rfl⟩ <;> cases operand <;>
    first | cases hfit; done | simp only [textDenotes, hl, hvalue]

theorem textDenotes_date {operand : OperandType} {text : String}
    (hfit : Fits operand (.date text)) :
    textDenotes operand text.toList = valueOf (.date text) := by
  cases operand with
  | date => rfl
  | _ => cases hfit

theorem textDenotes_timestamp {operand : OperandType} {text : String} {chars : List Char}
    (hfit : Fits operand (.timestamp text)) :
    textDenotes operand chars = .moment (momentOf chars) := by
  cases operand with
  | timestamp digits => rfl
  | _ => cases hfit

/-- **The bound value denotes the admitted one.** -/
theorem bindAdmitted_denotes (hchrono : ReadsChrono dates timestamps) {described : DataType}
    {v : ParameterValue} {b : Bound} (hfit : Fits (operandOf described) v)
    (hready : Ready described v) (h : bindAdmitted timestamps described v = .ok b) :
    boundDenotes (operandOf described) b = valueOf v := by
  cases v with
  | null typeName =>
    cases h
    split_ifs <;> rfl
  | bool flag =>
    cases h
    exact textDenotes_bool hfit
  | i32 number =>
    cases h
    have hlow := Int32.le_toInt number
    have hhigh := Int32.toInt_lt number
    show Denotation.number _ = .number _
    rw [Int64.toInt_ofInt_of_le (by omega) (by omega)]
  | i64 number =>
    cases h
    rfl
  | f64 bits =>
    unfold bindAdmitted at h
    dsimp only at h
    split_ifs at h with hreal
    · obtain ⟨narrowed, hn, h⟩ := bind_eq_ok.1 h
      rw [okOr_eq_ok] at hn
      cases h
      show doubleOf (Ieee.widen narrowed) = doubleOf bits
      unfold Ieee.exactF32 at hn
      simp only [Ieee.isNaN_of_isFinite hready.1.1, Bool.false_eq_true, false_or] at hn
      split_ifs at hn with hw
      cases hn
      rw [hw]
    · cases h
      rfl
  | decimal text =>
    cases h
    exact textDenotes_decimal hfit
  | date text =>
    cases h
    exact textDenotes_date hfit
  | timestamp text =>
    obtain ⟨m, hm, h⟩ := bind_eq_ok.1 h
    cases h
    obtain ⟨-, hm⟩ := timestamp_eq_ok.1 hm
    show textDenotes _ (formatTimestamp m) = .moment (momentOf text.toList)
    rw [textDenotes_timestamp hfit, hchrono.moment text m hready.1 hm, momentOf_formatTimestamp]
    refine written_of_timestamp hready.1 ?_
    rw [String.ofList_toList]
    exact hready.2
  | string text =>
    cases h
    exact textDenotes_string hfit
  | bytes bytes =>
    cases h
    rfl
  | _ => cases h

end Binding

end Plenora.Db2.ParameterArray
