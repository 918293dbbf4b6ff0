import Plenora.Core.ExactAdmission
import Plenora.Core.QueryAst

/-!
# Exact casts

The type a `CAST` is rendered in, and the two checks that its operand is exact in it: of a bound
value by what is kept of it, of a column by its type in the catalog.  Where a check passes, the
value belongs to the rendered type; the one thing it leaves open is the character set of a UUID
rendered as text.

    valueFits provider (.of v) (renderedTarget provider t) →
      (Member target (meaning target v) ↔ Held target (meaning target v))     (valueFits_member)
    widens provider source name (renderedTarget provider t) → Member source d →
      (Member target d ↔ Held target d)                                       (widens_member)
-/

namespace Plenora.Core.CastTable

open Plenora.Lib Plenora.Lib.Decimal ParameterFidelity OperandAdmission

/-! ## Rendered types -/

def isMysql (provider : ProviderKind) : Bool := provider == .mysql || provider == .mariadb

def byteLengths (provider : ProviderKind) : Bool := provider == .oracle || provider == .db2

def textLimit : ProviderKind → Option UInt64
  | .oracle => some 4000
  | .db2 => some 32672
  | _ => none

def binaryLimit : ProviderKind → Option UInt64
  | .oracle => some 2000
  | .db2 => some 32672
  | _ => none

def renderedTextUnit (provider : ProviderKind) : LengthUnit :=
  if byteLengths provider then .bytes else .characters

def i32 : OperandType := .integer (-2147483648) 2147483647

def i64 : OperandType := .integer (-9223372036854775808) 9223372036854775807

def unboundedText : OperandType := .text none false .characters .unicode

/-- The type that `CAST(... AS type)` is written with. -/
def renderedTarget (provider : ProviderKind) : QueryParameterType → OperandType
  | .boolean => if isMysql provider then i64 else .boolean
  | .integer =>
    if isMysql provider then i64 else if provider = .oracle then .decimal 10 0 else i32
  | .bigInteger => if provider = .oracle then .decimal 19 0 else i64
  | .float => .float .double
  | .decimal => if provider = .db2 then .decimal 31 10 else .decimal 38 10
  | .string => .text (textLimit provider) false (renderedTextUnit provider) .unicode
  | .binary => .binary (binaryLimit provider) false
  -- `DATE` of Oracle has a time of day
  | .date => if provider = .oracle then .timestamp 0 else .date
  | .timestamp => if provider = .sqlserver then .timestamp 7 else .timestamp 6
  | .timestampTz =>
    match provider with
    | .sqlserver => .timestampTz 7
    | .mariadb => .timestamp 6
    | .db2 => .unknown
    | _ => .timestampTz 6
  | .uuid =>
    if provider = .postgres ∨ provider = .sqlserver then .uuid
    else .text (some 36) true .characters .ascii
  | .json =>
    if provider = .postgres ∨ isMysql provider then .json
    else if provider = .db2 then .text (some 1048576) false .bytes .unicode
    else unboundedText

/-! ## Bound values -/

/-- The digits of a normalized decimal. -/
structure DecimalDigits where
  integer : Nat
  fraction : Nat
  deriving DecidableEq, Repr

/-- What is kept of a bound value. -/
inductive ValueFact where
  | null | bool
  | integer (number : Int)
  | float
  | decimal (digits : Option DecimalDigits)
  | text (chars bytes : Nat) (uuid : Bool)
  | bytes (length : Nat)
  | date
  | timestamp (fraction : Nat)
  | timestampTz (fraction : Nat)
  | uuid | json | enum | wkb
  deriving DecidableEq, Repr

def decimalDigits (text : List Char) : Option DecimalDigits :=
  let (integer, fraction) := splitOnce (· = '.') (splitSign text).2
  if (integer = [] ∧ fraction = []) ∨ ¬ integer.all Char.isDigit ∨ ¬ fraction.all Char.isDigit then
    none
  else some ⟨lengthU32 (trimStart integer), lengthU32 (trimEnd '0' fraction)⟩

/-- The digits after the seconds, without the last zeros. -/
def fractionDigits (text : List Char) : Nat :=
  let (_, rest) := splitOnce isSeparator text
  let (_, fraction) := splitOnce (· = '.') rest
  lengthU32 (trimEnd '0' (fraction.takeWhile Char.isDigit))

def ValueFact.of : ParameterValue → ValueFact
  | .null _ => .null
  | .bool _ => .bool
  | .i32 number => .integer number.toInt
  | .i64 number => .integer number.toInt
  | .f64 _ => .float
  | .decimal value => .decimal (decimalDigits value.toList)
  | .string value => .text value.toList.length value.utf8ByteSize (isCanonicalUuid value)
  | .bytes value => .bytes value.length
  | .date _ => .date
  | .timestamp value => .timestamp (fractionDigits value.toList)
  | .timestampTz value => .timestampTz (fractionDigits value.toList)
  | .uuid _ => .uuid
  | .json _ => .json
  | .enum _ _ => .enum
  | .wkb _ _ _ _ => .wkb

def decimalFits (digits : DecimalDigits) (precision scale : UInt32) : Bool :=
  digits.fraction ≤ scale.toNat && digits.integer ≤ precision.toNat - scale.toNat

/-- A text of that many characters and bytes is within the length. -/
def within (provider : ProviderKind) (length : Option UInt64) (chars bytes : Nat) : Bool :=
  length.all fun length => if byteLengths provider then bytes ≤ length.toNat else
    chars ≤ length.toNat

/-- The value is exact in the rendered type, by what is kept of it. -/
def valueFits (provider : ProviderKind) (fact : ValueFact) (target : OperandType) : Bool :=
  match fact, target with
  | .null, _ | .bool, .boolean | .float, .float .double | .uuid, .uuid | .json, .json
  | .enum, .enumeration | .date, .date | .date, .timestamp _ | .enum, .text none _ _ _
  | .json, .text none _ _ _ => true
  | .bool, .integer min max => min ≤ 0 && 1 ≤ max
  | .integer number, .integer min max => min ≤ number && number ≤ max
  | .integer number, .decimal precision scale =>
    integerDigits number ≤ precision.toNat - scale.toNat
  | .integer number, .float mantissaBits => number.natAbs ≤ 2 ^ mantissaBits.toNat
  | .decimal (some digits), .decimal precision scale => decimalFits digits precision scale
  -- the narrowest rendered range has 32 bits, every other 64
  | .decimal (some digits), .integer min max =>
    digits.fraction == 0 &&
      digits.integer ≤ if -2147483648 ≤ min ∧ max ≤ 2147483647 then 9 else 18
  | .text chars bytes _, .text length _ _ _ => within provider length chars bytes
  | .text _ _ uuid, .uuid => uuid
  | .uuid, .text length _ _ _ => within provider length 36 36
  | .bytes bytes, .binary length _ => length.all (bytes ≤ ·.toNat)
  | .timestamp fraction, .timestamp digits => fraction ≤ digits.toNat
  | .timestampTz fraction, .timestampTz digits => fraction ≤ digits.toNat
  | _, _ => false

/-! ## Columns -/

def decimalWidens (precision scale targetPrecision targetScale : UInt32) : Bool :=
  scale ≤ targetScale &&
    precision.toNat - scale.toNat ≤ targetPrecision.toNat - targetScale.toNat

/-- The integers of a type that has no others. -/
def integerRange : OperandType → Option (Int × Int)
  | .integer min max => some (min, max)
  | .decimal precision scale =>
    if scale = 0 ∧ precision ≤ 38 then
      some (-(10 ^ precision.toNat - 1), 10 ^ precision.toNat - 1)
    else none
  | .boolean => some (0, 1)
  | _ => none

/-- A length is within another, each length in the unit of the rendered type. -/
def lengthWidens (count : UInt64 → Nat) : Option UInt64 → Option UInt64 → Bool
  | _, none => true
  | none, some _ => false
  | some length, some target => count length ≤ target.toNat

/-- The bytes a length may take, four for each character where the provider counts bytes. -/
def lengthBytes (provider : ProviderKind) (length : UInt64) : Nat :=
  if byteLengths provider then min (length.toNat * 4) (2 ^ 64 - 1) else length.toNat

/-- Every value of the column's type is in the rendered type. -/
def widens (provider : ProviderKind) (source : OperandType) (sourceName : String)
    (target : OperandType) : Bool :=
  match source, target with
  | .boolean, .boolean | .uuid, .uuid | .date, .date | .date, .timestamp _
  | .enumeration, .text none _ _ _ => true
  | .json, .json => !(provider == .postgres && sourceName.toLower == "json")
  | .float mantissaBits, .float target | .scaledFloat mantissaBits _ _, .float target =>
    mantissaBits.toNat ≤ target.toNat
  | source, .integer min max => (integerRange source).any fun r => min ≤ r.1 && r.2 ≤ max
  | .integer low high, .decimal precision scale =>
    integerDigits (max |low| |high|) ≤ precision.toNat - scale.toNat
  | .boolean, .decimal precision scale => integerDigits 1 ≤ precision.toNat - scale.toNat
  | .integer low high, .float mantissaBits =>
    max low.natAbs high.natAbs ≤ 2 ^ mantissaBits.toNat
  | .decimal precision scale, .decimal targetPrecision targetScale =>
    decimalWidens precision scale targetPrecision targetScale
  | .roundedDecimal precision rounding, .decimal targetPrecision targetScale =>
    min (precision.toNat + rounding.toNat) (2 ^ 32 - 1) ≤
      targetPrecision.toNat - targetScale.toNat
  | .text length padded _ _, .text target _ _ _ =>
    !(padded && provider == .postgres) && lengthWidens (lengthBytes provider) length target
  | .binary length _, .binary target _ => lengthWidens UInt64.toNat length target
  | .timestamp digits, .timestamp target => digits ≤ target
  | .timestampTz digits, .timestampTz target => provider != .oracle && digits ≤ target
  | _, _ => false

/-! ## What rendered types have in common -/

/-- The shapes of the rendered types. -/
def isRendered (provider : ProviderKind) : OperandType → Bool
  | .boolean | .date | .uuid | .json | .timestamp _ | .timestampTz _ | .unknown => true
  | .float mantissaBits => mantissaBits == .double
  | .integer min max => OperandType.integer min max == i32 || OperandType.integer min max == i64
  | .decimal precision scale => scale ≤ precision && precision ≤ 38
  | .text length _ unit charset =>
    (unit == .characters || (unit == .bytes && byteLengths provider && charset == .unicode)) &&
      (charset == .unicode || (charset == .ascii && length == some 36)) &&
      length.all (· ≤ 1048576)
  | .binary _ padded => !padded
  | _ => false

theorem isRendered_text (provider : ProviderKind) (length : Option UInt64) (padded : Bool)
    (unit : LengthUnit) (charset : Charset) :
    isRendered provider (.text length padded unit charset) ↔
      (unit = .characters ∨ unit = .bytes ∧ byteLengths provider ∧ charset = .unicode) ∧
        (charset = .unicode ∨ charset = .ascii ∧ length = some 36) ∧
          length.all (· ≤ 1048576) := by
  unfold isRendered
  simp only [Bool.and_eq_true, Bool.or_eq_true, beq_iff_eq, and_assoc]

theorem isRendered_decimal (provider : ProviderKind) (precision scale : UInt32) :
    isRendered provider (.decimal precision scale) ↔
      scale.toNat ≤ precision.toNat ∧ precision.toNat ≤ 38 := by
  unfold isRendered
  simp only [Bool.and_eq_true, decide_eq_true_eq, UInt32.le_iff_toNat_le]
  exact Iff.rfl

theorem isRendered_integer (provider : ProviderKind) (min max : Int) :
    isRendered provider (.integer min max) ↔
      (OperandType.integer min max = i32 ∨ OperandType.integer min max = i64) := by
  unfold isRendered
  simp only [Bool.or_eq_true, beq_iff_eq]

theorem isRendered_renderedTarget (provider : ProviderKind) (parameterType : QueryParameterType) :
    isRendered provider (renderedTarget provider parameterType) = true := by
  cases provider <;> cases parameterType <;> rfl

/-- The characters of a text are in the character set of the type. -/
def Held : OperandType → Denotation → Prop
  | .text _ _ _ charset, .text s => ∀ c ∈ s.toList, charset.holds c
  | _, _ => True

/-- The character set of the type keeps every character. -/
def keepsAll : OperandType → Bool
  | .text _ _ _ charset => charset == .unicode
  | _ => true

theorem held_of_keepsAll {target : OperandType} (h : keepsAll target) (d : Denotation) :
    Held target d := by
  cases target with
  | text length padded unit charset =>
    cases d with
    | text s =>
      obtain rfl : charset = .unicode := eq_of_beq h
      intro c _
      rfl
    | _ => trivial
  | _ => cases d <;> trivial

/-- Only a UUID rendered as text keeps fewer characters than there are. -/
theorem keepsAll_renderedTarget (provider : ProviderKind) (parameterType : QueryParameterType)
    (h : parameterType ≠ .uuid) : keepsAll (renderedTarget provider parameterType) = true := by
  cases provider <;> cases parameterType <;> first | rfl | exact absurd rfl h

/-! ### Texts -/

theorem length_le_utf8Len (cs : List Char) : cs.length ≤ String.utf8Len cs := by
  induction cs with
  | nil => exact Nat.le_refl _
  | cons c cs ih =>
    have hpos := Char.utf8Size_pos c
    rw [String.utf8Len_cons, List.length_cons]
    omega

theorem utf8Len_le (cs : List Char) : String.utf8Len cs ≤ cs.length * 4 := by
  induction cs with
  | nil => exact Nat.le_refl _
  | cons c cs ih =>
    have hle := Char.utf8Size_le_four c
    rw [String.utf8Len_cons, List.length_cons]
    omega

theorem utf8ByteSize_eq (s : String) : s.utf8ByteSize = String.utf8Len s.toList := by
  rw [← String.utf8ByteSize_ofList, String.ofList_toList]

theorem length_le_sum_utf16Units (cs : List Char) : cs.length ≤ (cs.map utf16Units).sum := by
  induction cs with
  | nil => exact Nat.le_refl _
  | cons c cs ih =>
    have hpos : 1 ≤ utf16Units c := by
      unfold utf16Units
      split <;> omega
    rw [List.map_cons, List.sum_cons, List.length_cons]
    omega

/-- No unit counts fewer than the characters. -/
theorem length_le_textLength (s : String) (unit : LengthUnit) (charset : Charset) :
    s.toList.length ≤ textLength s unit charset := by
  have hbytes := length_le_utf8Len s.toList
  rw [← utf8ByteSize_eq] at hbytes
  cases unit with
  | characters => exact Nat.le_refl _
  | bytes =>
    cases charset with
    | unicode | unicodeBmp => exact hbytes
    | windows1252 | ascii => exact Nat.le_refl s.toList.length
  | utf16 => exact length_le_sum_utf16Units _

theorem utf8ByteSize_le (s : String) (unit : LengthUnit) (charset : Charset) :
    s.utf8ByteSize ≤ textLength s unit charset * 4 := by
  have hle := utf8Len_le s.toList
  have hlength := length_le_textLength s unit charset
  rw [utf8ByteSize_eq]
  omega

/-- A text is in a rendered text type when its characters are held and its length, in the
provider's unit, is within. -/
theorem member_text {provider : ProviderKind} {length : Option UInt64} {padded : Bool}
    {unit : LengthUnit} {charset : Charset} {s : String}
    (hr : isRendered provider (.text length padded unit charset))
    (h : within provider length s.toList.length s.utf8ByteSize) :
    Member (.text length padded unit charset) (.text s) ↔
      Held (.text length padded unit charset) (.text s) := by
  rw [isRendered_text] at hr
  show (_ ∧ _) ↔ _
  refine and_iff_left fun n hn => ?_
  unfold within at h
  rw [Option.mem_def] at hn
  rw [hn, Option.all_some] at h
  have hchars := length_le_utf8Len s.toList
  rw [← utf8ByteSize_eq] at hchars
  rcases hr.1 with rfl | ⟨rfl, hbytes, rfl⟩
  · show s.toList.length ≤ n.toNat
    split at h
    all_goals
      rw [decide_eq_true_eq] at h
      omega
  · rw [if_pos hbytes, decide_eq_true_eq] at h
    exact h

theorem all_isAscii_of_uuid {value : String} (h : isCanonicalUuid value) :
    value.toList.length = 36 ∧ ∀ c ∈ value.toList, c.toNat < 128 := by
  unfold isCanonicalUuid at h
  rw [Bool.and_eq_true, decide_eq_true_eq, List.all_eq_true] at h
  refine ⟨h.1, fun c hc => ?_⟩
  obtain ⟨index, hindex⟩ := List.getElem?_of_mem hc
  have hchar := h.2 (c, index) (by rw [List.mk_mem_zipIdx_iff_getElem?]; exact hindex)
  dsimp only at hchar
  split at hchar
  · rw [decide_eq_true_eq] at hchar
    subst hchar
    decide
  · simp only [isHexDigit, Bool.or_eq_true, Bool.and_eq_true, decide_eq_true_eq] at hchar
    rcases hchar with (hdigit | ⟨-, hle⟩) | ⟨-, hle⟩
    · have := isDigit_bounds hdigit
      omega
    · have : c.toNat ≤ 'f'.toNat := hle
      exact Nat.lt_of_le_of_lt this (by decide)
    · have : c.toNat ≤ 'F'.toNat := hle
      exact Nat.lt_of_le_of_lt this (by decide)

theorem utf8Len_of_ascii {cs : List Char} (h : ∀ c ∈ cs, c.toNat < 128) :
    String.utf8Len cs = cs.length := by
  induction cs with
  | nil => rfl
  | cons c cs ih =>
    have hc : c.utf8Size = 1 := by
      have := h c (List.mem_cons_self ..)
      rw [Char.utf8Size_eq_one_iff]
      exact Nat.le_of_lt_succ this
    rw [String.utf8Len_cons, List.length_cons, ih fun d hd => h d (List.mem_cons_of_mem _ hd), hc]

/-- **A UUID in a rendered text type.** -/
theorem member_uuid {provider : ProviderKind} {length : Option UInt64} {padded : Bool}
    {unit : LengthUnit} {charset : Charset} {value : String} (hu : isCanonicalUuid value)
    (hr : isRendered provider (.text length padded unit charset))
    (h : within provider length 36 36) : Member (.text length padded unit charset) (.text value) := by
  obtain ⟨hlength, hascii⟩ := all_isAscii_of_uuid hu
  refine (member_text hr ?_).2 fun c hc => ?_
  · rw [utf8ByteSize_eq, utf8Len_of_ascii hascii, hlength]
    exact h
  · have hc := decide_eq_true (hascii c hc)
    rcases ((isRendered_text ..).1 hr).2.1 with rfl | ⟨rfl, -⟩
    · rfl
    · exact hc

/-! ## Bound values in rendered types -/

theorem member_date {d : Moment} (h : d.IsDate) (digits : Nat) : d.IsTimestamp digits := by
  obtain ⟨hday, hhour, hminute, hsecond, hfraction⟩ := h
  refine ⟨hday, by omega, by omega, by omega, by rw [hfraction]; norm_num, 0, ?_⟩
  rw [hfraction]
  simp

theorem integer_member {provider : ProviderKind} {n : Int} {target : OperandType}
    (h : valueFits provider (.integer n) target) : Member target (.number n) := by
  cases target with
  | integer min max =>
    have hrange : (decide (min ≤ n) && decide (n ≤ max)) = true := h
    rw [Bool.and_eq_true, decide_eq_true_eq, decide_eq_true_eq] at hrange
    exact ⟨n, rfl, hrange⟩
  | decimal precision scale => exact isScaled_of_digits (of_decide_eq_true h)
  | float mantissaBits =>
    have hfit : n.natAbs ≤ 2 ^ mantissaBits.toNat := of_decide_eq_true h
    have h53 := Nat.le_trans hfit (pow_mantissa_le mantissaBits)
    show IsFloat mantissaBits n
    rw [← Ieee.toRat_ofInt h53]
    exact isFloat_of_fits (Ieee.ofInt_spec h53).2.1 (ofInt_fits hfit)
  | _ => cases h

theorem double_member (bits : UInt64) : Member (.float .double) (doubleOf bits) := by
  unfold doubleOf
  split
  · trivial
  next hfin =>
    rw [not_not] at hfin
    split
    · trivial
    · exact ⟨bits, hfin, rfl, fun h => by cases h⟩

/-- The digits that are kept are those of the exact decimal. -/
theorem decimalDigits_eq {provider : ProviderKind} {text : String} {d : ExactDecimal}
    (h : parseDecimal provider text = .ok d) :
    decimalDigits text.toList = some ⟨lengthU32 d.integer, lengthU32 d.fraction⟩ := by
  unfold parseDecimal DecimalLiteral.parse at h
  obtain ⟨literal, hl, hd⟩ := bind_eq_ok.1 h
  rw [okOr_eq_ok] at hl
  cases hd
  unfold DecimalLiteral.ofText at hl
  dsimp only at hl
  split at hl
  next hdigits =>
    cases hl
    unfold decimalDigits
    dsimp only
    rw [if_neg]
    · show _ = some (DecimalDigits.mk (lengthU32 (trimStart (trimStart _))) _)
      rw [trimStart_trimStart]
      rfl
    · obtain ⟨hne, hi, hf⟩ := hdigits
      simp only [List.all_eq_true, not_or, not_not]
      exact ⟨hne, hi, hf⟩
  next => contradiction

theorem length_eq_of_lengthU32_le {l : List Char} {n : Nat} (h : lengthU32 l ≤ n)
    (hn : n < 2 ^ 32 - 1) : l.length ≤ n := by
  unfold lengthU32 at h
  omega

theorem decimal_member {provider : ProviderKind} {d : ExactDecimal} {target : OperandType}
    (hr : isRendered provider target)
    (h : valueFits provider (.decimal (some ⟨lengthU32 d.integer, lengthU32 d.fraction⟩)) target) :
    Member target (.number d.value) := by
  cases target with
  | decimal precision scale =>
    have hfits : fitsDecimal d precision scale := h
    obtain ⟨hle, h38⟩ := (isRendered_decimal ..).1 hr
    show IsScaled precision.toNat scale.toNat d.value
    refine (d.isScaled_of_fits hfits).2 ?_
    simp only [fitsDecimal, Bool.and_eq_true, decide_eq_true_eq] at hfits
    have hf := length_eq_of_lengthU32_le hfits.1 (by omega)
    have hi := length_eq_of_lengthU32_le hfits.2 (by omega)
    exact ⟨by omega, by omega, .inl (UInt32.le_iff_toNat_le.2 hle)⟩
  | integer min max =>
    have h : (lengthU32 d.fraction == 0 && decide (lengthU32 d.integer ≤
      if -2147483648 ≤ min ∧ max ≤ 2147483647 then 9 else 18)) = true := h
    rw [Bool.and_eq_true, beq_iff_eq, decide_eq_true_eq] at h
    obtain ⟨hf, hi⟩ := h
    have hf : d.fraction.length ≤ 0 := length_eq_of_lengthU32_le (Nat.le_of_eq hf) (by decide)
    obtain ⟨n, hn⟩ := (d.isWhole_iff 0).2 hf
    rw [pow_zero, mul_one] at hn
    have hlt := d.abs_value_lt
    rw [hn] at hlt
    have hlt : |n| < 10 ^ d.integer.length := by exact_mod_cast hlt
    refine ⟨n, hn, ?_⟩
    rcases (isRendered_integer ..).1 hr with heq | heq
    · obtain ⟨rfl, rfl⟩ := OperandType.integer.inj heq
      rw [if_pos ⟨le_refl _, le_refl _⟩] at hi
      have hi := length_eq_of_lengthU32_le hi (by decide)
      have hpow : (10 : Int) ^ d.integer.length ≤ 10 ^ 9 := pow_le_pow_right₀ (by norm_num) hi
      have := abs_lt.1 (lt_of_lt_of_le hlt hpow)
      omega
    · obtain ⟨rfl, rfl⟩ := OperandType.integer.inj heq
      rw [if_neg (by norm_num)] at hi
      have hi := length_eq_of_lengthU32_le hi (by decide)
      have hpow : (10 : Int) ^ d.integer.length ≤ 10 ^ 18 := pow_le_pow_right₀ (by norm_num) hi
      have := abs_lt.1 (lt_of_lt_of_le hlt hpow)
      omega
  | _ => cases h

theorem timestamp_member {text : String} {zoned : Bool} {digits : UInt32}
    (hvalid : validTimestamp text.toList zoned)
    (hmicro : rejectSubMicrosecond .postgres text = .ok ())
    (h : fractionDigits text.toList ≤ digits.toNat) :
    (momentOf text.toList).IsTimestamp digits.toNat := by
  have form := validTimestamp_spec hvalid
  have hsix := form.length_fraction_le (by
    rw [String.ofList_toList]
    simpa [rejectSubMicrosecond, failIf_eq_ok] using hmicro)
  have hparts : fractionDigits text.toList = lengthU32 (temporalParts text.toList).2.2 := rfl
  rw [hparts, form.temporalParts_eq] at h
  refine form.isTimestamp ?_
  unfold lengthU32 at h
  dsimp only at h
  omega

/-- A value that fits a rendered type is in it, unless its characters are not held. -/
theorem fits_member {provider : ProviderKind} {v : ParameterValue} {target : OperandType}
    (hr : isRendered provider target) (hform : validateForm .postgres v = .ok ())
    (h : valueFits provider (.of v) target) :
    Member target (meaning target v) ↔ Held target (meaning target v) := by
  cases v with
  | null typeName =>
    rw [meaning_of_none rfl]
    cases target <;> exact iff_of_true trivial trivial
  | bool flag =>
    rw [meaning_of_none rfl]
    cases target with
    | boolean =>
      refine iff_of_true ?_ trivial
      cases flag
      · exact .inl rfl
      · exact .inr rfl
    | integer min max =>
      have hrange : (decide (min ≤ 0) && decide (1 ≤ max)) = true := h
      rw [Bool.and_eq_true, decide_eq_true_eq, decide_eq_true_eq] at hrange
      refine iff_of_true ⟨if flag then 1 else 0, by cases flag <;> simp, ?_⟩ trivial
      cases flag <;> constructor <;> simp <;> omega
    | _ => cases h
  | i32 number =>
    rw [meaning_of_none rfl]
    have hm : Member target (.number number.toInt) := integer_member h
    refine iff_of_true hm ?_
    cases target <;> trivial
  | i64 number =>
    rw [meaning_of_none rfl]
    have hm : Member target (.number number.toInt) := integer_member h
    refine iff_of_true hm ?_
    cases target <;> trivial
  | f64 bits =>
    rw [meaning_of_none rfl]
    cases target with
    | float mantissaBits =>
      cases mantissaBits with
      | double => exact iff_of_true (double_member bits) trivial
      | single => cases h
    | _ => cases h
  | decimal text =>
    obtain ⟨literal, hl, -⟩ := bind_eq_ok.1 hform
    have hparse : parseDecimal .postgres text = .ok (.normalized literal.negative literal.integer
        literal.fraction literal.integer_digits literal.fraction_digits) := by
      unfold parseDecimal
      rw [hl]
      rfl
    generalize ExactDecimal.normalized _ _ _ _ _ = d at hparse
    have hfact : ValueFact.of (.decimal text) = .decimal (decimalDigits text.toList) := rfl
    rw [hfact, decimalDigits_eq hparse] at h
    have htextual : isTextual target = false := by
      cases target with
      | text length padded unit charset => cases h
      | enumeration => cases h
      | _ => rfl
    rw [meaning_of_not_textual htextual, (parseDecimal_spec hparse).2]
    refine iff_of_true (decimal_member hr h) ?_
    cases target <;> trivial
  | string text =>
    cases target with
    | text length padded unit charset => exact member_text hr h
    | uuid => exact iff_of_true h trivial
    | _ => cases h
  | bytes bytes =>
    cases target with
    | binary length padded =>
      have hpadded : (!padded) = true := hr
      rw [Bool.not_eq_true'] at hpadded
      subst hpadded
      have hall : (length.all fun n => decide (bytes.length ≤ n.toNat)) = true := h
      refine iff_of_true ⟨fun n hn => ?_, fun hp => by cases hp⟩ trivial
      rw [Option.mem_def] at hn
      rw [hn, Option.all_some, decide_eq_true_eq] at hall
      exact hall
    | _ => cases h
  | date text =>
    have hdate := failIf_eq_ok.1 hform
    rw [not_not] at hdate
    cases target with
    | date => exact iff_of_true (isDate_of_chronoFreeDate hdate) trivial
    | timestamp digits => exact iff_of_true (member_date (isDate_of_chronoFreeDate hdate) _) trivial
    | _ => cases h
  | timestamp text =>
    obtain ⟨⟨⟩, hvalid, hmicro⟩ := bind_eq_ok.1 hform
    rw [failIf_eq_ok, not_not] at hvalid
    cases target with
    | timestamp digits =>
      have hdigits : decide (fractionDigits text.toList ≤ digits.toNat) = true := h
      have hm := timestamp_member hvalid hmicro (decide_eq_true_eq.mp hdigits)
      exact iff_of_true hm trivial
    | _ => cases h
  | timestampTz text =>
    obtain ⟨⟨⟩, hvalid, hmicro⟩ := bind_eq_ok.1 hform
    rw [failIf_eq_ok, not_not] at hvalid
    cases target with
    | timestampTz digits =>
      have hdigits : decide (fractionDigits text.toList ≤ digits.toNat) = true := h
      have hm := timestamp_member hvalid hmicro (decide_eq_true_eq.mp hdigits)
      exact iff_of_true hm trivial
    | _ => cases h
  | uuid text =>
    have hu := failIf_eq_ok.1 hform
    rw [not_not] at hu
    cases target with
    | uuid => exact iff_of_true hu trivial
    | text length padded unit charset =>
      have hm : Member (.text length padded unit charset) (.text text) := member_uuid hu hr h
      exact iff_of_true hm hm.1
    | _ => cases h
  | json document =>
    cases target with
    | json => exact iff_of_true trivial trivial
    | text length padded unit charset =>
      cases length with
      | none => exact member_text hr rfl
      | some length => cases h
    | _ => cases h
  | enum typeName label =>
    cases target with
    | text length padded unit charset =>
      cases length with
      | none => exact member_text hr rfl
      | some length => cases h
    | enumeration => cases hr
    | _ => cases h
  | wkb bytes srid dimensions semantics => cases target <;> cases h

theorem renderedTarget_uuid (provider : ProviderKind) :
    renderedTarget provider .uuid = .uuid ∨
      renderedTarget provider .uuid = .text (some 36) true .characters .ascii := by
  cases provider <;> first | exact .inl rfl | exact .inr rfl

/-- **A bound value that fits is exact in the rendered type.**  The length of a UUID rendered as
text is all that is judged of a string, which may have characters its type does not keep. -/
theorem valueFits_member (provider : ProviderKind) (parameterType : QueryParameterType)
    (v : ParameterValue) (hform : validateForm .postgres v = .ok ())
    (h : valueFits provider (.of v) (renderedTarget provider parameterType)) :
    Member (renderedTarget provider parameterType)
        (meaning (renderedTarget provider parameterType) v) ↔
      (parameterType = .uuid → ∀ text, v = .string text → ∀ c ∈ text.toList, isAscii c) := by
  rw [fits_member (isRendered_renderedTarget ..) hform h]
  by_cases hne : parameterType ≠ .uuid
  · exact iff_of_true (held_of_keepsAll (keepsAll_renderedTarget _ _ hne) _)
      fun heq => absurd heq hne
  · rw [not_not] at hne
    subst hne
    rcases renderedTarget_uuid provider with htarget | htarget
    · rw [htarget] at h ⊢
      refine iff_of_true trivial fun _ text hv c hc => ?_
      subst hv
      exact decide_eq_true ((all_isAscii_of_uuid h).2 c hc)
    · rw [htarget] at h ⊢
      cases v with
      | string text =>
        constructor
        · intro hheld _ text' heq
          cases heq
          exact hheld
        · intro hascii
          exact hascii rfl text rfl
      | uuid text =>
        have hu := failIf_eq_ok.1 hform
        rw [not_not] at hu
        refine iff_of_true (fun c hc => ?_) fun _ text heq => by cases heq
        exact decide_eq_true ((all_isAscii_of_uuid hu).2 c hc)
      | null typeName => exact iff_of_true trivial fun _ text heq => by cases heq
      | decimal text =>
        have hfact : ValueFact.of (.decimal text) = .decimal (decimalDigits text.toList) := rfl
        rw [hfact] at h
        generalize decimalDigits text.toList = digits at h
        cases digits <;> cases h
      | _ => cases h

/-! ## Columns in rendered types -/

theorem isScaled_of_bounds {precision scale k : Nat} {q : Rat} (hle : scale ≤ precision)
    (hwhole : ∃ n : Int, q * 10 ^ scale = n) (hlt : |q| < 10 ^ k) (hk : k ≤ precision - scale) :
    IsScaled precision scale q := by
  refine isScaled_iff.2 ⟨hwhole, ?_⟩
  calc |q| * 10 ^ scale < 10 ^ k * 10 ^ scale := by
        exact mul_lt_mul_of_pos_right hlt (by positivity)
    _ = 10 ^ (k + scale) := by rw [pow_add]
    _ ≤ 10 ^ precision := pow_le_pow_right₀ (by norm_num) (by omega)

theorem isScaled_widens {precision scale targetPrecision targetScale : UInt32} {q : Rat}
    (h : decimalWidens precision scale targetPrecision targetScale)
    (hle : targetScale.toNat ≤ targetPrecision.toNat)
    (hq : IsScaled precision.toNat scale.toNat q) :
    IsScaled targetPrecision.toNat targetScale.toNat q := by
  unfold decimalWidens at h
  rw [Bool.and_eq_true, decide_eq_true_eq, decide_eq_true_eq, UInt32.le_iff_toNat_le] at h
  obtain ⟨hscale, hdigits⟩ := h
  obtain ⟨⟨n, hn⟩, hlt⟩ := isScaled_iff.1 hq
  refine isScaled_of_bounds hle ⟨n * 10 ^ (targetScale.toNat - scale.toNat), ?_⟩ ?_ hdigits
  · have hpow : (10 : Rat) ^ targetScale.toNat =
        10 ^ scale.toNat * 10 ^ (targetScale.toNat - scale.toNat) := by
      rw [← pow_add, Nat.add_sub_cancel' hscale]
    rw [hpow, ← mul_assoc, hn]
    push_cast
    rfl
  · have hpow : (10 : Rat) ^ precision.toNat ≤
        10 ^ (precision.toNat - scale.toNat) * 10 ^ scale.toNat := by
      rw [← pow_add]
      exact pow_le_pow_right₀ (by norm_num) (by omega)
    exact lt_of_mul_lt_mul_right (lt_of_lt_of_le hlt hpow) (by positivity)

theorem isScaled_of_isRounded {precision rounding : Nat} {targetPrecision targetScale : Nat}
    {q : Rat} (hq : IsRounded precision rounding q) (hle : targetScale ≤ targetPrecision)
    (hdigits : precision + rounding ≤ targetPrecision - targetScale) :
    IsScaled targetPrecision targetScale q := by
  obtain ⟨k, rfl, hk⟩ := hq
  refine isScaled_of_bounds hle ⟨k * 10 ^ rounding * 10 ^ targetScale, by push_cast; rfl⟩ ?_ hdigits
  have hk : |(k : Rat)| < 10 ^ precision := by exact_mod_cast hk
  rw [abs_mul, abs_of_pos (a := (10 : Rat) ^ rounding) (by positivity), pow_add]
  exact mul_lt_mul_of_pos_right hk (by positivity)

theorem isFloat_mono {source target : MantissaBits} (h : source.toNat ≤ target.toNat) {q : Rat}
    (hq : IsFloat source q) : IsFloat target q := by
  obtain ⟨bits, hfin, hrat, hsingle⟩ := hq
  refine ⟨bits, hfin, hrat, fun htarget => hsingle ?_⟩
  subst htarget
  cases source with
  | single => rfl
  | double => exact absurd h (by decide)

theorem isTimestamp_mono {m n : Nat} (h : m ≤ n) {d : Moment} (hd : d.IsTimestamp m) :
    d.IsTimestamp n := by
  obtain ⟨hday, hhour, hminute, hsecond, hfraction, k, hk⟩ := hd
  refine ⟨hday, hhour, hminute, hsecond, hfraction, k * 10 ^ (n - m), ?_⟩
  have hpow : (10 : Rat) ^ n = 10 ^ m * 10 ^ (n - m) := by rw [← pow_add, Nat.add_sub_cancel' h]
  rw [hpow, ← mul_assoc, hk]
  push_cast
  rfl

/-- The numbers of a type with an integer range are the integers of the range. -/
theorem integerRange_spec {source : OperandType} {low high : Int}
    (h : integerRange source = some (low, high)) {d : Denotation} (hd : Member source d) :
    d = .null ∨ ∃ n : Int, d = .number n ∧ low ≤ n ∧ n ≤ high := by
  cases source with
  | boolean =>
    cases h
    cases d with
    | null => exact .inl rfl
    | number q =>
      rcases hd with rfl | rfl
      · exact .inr ⟨0, by simp, by decide⟩
      · exact .inr ⟨1, by simp, by decide⟩
    | _ => cases hd
  | integer min max =>
    cases h
    cases d with
    | null => exact .inl rfl
    | number q =>
      obtain ⟨n, rfl, hn⟩ := hd
      exact .inr ⟨n, rfl, hn⟩
    | _ => cases hd
  | decimal precision scale =>
    unfold integerRange at h
    dsimp only at h
    split at h
    next hscale =>
      obtain ⟨rfl, -⟩ := hscale
      cases h
      cases d with
      | null => exact .inl rfl
      | number q =>
        have hq : IsScaled precision.toNat 0 q := hd
        obtain ⟨n, hn, hlt⟩ := hq
        rw [pow_zero, mul_one] at hn
        have := abs_lt.1 hlt
        exact .inr ⟨n, by rw [hn], by omega, by omega⟩
      | _ => cases hd
    next => cases h
  | _ => cases h

theorem integerDigits_mono {m n : Int} (h : m.natAbs ≤ n.natAbs) :
    integerDigits m ≤ integerDigits n := by
  unfold integerDigits
  rw [numberOfDigits_le_iff]
  exact Nat.lt_of_le_of_lt h (numberOfDigits_le_iff.1 (Nat.le_refl _))

theorem natAbs_le_max {low high n : Int} (hlow : low ≤ n) (hhigh : n ≤ high) :
    n.natAbs ≤ max low.natAbs high.natAbs := by
  omega

theorem range_member {source target : OperandType} {low high : Int} {d : Denotation}
    (hrange : integerRange source = some (low, high)) (hd : Member source d)
    (h : ∀ n : Int, low ≤ n → n ≤ high → Member target (.number n)) : Member target d := by
  rcases integerRange_spec hrange hd with rfl | ⟨n, rfl, hlow, hhigh⟩
  · cases target <;> trivial
  · exact h n hlow hhigh

/-- A text of a column in a rendered text type: the length of the column, in whatever unit it
counts, bounds both the characters and, four to each, the bytes. -/
theorem text_widens {provider : ProviderKind} {length target : Option UInt64}
    {padded targetPadded : Bool} {unit targetUnit : LengthUnit} {charset targetCharset : Charset}
    {name s : String}
    (hr : isRendered provider (.text target targetPadded targetUnit targetCharset))
    (h : widens provider (.text length padded unit charset) name
      (.text target targetPadded targetUnit targetCharset))
    (hs : Member (.text length padded unit charset) (.text s)) :
    Member (.text target targetPadded targetUnit targetCharset) (.text s) ↔
      Held (.text target targetPadded targetUnit targetCharset) (.text s) := by
  refine member_text hr ?_
  cases target with
  | none => rfl
  | some target =>
    have hboth : (!(padded && provider == .postgres) &&
        lengthWidens (lengthBytes provider) length (some target)) = true := h
    have hlimit := (Bool.and_eq_true_iff.1 hboth).2
    have htarget := ((isRendered_text ..).1 hr).2.2
    rw [Option.all_some, decide_eq_true_eq, UInt64.le_iff_toNat_le] at htarget
    have htarget : target.toNat ≤ 1048576 := htarget
    cases length with
    | none => cases hlimit
    | some length =>
      have hlimit : decide (lengthBytes provider length ≤ target.toNat) = true := hlimit
      rw [decide_eq_true_eq] at hlimit
      have hlength : textLength s unit charset ≤ length.toNat := hs.2 length rfl
      have hchars := length_le_textLength s unit charset
      have hbytes := utf8ByteSize_le s unit charset
      unfold lengthBytes at hlimit
      unfold within
      rw [Option.all_some]
      split at hlimit
      next hunit =>
        rw [if_pos hunit, decide_eq_true_eq]
        omega
      next hunit =>
        rw [if_neg hunit, decide_eq_true_eq]
        omega

/-- A value of a column whose type widens is in the rendered type, unless its characters are not
held. -/
theorem column_member {provider : ProviderKind} {source target : OperandType} {name : String}
    {d : Denotation} (hr : isRendered provider target) (h : widens provider source name target)
    (hd : Member source d) : Member target d ↔ Held target d := by
  have hnull : Member target .null := by cases target <;> trivial
  cases target with
  | boolean =>
    cases source with
    | boolean => exact iff_of_true hd (held_of_keepsAll rfl d)
    | _ => cases h
  | integer min max =>
    have hany : ((integerRange source).any fun r => decide (min ≤ r.1) && decide (r.2 ≤ max)) =
        true := by
      cases source <;> exact h
    obtain ⟨⟨low, high⟩, hrange, hwithin⟩ := (Option.any_eq_true ..).1 hany
    rw [Bool.and_eq_true, decide_eq_true_eq, decide_eq_true_eq] at hwithin
    refine iff_of_true (range_member hrange hd fun n hlow hhigh => ?_) (held_of_keepsAll rfl d)
    exact ⟨n, rfl, hwithin.1.trans hlow, hhigh.trans hwithin.2⟩
  | float mantissaBits =>
    refine iff_of_true ?_ (held_of_keepsAll rfl d)
    cases source with
    | float bits =>
      have hle : bits.toNat ≤ mantissaBits.toNat := of_decide_eq_true h
      cases d with
      | null | negativeZero | notFinite bits => trivial
      | number q => exact isFloat_mono hle hd
      | _ => cases hd
    | scaledFloat bits precision scale =>
      have hle : bits.toNat ≤ mantissaBits.toNat := of_decide_eq_true h
      cases d with
      | null | negativeZero => trivial
      | number q => exact isFloat_mono hle hd.1
      | _ => cases hd
    | integer low high =>
      have hfit : max low.natAbs high.natAbs ≤ 2 ^ mantissaBits.toNat := of_decide_eq_true h
      refine range_member rfl hd fun n hlow hhigh => ?_
      have hfits : valueFits provider (.integer n) (.float mantissaBits) = true :=
        decide_eq_true ((natAbs_le_max hlow hhigh).trans hfit)
      exact integer_member hfits
    | _ => cases h
  | decimal precision scale =>
    obtain ⟨hle, -⟩ := (isRendered_decimal ..).1 hr
    refine iff_of_true ?_ (held_of_keepsAll rfl d)
    cases source with
    | integer low high =>
      have hdigits : integerDigits (max |low| |high|) ≤ precision.toNat - scale.toNat :=
        of_decide_eq_true h
      refine range_member rfl hd fun n hlow hhigh => isScaled_of_digits ?_
      refine (integerDigits_mono ?_).trans hdigits
      have habs := (abs_le_max_abs_abs hlow hhigh).trans (le_abs_self _)
      rwa [← Int.natCast_natAbs, ← Int.natCast_natAbs (max |low| |high|), Int.ofNat_le] at habs
    | boolean =>
      have hdigits : integerDigits 1 ≤ precision.toNat - scale.toNat := of_decide_eq_true h
      refine range_member rfl hd fun n hlow hhigh => isScaled_of_digits ?_
      refine (integerDigits_mono ?_).trans hdigits
      omega
    | decimal sourcePrecision sourceScale =>
      cases d with
      | null => exact hnull
      | number q => exact isScaled_widens h hle hd
      | _ => cases hd
    | roundedDecimal sourcePrecision rounding =>
      have hdigits : min (sourcePrecision.toNat + rounding.toNat) (2 ^ 32 - 1) ≤
          precision.toNat - scale.toNat := of_decide_eq_true h
      have hp := ((isRendered_decimal ..).1 hr).2
      cases d with
      | null => exact hnull
      | number q => exact isScaled_of_isRounded hd hle (by omega)
      | _ => cases hd
    | _ => cases h
  | text length padded unit charset =>
    cases source with
    | text sourceLength sourcePadded sourceUnit sourceCharset =>
      cases d with
      | null => exact iff_of_true trivial trivial
      | text s => exact text_widens hr h hd
      | _ => cases hd
    | enumeration =>
      cases length with
      | none =>
        cases d with
        | null => exact iff_of_true trivial trivial
        | text s => exact member_text hr rfl
        | _ => cases hd
      | some length => cases h
    | _ => cases h
  | binary length padded =>
    have hpadded : (!padded) = true := hr
    rw [Bool.not_eq_true'] at hpadded
    subst hpadded
    refine iff_of_true ?_ (held_of_keepsAll rfl d)
    cases source with
    | binary sourceLength sourcePadded =>
      have hlength : lengthWidens UInt64.toNat sourceLength length = true := h
      cases d with
      | null => exact hnull
      | bytes b =>
        refine ⟨fun n hn => ?_, fun hp => by cases hp⟩
        obtain ⟨hb, -⟩ := hd
        rw [Option.mem_def] at hn
        subst hn
        cases sourceLength with
        | none => cases hlength
        | some m => exact (hb m rfl).trans (of_decide_eq_true hlength)
      | _ => cases hd
    | _ => cases h
  | date =>
    cases source with
    | date => exact iff_of_true hd (held_of_keepsAll rfl d)
    | _ => cases h
  | timestamp digits =>
    refine iff_of_true ?_ (held_of_keepsAll rfl d)
    cases source with
    | date =>
      cases d with
      | null => exact hnull
      | moment m => exact member_date hd _
      | _ => cases hd
    | timestamp sourceDigits =>
      have hle : sourceDigits ≤ digits := of_decide_eq_true h
      cases d with
      | null => exact hnull
      | moment m => exact isTimestamp_mono (UInt32.le_iff_toNat_le.1 hle) hd
      | _ => cases hd
    | _ => cases h
  | timestampTz digits =>
    refine iff_of_true ?_ (held_of_keepsAll rfl d)
    cases source with
    | timestampTz sourceDigits =>
      have hboth : (provider != .oracle && decide (sourceDigits ≤ digits)) = true := h
      rw [Bool.and_eq_true, decide_eq_true_eq] at hboth
      cases d with
      | null => exact hnull
      | zoned m offset => exact isTimestamp_mono (UInt32.le_iff_toNat_le.1 hboth.2) hd
      | _ => cases hd
    | _ => cases h
  | uuid =>
    cases source with
    | uuid => exact iff_of_true hd (held_of_keepsAll rfl d)
    | _ => cases h
  | json =>
    cases source with
    | json => exact iff_of_true hd (held_of_keepsAll rfl d)
    | _ => cases h
  | unknown => cases source <;> cases h
  | _ => cases hr

/-- **Every value of a column that widens is exact in the rendered type**; the characters of a
text rendered as a UUID are not judged. -/
theorem widens_member (provider : ProviderKind) (parameterType : QueryParameterType)
    (source : OperandType) (name : String) (d : Denotation)
    (h : widens provider source name (renderedTarget provider parameterType))
    (hd : Member source d) :
    Member (renderedTarget provider parameterType) d ↔
      (parameterType = .uuid → ∀ text, d = .text text → ∀ c ∈ text.toList, isAscii c) := by
  rw [column_member (isRendered_renderedTarget ..) h hd]
  by_cases hne : parameterType ≠ .uuid
  · exact iff_of_true (held_of_keepsAll (keepsAll_renderedTarget _ _ hne) _)
      fun heq => absurd heq hne
  · rw [not_not] at hne
    subst hne
    rcases renderedTarget_uuid provider with htarget | htarget
    · rw [htarget] at h ⊢
      cases source with
      | uuid =>
        refine iff_of_true (held_of_keepsAll rfl d) fun _ text hv c hc => ?_
        subst hv
        exact decide_eq_true ((all_isAscii_of_uuid hd).2 c hc)
      | _ => cases h
    · rw [htarget]
      constructor
      · intro hheld _ text heq
        subst heq
        exact hheld
      · intro hascii
        cases d with
        | text s => exact hascii rfl s rfl
        | _ => trivial

theorem valueFits_member_decimal :
    Member (.decimal 38 10) (meaning (.decimal 38 10) (.decimal "0.12345")) :=
  (valueFits_member .oracle .decimal (.decimal "0.12345")
    (fiveDigits_text ▸ validateForm_decimal_text .postgres fiveDigits) (by decide)).2
    fun h => by cases h

theorem widens_member_decimal : Member (.decimal 38 10) (.number 7) :=
  (widens_member .postgres .decimal (.decimal 12 2) "numeric" (.number 7) (by decide)
    (show IsScaled 12 2 7 from ⟨700, by norm_num, by norm_num⟩)).2 fun h => by cases h

end Plenora.Core.CastTable
