import Plenora.Engine.RuntimeBinding

/-!
# The grammar of the reserved keys

Each recogniser accepts the texts of its regular expression, and a deadline is a text of RFC 3339
in UTC.

    wellFormedContract text ↔ text ∈ contractPattern.matches'            (wellFormedContract_iff)
    utcDeadline parse text ↔ text ∈ utcTexts                                    (utcDeadline_iff)
-/

namespace Plenora.Engine.RuntimeBinding

open Plenora.Lib Plenora.Lib.Utf8 Plenora.Lib.Patterns RegularExpression
open Plenora.Lib.Rfc3339 (Text Parsed Stamp Zone)

/-! ## Patterns -/

def lowercase : List Char := between 'a' 'z'

def digits : List Char := between '0' '9'

def nameCharacters : List Char := lowercase ++ digits ++ ['-']

def tokenCharacters : List Char :=
  lowercase ++ between 'A' 'Z' ++ digits ++ "!#$&^_.+-".toList

def hexDigits : List Char := digits ++ between 'a' 'f'

/-- `[1-9][0-9]*` -/
def versionPattern : Pattern := oneOf (between '1' '9') * (oneOf digits).star

/-- `[a-z][a-z0-9_-]*` -/
def segmentPattern : Pattern := oneOf lowercase * (oneOf (lowercase ++ digits ++ ['_', '-'])).star

/-- `[a-z][a-z0-9_-]*(\.[a-z][a-z0-9_-]*)+` -/
def operationPattern : Pattern := joined segmentPattern '.'

/-- `plenora\.[a-z][a-z0-9-]*-tools` -/
def capabilityNamePattern : Pattern :=
  word "plenora.".toList * (oneOf lowercase * ((oneOf nameCharacters).star * word "-tools".toList))

/-- `plenora-[a-z0-9-]+-v[1-9][0-9]*` -/
def contractPattern : Pattern :=
  word "plenora-".toList * (oneOrMore (oneOf nameCharacters) * (word "-v".toList * versionPattern))

/-- `[A-Za-z0-9!#$&^_.+-]+/[A-Za-z0-9!#$&^_.+-]+` -/
def mediaTypePattern : Pattern :=
  oneOrMore (oneOf tokenCharacters) * (char '/' * oneOrMore (oneOf tokenCharacters))

/-- Five groups of hexadecimal digits, of 8, 4, 4, 4 and 12, with hyphens. -/
def uuidPattern : Pattern :=
  oneOf hexDigits ^ 8 * (char '-' * (oneOf hexDigits ^ 4 * (char '-' * (oneOf hexDigits ^ 4 *
    (char '-' * (oneOf hexDigits ^ 4 * (char '-' * oneOf hexDigits ^ 12)))))))

/-! ## Classes of characters -/

theorem mem_lowercase {c : Char} : c ∈ lowercase ↔ isAsciiLowercase c = true := by
  rw [lowercase, mem_between (by decide)]
  simp [isAsciiLowercase]

theorem mem_digits {c : Char} : c ∈ digits ↔ isAsciiDigit c = true := by
  rw [digits, mem_between (by decide)]
  simp [isAsciiDigit]

theorem mem_nameCharacters {c : Char} : c ∈ nameCharacters ↔ isNameCharacter c = true := by
  simp only [nameCharacters, List.mem_append, mem_lowercase, mem_digits, List.mem_singleton,
    isNameCharacter, Bool.or_eq_true, decide_eq_true_eq]

theorem mem_tokenCharacters {c : Char} :
    c ∈ tokenCharacters ↔
      (isAsciiAlphanumeric c || "!#$&^_.+-".toList.contains c) = true := by
  simp only [tokenCharacters, List.mem_append, mem_lowercase, mem_digits,
    mem_between (show ('Z' : Char).toNat < 0xD800 by decide), isAsciiAlphanumeric, Bool.or_eq_true,
    Bool.and_eq_true, decide_eq_true_eq, List.contains_iff_mem]

theorem tests_digit : Tests Utf8.isAsciiDigit isAsciiDigit :=
  @tests_range '0' '9' (by decide) (by decide)

/-- All bytes pass a test if all characters do. -/
theorem all_utf8 {p : UInt8 → Bool} {q : Char → Bool} (h : Tests p q) (text : Text) :
    (utf8 text).all p = text.all q := by
  induction text with
  | nil => rfl
  | cons c text ih =>
    rw [utf8_cons, List.all_append, List.all_cons, ih]
    by_cases hc : c.toNat < 128
    · rw [encode_ascii hc, List.all_cons, List.all_nil, Bool.and_true, h.ascii_eq c hc]
    · obtain ⟨b, rest, henc, hb⟩ := encode_wide (Nat.not_lt.1 hc)
      rw [henc, List.all_cons, h.byte b hb, h.char c (Nat.not_lt.1 hc)]
      rfl

/-! ## Recognisers -/

theorem canonicalVersion_iff (value : Text) :
    canonicalVersion value = true ↔ value ∈ versionPattern.matches' := by
  unfold canonicalVersion
  rw [all_utf8 tests_digit, versionPattern, mem_oneOf_mul]
  simp only [Bool.and_eq_true, decide_eq_true_eq, mem_star_oneOf, mem_digits, List.all_eq_true]
  constructor
  · rintro ⟨⟨hne, hall⟩, hzero⟩
    obtain ⟨c, rest, rfl⟩ := List.exists_cons_of_ne_nil hne
    obtain ⟨hc, hrest⟩ := List.forall_mem_cons.1 hall
    refine ⟨c, rest, rfl, ?_, hrest⟩
    rw [mem_between (by decide)]
    simp only [isAsciiDigit, Bool.and_eq_true, decide_eq_true_eq] at hc
    refine ⟨?_, hc.2⟩
    have hne : c ≠ '0' := fun heq => hzero (congrArg some heq)
    have hlt : '0' < c := lt_of_le_of_ne hc.1 (Ne.symm hne)
    exact hlt
  · rintro ⟨c, rest, rfl, hc, hrest⟩
    rw [mem_between (by decide)] at hc
    have hdigit : isAsciiDigit c = true := by
      simp only [isAsciiDigit, Bool.and_eq_true, decide_eq_true_eq]
      exact ⟨le_trans (by decide) hc.1, hc.2⟩
    refine ⟨⟨List.cons_ne_nil _ _, List.forall_mem_cons.2 ⟨hdigit, hrest⟩⟩, ?_⟩
    rintro heq
    rw [Option.some.inj heq] at hc
    exact absurd hc.1 (by decide)

theorem identifierSegment_iff (value : Text) :
    identifierSegment value = true ↔ value ∈ segmentPattern.matches' := by
  rw [segmentPattern, mem_oneOf_mul]
  simp only [mem_star_oneOf, List.mem_append, mem_lowercase, mem_digits, List.mem_cons,
    List.not_mem_nil, or_false]
  cases value with
  | nil => exact iff_of_false (by simp [identifierSegment]) (by simp)
  | cons first rest =>
    simp only [identifierSegment, Bool.and_eq_true, List.all_eq_true, Bool.or_eq_true,
      decide_eq_true_eq, or_assoc]
    constructor
    · exact fun h => ⟨first, rest, rfl, h⟩
    · rintro ⟨c, more, heq, h⟩
      cases heq
      exact h

theorem wellFormedOperation_iff (value : Text) :
    wellFormedOperation value = true ↔ value ∈ operationPattern.matches' := by
  have hmark : ∀ text ∈ segmentPattern.matches', '.' ∉ text := by
    intro text htext hmem
    rw [segmentPattern, mem_oneOf_mul] at htext
    obtain ⟨c, rest, rfl, hc, hrest⟩ := htext
    rw [mem_star_oneOf] at hrest
    rcases List.mem_cons.1 hmem with rfl | hmem
    · exact absurd (mem_lowercase.1 hc) (by decide)
    · have hclass := hrest _ hmem
      simp only [List.mem_append, mem_lowercase, mem_digits] at hclass
      exact absurd hclass (by decide)
  rw [operationPattern, mem_joined hmark]
  unfold wellFormedOperation
  split
  next hnil => exact iff_of_false (by simp) (by simp [hnil])
  next first rest hsplit =>
    rw [hsplit]
    simp only [Bool.and_eq_true, List.all_eq_true, decide_eq_true_eq, identifierSegment_iff]
    constructor
    · rintro ⟨⟨hfirst, hrest⟩, hlength⟩
      exact ⟨first, rest, rfl, List.length_pos_iff.1 hlength,
        List.forall_mem_cons.2 ⟨hfirst, hrest⟩⟩
    · rintro ⟨a, others, heq, hne, hall⟩
      cases heq
      obtain ⟨hfirst, hrest⟩ := List.forall_mem_cons.1 hall
      exact ⟨⟨hfirst, hrest⟩, List.length_pos_iff.2 hne⟩

theorem wellFormedCapabilityName_iff (value : Text) :
    wellFormedCapabilityName value = true ↔ value ∈ capabilityNamePattern.matches' := by
  unfold wellFormedCapabilityName
  rw [capabilityNamePattern, mem_word_mul, Option.any_eq_true]
  simp only [mem_oneOf_mul]
  simp only [Option.bind_eq_some_iff, stripPrefix_iff, stripSuffix_iff, mem_mul, mem_word,
    mem_star_oneOf, Bool.and_eq_true, List.all_eq_true, mem_lowercase, mem_nameCharacters]
  constructor
  · rintro ⟨middle, ⟨rest, rfl, rfl⟩, hfirst, hmore⟩
    cases middle with
    | nil => exact absurd hfirst (by simp)
    | cons c more =>
      exact ⟨_, ⟨c, _, rfl, hfirst, more, hmore, _, rfl, rfl⟩, rfl⟩
  · rintro ⟨rest, ⟨c, tail, rfl, hc, more, hmore, stop, rfl, rfl⟩, rfl⟩
    exact ⟨c :: more, ⟨_, rfl, rfl⟩, hc, hmore⟩

theorem wellFormedContract_iff (value : Text) :
    wellFormedContract value = true ↔ value ∈ contractPattern.matches' := by
  unfold wellFormedContract
  rw [contractPattern, mem_word_mul, Option.any_eq_true]
  simp only [Option.bind_eq_some_iff, stripPrefix_iff, mem_mul, mem_oneOrMore_oneOf, mem_word,
    Bool.and_eq_true, List.all_eq_true, mem_nameCharacters, canonicalVersion_iff,
    decide_eq_true_eq]
  constructor
  · rintro ⟨⟨name, version⟩, ⟨rest, rfl, hsplit⟩, ⟨hne, hname⟩, hversion⟩
    refine ⟨rest, ⟨name, ⟨hne, hname⟩, "-v".toList ++ version, ?_, ?_⟩, rfl⟩
    · exact ⟨_, rfl, version, hversion, rfl⟩
    · exact (rsplitOnce_sound hsplit).symm
  · rintro ⟨rest, ⟨name, ⟨hne, hname⟩, tail, ⟨sep, rfl, version, hversion, rfl⟩, rfl⟩, rfl⟩
    have hdash : '-' ∉ version := by
      intro hmem
      rw [versionPattern, mem_oneOf_mul] at hversion
      obtain ⟨c, more, rfl, hc, hmore⟩ := hversion
      rw [mem_between (by decide)] at hc
      rw [mem_star_oneOf] at hmore
      rcases List.mem_cons.1 hmem with rfl | hmem
      · exact absurd hc.1 (by decide)
      · exact absurd (mem_digits.1 (hmore _ hmem)) (by decide)
    exact ⟨(name, version), ⟨_, rfl, rsplitOnce_last (by decide) hdash name⟩, ⟨hne, hname⟩, hversion⟩

theorem token_iff (part : Text) :
    token part = true ↔ part ∈ (oneOrMore (oneOf tokenCharacters)).matches' := by
  unfold token
  simp only [mem_oneOrMore_oneOf, Bool.and_eq_true, List.all_eq_true, mem_tokenCharacters,
    decide_eq_true_eq]

theorem wellFormedMediaType_iff (value : Text) :
    wellFormedMediaType value = true ↔ value ∈ mediaTypePattern.matches' := by
  unfold wellFormedMediaType
  rw [mediaTypePattern, mem_mul, Option.any_eq_true]
  simp only [Bool.and_eq_true, token_iff, mem_char_mul]
  constructor
  · rintro ⟨⟨kind, subtype⟩, hsplit, hkind, hsubtype⟩
    exact ⟨kind, hkind, '/' :: subtype, ⟨subtype, hsubtype, rfl⟩, (splitOnce_iff.1 hsplit).1.symm⟩
  · rintro ⟨kind, hkind, tail, ⟨subtype, hsubtype, rfl⟩, rfl⟩
    refine ⟨(kind, subtype), splitOnce_iff.2 ⟨rfl, fun hmem => ?_⟩, hkind, hsubtype⟩
    have hclass := mem_tokenCharacters.1 ((mem_oneOrMore_oneOf.1 hkind).2 _ hmem)
    exact absurd hclass (by decide)

/-! ## Identities -/

/-- The classes of an identity, by place. -/
def uuidClasses : List (List Char) :=
  List.replicate 8 hexDigits ++ (['-'] :: (List.replicate 4 hexDigits ++ (['-'] ::
    (List.replicate 4 hexDigits ++ (['-'] :: (List.replicate 4 hexDigits ++ (['-'] ::
      List.replicate 12 hexDigits)))))))

theorem matches_word_singleton (c : Char) : (char c).matches' = (oneOf [c]).matches' := by
  ext text
  rw [mem_oneOf, matches'_char]
  simp only [List.mem_singleton, exists_eq_left]
  exact Iff.rfl

theorem mem_prod_oneOf {classes : List (List Char)} {text : Text} :
    text ∈ (classes.map fun cs => (oneOf cs).matches').prod ↔
      List.Forall₂ (fun c cs => c ∈ cs) text classes := by
  induction classes generalizing text with
  | nil =>
    rw [List.map_nil, List.prod_nil, Language.mem_one, List.forall₂_nil_right_iff]
  | cons cs classes ih =>
    rw [List.map_cons, List.prod_cons, Language.mem_mul, List.forall₂_cons_right_iff]
    constructor
    · rintro ⟨a, ha, b, hb, rfl⟩
      obtain ⟨c, hc, rfl⟩ := mem_oneOf.1 ha
      exact ⟨c, b, hc, ih.1 hb, rfl⟩
    · rintro ⟨c, b, hc, hb, rfl⟩
      exact ⟨[c], mem_oneOf.2 ⟨c, hc, rfl⟩, b, ih.2 hb, rfl⟩

theorem mem_uuidPattern {text : Text} :
    text ∈ uuidPattern.matches' ↔ List.Forall₂ (fun c cs => c ∈ cs) text uuidClasses := by
  rw [← mem_prod_oneOf]
  simp only [uuidPattern, uuidClasses, matches'_mul, matches'_pow, matches_word_singleton,
    List.map_append, List.map_cons, List.map_replicate, List.prod_append, List.prod_cons,
    List.prod_replicate]

/-- The class of a place. -/
def classAt (index : Nat) : List Char := if index ∈ [8, 13, 18, 23] then ['-'] else hexDigits

theorem uuidClasses_eq : uuidClasses = (List.range 36).map classAt := rfl

theorem tests_uuidByte (index : Nat) :
    Tests (uuidByte index) fun c => decide (c ∈ classAt index) := by
  by_cases hindex : index ∈ [8, 13, 18, 23]
  · have hbyte : uuidByte index = fun b => decide (b = ascii '-') := by
      funext b
      rw [uuidByte, if_pos hindex]
    have hclass : (fun c => decide (c ∈ classAt index)) = fun c => decide (c = '-') := by
      funext c
      rw [classAt, if_pos hindex]
      simp
    rw [hbyte, hclass]
    exact tests_eq (by decide)
  · have hbyte : uuidByte index =
        fun b => Utf8.isAsciiDigit b || (ascii 'a' ≤ b && b ≤ ascii 'f') := by
      funext b
      rw [uuidByte, if_neg hindex]
    have hclass : (fun c => decide (c ∈ classAt index)) =
        fun c => isAsciiDigit c || ('a' ≤ c && c ≤ 'f') := by
      funext c
      rw [classAt, if_neg hindex, hexDigits, Bool.eq_iff_iff]
      simp only [decide_eq_true_eq, List.mem_append, mem_digits, mem_between
        (show ('f' : Char).toNat < 0xD800 by decide), Bool.or_eq_true, Bool.and_eq_true]
    rw [hbyte, hclass]
    exact tests_digit.or (tests_range (by decide) (by decide))

theorem utf8_of_ascii {text : Text} (h : ∀ c ∈ text, c.toNat < 128) :
    utf8 text = text.map ascii := by
  induction text with
  | nil => rfl
  | cons c text ih =>
    obtain ⟨hc, htext⟩ := List.forall_mem_cons.1 h
    rw [utf8_cons, encode_ascii hc, ih htext]
    rfl

/-- Bytes of ASCII are those of characters of ASCII. -/
theorem ascii_of_bytes {text : Text} (h : ∀ b ∈ utf8 text, ¬ (0x80 : UInt8) ≤ b) :
    ∀ c ∈ text, c.toNat < 128 := by
  intro c hc
  by_contra hwide
  obtain ⟨b, rest, henc, hb⟩ := encode_wide (Nat.not_lt.1 hwide)
  refine h b (List.mem_flatMap.2 ⟨c, hc, ?_⟩) hb
  rw [henc]
  exact List.mem_cons_self

theorem forall_zipIdx {l : List UInt8} {p : Nat → UInt8 → Bool} :
    (l.zipIdx.all fun entry => p entry.2 entry.1) = true ↔
      ∀ i (h : i < l.length), p i l[i] = true := by
  rw [List.all_eq_true]
  constructor
  · intro h i hi
    exact h (l[i], i) (List.mem_zipIdx_iff_getElem?.2 (List.getElem?_eq_getElem hi))
  · rintro h ⟨b, i⟩ hmem
    obtain ⟨hi, hb⟩ := List.getElem?_eq_some_iff.1 (List.mem_zipIdx_iff_getElem?.1 hmem)
    have hbyte := h i hi
    dsimp only at hb
    rwa [hb] at hbyte

theorem canonicalUuid_iff (value : Text) :
    canonicalUuid value = true ↔ value ∈ uuidPattern.matches' := by
  rw [mem_uuidPattern, uuidClasses_eq, List.forall₂_iff_get]
  unfold canonicalUuid
  rw [Bool.and_eq_true, decide_eq_true_eq, forall_zipIdx]
  have hcount : ((List.range 36).map classAt).length = 36 := by simp
  constructor
  · rintro ⟨hlength, hbytes⟩
    have hascii : ∀ c ∈ value, c.toNat < 128 := by
      refine ascii_of_bytes fun b hb hwide => ?_
      obtain ⟨i, hi, rfl⟩ := List.getElem_of_mem hb
      exact absurd (hbytes i hi) (by rw [(tests_uuidByte i).byte _ hwide]; decide)
    have hutf8 := utf8_of_ascii hascii
    rw [hutf8, List.length_map] at hlength
    refine ⟨by rw [hlength, hcount], fun i h₁ h₂ => ?_⟩
    have hbyte := hbytes i (by rw [hutf8, List.length_map]; exact h₁)
    simp only [hutf8, List.getElem_map] at hbyte
    rw [(tests_uuidByte i).ascii_eq _ (hascii _ (List.getElem_mem h₁)), decide_eq_true_eq] at hbyte
    simpa using hbyte
  · rintro ⟨hlength, hclasses⟩
    rw [hcount] at hlength
    have hclass (i : Nat) (h : i < value.length) : value[i] ∈ classAt i := by
      have := hclasses i h (by rw [hcount, ← hlength]; exact h)
      simpa using this
    have hascii : ∀ c ∈ value, c.toNat < 128 := by
      intro c hc
      obtain ⟨i, hi, rfl⟩ := List.getElem_of_mem hc
      by_contra hwide
      have hfalse := (tests_uuidByte i).char _ (Nat.not_lt.1 hwide)
      exact absurd (hclass i hi) (of_decide_eq_false hfalse)
    have hutf8 := utf8_of_ascii hascii
    refine ⟨by rw [hutf8, List.length_map, hlength], fun i hi => ?_⟩
    have hi' : i < value.length := by rwa [hutf8, List.length_map] at hi
    simp only [hutf8, List.getElem_map]
    rw [(tests_uuidByte i).ascii_eq _ (hascii _ (List.getElem_mem hi')), decide_eq_true_eq]
    exact hclass i hi'

/-! ## Deadlines -/

/-- What is relied on of the parser: where a `T` stands at the eleventh byte, it reads the texts
of RFC 3339. -/
structure ReadsRfc3339 (parse : Text → Option Parsed) : Prop where
  reads : ∀ s : Stamp, s.WellFormed → parse s.text = some s.value
  only : ∀ text p, parse text = some p →
    ((utf8 text)[10]? = some (ascii 'T') ∨ (utf8 text)[10]? = some (ascii 't')) →
      ∃ s : Stamp, s.WellFormed ∧ s.text = text

/-- In UTC: `Z`, `z` or `+00:00`. -/
def IsUtc (s : Stamp) : Prop :=
  (∃ letter, s.zone = .utc letter) ∨ s.zone = .offset '+' "00".toList "00".toList

/-- The spellings of UTC. -/
def utcTexts : Language Char := {text | ∃ s : Stamp, s.WellFormed ∧ IsUtc s ∧ s.text = text}

theorem byte_mark {s : Stamp} (h : s.WellFormed) : (utf8 s.text)[10]? = some (ascii s.mark) := by
  obtain ⟨⟨hyear, hmonth, hday⟩, -, hmark, -⟩ := h
  have hdigit {text : Text} {n : Nat} (h : Rfc3339.Digits text n) : ∀ c ∈ text, c.toNat < 128 := by
    intro c hc
    have hle := h.2 c hc
    simp only [Char.isDigit, Bool.and_eq_true, decide_eq_true_eq] at hle
    have := UInt32.le_iff_toNat_le.1 hle.2
    exact Nat.lt_of_le_of_lt this (by decide)
  have htext : s.text = (s.year ++ '-' :: (s.month ++ '-' :: s.day)) ++ s.mark :: (s.hour ++
      ':' :: (s.minute ++ ':' :: (s.second ++ (Rfc3339.fractionText s.fraction ++
        s.zone.text)))) := by
    simp [Stamp.text]
  have hascii : ∀ c ∈ s.year ++ '-' :: (s.month ++ '-' :: s.day), c.toNat < 128 := by
    simp only [List.mem_append, List.mem_cons]
    rintro c (hc | rfl | hc | rfl | hc)
    · exact hdigit hyear c hc
    · decide
    · exact hdigit hmonth c hc
    · decide
    · exact hdigit hday c hc
  have hlength : (utf8 (s.year ++ '-' :: (s.month ++ '-' :: s.day))).length = 10 := by
    rw [length_utf8_of_ascii hascii]
    simp [hyear.1, hmonth.1, hday.1]
  have hencode : String.utf8EncodeChar s.mark = [ascii s.mark] := by
    refine encode_ascii ?_
    rcases hmark with heq | heq <;> rw [heq] <;> decide
  rw [htext, utf8_append, utf8_cons, hencode, List.getElem?_append_right (by omega), hlength]
  rfl

theorem value_zero {text : Text} (h : Rfc3339.Digits text 2) (hzero : Decimal.value text = 0) :
    text = "00".toList := by
  obtain ⟨a, b, rfl⟩ := List.length_eq_two.1 h.1
  have ha : a.isDigit = true := h.2 a (by simp)
  have hb : b.isDigit = true := h.2 b (by simp)
  have hzeros {c : Char} (hc : c.isDigit = true) (hval : c.toNat - 48 = 0) : c = '0' := by
    have hle := (Decimal.isDigit_bounds hc).1
    exact Char.toNat_inj.1 (show c.toNat = 48 by omega)
  rw [Decimal.value_cons, Decimal.value_cons, Decimal.value_nil] at hzero
  have hfirst : a.toNat - 48 = 0 := by
    have := Nat.eq_zero_of_add_eq_zero_right hzero
    simpa using this
  have hsecond : b.toNat - 48 = 0 := by
    have := Nat.eq_zero_of_add_eq_zero_left hzero
    simpa using this
  rw [hzeros ha hfirst, hzeros hb hsecond]
  rfl

/-- An offset of zero is UTC, unless it is negative. -/
theorem offset_zero {s : Stamp} (h : s.WellFormed) :
    (s.value.offset = 0 ∧ ¬ "-00:00".toList <:+ s.text) ↔ IsUtc s := by
  obtain ⟨-, -, -, -, -, -, hzone⟩ := h
  have hsuffix : s.zone.text <:+ s.text := by
    unfold Stamp.text
    simp only [← List.cons_append, ← List.append_assoc]
    exact List.suffix_append _ _
  show (s.zone.seconds = 0 ∧ _) ↔ (∃ letter, s.zone = .utc letter) ∨ _
  cases hz : s.zone with
  | utc letter =>
    refine iff_of_true ⟨rfl, fun hends => ?_⟩ (.inl ⟨letter, rfl⟩)
    rw [hz] at hsuffix hzone
    have hletter : [letter] <:+ "-00:00".toList :=
      List.suffix_of_suffix_length_le hsuffix hends (by simp)
    rcases hzone with rfl | rfl <;> exact absurd hletter (by decide)
  | offset sign hour minute =>
    rw [hz] at hsuffix hzone
    obtain ⟨hsign, hhour, -, hminute, -⟩ := hzone
    have hends : "-00:00".toList <:+ s.text ↔
        sign = '-' ∧ hour = "00".toList ∧ minute = "00".toList := by
      have hlength : (Zone.offset sign hour minute).text.length = 6 := by
        simp [Zone.text, hhour.1, hminute.1]
      constructor
      · intro hends
        have hsame : "-00:00".toList <:+ (Zone.offset sign hour minute).text :=
          List.suffix_of_suffix_length_le hends hsuffix (by rw [hlength]; decide)
        have heq := hsame.eq_of_length (by rw [hlength]; decide)
        obtain ⟨a, b, rfl⟩ := List.length_eq_two.1 hhour.1
        obtain ⟨c, d, rfl⟩ := List.length_eq_two.1 hminute.1
        simp [Zone.text] at heq
        obtain ⟨rfl, rfl, rfl, rfl, rfl⟩ := heq
        exact ⟨rfl, rfl, rfl⟩
      · rintro ⟨rfl, rfl, rfl⟩
        exact hsuffix
    have hzero : (Zone.offset sign hour minute).seconds = 0 ↔
        hour = "00".toList ∧ minute = "00".toList := by
      constructor
      · intro hseconds
        have hsum : Decimal.value hour * 3600 + Decimal.value minute * 60 = 0 := by
          simp only [Zone.seconds] at hseconds
          split at hseconds <;> omega
        exact ⟨value_zero hhour (by omega), value_zero hminute (by omega)⟩
      · rintro ⟨rfl, rfl⟩
        have hvalue : Decimal.value "00".toList = 0 := by decide
        simp only [Zone.seconds]
        rw [hvalue]
        simp
    rw [hzero, hends]
    simp only [Zone.offset.injEq, reduceCtorEq, exists_false, false_or]
    constructor
    · rintro ⟨⟨hh, hm⟩, hnot⟩
      exact ⟨hsign.resolve_right fun hminus => hnot ⟨hminus, hh, hm⟩, hh, hm⟩
    · rintro ⟨rfl, hh, hm⟩
      exact ⟨⟨hh, hm⟩, fun hminus => absurd hminus.1 (by decide)⟩

/-- **A deadline is a text of RFC 3339 in UTC.** -/
theorem utcDeadline_iff {parse : Text → Option Parsed} (h : ReadsRfc3339 parse) (text : Text) :
    utcDeadline parse text = true ↔ text ∈ utcTexts := by
  unfold utcDeadline
  simp only [Bool.and_eq_true, Bool.or_eq_true, decide_eq_true_eq, Option.any_eq_true,
    Bool.not_eq_true', ← Bool.not_eq_true, List.isSuffixOf_iff_suffix]
  constructor
  · rintro ⟨⟨hmark, hsuffix⟩, p, hparse, hoffset⟩
    obtain ⟨s, hs, rfl⟩ := h.only text p hparse hmark
    rw [h.reads s hs] at hparse
    cases hparse
    exact ⟨s, hs, (offset_zero hs).1 ⟨hoffset, hsuffix⟩, rfl⟩
  · rintro ⟨s, hs, hutc, rfl⟩
    obtain ⟨hoffset, hsuffix⟩ := (offset_zero hs).2 hutc
    refine ⟨⟨?_, hsuffix⟩, s.value, h.reads s hs, hoffset⟩
    rw [byte_mark hs]
    exact hs.2.2.1.imp (congrArg fun c => some (ascii c)) (congrArg fun c => some (ascii c))

end Plenora.Engine.RuntimeBinding
