import Plenora.Core.StoreRewrite
import Plenora.Lib.JsonGrammar
import Plenora.Lib.JsonStrings
import Plenora.Lib.Utf8

/-!
# The numbers of a JSON text

`has_rewritten_json_number` scans the bytes of a text by their positions.  It never reads past the
end, and on a JSON document it judges the numbers of the document, none of those in a string.

    rewrittenJsonNumber bytes 0 = some b                                (rewrittenJsonNumber_eq)
    IsDocument v text → (rewrittenJsonNumber (utf8 text) 0 = some true ↔
      v holds a number that is not a short integer)                     (rewrittenJsonNumber_exact)
-/

namespace Plenora.Core.RuleS

open Plenora.Lib Plenora.Lib.Json Plenora.Lib.Utf8

/-! ## The scan by positions -/

namespace JsonNumbers

/-- `&bytes[start..stop]`; `none` for a panic. -/
def slice (bytes : List UInt8) (start stop : Nat) : Option (List UInt8) :=
  if start ≤ stop ∧ stop ≤ bytes.length then some ((bytes.drop start).take (stop - start))
  else none

/-- The loop over a string: the position of its closing quote; `none` for a panic. -/
def stringEnd (bytes : List UInt8) (index : Nat) : Option Nat :=
  if index < bytes.length then
    match bytes[index]? with
    | none => none
    | some byte =>
      if byte ≠ 34 then stringEnd bytes (index + if byte = 92 then 2 else 1) else some index
  else some index
termination_by bytes.length - index
decreasing_by split <;> omega

/-- The loop over a number: the position after it; `none` for a panic. -/
def numberEnd (bytes : List UInt8) (index : Nat) : Option Nat :=
  if index < bytes.length then
    match bytes[index]? with
    | none => none
    | some byte => if numberByte byte then numberEnd bytes (index + 1) else some index
  else some index
termination_by bytes.length - index

theorem le_stringEnd {bytes : List UInt8} {index stop : Nat}
    (h : stringEnd bytes index = some stop) : index ≤ stop := by
  fun_induction stringEnd bytes index with
  | case1 => contradiction
  | case2 index hlt byte hbyte hne ih =>
    have := ih h
    split at this <;> omega
  | case3 => exact Nat.le_of_eq (Option.some.inj h)
  | case4 => exact Nat.le_of_eq (Option.some.inj h)

theorem le_numberEnd {bytes : List UInt8} {index stop : Nat}
    (h : numberEnd bytes index = some stop) : index ≤ stop := by
  fun_induction numberEnd bytes index with
  | case1 => contradiction
  | case2 index hlt byte hbyte hnumber ih => exact Nat.le_of_succ_le (ih h)
  | case3 => exact Nat.le_of_eq (Option.some.inj h)
  | case4 => exact Nat.le_of_eq (Option.some.inj h)

/-- The byte a number starts with is one of its own. -/
theorem numberByte_start {byte : UInt8} (h : byte = 45 ∨ isDigit byte) : numberByte byte := by
  unfold numberByte
  rcases h with h | h
  · simp [h]
  · simp [h]

theorem lt_numberEnd {bytes : List UInt8} {index stop : Nat} {byte : UInt8}
    (hbyte : bytes[index]? = some byte) (hnumber : byte = 45 ∨ isDigit byte)
    (h : numberEnd bytes index = some stop) : index < stop := by
  obtain ⟨hlt, -⟩ := List.getElem?_eq_some_iff.1 hbyte
  rw [numberEnd, if_pos hlt, hbyte] at h
  simp only [numberByte_start hnumber, if_true] at h
  exact le_numberEnd h

/-- `has_rewritten_json_number` from a position; `none` for a panic. -/
def rewrittenJsonNumber (bytes : List UInt8) (index : Nat) : Option Bool :=
  if index < bytes.length then
    match hbyte : bytes[index]? with
    | none => none
    | some byte =>
      if byte = 34 then
        match hstop : stringEnd bytes (index + 1) with
        | none => none
        | some stop => rewrittenJsonNumber bytes (stop + 1)
      else if hnumber : byte = 45 ∨ isDigit byte then
        match _ : numberEnd bytes index with
        | none => none
        | some stop =>
          match slice bytes index stop with
          | none => none
          | some token => if ¬ shortInteger token then some true else rewrittenJsonNumber bytes stop
      else rewrittenJsonNumber bytes (index + 1)
  else some false
termination_by bytes.length - index
decreasing_by
  · have := le_stringEnd hstop
    omega
  · have := lt_numberEnd hbyte hnumber ‹_›
    omega
  · omega

/-! ## The positions are those of the bytes that remain -/

theorem drop_eq_cons {bytes : List UInt8} {index : Nat} {byte : UInt8}
    (h : bytes[index]? = some byte) : bytes.drop index = byte :: bytes.drop (index + 1) := by
  obtain ⟨hlt, rfl⟩ := List.getElem?_eq_some_iff.1 h
  exact List.drop_eq_getElem_cons hlt

theorem getElem?_of_lt {bytes : List UInt8} {index : Nat} (h : index < bytes.length) :
    ∃ byte, bytes[index]? = some byte := ⟨_, List.getElem?_eq_getElem h⟩

theorem stringEnd_spec (bytes : List UInt8) (index : Nat) :
    ∃ stop, stringEnd bytes index = some stop ∧
      bytes.drop (stop + 1) = skipString (bytes.drop index) := by
  fun_induction stringEnd bytes index with
  | case1 index hlt hnone =>
    obtain ⟨byte, hbyte⟩ := getElem?_of_lt hlt
    rw [hnone] at hbyte
    contradiction
  | case2 index hlt byte hbyte hne ih =>
    obtain ⟨stop, hstop, hdrop⟩ := ih
    refine ⟨stop, hstop, hdrop.trans ?_⟩
    rw [drop_eq_cons hbyte]
    cases hrest : bytes.drop (index + 1) with
    | nil =>
      -- the string is not closed
      have hlen : bytes.length ≤ index + 1 := List.drop_eq_nil_iff.1 hrest
      rw [List.drop_eq_nil_of_le (by split <;> omega)]
      rfl
    | cons next rest =>
      have htwo : bytes.drop (index + 2) = rest := by
        rw [← List.drop_drop (i := 1), hrest, List.drop_one, List.tail_cons]
      rw [skipString, if_neg hne]
      split
      next => rw [htwo]
      next => rw [hrest]
  | case3 index hlt byte hbyte hquote =>
    rw [not_not] at hquote
    refine ⟨index, rfl, ?_⟩
    rw [drop_eq_cons hbyte, hquote]
    cases bytes.drop (index + 1) with
    | nil => rfl
    | cons next rest => rw [skipString, if_pos rfl]
  | case4 index hge =>
    refine ⟨index, rfl, ?_⟩
    rw [List.drop_eq_nil_of_le (by omega), List.drop_eq_nil_of_le (by omega)]
    rfl

theorem numberEnd_spec (bytes : List UInt8) (index : Nat) (h : index ≤ bytes.length) :
    ∃ stop, numberEnd bytes index = some stop ∧ index ≤ stop ∧ stop ≤ bytes.length ∧
      (bytes.drop index).take (stop - index) = (bytes.drop index).takeWhile numberByte ∧
      bytes.drop stop = (bytes.drop index).dropWhile numberByte := by
  fun_induction numberEnd bytes index with
  | case1 index hlt hnone =>
    obtain ⟨byte, hbyte⟩ := getElem?_of_lt hlt
    rw [hnone] at hbyte
    contradiction
  | case2 index hlt byte hbyte hnumber ih =>
    obtain ⟨stop, hstop, hle, hlen, htake, hdrop⟩ := ih hlt
    refine ⟨stop, hstop, by omega, hlen, ?_, ?_⟩
    · rw [drop_eq_cons hbyte, List.takeWhile_cons_of_pos hnumber, ← htake,
        show stop - index = (stop - (index + 1)) + 1 by omega, List.take_succ_cons]
    · rw [drop_eq_cons hbyte, List.dropWhile_cons_of_pos hnumber, hdrop]
  | case3 index hlt byte hbyte hnumber =>
    refine ⟨index, rfl, Nat.le_refl _, h, ?_, ?_⟩
    · rw [drop_eq_cons hbyte, List.takeWhile_cons_of_neg hnumber, Nat.sub_self, List.take_zero]
    · rw [drop_eq_cons hbyte, List.dropWhile_cons_of_neg hnumber]
  | case4 index hge =>
    refine ⟨index, rfl, Nat.le_refl _, h, ?_, ?_⟩
    · rw [List.drop_eq_nil_of_le (by omega)]
      simp
    · rw [List.drop_eq_nil_of_le (by omega)]
      rfl

/-- **The scan by positions never panics and is the scan of the bytes that remain.** -/
theorem rewrittenJsonNumber_eq (bytes : List UInt8) (index : Nat) :
    rewrittenJsonNumber bytes index = some (hasRewrittenJsonNumber (bytes.drop index)) := by
  fun_induction rewrittenJsonNumber bytes index with
  | case1 index hlt hnone =>
    obtain ⟨byte, hbyte⟩ := getElem?_of_lt hlt
    rw [hnone] at hbyte
    contradiction
  | case2 index hlt hstop hbyte =>
    obtain ⟨stop, hsome, -⟩ := stringEnd_spec bytes (index + 1)
    rw [hstop] at hsome
    contradiction
  | case3 index hlt stop hstop hbyte ih =>
    obtain ⟨_, hsome, hdrop⟩ := stringEnd_spec bytes (index + 1)
    rw [hstop, Option.some.injEq] at hsome
    rw [ih, hsome, hdrop, drop_eq_cons hbyte, hasRewrittenJsonNumber, if_pos rfl]
  | case4 index hlt byte hbyte hquote hnumber hstop =>
    obtain ⟨stop, hsome, -⟩ := numberEnd_spec bytes index (Nat.le_of_lt hlt)
    rw [hstop] at hsome
    contradiction
  | case5 index hlt byte hbyte hquote hnumber stop hstop hslice =>
    obtain ⟨_, hsome, hle, hlen, -, -⟩ := numberEnd_spec bytes index (Nat.le_of_lt hlt)
    rw [hstop, Option.some.injEq] at hsome
    subst hsome
    rw [slice, if_pos ⟨hle, hlen⟩] at hslice
    contradiction
  | case6 index hlt byte hbyte hquote hnumber stop hstop token hslice hshort =>
    obtain ⟨_, hsome, hle, hlen, htake, -⟩ := numberEnd_spec bytes index (Nat.le_of_lt hlt)
    rw [hstop, Option.some.injEq] at hsome
    subst hsome
    rw [slice, if_pos ⟨hle, hlen⟩, htake, drop_eq_cons hbyte, Option.some.injEq] at hslice
    rw [drop_eq_cons hbyte, hasRewrittenJsonNumber, if_neg hquote, if_pos hnumber, hslice,
      if_pos hshort]
  | case7 index hlt byte hbyte hquote hnumber stop hstop token hslice hshort ih =>
    obtain ⟨_, hsome, hle, hlen, htake, hdrop⟩ := numberEnd_spec bytes index (Nat.le_of_lt hlt)
    rw [hstop, Option.some.injEq] at hsome
    subst hsome
    rw [slice, if_pos ⟨hle, hlen⟩, htake, drop_eq_cons hbyte, Option.some.injEq] at hslice
    rw [drop_eq_cons hbyte, List.dropWhile_cons_of_pos (numberByte_start hnumber)] at hdrop
    rw [ih, hdrop, drop_eq_cons hbyte, hasRewrittenJsonNumber, if_neg hquote, if_pos hnumber,
      hslice, if_neg hshort]
  | case8 index hlt byte hbyte hquote hnumber ih =>
    rw [ih, drop_eq_cons hbyte, hasRewrittenJsonNumber, if_neg hquote, if_neg hnumber]
  | case9 index hge =>
    rw [List.drop_eq_nil_of_le (by omega), hasRewrittenJsonNumber]

/-! ## Numbers of a document -/

/-- A number that is not zero with a sign, of one digit or of a first digit that is not zero and
at most fourteen more. -/
def KeptNumber (raw : Text) : Prop :=
  raw ≠ ['-', '0'] ∧ ∃ sign digits, raw = sign ++ digits ∧ (sign = [] ∨ sign = ['-']) ∧
    (digits = ['0'] ∨ ∃ first more, digits = first :: more ∧ first.isDigit ∧ first ≠ '0' ∧
      Decimal.AllDigits more ∧ more.length ≤ 14)

/-- A number somewhere in a value; keys and strings hold none. -/
inductive HasNumber (raw : Text) : Json.Value → Prop
  | number : HasNumber raw (.number raw)
  | item {items : List Json.Value} {v : Json.Value} : v ∈ items → HasNumber raw v →
    HasNumber raw (.array items)
  | member {members : List (List Nat × Json.Value)} {m : List Nat × Json.Value} : m ∈ members →
    HasNumber raw m.2 → HasNumber raw (.object members)

/-- A number somewhere in the values a phrase spells. -/
def PhraseNumber (raw : Text) : Phrase → Prop
  | .value v => HasNumber raw v
  | .items items => ∃ v ∈ items, HasNumber raw v
  | .members members => ∃ m ∈ members, HasNumber raw m.2
  | .rest v members => HasNumber raw v ∨ ∃ m ∈ members, HasNumber raw m.2

theorem hasNumber_array {raw : Text} {items : List Json.Value} :
    HasNumber raw (.array items) ↔ ∃ v ∈ items, HasNumber raw v := by
  constructor
  · intro h
    cases h with
    | item hv h => exact ⟨_, hv, h⟩
  · rintro ⟨v, hv, h⟩
    exact .item hv h

theorem hasNumber_object {raw : Text} {members : List (List Nat × Json.Value)} :
    HasNumber raw (.object members) ↔ ∃ m ∈ members, HasNumber raw m.2 := by
  constructor
  · intro h
    cases h with
    | member hm h => exact ⟨_, hm, h⟩
  · rintro ⟨m, hm, h⟩
    exact .member hm h

/-! ## Bytes of the parts of a document -/

/-- A byte that starts neither a string nor a number. -/
def Silent (byte : UInt8) : Prop := byte ≠ 34 ∧ ¬ (byte = 45 ∨ isDigit byte)

instance (byte : UInt8) : Decidable (Silent byte) := inferInstanceAs (Decidable (_ ∧ _))

/-- What may follow a number. -/
def Stops (rest : List UInt8) : Prop := ∀ byte ∈ rest.head?, ¬ numberByte byte

theorem numberTokens_silent {byte : UInt8} (h : Silent byte) (rest : List UInt8) :
    numberTokens (byte :: rest) = numberTokens rest := by
  rw [numberTokens, if_neg h.1, if_neg h.2]

/-- The characters between the values of a document. -/
theorem numberTokens_chars {cs : Text} (h : ∀ c ∈ cs, c.toNat < 128 ∧ Silent (ascii c))
    (rest : List UInt8) : numberTokens (utf8 cs ++ rest) = numberTokens rest := by
  induction cs with
  | nil => rfl
  | cons c cs ih =>
    obtain ⟨⟨hc, hsilent⟩, hcs⟩ := List.forall_mem_cons.1 h
    rw [utf8_cons, encode_ascii hc, List.append_assoc, List.singleton_append,
      numberTokens_silent hsilent, ih hcs]

/-- The spaces and marks between the values of a document. -/
theorem numberTokens_marks {cs : Text}
    (h : ∀ c ∈ cs, isSpace c ∨ c ∈ ['[', ']', '\x7b', '\x7d', ',', ':']) (rest : List UInt8) :
    numberTokens (utf8 cs ++ rest) = numberTokens rest := by
  refine numberTokens_chars (fun c hc => ?_) rest
  have hmarks : [' ', '\t', '\n', '\r', '[', ']', '\x7b', '\x7d', ',', ':'].all
      fun c => c.toNat < 128 ∧ Silent (ascii c) := by decide
  refine of_decide_eq_true (List.all_eq_true.1 hmarks c ?_)
  rcases h c hc with hspace | hmark
  · simp only [isSpace, Bool.or_eq_true, decide_eq_true_eq] at hspace
    rcases hspace with ((rfl | rfl) | rfl) | rfl <;> decide
  · exact List.mem_append_right [' ', '\t', '\n', '\r'] hmark

theorem numberTokens_spaces {spaces : Text} (h : IsSpace spaces) (rest : List UInt8) :
    numberTokens (utf8 spaces ++ rest) = numberTokens rest :=
  numberTokens_marks (fun c hc => .inl (h c hc)) rest

theorem stops_ascii {c : Char} (h : c ∈ [' ', '\t', '\n', '\r', ']', '\x7d', ','])
    (rest : List UInt8) : Stops (ascii c :: rest) := by
  have hall : [' ', '\t', '\n', '\r', ']', '\x7d', ','].all fun c => !numberByte (ascii c) := by
    decide
  intro byte hbyte
  obtain rfl := Option.some.inj hbyte
  have := List.all_eq_true.1 hall c h
  simpa using this

/-- Spaces before what may follow a number. -/
theorem stops_spaces {spaces : Text} (h : IsSpace spaces) {rest : List UInt8} (hrest : Stops rest) :
    Stops (utf8 spaces ++ rest) := by
  cases spaces with
  | nil => exact hrest
  | cons c spaces =>
    have hspace := h c List.mem_cons_self
    simp only [isSpace, Bool.or_eq_true, decide_eq_true_eq] at hspace
    have hmem : c ∈ [' ', '\t', '\n', '\r', ']', '\x7d', ','] := by
      rcases hspace with ((rfl | rfl) | rfl) | rfl <;> decide
    have hc : c.toNat < 128 := by
      rcases hspace with ((rfl | rfl) | rfl) | rfl <;> decide
    rw [utf8_cons, encode_ascii hc, List.append_assoc, List.singleton_append]
    exact stops_ascii hmem _

/-! ## Strings -/

theorem encode_all_wide {c : Char} (h : 128 ≤ c.toNat) :
    ∀ b ∈ String.utf8EncodeChar c, 0x80 ≤ b := by
  obtain ⟨b, rest, henc, hb⟩ := encode_wide h
  rcases encode_cases c with ⟨b', henc', hb'⟩ | ⟨b', rest', henc', hb', hrest'⟩
  · rw [henc] at henc'
    obtain rfl := (List.cons.inj henc').1
    exact absurd hb (UInt8.not_le.2 hb')
  · rw [henc']
    exact List.forall_mem_cons.2 ⟨UInt8.le_trans (by decide) hb', hrest'⟩

/-- A character that neither closes a string nor escapes. -/
theorem skipString_char {c : Char} (hquote : c ≠ '"') (hslash : c ≠ '\\') {byte : UInt8}
    (rest : List UInt8) :
    skipString (String.utf8EncodeChar c ++ byte :: rest) = skipString (byte :: rest) := by
  have hplain (l : List UInt8) (hl : ∀ b ∈ l, b ≠ 34 ∧ b ≠ 92) :
      skipString (l ++ byte :: rest) = skipString (byte :: rest) := by
    induction l with
    | nil => rfl
    | cons b l ih =>
      obtain ⟨hb, hl⟩ := List.forall_mem_cons.1 hl
      cases hmore : l ++ byte :: rest with
      | nil => simp at hmore
      | cons next more =>
        rw [List.cons_append, hmore, skipString, if_neg hb.1, if_neg hb.2, ← hmore, ih hl]
  apply hplain
  by_cases hc : c.toNat < 128
  · rw [encode_ascii hc]
    rintro b hb
    obtain rfl := List.mem_singleton.1 hb
    have hnat := toNat_ascii hc
    constructor
    · intro h
      apply hquote
      rw [h] at hnat
      exact Char.ext (UInt32.toNat_inj.1 hnat.symm)
    · intro h
      apply hslash
      rw [h] at hnat
      exact Char.ext (UInt32.toNat_inj.1 hnat.symm)
  · intro b hb
    have hwide := encode_all_wide (Nat.not_lt.1 hc) b hb
    constructor
    · rintro rfl
      exact absurd hwide (by decide)
    · rintro rfl
      exact absurd hwide (by decide)

theorem skipString_chars {cs : Text} (h : ∀ c ∈ cs, c ≠ '"' ∧ c ≠ '\\') {byte : UInt8}
    (rest : List UInt8) :
    skipString (utf8 cs ++ byte :: rest) = skipString (byte :: rest) := by
  induction cs with
  | nil => rfl
  | cons c cs ih =>
    obtain ⟨⟨hquote, hslash⟩, hcs⟩ := List.forall_mem_cons.1 h
    rw [utf8_cons, List.append_assoc]
    cases hmore : utf8 cs ++ byte :: rest with
    | nil => simp at hmore
    | cons next more => rw [skipString_char hquote hslash, ← hmore, ih hcs]

/-- A backslash takes the character after it along. -/
theorem skipString_escape {e : Char} (he : e.toNat < 128) (rest : List UInt8) :
    skipString (utf8 ['\\', e] ++ rest) = skipString rest := by
  rw [utf8_cons, utf8_cons, encode_ascii (by decide), encode_ascii he]
  show skipString (92 :: ascii e :: rest) = skipString rest
  rw [skipString, if_neg (by decide), if_pos rfl]

theorem escaped_ascii {e c : Char} (h : escaped e = some c) : e.toNat < 128 := by
  unfold escaped at h
  split_ifs at h with h₁ h₂ h₃ h₄ h₅ h₆ h₇ h₈ <;> subst e <;> decide

theorem skipString_mark {m : Mark} (hm : m.WellFormed) {byte : UInt8} (rest : List UInt8) :
    skipString (utf8 m.text ++ byte :: rest) = skipString (byte :: rest) := by
  cases m with
  | char c =>
    rw [Mark.text, utf8_cons]
    show skipString ((String.utf8EncodeChar c ++ []) ++ byte :: rest) = _
    rw [List.append_nil, skipString_char hm.1 hm.2.1]
  | escape e =>
    obtain ⟨c, hc⟩ := hm
    exact skipString_escape (escaped_ascii hc) _
  | unit digits =>
    obtain ⟨n, -, hn⟩ := hm
    have hsplit : utf8 (Mark.unit digits).text = utf8 ['\\', 'u'] ++ utf8 digits := by
      simp [Mark.text, utf8]
    rw [hsplit, List.append_assoc, skipString_escape (by decide),
      skipString_chars (hexNumber_digits hn)]

/-- **A string is skipped to what follows its closing quote.** -/
theorem skipString_marks {marks : List Mark} (h : ∀ m ∈ marks, m.WellFormed) (rest : List UInt8) :
    skipString (utf8 (marks.flatMap Mark.text ++ ['"']) ++ rest) = rest := by
  rw [utf8_append, utf8_cons, encode_ascii (by decide), utf8_nil, List.append_nil,
    List.append_assoc, List.singleton_append]
  induction marks with
  | nil =>
    show skipString (34 :: rest) = rest
    cases rest with
    | nil => rfl
    | cons next rest => rw [skipString, if_pos rfl]
  | cons m marks ih =>
    obtain ⟨hm, hmarks⟩ := List.forall_mem_cons.1 h
    rw [List.flatMap_cons, utf8_append, List.append_assoc]
    cases hmore : utf8 (marks.flatMap Mark.text) ++ ascii '"' :: rest with
    | nil => simp at hmore
    | cons next more => rw [skipString_mark hm, ← hmore, ih hmarks]

theorem numberTokens_quoted {marks : List Mark} (h : ∀ m ∈ marks, m.WellFormed)
    (rest : List UInt8) : numberTokens (utf8 (quoted marks) ++ rest) = numberTokens rest := by
  rw [quoted, utf8_cons, encode_ascii (by decide), List.append_assoc, List.singleton_append]
  show numberTokens (34 :: (utf8 (marks.flatMap Mark.text ++ ['"']) ++ rest)) = _
  rw [numberTokens, if_pos rfl, skipString_marks h]

/-! ## Numbers -/

/-- The characters of a number. -/
def NumberChar (c : Char) : Prop := c = '-' ∨ c = '+' ∨ c = '.' ∨ c = 'e' ∨ c = 'E' ∨ c.isDigit

theorem isDigit_ascii {c : Char} (hc : c.toNat < 128) : isDigit (ascii c) = c.isDigit := by
  have hnat := toNat_ascii hc
  have hdigit : c.isDigit = decide (48 ≤ c.toNat ∧ c.toNat ≤ 57) := by
    rw [Bool.eq_iff_iff, decide_eq_true_eq]
    exact ⟨Decimal.isDigit_bounds, fun h => by
      simp only [Char.isDigit, Bool.and_eq_true, decide_eq_true_eq]
      exact h⟩
  rw [hdigit, isDigit, decide_eq_decide, UInt8.le_iff_toNat_le, UInt8.le_iff_toNat_le, hnat]
  rfl

theorem NumberChar.lt {c : Char} (h : NumberChar c) : c.toNat < 128 := by
  rcases h with rfl | rfl | rfl | rfl | rfl | h
  case inr.inr.inr.inr.inr =>
    have := Decimal.isDigit_bounds h
    omega
  all_goals decide

theorem NumberChar.numberByte {c : Char} (h : NumberChar c) : numberByte (ascii c) := by
  have hc := h.lt
  rcases h with rfl | rfl | rfl | rfl | rfl | h
  case inr.inr.inr.inr.inr => simp [RuleS.numberByte, isDigit_ascii hc, h]
  all_goals decide

theorem numberChar_digits {ds : Text} (h : Decimal.AllDigits ds) : ∀ c ∈ ds, NumberChar c :=
  fun c hc => .inr (.inr (.inr (.inr (.inr (h c hc)))))

theorem numberChar_integer {integer : Text}
    (h : integer = ['0'] ∨ (Digits integer ∧ integer.head? ≠ some '0')) :
    Decimal.AllDigits integer ∧ integer ≠ [] := by
  rcases h with rfl | ⟨⟨hne, hdigits⟩, -⟩
  · exact ⟨by simp [Decimal.AllDigits], by simp⟩
  · exact ⟨hdigits, hne⟩

/-- The parts of a number: characters of numbers, a sign or a digit first. -/
theorem numberChar_number {raw : Text} (h : IsNumber raw) :
    (∀ c ∈ raw, NumberChar c) ∧ ∃ c more, raw = c :: more ∧ (c = '-' ∨ c.isDigit) := by
  obtain ⟨sign, integer, fraction, exponent, rfl, hsign, hinteger, hfraction, hexponent⟩ := h
  obtain ⟨hdigits, hne⟩ := numberChar_integer hinteger
  constructor
  · intro c hc
    simp only [List.mem_append] at hc
    rcases hc with ((hc | hc) | hc) | hc
    · rcases hsign with rfl | rfl
      · exact absurd hc List.not_mem_nil
      · exact .inl (List.mem_singleton.1 hc)
    · exact numberChar_digits hdigits c hc
    · rcases hfraction with rfl | ⟨ds, rfl, -, hds⟩
      · exact absurd hc List.not_mem_nil
      · rcases List.mem_cons.1 hc with rfl | hc
        · exact .inr (.inr (.inl rfl))
        · exact numberChar_digits hds c hc
    · rcases hexponent with rfl | ⟨e, plus, ds, rfl, he, hplus, -, hds⟩
      · exact absurd hc List.not_mem_nil
      · simp only [List.mem_cons, List.mem_append] at hc
        rcases hc with (rfl | hc) | hc
        · rcases he with rfl | rfl
          · exact .inr (.inr (.inr (.inl rfl)))
          · exact .inr (.inr (.inr (.inr (.inl rfl))))
        · rcases hplus with rfl | rfl | rfl
          · exact absurd hc List.not_mem_nil
          · exact .inr (.inl (List.mem_singleton.1 hc))
          · exact .inl (List.mem_singleton.1 hc)
        · exact numberChar_digits hds c hc
  · rcases hsign with rfl | rfl
    · obtain ⟨c, more, rfl⟩ := List.exists_cons_of_ne_nil hne
      exact ⟨c, more ++ fraction ++ exponent, by simp, .inr (hdigits c List.mem_cons_self)⟩
    · exact ⟨'-', integer ++ fraction ++ exponent, by simp, .inl rfl⟩

theorem utf8_numberChars {raw : Text} (h : ∀ c ∈ raw, NumberChar c) : utf8 raw = raw.map ascii := by
  induction raw with
  | nil => rfl
  | cons c raw ih =>
    obtain ⟨hc, hraw⟩ := List.forall_mem_cons.1 h
    rw [utf8_cons, encode_ascii hc.lt, ih hraw, List.map_cons, List.singleton_append]

/-- **A number is one token.** -/
theorem numberTokens_number {raw : Text} (h : IsNumber raw) {rest : List UInt8}
    (hrest : Stops rest) : numberTokens (utf8 raw ++ rest) = utf8 raw :: numberTokens rest := by
  obtain ⟨hchars, c, more, rfl, hfirst⟩ := numberChar_number h
  have hbytes : ∀ b ∈ (c :: more).map ascii, numberByte b := by
    intro b hb
    obtain ⟨d, hd, rfl⟩ := List.mem_map.1 hb
    exact (hchars d hd).numberByte
  have htake : rest.takeWhile numberByte = [] ∧ rest.dropWhile numberByte = rest := by
    cases rest with
    | nil => exact ⟨rfl, rfl⟩
    | cons b rest =>
      have hb := hrest b rfl
      exact ⟨List.takeWhile_cons_of_neg hb, List.dropWhile_cons_of_neg hb⟩
  have hc := (hchars c List.mem_cons_self).lt
  have hstart : ascii c = 45 ∨ isDigit (ascii c) := by
    rcases hfirst with rfl | hd
    · exact .inl rfl
    · exact .inr (by rw [isDigit_ascii hc]; exact hd)
  have hquote : ascii c ≠ 34 := by
    intro h34
    rw [h34] at hstart
    revert hstart
    decide
  rw [utf8_numberChars hchars, List.map_cons, List.cons_append, numberTokens, if_neg hquote,
    if_pos hstart, ← List.cons_append, ← List.map_cons,
    List.takeWhile_append_of_pos hbytes, htake.1, List.append_nil,
    List.dropWhile_append_of_pos fun b hb => hbytes b (List.mem_cons_of_mem _ hb), htake.2]

/-! ## Documents -/

/-- A bracket or a comma after a number. -/
theorem stops_mark {c : Char} (h : c ∈ [']', '\x7d', ',']) (cs : Text) (rest : List UInt8) :
    Stops (utf8 (c :: cs) ++ rest) := by
  have hc : c.toNat < 128 := by
    simp only [List.mem_cons, List.not_mem_nil, or_false] at h
    rcases h with rfl | rfl | rfl <;> decide
  rw [utf8_cons, encode_ascii hc, List.append_assoc, List.singleton_append]
  exact stops_ascii (List.mem_append_right [' ', '\t', '\n', '\r'] h) _

theorem numberTokens_mark {c : Char} (h : c ∈ ['[', ']', '\x7b', '\x7d', ',', ':'])
    (cs : Text) (rest : List UInt8) :
    numberTokens (utf8 (c :: cs) ++ rest) = numberTokens (utf8 cs ++ rest) := by
  have hmarks : ∀ d ∈ [c], isSpace d ∨ d ∈ ['[', ']', '\x7b', '\x7d', ',', ':'] := by
    intro d hd
    exact .inr (List.mem_singleton.1 hd ▸ h)
  rw [show c :: cs = [c] ++ cs from rfl, utf8_append, List.append_assoc, numberTokens_marks hmarks]

theorem numberTokens_word {raw : Text}
    (h : raw ∈ ["null".toList, "true".toList, "false".toList]) (rest : List UInt8) :
    numberTokens (utf8 raw ++ rest) = numberTokens rest := by
  have hall : ["null".toList, "true".toList, "false".toList].all fun raw =>
      raw.all fun c => c.toNat < 128 ∧ Silent (ascii c) := by decide +kernel
  refine numberTokens_chars (fun c hc => ?_) rest
  exact of_decide_eq_true (List.all_eq_true.1 (List.all_eq_true.1 hall raw h) c hc)

/-- **The number tokens of a spelled phrase are the spellings of its numbers.** -/
theorem mem_numberTokens_spells {p : Phrase} {text : Text} (h : Spells p text) :
    ∀ rest, Stops rest → ∀ token, token ∈ numberTokens (utf8 text ++ rest) ↔
      (∃ raw, PhraseNumber raw p ∧ token = utf8 raw) ∨ token ∈ numberTokens rest := by
  induction h with
  | word hraw =>
    intro rest _ token
    rw [numberTokens_word hraw]
    refine ⟨.inr, fun h => h.resolve_left ?_⟩
    rintro ⟨_, hword, -⟩
    cases hword
  | number hraw =>
    intro rest hrest token
    rw [numberTokens_number hraw hrest, List.mem_cons]
    refine or_congr_left ⟨fun h => ⟨_, .number, h⟩, ?_⟩
    rintro ⟨_, hnumber, rfl⟩
    cases hnumber
    rfl
  | string hmarks =>
    intro rest _ token
    rw [numberTokens_quoted hmarks]
    refine ⟨.inr, fun h => h.resolve_left ?_⟩
    rintro ⟨_, hstring, -⟩
    cases hstring
  | emptyArray hspaces =>
    intro rest _ token
    rw [numberTokens_mark (by decide), utf8_append, List.append_assoc,
      numberTokens_spaces hspaces, numberTokens_mark (by decide), utf8_nil, List.nil_append]
    refine ⟨.inr, fun h => h.resolve_left ?_⟩
    rintro ⟨raw, harray, -⟩
    obtain ⟨v, hv, -⟩ := hasNumber_array.1 harray
    exact absurd hv List.not_mem_nil
  | array _ ih =>
    intro rest _ token
    rw [numberTokens_mark (by decide), utf8_append, List.append_assoc,
      ih _ (stops_mark (by decide) [] rest), numberTokens_mark (by decide), utf8_nil,
      List.nil_append]
    simp only [PhraseNumber, hasNumber_array]
  | emptyObject hspaces =>
    intro rest _ token
    rw [numberTokens_mark (by decide), utf8_append, List.append_assoc,
      numberTokens_spaces hspaces, numberTokens_mark (by decide), utf8_nil, List.nil_append]
    refine ⟨.inr, fun h => h.resolve_left ?_⟩
    rintro ⟨raw, hobject, -⟩
    obtain ⟨m, hm, -⟩ := hasNumber_object.1 hobject
    exact absurd hm List.not_mem_nil
  | object _ ih =>
    intro rest _ token
    rw [numberTokens_mark (by decide), utf8_append, List.append_assoc,
      ih _ (stops_mark (by decide) [] rest), numberTokens_mark (by decide), utf8_nil,
      List.nil_append]
    simp only [PhraseNumber, hasNumber_object]
  | one hbefore _ hafter ih =>
    intro rest hrest token
    rw [utf8_append, utf8_append, List.append_assoc, List.append_assoc,
      numberTokens_spaces hbefore, ih _ (stops_spaces hafter hrest), numberTokens_spaces hafter]
    simp only [PhraseNumber, List.mem_singleton, exists_eq_left]
  | more hbefore _ hafter _ ih ihmore =>
    intro rest hrest token
    rw [utf8_append, utf8_append, utf8_append, List.append_assoc, List.append_assoc,
      List.append_assoc, numberTokens_spaces hbefore,
      ih _ (stops_spaces hafter (stops_mark (by decide) _ rest)), numberTokens_spaces hafter,
      numberTokens_mark (by decide), ihmore rest hrest]
    simp only [PhraseNumber, List.exists_mem_cons_iff, or_and_right, exists_or, or_assoc]
  | members hbefore hmarks hbetween _ ih =>
    intro rest hrest token
    rw [utf8_append, utf8_append, utf8_append, List.append_assoc, List.append_assoc,
      List.append_assoc, numberTokens_spaces hbefore, numberTokens_quoted hmarks,
      numberTokens_spaces hbetween, numberTokens_mark (by decide), ih rest hrest]
    simp only [PhraseNumber, List.exists_mem_cons_iff]
  | last hbefore _ hafter ih =>
    intro rest hrest token
    rw [utf8_append, utf8_append, List.append_assoc, List.append_assoc,
      numberTokens_spaces hbefore, ih _ (stops_spaces hafter hrest), numberTokens_spaces hafter]
    simp only [PhraseNumber, List.not_mem_nil, false_and, exists_false, or_false]
  | next hbefore _ hafter _ ih ihmore =>
    intro rest hrest token
    rw [utf8_append, utf8_append, utf8_append, List.append_assoc, List.append_assoc,
      List.append_assoc, numberTokens_spaces hbefore,
      ih _ (stops_spaces hafter (stops_mark (by decide) _ rest)), numberTokens_spaces hafter,
      numberTokens_mark (by decide), ihmore rest hrest]
    simp only [PhraseNumber, or_and_right, exists_or, or_assoc]

theorem isNumber_of_spells {p : Phrase} {text raw : Text} (h : Spells p text)
    (hraw : PhraseNumber raw p) : IsNumber raw := by
  induction h with
  | word => cases hraw
  | number hnumber =>
    cases hraw
    exact hnumber
  | string => cases hraw
  | emptyArray =>
    obtain ⟨v, hv, -⟩ := hasNumber_array.1 hraw
    exact absurd hv List.not_mem_nil
  | array _ ih => exact ih (hasNumber_array.1 hraw)
  | emptyObject =>
    obtain ⟨m, hm, -⟩ := hasNumber_object.1 hraw
    exact absurd hm List.not_mem_nil
  | object _ ih => exact ih (hasNumber_object.1 hraw)
  | one _ _ _ ih =>
    obtain ⟨v, hv, h⟩ := hraw
    exact ih (List.mem_singleton.1 hv ▸ h)
  | more _ _ _ _ ih ihmore =>
    obtain ⟨v, hv, h⟩ := hraw
    rcases List.mem_cons.1 hv with rfl | hv
    · exact ih h
    · exact ihmore ⟨v, hv, h⟩
  | members _ _ _ _ ih => exact ih (List.exists_mem_cons_iff _ _ _ |>.1 hraw)
  | last _ _ _ ih =>
    rcases hraw with h | ⟨m, hm, -⟩
    · exact ih h
    · exact absurd hm List.not_mem_nil
  | next _ _ _ _ ih ihmore =>
    rcases hraw with h | h
    · exact ih h
    · exact ihmore h

/-- **The bytes of a number are those of a short integer exactly when it is one.** -/
theorem shortInteger_number {raw : Text} (h : ∀ c ∈ raw, NumberChar c) :
    ShortInteger (utf8 raw) ↔ KeptNumber raw := by
  have hdigit {c : Char} (hc : NumberChar c) : isDigit (ascii c) = c.isDigit := isDigit_ascii hc.lt
  rw [utf8_numberChars h]
  constructor
  · rintro (hzero | ⟨sign, hsign, first, digits, heq, hfirst, hne, hdigits, hlen⟩)
    · obtain ⟨c, hc, hascii⟩ := List.map_eq_singleton_iff.1 hzero
      obtain rfl := (ascii_inj (d := '0') (h c (by simp [hc])).lt (by decide)).1 hascii
      exact ⟨by simp [hc], [], ['0'], hc, .inl rfl, .inl rfl⟩
    · obtain ⟨s, body, rfl, hs, hbody⟩ := List.map_eq_append_iff.1 heq
      obtain ⟨c, more, rfl, rfl, rfl⟩ := List.map_eq_cons_iff.1 hbody
      have hc := h c (by simp)
      have hmore : ∀ d ∈ more, NumberChar d := fun d hd => h d (by simp [hd])
      have hzero : c ≠ '0' := fun h0 => hne (by rw [h0]; rfl)
      have hsigned : s = [] ∨ s = ['-'] := by
        rcases List.mem_pair.1 hsign with rfl | rfl
        · exact .inl (List.map_eq_nil_iff.1 hs)
        · obtain ⟨d, rfl, hd⟩ := List.map_eq_singleton_iff.1 hs
          obtain rfl := (ascii_inj (d := '-') (h d (by simp)).lt (by decide)).1 hd
          exact .inr rfl
      refine ⟨?_, s, c :: more, rfl, hsigned, .inr ⟨c, more, rfl, ?_, hzero, ?_, ?_⟩⟩
      · rcases hsigned with rfl | rfl
        · rintro heq
          obtain ⟨rfl, -⟩ := List.cons.inj heq
          revert hfirst
          decide
        · rintro heq
          exact hzero (List.cons.inj (List.cons.inj heq).2).1
      · rw [← hdigit hc]
        exact hfirst
      · intro d hd
        rw [← hdigit (hmore d hd)]
        exact List.all_eq_true.1 hdigits _ (List.mem_map_of_mem hd)
      · rwa [List.length_map] at hlen
  · rintro ⟨hminus, sign, digits, rfl, hsign, rfl | ⟨first, more, rfl, hfirst, hne, hmore, hlen⟩⟩
    · rcases hsign with rfl | rfl
      · exact .inl rfl
      · exact absurd rfl hminus
    · have hc := h first (by simp)
      have hsigned : sign.map ascii ∈ ([[], [45]] : List (List UInt8)) := by
        rcases hsign with rfl | rfl <;> decide
      refine .inr ⟨sign.map ascii, hsigned, ascii first, more.map ascii, by simp, ?_, ?_, ?_, ?_⟩
      · rw [hdigit hc]
        exact hfirst
      · intro h48
        exact hne ((ascii_inj (d := '0') hc.lt (by decide)).1 h48)
      · rw [List.all_map, List.all_eq_true]
        intro d hd
        show isDigit (ascii d) = true
        rw [hdigit (h d (by simp [hd]))]
        exact hmore d hd
      · rwa [List.length_map]

/-- **On a document the scan answers whether one of its numbers is not a short integer, and on
every text it answers.** -/
theorem rewrittenJsonNumber_exact :
    (∀ (v : Json.Value) (text : Text), IsDocument v text →
      (rewrittenJsonNumber (utf8 text) 0 = some true ↔
        ∃ raw, HasNumber raw v ∧ ¬ KeptNumber raw)) ∧
    ∀ text : Text, ∃ answer, rewrittenJsonNumber (utf8 text) 0 = some answer := by
  constructor
  · rintro v _ ⟨before, body, after, rfl, hbefore, hbody, hafter⟩
    have hstops : Stops (utf8 after ++ []) := stops_spaces hafter fun _ h => absurd h (by simp)
    have hmem (token : List UInt8) := mem_numberTokens_spells hbody _ hstops token
    have hnone : numberTokens (utf8 after ++ []) = [] := by
      rw [numberTokens_spaces hafter, numberTokens]
    rw [rewrittenJsonNumber_eq, Option.some.injEq, List.drop_zero, hasRewrittenJsonNumber_iff,
      utf8_append, utf8_append, numberTokens_spaces hbefore, ← List.append_nil (utf8 after)]
    simp only [hmem, hnone, List.not_mem_nil, or_false]
    constructor
    · rintro ⟨_, ⟨raw, hraw, rfl⟩, hlong⟩
      have hnumber := (numberChar_number (isNumber_of_spells hbody hraw)).1
      exact ⟨raw, hraw, fun h => hlong ((shortInteger_number hnumber).2 h)⟩
    · rintro ⟨raw, hraw, hlong⟩
      have hnumber := (numberChar_number (isNumber_of_spells hbody hraw)).1
      exact ⟨_, ⟨raw, hraw, rfl⟩, fun h => hlong ((shortInteger_number hnumber).1 h)⟩
  · intro text
    exact ⟨_, rewrittenJsonNumber_eq _ _⟩

/-- `["7", -0]`, where the digit of the string does not count. -/
theorem rewrittenJsonNumber_exact_minusZero :
    rewrittenJsonNumber (utf8 "[\"7\", -0]".toList) 0 = some true ↔
      ∃ raw, HasNumber raw (.array [.string [55], .number ['-', '0']]) ∧ ¬ KeptNumber raw := by
  have hnumber : IsNumber ['-', '0'] :=
    ⟨['-'], ['0'], [], [], rfl, .inr rfl, .inl rfl, .inl rfl, .inl rfl⟩
  have hstring : Spells (.value (.string [55])) "\"7\"".toList :=
    @Spells.string [.char '7'] (by simp [Mark.WellFormed])
  have hitems : Spells (.items [.string [55], .number ['-', '0']]) "\"7\", -0".toList :=
    @Spells.more [] _ [] _ _ _ (by simp [IsSpace]) hstring (by simp [IsSpace])
      (@Spells.one [' '] _ [] _ (by simp [IsSpace, isSpace]) (.number hnumber) (by simp [IsSpace]))
  exact rewrittenJsonNumber_exact.1 _ _
    ⟨[], _, [], rfl, by simp [IsSpace], .array hitems, by simp [IsSpace]⟩

end JsonNumbers

end Plenora.Core.RuleS
