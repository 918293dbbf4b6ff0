import Plenora.Lib.Outcome
import Plenora.Lib.Scanning

/-!
# MySQL's lexical rules

Backslash escapes in string literals, double quotes delimit a literal, `#` and
`-- ` comments run to the next line feed and to nothing else, block comments do
not nest.  An executable comment is what the server's version makes of it, a
parameter here: its tokens, and how far it goes.

    lex executable text : Except LexError (List Token)
-/

namespace Plenora.Lib.MysqlLexer

open Scanning

/-! ## Tokens -/

inductive Token where
  | word (text : List Char)
  | quoted (quote : Char) (raw : List Char)
  | symbol (char : Char)
  deriving DecidableEq, Repr

/-- A literal, a quoted name or a comment that does not close. -/
inductive LexError where
  | unterminated
  deriving DecidableEq, Repr

def isSpace (c : Char) : Bool :=
  c = ' ' || c = '\t' || c = '\n' || c = '\x0b' || c = '\x0c' || c = '\r'

def isControl (c : Char) : Bool := c.toNat < 32 || c.toNat = 127

def isAsciiWord (c : Char) : Bool := c.isAlphanum || c = '_' || c = '$'

/-- A character of a word; outside ASCII every character is one. -/
def isWordChar (c : Char) : Bool := isAsciiWord c || 128 ≤ c.toNat

def isQuote (c : Char) : Bool := c = '\'' || c = '"' || c = '\x60'

/-! ## Comments and literals -/

/-- A comment to the end of the line opens here. -/
def opensLineComment : List Char → Bool
  | '#' :: _ => true
  | '-' :: '-' :: rest => rest.head?.all fun c => isSpace c || isControl c
  | _ => false

def opensBlockComment : List Char → Bool
  | '/' :: '*' :: _ => true
  | _ => false

def opensExecutable : List Char → Bool
  | '/' :: '*' :: '!' :: _ => true
  | '/' :: '*' :: 'M' :: '!' :: _ => true
  | _ => false

/-- What follows a block comment. -/
def blockComment : List Char → Except LexError (List Char)
  | [] => .error .unterminated
  | '*' :: '/' :: rest => .ok rest
  | _ :: rest => blockComment rest

/-- The text up to the closing quote, as it is written, and what follows.  A doubled quote does
not close, nor one that a backslash escapes. -/
def quotedText (quote : Char) (escapes : Bool) : List Char → Except LexError (List Char × List Char)
  | [] => .error .unterminated
  | c :: rest =>
    if escapes && c = '\\' then
      match rest with
      | [] => .error .unterminated
      | d :: rest => (quotedText quote escapes rest).map fun (raw, r) => (c :: d :: raw, r)
    else if c = quote then
      match rest with
      | [] => .ok ([], [])
      | d :: rest =>
        if d = quote then (quotedText quote escapes rest).map fun (raw, r) => (c :: d :: raw, r)
        else .ok ([], d :: rest)
    else (quotedText quote escapes rest).map fun (raw, r) => (c :: raw, r)

/-! ## The lexer -/

section Lexer

variable (executable : List Char → Except LexError (List Token × Nat))

/-- A token, or blank space and comments. -/
def step : Step LexError Char Token
  | [] => .ok ([], [])
  | c :: rest =>
    if isSpace c then .ok ([], rest)
    else if opensLineComment (c :: rest) then .ok ([], (c :: rest).dropWhile (· ≠ '\n'))
    else if opensExecutable (c :: rest) then
      (executable (c :: rest)).map fun (tokens, n) => (tokens, rest.drop n)
    else if opensBlockComment (c :: rest) then (blockComment (rest.drop 1)).map ([], ·)
    else if isQuote c then
      (quotedText c (c ≠ '\x60') rest).map fun (raw, r) => ([.quoted c raw], r)
    else if isWordChar c then
      .ok ([.word (c :: rest.takeWhile isWordChar)], rest.dropWhile isWordChar)
    else .ok ([.symbol c], rest)

def lex (text : List Char) : Except LexError (List Token) := scan (step executable) text

/-- The statements of a text, between semicolons. -/
def statements (tokens : List Token) : List (List Token) :=
  splitAt (· = .symbol ';') [] tokens

end Lexer

/-! ## Characters -/

theorem char_eq_iff (c d : Char) : c = d ↔ c.toNat = d.toNat :=
  ⟨fun h => by rw [h], fun h => Char.ext (UInt32.toNat_inj.1 h)⟩

/-- The codes of the characters of a word. -/
theorem isAsciiWord_iff (c : Char) :
    isAsciiWord c = true ↔ (65 ≤ c.toNat ∧ c.toNat ≤ 90) ∨ (97 ≤ c.toNat ∧ c.toNat ≤ 122) ∨
      (48 ≤ c.toNat ∧ c.toNat ≤ 57) ∨ c.toNat = 95 ∨ c.toNat = 36 := by
  unfold isAsciiWord Char.isAlphanum Char.isAlpha Char.isUpper Char.isLower Char.isDigit
  simp only [Bool.or_eq_true, Bool.and_eq_true, decide_eq_true_eq, ge_iff_le,
    UInt32.le_iff_toNat_le, char_eq_iff]
  show ((((65 ≤ c.toNat ∧ c.toNat ≤ 90) ∨ (97 ≤ c.toNat ∧ c.toNat ≤ 122)) ∨
    (48 ≤ c.toNat ∧ c.toNat ≤ 57)) ∨ c.toNat = 95) ∨ c.toNat = 36 ↔ _
  simp only [or_assoc]

theorem toNat_toUpper (c : Char) :
    c.toUpper.toNat = if 97 ≤ c.toNat ∧ c.toNat ≤ 122 then c.toNat - 32 else c.toNat := by
  unfold Char.toUpper
  by_cases h : 97 ≤ c.toNat ∧ c.toNat ≤ 122
  · have hlower : 'a'.val ≤ c.val ∧ c.val ≤ 'z'.val :=
      ⟨UInt32.le_iff_toNat_le.2 h.1, UInt32.le_iff_toNat_le.2 h.2⟩
    rw [if_pos h, dif_pos hlower]
    show (c.val + ('A'.val - 'a'.val)).toNat = c.val.toNat - 32
    have hcode : c.val.toNat = c.toNat := rfl
    rw [UInt32.toNat_add]
    have : ('A'.val - 'a'.val).toNat = 4294967264 := rfl
    rw [this]
    omega
  · have hlower : ¬ ('a'.val ≤ c.val ∧ c.val ≤ 'z'.val) := fun hl =>
      h ⟨UInt32.le_iff_toNat_le.1 hl.1, UInt32.le_iff_toNat_le.1 hl.2⟩
    rw [if_neg h, dif_neg hlower]

theorem isAsciiWord_toUpper (c : Char) : isAsciiWord c.toUpper = isAsciiWord c := by
  rw [Bool.eq_iff_iff, isAsciiWord_iff, isAsciiWord_iff, toNat_toUpper]
  split <;> omega

/-! ## Every step reads -/

theorem blockComment_length {text rest : List Char} (h : blockComment text = .ok rest) :
    rest.length ≤ text.length := by
  fun_induction blockComment text with
  | case1 => cases h
  | case2 => cases h; simp only [List.length_cons]; omega
  | case3 _ _ _ ih => exact (ih h).trans (Nat.le_succ _)

theorem quotedText_length {quote : Char} {escapes : Bool} {text raw rest : List Char}
    (h : quotedText quote escapes text = .ok (raw, rest)) : rest.length ≤ text.length := by
  fun_induction quotedText quote escapes text generalizing raw rest with
  | case1 => cases h
  | case2 => cases h
  | case3 c hescape d text ih =>
    obtain ⟨⟨inner, r⟩, hinner, hread⟩ := map_eq_ok.1 h
    cases hread
    have := ih hinner
    simp only [List.length_cons]
    omega
  | case4 => cases h; exact Nat.zero_le _
  | case5 hescape text ih =>
    obtain ⟨⟨inner, r⟩, hinner, hread⟩ := map_eq_ok.1 h
    cases hread
    have := ih hinner
    simp only [List.length_cons]
    omega
  | case6 => cases h; exact Nat.le_succ _
  | case7 c text hescape hquote ih =>
    obtain ⟨⟨inner, r⟩, hinner, hread⟩ := map_eq_ok.1 h
    cases hread
    have := ih hinner
    simp only [List.length_cons]
    omega

section Lexer

variable (executable : List Char → Except LexError (List Token × Nat))

theorem reads_step : Reads (step executable) := by
  intro c text tokens rest hstep
  rw [step] at hstep
  split at hstep
  next => cases hstep; exact Nat.le_refl _
  split at hstep
  next hline =>
    cases hstep
    have hfirst : c ≠ '\n' := by
      rintro rfl
      cases hline
    rw [List.dropWhile_cons_of_pos (by simpa using hfirst)]
    exact (List.dropWhile_suffix _).length_le
  split at hstep
  next =>
    obtain ⟨⟨read, n⟩, -, hread⟩ := map_eq_ok.1 hstep
    cases hread
    exact (List.drop_suffix n text).length_le
  split at hstep
  next =>
    obtain ⟨r, hcomment, hread⟩ := map_eq_ok.1 hstep
    cases hread
    exact (blockComment_length hcomment).trans (by simp)
  split at hstep
  next =>
    obtain ⟨⟨raw, r⟩, hquoted, hread⟩ := map_eq_ok.1 hstep
    cases hread
    exact quotedText_length hquoted
  split at hstep
  next => cases hstep; exact (List.dropWhile_suffix _).length_le
  next => cases hstep; exact Nat.le_refl _

end Lexer

end Plenora.Lib.MysqlLexer
