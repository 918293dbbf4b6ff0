import Plenora.Postgres.Agtype

/-!
# The grammar of agtype texts

One relation reads a text as a value under a set of `Rules`: which atoms, objects and
annotations there are.  `codeRules` are those of the parser.  `Breaks` says where the parser
neither gives a value nor refuses.
-/

namespace Plenora.Postgres.Agtype

open Plenora.Lib Plenora.Lib.Json

/-! ## Grammar -/

/-- What a grammar leaves open. -/
structure Rules where
  atom : Text → GraphValue → Prop
  /-- The map that the members of an object give. -/
  object : Fields → Fields → Prop
  /-- The texts that `::numeric` keeps as they are. -/
  numeral : Text → Prop
  /-- What an annotation makes of the value before it and its text. -/
  annotation : Text → Text → GraphValue → GraphValue → Prop

/-- What a text is read as. -/
inductive Part where
  /-- A value without annotation and spaces around it. -/
  | core (v : GraphValue)
  | value (v : GraphValue)
  | items (vs : List GraphValue)
  | members (fields : Fields)

def IsSpace (spaces : Text) : Prop := ∀ c ∈ spaces, isAsciiWhitespace c = true

/-- The text reads as the part, with at most `n` values one inside the other. -/
inductive Reads (rules : Rules) : Nat → Text → Part → Prop
  | atom {n token v} (hatom : rules.atom token v) : Reads rules n token (.core v)
  | string {n pieces} (hpieces : ∀ p ∈ pieces, Piece.WellFormed p) :
    Reads rules n (literal pieces) (.core (.string (decode pieces)))
  | emptyList {n spaces} (hspaces : IsSpace spaces) :
    Reads rules n ('[' :: spaces ++ [']']) (.core (.list []))
  | list {n text vs} (hitems : Reads rules n text (.items vs)) :
    Reads rules n ('[' :: text ++ [']']) (.core (.list vs))
  | emptyMap {n spaces} (hspaces : IsSpace spaces) :
    Reads rules n ('{' :: spaces ++ ['}']) (.core (.map []))
  | map {n text members fields} (hmembers : Reads rules n text (.members members))
    (hobject : rules.object members fields) :
    Reads rules n ('{' :: text ++ ['}']) (.core (.map fields))
  | plain {n before text after v} (hbefore : IsSpace before) (hcore : Reads rules n text (.core v))
    (hafter : IsSpace after) : Reads rules (n + 1) (before ++ (text ++ after)) (.value v)
  | numeral {n before text after} (hbefore : IsSpace before) (hnumeral : rules.numeral text)
    (hafter : IsSpace after) :
    Reads rules (n + 1) (before ++ (text ++ (after ++ ':' :: ':' :: "numeric".toList)))
      (.value (.numeric text))
  | annotated {n before text after suffix v w} (hbefore : IsSpace before)
    (hcore : Reads rules n text (.core v)) (hafter : IsSpace after)
    (hsuffix : ∀ c ∈ suffix, c.isAlpha) (hannotated : rules.annotation suffix text v w) :
    Reads rules (n + 1) (before ++ (text ++ (after ++ ':' :: ':' :: suffix))) (.value w)
  | item {n text after v} (hvalue : Reads rules n text (.value v)) (hafter : IsSpace after) :
    Reads rules n (text ++ after) (.items [v])
  | items {n text after more v vs} (hvalue : Reads rules n text (.value v)) (hafter : IsSpace after)
    (hmore : Reads rules n more (.items vs)) :
    Reads rules n (text ++ (after ++ ',' :: more)) (.items (v :: vs))
  | member {n before pieces between text after v} (hbefore : IsSpace before)
    (hpieces : ∀ p ∈ pieces, Piece.WellFormed p) (hbetween : IsSpace between)
    (hvalue : Reads rules n text (.value v)) (hafter : IsSpace after) :
    Reads rules n (before ++ (literal pieces ++ (between ++ ':' :: (text ++ after))))
      (.members [(decode pieces, v)])
  | members {n before pieces between text after more v fields} (hbefore : IsSpace before)
    (hpieces : ∀ p ∈ pieces, Piece.WellFormed p) (hbetween : IsSpace between)
    (hvalue : Reads rules n text (.value v)) (hafter : IsSpace after)
    (hmore : Reads rules n more (.members fields)) :
    Reads rules n
      (before ++ (literal pieces ++ (between ++ ':' :: (text ++ (after ++ ',' :: more)))))
      (.members ((decode pieces, v) :: fields))

/-! ## The rules of the parser -/

/-- The map after the members of an object, each put in. -/
def insertAll (fields : Fields) (members : Fields) : Fields :=
  members.foldl (fun fields member => Fields.insert member.1 member.2 fields) fields

def codeRules : Rules where
  atom := fun token v => atomValue token = some v
  object := fun members fields => fields = insertAll [] members
  numeral := fun _ => False
  annotation := fun suffix text v w => annotate suffix text v = .ok w

/-! ## Where the parser breaks -/

/-- Characters that one atom goes over. -/
def InAtom (token : Text) : Prop :=
  (∀ c ∈ token, endsAtom c = false ∧ isAscii c = true) ∧ ¬ [':', ':'] <:+: token

/-- An atom does not begin with these. -/
def opens (c : Char) : Bool := c = '"' || c = '{' || c = '['

/-- What the parser is reading when it breaks. -/
inductive Place where
  | value
  | items
  | members

/-- With room for `n` calls, the parser meets one call too many or an atom with a character
outside ASCII, and all before it reads well. -/
inductive Breaks : Nat → Text → Place → Prop
  | deep {text} : Breaks 0 text .value
  | atom {n before token c rest} (hbefore : IsSpace before) (htoken : InAtom token)
    (hc : isAscii c = false) (hopens : ∀ d ∈ token.head?, opens d = false) :
    Breaks (n + 1) (before ++ (token ++ c :: rest)) .value
  | list {n before text} (hbefore : IsSpace before) (hopen : (skipWhitespace text).head? ≠ some ']')
    (hitems : Breaks n text .items) : Breaks (n + 1) (before ++ '[' :: text) .value
  | map {n before text} (hbefore : IsSpace before) (hmembers : Breaks n text .members) :
    Breaks (n + 1) (before ++ '{' :: text) .value
  | item {n text} (hvalue : Breaks n text .value) : Breaks n text .items
  | items {n text after more v} (hvalue : Reads codeRules n text (.value v))
    (hafter : IsSpace after) (hmore : Breaks n more .items) :
    Breaks n (text ++ (after ++ ',' :: more)) .items
  | member {n before pieces between text} (hbefore : IsSpace before)
    (hpieces : ∀ p ∈ pieces, Piece.WellFormed p) (hbetween : IsSpace between)
    (hvalue : Breaks n text .value) :
    Breaks n (before ++ (literal pieces ++ (between ++ ':' :: text))) .members
  | members {n before pieces between text after more v} (hbefore : IsSpace before)
    (hpieces : ∀ p ∈ pieces, Piece.WellFormed p) (hbetween : IsSpace between)
    (hvalue : Reads codeRules n text (.value v)) (hafter : IsSpace after)
    (hmore : Breaks n more .members) :
    Breaks n (before ++ (literal pieces ++ (between ++ ':' :: (text ++ (after ++ ',' :: more)))))
      .members

end Plenora.Postgres.Agtype
