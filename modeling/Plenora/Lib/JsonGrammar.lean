import Plenora.Lib.JsonText

/-!
# JSON values and their spellings

A string is a list of code points; a surrogate that no other one completes is a code point of its
own.  A document spells one value, with spaces around it.

    Spells (.value v) text → Stops v rest → ...
-/

namespace Plenora.Lib.Json

/-! ## Code points -/

/-- What stands for a code point, or for half of a pair. -/
inductive Mark where
  | char (c : Char)
  | escape (e : Char)
  | unit (digits : Text)

def Mark.WellFormed : Mark → Prop
  | .char c => c ≠ '"' ∧ c ≠ '\\' ∧ 0x20 ≤ c.toNat
  | .escape e => ∃ c, escaped e = some c
  | .unit digits => ∃ n, IsCode digits n

def Mark.text : Mark → Text
  | .char c => [c]
  | .escape e => ['\\', e]
  | .unit digits => '\\' :: 'u' :: digits

def isHigh (n : Nat) : Bool := 0xD800 ≤ n && n ≤ 0xDBFF

def isLow (n : Nat) : Bool := 0xDC00 ≤ n && n ≤ 0xDFFF

/-- The code points of a string: a high surrogate and the low one behind it are one. -/
def points : List Mark → List Nat
  | [] => []
  | .char c :: rest => c.toNat :: points rest
  | .escape e :: rest => ((escaped e).getD e).toNat :: points rest
  | .unit high :: .unit low :: rest =>
    if isHigh (codeOf high) ∧ isLow (codeOf low) then
      ofPair (codeOf high) (codeOf low) :: points rest
    else codeOf high :: points (.unit low :: rest)
  | .unit digits :: rest => codeOf digits :: points rest

/-- A string between its quotes. -/
def quoted (marks : List Mark) : Text := '"' :: (marks.flatMap Mark.text ++ ['"'])

/-! ## Values -/

inductive Value where
  | word (raw : Text)
  | number (raw : Text)
  | string (points : List Nat)
  | array (items : List Value)
  | object (members : List (List Nat × Value))

/-- Some object, at some depth, has a key twice. -/
inductive Value.Repeats : Value → Prop
  | key {members : List (List Nat × Value)} : ¬ (members.map Prod.fst).Nodup →
    Value.Repeats (.object members)
  | member {members : List (List Nat × Value)} {m : List Nat × Value} : m ∈ members →
    Value.Repeats m.2 → Value.Repeats (.object members)
  | item {items : List Value} {v : Value} : v ∈ items → Value.Repeats v →
    Value.Repeats (.array items)

/-- The value of the first member with a key. -/
def valueAt (members : List (List Nat × Value)) (key : List Nat) : Option Value :=
  (members.find? fun m => m.1 = key).map Prod.snd

inductive Phrase where
  | value (v : Value)
  | items (items : List Value)
  | members (members : List (List Nat × Value))
  /-- The value of a member, and the members behind it. -/
  | rest (v : Value) (members : List (List Nat × Value))

/-- The texts of a value, of what stands between two brackets, and of what follows a colon. -/
inductive Spells : Phrase → Text → Prop
  | word {raw : Text} : raw ∈ ["null".toList, "true".toList, "false".toList] →
    Spells (.value (.word raw)) raw
  | number {raw : Text} : IsNumber raw → Spells (.value (.number raw)) raw
  | string {marks : List Mark} : (∀ m ∈ marks, m.WellFormed) →
    Spells (.value (.string (points marks))) (quoted marks)
  | emptyArray {spaces : Text} : IsSpace spaces →
    Spells (.value (.array [])) ('[' :: (spaces ++ [']']))
  | array {items : List Value} {text : Text} : Spells (.items items) text →
    Spells (.value (.array items)) ('[' :: (text ++ [']']))
  | emptyObject {spaces : Text} : IsSpace spaces →
    Spells (.value (.object [])) ('{' :: (spaces ++ ['}']))
  | object {members : List (List Nat × Value)} {text : Text} : Spells (.members members) text →
    Spells (.value (.object members)) ('{' :: (text ++ ['}']))
  | one {before text after : Text} {v : Value} : IsSpace before → Spells (.value v) text →
    IsSpace after → Spells (.items [v]) (before ++ (text ++ after))
  | more {before text after others : Text} {v : Value} {items : List Value} : IsSpace before →
    Spells (.value v) text → IsSpace after → Spells (.items items) others →
    Spells (.items (v :: items)) (before ++ (text ++ (after ++ ',' :: others)))
  | members {before between text : Text} {marks : List Mark} {v : Value}
    {members : List (List Nat × Value)} : IsSpace before → (∀ m ∈ marks, m.WellFormed) →
    IsSpace between → Spells (.rest v members) text →
    Spells (.members ((points marks, v) :: members))
      (before ++ (quoted marks ++ (between ++ ':' :: text)))
  | last {before text after : Text} {v : Value} : IsSpace before → Spells (.value v) text →
    IsSpace after → Spells (.rest v []) (before ++ (text ++ after))
  | next {before text after others : Text} {v : Value} {members : List (List Nat × Value)} :
    IsSpace before → Spells (.value v) text → IsSpace after → Spells (.members members) others →
    Spells (.rest v members) (before ++ (text ++ (after ++ ',' :: others)))

/-- One value, with spaces around it. -/
def IsDocument (v : Value) (text : Text) : Prop :=
  ∃ before body after, text = before ++ (body ++ after) ∧ IsSpace before ∧
    Spells (.value v) body ∧ IsSpace after

end Plenora.Lib.Json
