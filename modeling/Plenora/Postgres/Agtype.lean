import Plenora.Core.Graph
import Plenora.Lib.JsonStrings
import Plenora.Lib.NumberText

/-!
# Graph values as text

`parseAgtype` reads the text that `agtype_out` prints.  The parser is recursive descent over
the bytes of a valid UTF-8 text; here it goes over the characters, and what it does inside one
is an outcome of its own.  A list or an object inside a value is a call inside a call: `stack`
is how many calls of `parse_value` the thread has room for.

    parseAgtype fromStr stack text = .ok v ∨ .error e ∨ .panics ∨ .overflows
-/

namespace Plenora.Postgres.Agtype

open Plenora.Core Plenora.Lib Plenora.Lib.Json
open Plenora.Lib.NumberText (parseI64 parseF64)

/-! ## Values -/

inductive GraphValue where
  | null
  | bool (value : Bool)
  | integer (value : Int)
  /-- The bits of a binary64. -/
  | float (bits : UInt64)
  | numeric (text : Text)
  | string (text : Text)
  | list (items : List GraphValue)
  | map (fields : List (Text × GraphValue))
  | vertex (id : Int) (label : Text) (properties : List (Text × GraphValue))
  | edge (id : Int) (label : Text) (startId endId : Int) (properties : List (Text × GraphValue))
  | path (items : List GraphValue)

/-- A `BTreeMap`: its entries in the order of their keys. -/
abbrev Fields := List (Text × GraphValue)

/-- `BTreeMap::insert`, which replaces the value of a key that is there. -/
def Fields.insert (key : Text) (value : GraphValue) : Fields → Fields
  | [] => [(key, value)]
  | entry :: fields =>
    if key < entry.1 then (key, value) :: entry :: fields
    else if key = entry.1 then (key, value) :: fields
    else entry :: Fields.insert key value fields

def Fields.get (fields : Fields) (key : Text) : Option GraphValue :=
  (fields.find? (·.1 = key)).map Prod.snd

/-! ## Outcomes -/

def maxAgtypeCellBytes : Nat := 8 * 1048576

def mappingError (message : String) : DatabaseError :=
  .new .dataMapping .read (some .postgres) message

/-- How a part of the parser ends. -/
inductive Step (α : Type) where
  | done (value : α) (rest : Text)
  | refused (message : String)
  /-- A slice that begins inside a character. -/
  | panics
  /-- One call more than the stack holds. -/
  | overflows

def Step.bind {α β : Type} : Step α → (α → Text → Step β) → Step β
  | .done value rest, f => f value rest
  | .refused message, _ => .refused message
  | .panics, _ => .panics
  | .overflows, _ => .overflows

def Step.map {α β : Type} (f : α → β) (s : Step α) : Step β := s.bind fun a rest => .done (f a) rest

/-- How `parse_agtype` ends. -/
inductive Outcome where
  | ok (value : GraphValue)
  | error (e : DatabaseError)
  | panics
  | overflows

/-! ## Scanning -/

/-- `u8::is_ascii_whitespace`. -/
def isAsciiWhitespace (c : Char) : Bool :=
  c = ' ' || c = '\t' || c = '\n' || c = '\x0C' || c = '\r'

def isAscii (c : Char) : Bool := c.toNat < 128

def skipWhitespace (text : Text) : Text := text.dropWhile isAsciiWhitespace

/-- Does an atom end before this character. -/
def endsAtom (c : Char) : Bool := isAsciiWhitespace c || c = ',' || c = ']' || c = '}'

/-- The loop of `parse_atom`.  The first byte of a character outside ASCII ends nothing, and at
the second `remaining` slices inside the character. -/
def scanAtom : Text → Step Text
  | [] => .done [] []
  | c :: rest =>
    if endsAtom c ∨ [':', ':'] <+: c :: rest then .done [] (c :: rest)
    else if isAscii c then (scanAtom rest).map (c :: ·)
    else .panics

def atomValue (token : Text) : Option GraphValue :=
  if token = "null".toList then some .null
  else if token = "true".toList then some (.bool true)
  else if token = "false".toList then some (.bool false)
  else if token = "NaN".toList ∨ token = "Infinity".toList ∨ token = "-Infinity".toList then
    some (.numeric token)
  else ((parseI64 token).map GraphValue.integer).or ((parseF64 token).map GraphValue.float)

def parseAtom (text : Text) : Step GraphValue :=
  (scanAtom text).bind fun token rest =>
    match atomValue token with
    | some value => .done value rest
    | none => .refused "numero agtype non valido"

section Parser

variable (fromStr : Text → Option Text)

/-- `parse_string`, on the text after the opening quote. -/
def parseString (text : Text) : Step Text :=
  match literalEnd false text with
  | none => .refused "stringa agtype non terminata"
  | some (body, rest) =>
    match fromStr ('"' :: body ++ ['"']) with
    | some s => .done s rest
    | none => .refused "stringa agtype non valida"

/-! ## Annotations -/

def takeInteger (fields : Fields) (name message : String) : Except String Int :=
  match fields.get name.toList with
  | some (.integer value) => .ok value
  | _ => .error message

def takeString (fields : Fields) (name message : String) : Except String Text :=
  match fields.get name.toList with
  | some (.string value) => .ok value
  | _ => .error message

def takeMap (fields : Fields) (name message : String) : Except String Fields :=
  match fields.get name.toList with
  | some (.map value) => .ok value
  | _ => .error message

def vertexFromValue : GraphValue → Except String GraphValue
  | .map fields => do
    let id ← takeInteger fields "id" "vertex agtype non valido"
    let label ← takeString fields "label" "vertex agtype non valido"
    let properties ← takeMap fields "properties" "vertex agtype non valido"
    .ok (.vertex id label properties)
  | _ => .error "vertex agtype non valido"

def edgeFromValue : GraphValue → Except String GraphValue
  | .map fields => do
    let id ← takeInteger fields "id" "edge agtype non valido"
    let label ← takeString fields "label" "edge agtype non valido"
    let startId ← takeInteger fields "start_id" "edge agtype non valido"
    let endId ← takeInteger fields "end_id" "edge agtype non valido"
    let properties ← takeMap fields "properties" "edge agtype non valido"
    .ok (.edge id label startId endId properties)
  | _ => .error "edge agtype non valido"

/-- `str::trim`. -/
def trim (text : Text) : Text :=
  (text.dropWhile Graph.isWhiteSpace).rdropWhile Graph.isWhiteSpace

/-- What an annotation makes of the value before it, whose text is `raw`. -/
def annotate (suffix raw : Text) (value : GraphValue) : Except String GraphValue :=
  if suffix = "numeric".toList then .ok (.numeric (trim raw))
  else if suffix = "vertex".toList then vertexFromValue value
  else if suffix = "edge".toList then edgeFromValue value
  else if suffix = "path".toList then
    match value with
    | .list items => .ok (.path items)
    | _ => .error "path agtype non valido"
  else .error "annotazione agtype non supportata"

/-- What follows a value that begins at `start`: its annotation, if there is one. -/
def parseAnnotation (start : Text) (value : GraphValue) (suffixStart : Text) : Step GraphValue :=
  match suffixStart with
  | ':' :: ':' :: rest =>
    match annotate (rest.takeWhile Char.isAlpha)
        (start.take (start.length - suffixStart.length)) value with
    | .ok value => .done value (rest.dropWhile Char.isAlpha)
    | .error message => .refused message
  | _ => .done value suffixStart

/-! ## Lists, objects and values

`inner` is the call of `parse_value` for what stands inside.  The loops take one turn for each
item: `fuel` turns are enough when the text is no longer. -/

def parseItems (inner : Text → Step GraphValue) :
    Nat → List GraphValue → Text → Step (List GraphValue)
  | 0, _, _ => .refused "lista agtype non valida"
  | fuel + 1, values, text =>
    (inner text).bind fun value rest =>
      match skipWhitespace rest with
      | ']' :: rest => .done (values ++ [value]) rest
      | ',' :: rest => parseItems inner fuel (values ++ [value]) rest
      | _ => .refused "lista agtype non valida"

/-- `parse_list`, on the text after the bracket. -/
def parseList (inner : Text → Step GraphValue) (text : Text) : Step (List GraphValue) :=
  match skipWhitespace text with
  | ']' :: rest => .done [] rest
  | text => parseItems inner (text.length + 1) [] text

def parseMembers (inner : Text → Step GraphValue) : Nat → Fields → Text → Step Fields
  | 0, _, _ => .refused "mappa agtype non valida"
  | fuel + 1, values, text =>
    match skipWhitespace text with
    | '"' :: text =>
      (parseString fromStr text).bind fun key rest =>
        match skipWhitespace rest with
        | ':' :: text =>
          (inner text).bind fun value rest =>
            match skipWhitespace rest with
            | '}' :: rest => .done (Fields.insert key value values) rest
            | ',' :: rest => parseMembers inner fuel (Fields.insert key value values) rest
            | _ => .refused "mappa agtype non valida"
        | _ => .refused "mappa agtype non valida"
    | _ => .refused "chiave mappa agtype non valida"

/-- `parse_map`, on the text after the brace. -/
def parseMap (inner : Text → Step GraphValue) (text : Text) : Step Fields :=
  match skipWhitespace text with
  | '}' :: rest => .done [] rest
  | text => parseMembers fromStr inner (text.length + 1) [] text

/-- The value without its annotation. -/
def parseCore (inner : Text → Step GraphValue) : Text → Step GraphValue
  | [] => .refused "valore agtype vuoto"
  | c :: rest =>
    if c = '"' then (parseString fromStr rest).map .string
    else if c = '{' then (parseMap fromStr inner rest).map .map
    else if c = '[' then (parseList inner rest).map .list
    else parseAtom (c :: rest)

def parseValue : Nat → Text → Step GraphValue
  | 0, _ => .overflows
  | stack + 1, text =>
    (parseCore fromStr (parseValue stack) (skipWhitespace text)).bind fun value rest =>
      parseAnnotation (skipWhitespace text) value (skipWhitespace rest)

/-- The bytes of a text. -/
def byteLength (text : Text) : Nat := (text.map Char.utf8Size).sum

def parseAgtype (stack : Nat) (text : Text) : Outcome :=
  if maxAgtypeCellBytes < byteLength text then
    .error (mappingError "cella agtype oltre il limite di 8 MiB")
  else
    match parseValue fromStr stack text with
    | .done value rest =>
      if skipWhitespace rest = [] then .ok value
      else .error (mappingError "valore agtype non riconosciuto")
    | .refused message => .error (mappingError message)
    | .panics => .panics
    | .overflows => .overflows

end Parser

end Plenora.Postgres.Agtype
