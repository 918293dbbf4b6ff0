import Plenora.Lib.Utf8
import Plenora.Lib.WktGrammar

/-!
# The identifiers of a CRS definition

`wktTokens` scans the bytes of a well-known text and slices it as text; a slice inside a character
would panic.  `node` reads the tokens of a node and its items, `wktIdentifiers` the pairs of an
authority and a code that the root carries, and `contradicts` compares them with an identifier.

    wktRoot text admitted = .value root ↔ text is a node within the limits   (CrsWkt.wktRoot_iff)
-/

namespace Plenora.Core.CrsDefinition

open Plenora.Lib.Utf8 Plenora.Lib.WktGrammar

/-! ## Data model -/

inductive DefinitionFormat where
  | wkt | wkt2 | projjson
  deriving DecidableEq, Repr

def DefinitionFormat.parse (value : String) : Option DefinitionFormat :=
  if value = "wkt" then some .wkt
  else if value = "wkt2" then some .wkt2
  else if value = "projjson" then some .projjson
  else none

def maxDepth : Nat := 32

def maxDefinitionBytes : Nat := 2 ^ 20

def withinSizeLimit (text : List Char) : Bool := (utf8 text).length ≤ maxDefinitionBytes

/-- How a reading ends. -/
inductive Reading (α : Type) where
  | value (a : α)
  | malformed
  /-- A slice that begins or ends inside a character. -/
  | panics
  deriving DecidableEq, Repr

def Reading.bind {α β : Type} : Reading α → (α → Reading β) → Reading β
  | .value a, f => f a
  | .malformed, _ => .malformed
  | .panics, _ => .panics

/-- An authority or a code of a definition. -/
inductive DefinitionText where
  | unicode (text : List Char)
  | loneSurrogates
  deriving DecidableEq, Repr

def lower (c : Char) : Char := if 'A' ≤ c ∧ c ≤ 'Z' then Char.ofNat (c.toNat + 32) else c

/-- `eq_ignore_ascii_case`. -/
def eqIgnoreAsciiCase (a b : List Char) : Bool := a.map lower = b.map lower

def DefinitionText.equals (t : DefinitionText) (other : List Char) : Bool :=
  match t with
  | .unicode text => text = other
  | .loneSurrogates => false

def pythonSpace (c : Char) : Bool :=
  let n := c.toNat
  (9 ≤ n && n ≤ 0xd) || (0x1c ≤ n && n ≤ 0x20) || n = 0x85 || n = 0xa0 || n = 0x1680 ||
    (0x2000 ≤ n && n ≤ 0x200a) || n = 0x2028 || n = 0x2029 || n = 0x202f || n = 0x205f || n = 0x3000

def wkt1Roots : List String :=
  ["GEOGCS", "PROJCS", "GEOCCS", "VERT_CS", "COMPD_CS", "LOCAL_CS", "FITTED_CS"]

def wkt2Roots : List String :=
  ["GEOGCRS", "GEOGRAPHICCRS", "GEODCRS", "GEODETICCRS", "PROJCRS", "PROJECTEDCRS", "VERTCRS",
    "VERTICALCRS", "COMPOUNDCRS", "ENGCRS", "ENGINEERINGCRS", "BOUNDCRS", "DERIVEDPROJCRS",
    "TIMECRS", "PARAMETRICCRS"]

/-! ## Tokens -/

/-- `text[start..stop]`. -/
def sliced (text : List Char) (start stop : Nat) : Reading (List Char) :=
  if stop < start then .panics
  else
    match (dropBytes text start).bind (takeBytes · (stop - start)) with
    | some piece => .value piece
    | none => .panics

/-- `text[i..].chars().next()`. -/
def charAt (text : List Char) (i : Nat) : Reading Char :=
  match dropBytes text i with
  | none => .panics
  | some [] => .malformed
  | some (c :: _) => .value c

def digitsAt (bytes : List UInt8) (i : Nat) : Nat := ((bytes.drop i).takeWhile isAsciiDigit).length

def signAt (bytes : List UInt8) (i : Nat) : Bool :=
  bytes[i]? = some (ascii '+') || bytes[i]? = some (ascii '-')

/-- The end of the digits and the point of a number. -/
def mantissaEnd (bytes : List UInt8) (i : Nat) : Option Nat :=
  let integer := digitsAt bytes i
  if integer > 0 then
    let i := i + integer
    if bytes[i]? = some (ascii '.') then some (i + 1 + digitsAt bytes (i + 1)) else some i
  else if bytes[i]? ≠ some (ascii '.') then none
  else
    let decimals := digitsAt bytes (i + 1)
    if decimals = 0 then none else some (i + 1 + decimals)

/-- The end of an exponent at `i`, or `i` where there is none. -/
def exponentEnd (bytes : List UInt8) (i : Nat) : Nat :=
  if bytes[i]? = some (ascii 'e') ∨ bytes[i]? = some (ascii 'E') then
    let j := if signAt bytes (i + 1) then i + 2 else i + 1
    let exponent := digitsAt bytes j
    if exponent > 0 then j + exponent else i
  else i

def numberEnd (bytes : List UInt8) (start : Nat) : Option Nat :=
  (mantissaEnd bytes (if signAt bytes start then start + 1 else start)).map (exponentEnd bytes)

theorem charAt_lt {text : List Char} {i : Nat} {c : Char} (h : charAt text i = .value c) :
    i + c.utf8Size ≤ (utf8 text).length := by
  unfold charAt at h
  split at h
  next => cases h
  next => cases h
  next c' rest hdrop =>
    cases h
    induction text generalizing i with
    | nil =>
      cases i with
      | zero => cases hdrop
      | succ n => cases hdrop
    | cons d text ih =>
      rw [length_utf8_cons]
      cases i with
      | zero =>
        rw [dropBytes, Option.some.injEq, List.cons.injEq] at hdrop
        rw [hdrop.1]
        omega
      | succ n =>
        rw [dropBytes] at hdrop
        split at hdrop
        next hle =>
          have := ih hdrop
          omega
        next => cases hdrop

/-- The text of a quoted string from behind its first quote, and where its last one stands. -/
def quoted (text : List Char) (value : List Char) (j : Nat) : Reading (List Char × Nat) :=
  if _hj : j < (utf8 text).length then
    if (utf8 text)[j]? = some (ascii '"') then
      if (utf8 text)[j + 1]? = some (ascii '"') then quoted text (value ++ ['"']) (j + 2)
      else .value (value, j)
    else
      match _h : charAt text j with
      | .value c => quoted text (value ++ [c]) (j + c.utf8Size)
      | .malformed => .malformed
      | .panics => .panics
  else .malformed
termination_by (utf8 text).length - j
decreasing_by
  · omega
  · have := charAt_lt _h
    have := c.utf8Size_pos
    omega

def startsNumber (b : UInt8) : Bool :=
  b = ascii '+' || b = ascii '-' || b = ascii '.' || isAsciiDigit b

def startsWord (b : UInt8) : Bool := isAsciiAlphabetic b || b = ascii '_'

def wordEnd (bytes : List UInt8) (i : Nat) : Nat :=
  i + 1 + ((bytes.drop (i + 1)).takeWhile fun b => Lib.Utf8.isAsciiAlphanumeric b || b = ascii '_').length

/-- One turn of the loop of `wkt_tokens`: the token read, if any, and the next position. -/
def step (text : List Char) (i : Nat) : Reading (Option Token × Nat) :=
  (charAt text i).bind fun c =>
    if pythonSpace c then .value (none, i + c.utf8Size)
    else
      let bytes := utf8 text
      match bytes[i]? with
      | none => .panics
      | some b =>
        if b = ascii '[' then .value (some (.opening '['), i + 1)
        else if b = ascii '(' then .value (some (.opening '('), i + 1)
        else if b = ascii ']' then .value (some (.closing ']'), i + 1)
        else if b = ascii ')' then .value (some (.closing ')'), i + 1)
        else if b = ascii ',' then .value (some .comma, i + 1)
        else if b = ascii '"' then
          (quoted text [] (i + 1)).bind fun r => .value (some (.text r.1), r.2 + 1)
        else if startsNumber b then
          match numberEnd bytes i with
          | none => .malformed
          | some stop => (sliced text i stop).bind fun value => .value (some (.number value), stop)
        else if startsWord b then
          (sliced text i (wordEnd bytes i)).bind fun value =>
            .value (some (.word value), wordEnd bytes i)
        else .malformed

/-! ### Every turn goes forward -/

theorem Reading.bind_eq_value {α β : Type} {x : Reading α} {f : α → Reading β} {b : β} :
    x.bind f = .value b ↔ ∃ a, x = .value a ∧ f a = .value b := by
  cases x with
  | value a =>
    constructor
    · exact fun h => ⟨a, rfl, h⟩
    · rintro ⟨_, ⟨⟩, h⟩
      exact h
  | malformed =>
    constructor
    · rintro ⟨⟩
    · rintro ⟨_, ⟨⟩, _⟩
  | panics =>
    constructor
    · rintro ⟨⟩
    · rintro ⟨_, ⟨⟩, _⟩

theorem quoted_le {text value out : List Char} {j k : Nat}
    (h : quoted text value j = .value (out, k)) : j ≤ k := by
  fun_induction quoted text value j with
  | case1 value j _ _ _ ih =>
    have := ih h
    omega
  | case2 =>
    cases h
    exact Nat.le_refl _
  | case3 value j _ _ c _ ih =>
    have := ih h
    omega
  | case4 => cases h
  | case5 => cases h
  | case6 => cases h

theorem numberEnd_lt {bytes : List UInt8} {i j : Nat} (h : numberEnd bytes i = some j) : i < j := by
  unfold numberEnd at h
  obtain ⟨m, hm, rfl⟩ := Option.map_eq_some_iff.1 h
  have hmantissa {k : Nat} (hk : mantissaEnd bytes k = some m) : k < m := by
    unfold mantissaEnd at hk
    dsimp only at hk
    split at hk
    · split at hk
      · cases hk
        omega
      · cases hk
        omega
    · split at hk
      · cases hk
      · split at hk
        · cases hk
        · cases hk
          omega
  have hexponent : m ≤ exponentEnd bytes m := by
    unfold exponentEnd
    dsimp only
    split
    · split
      · split <;> omega
      · split <;> omega
    · exact Nat.le_refl _
  have := hmantissa hm
  split at this <;> omega

theorem step_lt {text : List Char} {i j : Nat} {t : Option Token}
    (h : step text i = .value (t, j)) : i < j := by
  unfold step at h
  obtain ⟨c, -, h⟩ := Reading.bind_eq_value.1 h
  have hsize := c.utf8Size_pos
  split at h
  next =>
    cases h
    omega
  next =>
  dsimp only at h
  split at h
  next => cases h
  next b _ =>
  split at h
  next => cases h; omega
  next =>
  split at h
  next => cases h; omega
  next =>
  split at h
  next => cases h; omega
  next =>
  split at h
  next => cases h; omega
  next =>
  split at h
  next => cases h; omega
  next =>
  split at h
  next =>
    obtain ⟨⟨value, k⟩, hquoted, hvalue⟩ := Reading.bind_eq_value.1 h
    have := quoted_le hquoted
    cases hvalue
    omega
  next =>
  split at h
  next =>
    split at h
    next => cases h
    next stop hstop =>
      obtain ⟨value, -, hvalue⟩ := Reading.bind_eq_value.1 h
      cases hvalue
      exact numberEnd_lt hstop
  next =>
  split at h
  next =>
    obtain ⟨value, -, hvalue⟩ := Reading.bind_eq_value.1 h
    cases hvalue
    unfold wordEnd
    omega
  next => cases h

/-- The loop of `wkt_tokens` from a position on. -/
def tokensFrom (text : List Char) (i : Nat) : Reading (List Token) :=
  if _hi : i < (utf8 text).length then
    match _h : step text i with
    | .value (t, j) => (tokensFrom text j).bind fun ts => .value (t.toList ++ ts)
    | .malformed => .malformed
    | .panics => .panics
  else .value []
termination_by (utf8 text).length - i
decreasing_by
  have := step_lt _h
  omega

def wktTokens (text : List Char) : Reading (List Token) := tokensFrom text 0

/-! ## Nodes -/

/-- One item of a node; `child` reads a node inside it. -/
def itemAt (child : List Token → Option (Item × List Token)) :
    List Token → Option (Item × List Token)
  | .word keyword :: .opening c :: rest => child (.word keyword :: .opening c :: rest)
  | .text value :: rest => some (.text value, rest)
  | .number value :: rest => some (.number value, rest)
  | .word _ :: rest => some (.word, rest)
  | _ => none

/-- The items of a node up to its closing bracket. -/
def itemsWith (child : List Token → Option (Item × List Token)) (closing : Char) :
    Nat → List Token → Option (List Item × List Token)
  | 0, _ => none
  | fuel + 1, tokens =>
    match itemAt child tokens with
    | some (item, .closing c :: rest) => if c = closing then some ([item], rest) else none
    | some (item, .comma :: rest) =>
      (itemsWith child closing fuel rest).map fun r => (item :: r.1, r.2)
    | _ => none

/-- `node`, with the levels that are still admitted; a list of items is shorter than its tokens. -/
def node : Nat → List Token → Option (Item × List Token)
  | 0, _ => none
  | levels + 1, .word keyword :: .opening c :: tokens =>
    (itemsWith (node levels) (mate c) tokens.length tokens).map fun r =>
      (.node keyword r.1, r.2)
  | _ + 1, _ => none

/-- The root node, for the keywords admitted at the root. -/
def wktRoot (text : List Char) (admitted : List String) : Reading (List Char × List Item) :=
  if ¬ withinSizeLimit text then .malformed
  else (wktTokens text).bind fun tokens =>
    match node (maxDepth + 1) tokens with
    | some (.node keyword items, []) =>
      if admitted.any fun root => eqIgnoreAsciiCase keyword root.toList then
        .value (keyword, items)
      else .malformed
    | _ => .malformed

/-! ## Identifiers -/

/-- A code written as a decimal integer: `+0043` is `43`. -/
def numericCode (number : List Char) : Option (List Char) :=
  let digits := match number with
    | '+' :: digits => digits
    | digits => digits
  if digits = [] ∨ ¬ digits.all isDigit then none
  else
    let trimmed := digits.dropWhile (· = '0')
    some (if trimmed = [] then ['0'] else trimmed)

/-- The authority and the code of a child of the root. -/
def pairOf (items : List Item) : Option (List Char × List Char) :=
  match items with
  | .text authority :: .text code :: _ => some (authority, code)
  | .text authority :: .number number :: _ => (numericCode number).map (authority, ·)
  | _ => none

def wktIdentifiers (keyword : String) : List Item → Option (List (List Char × List Char))
  | [] => some []
  | .node child items :: rest =>
    if eqIgnoreAsciiCase child keyword.toList then do
      let pair ← pairOf items
      let pairs ← wktIdentifiers keyword rest
      some (pair :: pairs)
    else wktIdentifiers keyword rest
  | _ :: rest => wktIdentifiers keyword rest

section Identifiers

-- `projjson::identifiers`
variable (projjson : List Char → Reading (List (DefinitionText × DefinitionText)))

def wktPairs (text : List Char) (admitted : List String) (keyword : String) :
    Reading (List (DefinitionText × DefinitionText)) :=
  (wktRoot text admitted).bind fun root =>
    match wktIdentifiers keyword root.2 with
    | some pairs => .value (pairs.map fun pair => (.unicode pair.1, .unicode pair.2))
    | none => .malformed

def identifiers (text : List Char) : DefinitionFormat →
    Reading (List (DefinitionText × DefinitionText))
  | .projjson => projjson text
  | .wkt => wktPairs text wkt1Roots "AUTHORITY"
  | .wkt2 => wktPairs text wkt2Roots "ID"

end Identifiers

end Plenora.Core.CrsDefinition
