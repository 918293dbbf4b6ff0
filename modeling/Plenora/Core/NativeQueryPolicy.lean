import Plenora.Lib.Outcome
import Plenora.Core.Error

/-!
# The lexical rules of the native query policy

Where a quoted literal and a comment end, for the policies that read a native
query before it is sent.  A text is the list of its characters, a position what
follows it.
-/

namespace Plenora.Core.NativeQueryPolicy

open Plenora.Lib

def lexicalError : DatabaseError := .invalidPlan "statement SQL con delimitatori non validi"

/-- `is_ascii_whitespace`. -/
def isAsciiWhitespace (c : Char) : Bool :=
  c = '\t' || c = '\n' || c = '\x0c' || c = '\r' || c = ' '

/-- `is_ascii_control`. -/
def isAsciiControl (c : Char) : Bool := c.toNat ≤ 31 || c.toNat = 127

/-- `quoted_end`: the text before the closing quote, and what follows it. -/
def quotedEnd (close : Char) (backslash : Bool) : List Char → Result (List Char × List Char)
  | [] => .error lexicalError
  | c :: rest =>
    if backslash && c = '\\' then
      match rest with
      | [] => .error lexicalError
      | d :: rest => do
        let (text, r) ← quotedEnd close backslash rest
        .ok (c :: d :: text, r)
    else if c = close then
      match rest with
      | [] => .ok ([], [])
      | d :: rest =>
        if d ≠ close then .ok ([], d :: rest)
        else do
          let (text, r) ← quotedEnd close backslash rest
          .ok (c :: d :: text, r)
    else do
      let (text, r) ← quotedEnd close backslash rest
      .ok (c :: text, r)

/-- `comment_end`, with the comments open around the position. -/
def commentEnd (nestedComments : Bool) : Nat → List Char → Result (List Char)
  | _, [] => .error lexicalError
  | depth, [_] => commentEnd nestedComments depth []
  | depth, c :: d :: rest =>
    if nestedComments && c = '/' && d = '*' then commentEnd nestedComments (depth + 1) rest
    else if c = '*' && d = '/' then
      if depth = 1 then .ok rest else commentEnd nestedComments (depth - 1) rest
    else commentEnd nestedComments depth (d :: rest)

end Plenora.Core.NativeQueryPolicy
