import Plenora.Core.Portable
import Plenora.Lib.Doubling

/-!
# Quoted identifiers end where they were closed

A lexer that reads a quoted identifier takes exactly the text `quoteIdentifier` wrote, whatever
follows it, and the name it stands for is the one that was quoted.

    quoteIdentifier d name = .ok quoted → following does not begin with the closing quote →
      lexQuoted d (quoted ++ following) = some (quoted, following)
                                                                (quoteIdentifier_selfDelimiting)
-/

namespace Plenora.Core.IdentifierDialect

open Plenora.Lib

/-- The quoted identifier at the front of a text, from the opening quote to the first closing
quote that is not doubled, and what follows it. -/
def lexQuoted (dialect : IdentifierDialect) : List Char → Option (List Char × List Char)
  | [] => none
  | c :: text =>
    if c = dialect.quotes.1 then
      (Doubling.body dialect.quotes.2 text).map fun r => (c :: r.1 ++ [dialect.quotes.2], r.2)
    else none

/-- The name between the quotes. -/
def nameOf (dialect : IdentifierDialect) (quoted : List Char) : List Char :=
  Doubling.undouble dialect.quotes.2 quoted.tail.dropLast

theorem doubled_eq (c : Char) (name : List Char) : doubled c name = Doubling.double c name := rfl

/-- What an accepted name is written as. -/
theorem quoteIdentifier_eq {dialect : IdentifierDialect} {name quoted : String}
    (h : dialect.quoteIdentifier name = .ok quoted) :
    quoted.toList =
      dialect.quotes.1 :: Doubling.double dialect.quotes.2 name.toList ++ [dialect.quotes.2] := by
  obtain ⟨-, -, h⟩ := bind_eq_ok.1 h
  obtain rfl := Except.ok.inj h
  rw [String.toList_ofList, doubled_eq]

theorem nameOf_quoteIdentifier {dialect : IdentifierDialect} {name quoted : String}
    (h : dialect.quoteIdentifier name = .ok quoted) : dialect.nameOf quoted.toList = name.toList := by
  rw [quoteIdentifier_eq h, nameOf, List.cons_append, List.tail_cons, List.dropLast_concat,
    Doubling.undouble_double]

/-- **A quoted identifier is read to its last quote and no further, it stands for the name that
was quoted, and no other name is quoted the same.** -/
theorem quoteIdentifier_selfDelimiting (dialect : IdentifierDialect) {name quoted : String}
    (h : dialect.quoteIdentifier name = .ok quoted) :
    (∀ following : List Char, following.head? ≠ some dialect.quotes.2 →
      dialect.lexQuoted (quoted.toList ++ following) = some (quoted.toList, following)) ∧
    dialect.nameOf quoted.toList = name.toList ∧
    ∀ other, dialect.quoteIdentifier other = .ok quoted → other = name := by
  refine ⟨fun following hf => ?_, nameOf_quoteIdentifier h, fun other ho => ?_⟩
  · rw [quoteIdentifier_eq h, List.cons_append, List.cons_append, List.append_assoc,
      List.singleton_append, lexQuoted, if_pos rfl, Doubling.body_double _ hf]
    rfl
  · have hname := (nameOf_quoteIdentifier ho).symm.trans (nameOf_quoteIdentifier h)
    exact String.toList_inj.1 hname

theorem quoteIdentifier_selfDelimiting_bracket :
    (∀ following : List Char, following.head? ≠ some ']' →
      sqlServer.lexQuoted ("[a]]; --]".toList ++ following) =
        some ("[a]]; --]".toList, following)) ∧
    sqlServer.nameOf "[a]]; --]".toList = "a]; --".toList ∧
    ∀ other, sqlServer.quoteIdentifier other = .ok "[a]]; --]" → other = "a]; --" :=
  @quoteIdentifier_selfDelimiting sqlServer "a]; --" _ (by decide +kernel)

end Plenora.Core.IdentifierDialect
