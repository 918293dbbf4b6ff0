import Plenora.Core.Plan
import Plenora.Lib.Outcome

/-!
# Graph statements

A Cypher request: the graph and its output columns are plain identifiers, the Cypher text is
opaque, and the parameters are bound apart from it.  `validate` checks the form and the limits
only.
-/

namespace Plenora.Core.Graph

open Plenora.Lib

/-! ## Data model -/

def maxCypherBytes : Nat := 1048576
def maxGraphColumns : Nat := 64
def maxGraphParameters : Nat := 256
def maxGraphParameterBytes : Nat := 1048576
def maxGraphRows : Nat := 1000000

structure GraphStatement where
  graph : String
  cypher : String
  columns : List String
  params : AList (fun _ : String => JsonText)
  maxRows : Nat

/-! ## Validation -/

def isAsciiAlphanumeric (c : Char) : Bool := c.isAlpha || c.isDigit

/-- A letter or an underscore, then letters, digits and underscores. -/
def isIdentifier : List Char → Bool
  | [] => false
  | first :: rest =>
    (first.isAlpha || first = '_') && rest.all fun c => isAsciiAlphanumeric c || c = '_'

def validateIdentifier (value role : String) : Result Unit := do
  failIf (value.utf8ByteSize = 0 ∨ value.utf8ByteSize > 63)
    (.invalidPlan (role ++ " deve contenere tra 1 e 63 byte"))
  failIf (¬ isIdentifier value.toList)
    (.invalidPlan (role ++ " deve essere un identificatore ASCII semplice"))

/-- The Unicode white space that trimming drops. -/
def isWhiteSpace (c : Char) : Bool :=
  let n := c.toNat
  (9 ≤ n && n ≤ 13) || n = 0x20 || n = 0x85 || n = 0xA0 || n = 0x1680 ||
    (0x2000 ≤ n && n ≤ 0x200A) || n = 0x2028 || n = 0x2029 || n = 0x202F || n = 0x205F ||
    n = 0x3000

/-- The loop over the columns: each an identifier, none twice. -/
def validateColumns : List String → List String → Result Unit
  | _, [] => .ok ()
  | seen, column :: columns => do
    validateIdentifier column "nome colonna Cypher"
    failIf (column ∈ seen)
      (.invalidPlan "i nomi delle colonne Cypher devono essere univoci")
    validateColumns (column :: seen) columns

def validateNames : List String → Result Unit
  | [] => .ok ()
  | name :: names => do
    validateIdentifier name "nome parametro Cypher"
    validateNames names

/-- The bytes of the parameters as one compact object; identifiers need no escapes. -/
def parameterBytes (params : AList (fun _ : String => JsonText)) : Nat :=
  2 + (params.entries.map fun p => p.1.utf8ByteSize + 3 + p.2.text.utf8ByteSize).sum +
    (params.entries.length - 1)

namespace GraphStatement

def validate (statement : GraphStatement) : Result Unit := do
  validateIdentifier statement.graph "nome del grafo"
  failIf (statement.cypher.toList.all isWhiteSpace)
    (.invalidPlan "la query Cypher non puo essere vuota")
  failIf (statement.cypher.utf8ByteSize > maxCypherBytes)
    (.invalidPlan "la query Cypher supera il limite di 1 MiB")
  failIf (statement.columns = [] ∨ statement.columns.length > maxGraphColumns)
    (.invalidPlan "le colonne Cypher devono essere tra 1 e 64")
  validateColumns [] statement.columns
  failIf (statement.params.entries.length > maxGraphParameters)
    (.invalidPlan "la mappa parametri Cypher supera 256 elementi")
  failIf (statement.maxRows = 0 ∨ statement.maxRows > maxGraphRows)
    (.invalidPlan "il limite righe Cypher deve essere tra 1 e 1000000")
  validateNames (statement.params.entries.map (·.1))
  failIf (parameterBytes statement.params > maxGraphParameterBytes)
    (.invalidPlan "la mappa parametri Cypher supera il limite di 1 MiB")

end GraphStatement

/-! ## What a valid statement is -/

theorem validateIdentifier_spec {value role : String}
    (h : validateIdentifier value role = .ok ()) : isIdentifier value.toList := by
  unfold validateIdentifier at h
  obtain ⟨⟨⟩, -, h⟩ := bind_eq_ok.1 h
  simpa [failIf_eq_ok] using h

theorem validateColumns_spec {columns : List String} :
    ∀ {seen}, validateColumns seen columns = .ok () →
      ∀ column ∈ columns, isIdentifier column.toList := by
  induction columns with
  | nil =>
    intro seen _ column hc
    contradiction
  | cons first columns ih =>
    intro seen h column hc
    unfold validateColumns at h
    obtain ⟨⟨⟩, hfirst, h⟩ := bind_eq_ok.1 h
    obtain ⟨⟨⟩, -, h⟩ := bind_eq_ok.1 h
    rcases List.mem_cons.1 hc with rfl | hc
    · exact validateIdentifier_spec hfirst
    · exact ih h column hc

/-- What the text of a statement relies on. -/
structure GraphStatement.Valid (statement : GraphStatement) : Prop where
  graph : isIdentifier statement.graph.toList
  cypher : statement.cypher.utf8ByteSize ≤ maxCypherBytes
  columns : ∀ column ∈ statement.columns, isIdentifier column.toList
  columns_ne : statement.columns ≠ []

theorem GraphStatement.validate_spec {statement : GraphStatement}
    (h : statement.validate = .ok ()) : statement.Valid := by
  unfold GraphStatement.validate at h
  obtain ⟨⟨⟩, hgraph, h⟩ := bind_eq_ok.1 h
  obtain ⟨⟨⟩, -, h⟩ := bind_eq_ok.1 h
  obtain ⟨⟨⟩, hbytes, h⟩ := bind_eq_ok.1 h
  obtain ⟨⟨⟩, hcount, h⟩ := bind_eq_ok.1 h
  obtain ⟨⟨⟩, hcolumns, h⟩ := bind_eq_ok.1 h
  rw [failIf_eq_ok] at hbytes hcount
  rw [not_or] at hcount
  exact ⟨validateIdentifier_spec hgraph, by omega, validateColumns_spec hcolumns, hcount.1⟩

end Plenora.Core.Graph
