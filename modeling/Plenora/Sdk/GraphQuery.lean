import Plenora.Lib.CypherLexer

/-!
# The Cypher builder of the Python SDK

Parts of a query, the query they are put into and the text it compiles to.  Nodes check their names;
properties and conditions are records of any strings, and a query may be made by its constructor as
well as by its methods.

    q.compile : Fallible (Text × List Text)
    q.execute parameters maxRows : Fallible (CypherCall V)
-/

namespace Plenora.Sdk.GraphQuery

open Plenora.Lib

abbrev Text := List Char

inductive GraphError where
  | typeError (message : String)
  | valueError (message : String)
  deriving DecidableEq, Repr

abbrev Fallible (α : Type) := Except GraphError α

/-! ## Identifiers -/

/-- A letter or a low line, then letters, digits and low lines; all of them ASCII. -/
def isIdentifier (value : Text) : Bool :=
  value ≠ [] && value.length ≤ 63 && value.head?.any (fun c => c.isAlpha || c = '_') &&
    value.all fun c => c.isAlphanum || c = '_'

def identifier (value : Text) (role : String) : Fallible Text :=
  if isIdentifier value then .ok value
  else .error (.valueError (role ++ " non e un identificatore ASCII semplice"))

/-- Puts a name between backticks, as it is. -/
def cypherIdentifier (value : Text) : Text := ['\x60'] ++ value ++ ['\x60']

/-! ## Parts -/

structure GraphNode where
  alias_ : Text
  label : Option Text
  alias_valid : isIdentifier alias_ = true
  label_valid : ∀ l ∈ label, isIdentifier l = true
  deriving DecidableEq

def graphNode (alias_ : Text) (label : Option Text) : Fallible GraphNode :=
  if ha : isIdentifier alias_ = true then
    if hl : ∀ l ∈ label, isIdentifier l = true then .ok ⟨alias_, label, ha, hl⟩
    else .error (.valueError "label graph non e un identificatore ASCII semplice")
  else .error (.valueError "alias graph non e un identificatore ASCII semplice")

structure GraphProperty where
  alias_ : Text
  name : Text
  deriving DecidableEq

structure GraphCondition where
  property : GraphProperty
  operator : Text
  parameter : Text
  deriving DecidableEq

def GraphNode.property (node : GraphNode) (name : Text) : Fallible GraphProperty := do
  return ⟨node.alias_, ← identifier name "proprieta graph"⟩

def GraphProperty.equals (property : GraphProperty) (parameter : Text) : Fallible GraphCondition := do
  return ⟨property, "=".toList, ← identifier parameter "parametro graph"⟩

/-- `GraphNode | GraphProperty`. -/
inductive Returned where
  | node (node : GraphNode)
  | property (property : GraphProperty)
  deriving DecidableEq

def Returned.alias_ : Returned → Text
  | .node n => n.alias_
  | .property p => p.alias_

/-! ## Queries -/

structure CypherQuery where
  graph : Text
  nodes : List GraphNode
  conditions : List GraphCondition
  returns : List Returned
  returnNames : List Text
  rowLimit : Option Int
  graph_valid : isIdentifier graph = true
  deriving DecidableEq

def graphQuery (graph : Text) : Fallible CypherQuery :=
  if h : isIdentifier graph = true then .ok ⟨graph, [], [], [], [], none, h⟩
  else .error (.valueError "nome graph non e un identificatore ASCII semplice")

namespace CypherQuery

def match_ (q : CypherQuery) (nodes : List GraphNode) : Fallible CypherQuery :=
  if nodes = [] then .error (.typeError "match richiede nodi graph")
  else
    let aliases := ((q.nodes ++ nodes).map GraphNode.alias_).dedup
    if aliases.length ≠ (q.nodes ++ nodes).length then .error (.valueError "alias graph duplicato")
    else .ok { q with nodes := q.nodes ++ nodes }

def where_ (q : CypherQuery) (conditions : List GraphCondition) : Fallible CypherQuery :=
  if conditions = [] then .error (.typeError "where richiede condizioni graph")
  else .ok { q with conditions := q.conditions ++ conditions }

def resolvedNames (values : List Returned) (names : Option (List Text)) : List Text :=
  names.getD <| values.map fun
    | .node n => n.alias_
    | .property p => p.name

def returning (q : CypherQuery) (values : List Returned) (names : Option (List Text)) :
    Fallible CypherQuery :=
  if values = [] then .error (.typeError "returning richiede espressioni graph")
  else
    let resolved := resolvedNames values names
    if resolved.length ≠ values.length then
      .error (.valueError "nomi risultato graph con arita incoerente")
    else do
      resolved.forM fun name => discard (identifier name "colonna risultato graph")
      if resolved.dedup.length ≠ resolved.length then
        .error (.valueError "nomi risultato graph duplicati")
      else .ok { q with returns := values, returnNames := resolved }

def limit (q : CypherQuery) (value : Int) : Fallible CypherQuery :=
  if value < 1 then .error (.valueError "limit graph deve essere positivo")
  else .ok { q with rowLimit := some value }

/-! ## The text of a query -/

def patternText (node : GraphNode) : Text :=
  "(".toList ++ cypherIdentifier node.alias_ ++
    (match node.label with
      | none => []
      | some label => ":".toList ++ cypherIdentifier label) ++ ")".toList

def propertyText (p : GraphProperty) : Text :=
  cypherIdentifier p.alias_ ++ ".".toList ++ cypherIdentifier p.name

def conditionText (c : GraphCondition) : Text :=
  propertyText c.property ++ " ".toList ++ c.operator ++ " $".toList ++ c.parameter

def returnText : Returned → Text
  | .node n => cypherIdentifier n.alias_
  | .property p => propertyText p

/-- `str` of an integer. -/
def intText : Int → Text
  | .ofNat n => Nat.toDigits 10 n
  | .negSucc n => '-' :: Nat.toDigits 10 (n + 1)

def matchText (nodes : List GraphNode) : Text :=
  "MATCH ".toList ++ ", ".toList.intercalate (nodes.map patternText)

def whereText (conditions : List GraphCondition) : Text :=
  if conditions = [] then []
  else " WHERE ".toList ++ " AND ".toList.intercalate (conditions.map conditionText)

def returnsText (returns : List Returned) : Text :=
  " RETURN ".toList ++ ", ".toList.intercalate (returns.map returnText)

def limitText : Option Int → Text
  | none => []
  | some limit => " LIMIT ".toList ++ intText limit

def text (q : CypherQuery) : Text :=
  matchText q.nodes ++ whereText q.conditions ++ returnsText q.returns ++ limitText q.rowLimit

/-- The aliases that conditions and results refer to. -/
def referenced (q : CypherQuery) : List Text :=
  q.conditions.map (·.property.alias_) ++ q.returns.map Returned.alias_

def compile (q : CypherQuery) : Fallible (Text × List Text) :=
  if q.nodes = [] ∨ q.returns = [] then
    .error (.valueError "query graph richiede MATCH e RETURN")
  else if q.referenced ⊆ q.nodes.map GraphNode.alias_ then .ok (q.text, q.returnNames)
  else .error (.valueError "query graph riferisce un alias non dichiarato")

end CypherQuery

/-! ## Execution -/

/-- What `executor.cypher` is called with; the parameters are a mapping, by its items. -/
structure CypherCall (V : Type) where
  graph : Text
  query : Text
  columns : List Text
  parameters : List (Text × V)
  maxRows : Nat

namespace CypherQuery

def required (q : CypherQuery) : Finset Text := (q.conditions.map (·.parameter)).toFinset

def execute {V : Type} (q : CypherQuery) (parameters : List (Text × V)) (maxRows : Nat) :
    Fallible (CypherCall V) :=
  match q.compile with
  | .error e => .error e
  | .ok (query, columns) =>
    if (parameters.map Prod.fst).toFinset ≠ q.required then
      .error (.valueError "parametri graph incompleti o inattesi")
    else .ok ⟨q.graph, query, columns, parameters, maxRows⟩

/-! ## What compiles -/

variable {q : CypherQuery}

theorem compile_iff {r : Text × List Text} :
    q.compile = .ok r ↔
      (q.nodes ≠ [] ∧ q.returns ≠ [] ∧ q.referenced ⊆ q.nodes.map GraphNode.alias_) ∧
        r = (q.text, q.returnNames) := by
  unfold compile
  split
  next h =>
    refine ⟨fun h' => (by cases h'), fun ⟨⟨hnodes, hreturns, _⟩, _⟩ => ?_⟩
    exact absurd h (by simp [hnodes, hreturns])
  next h =>
    rw [not_or] at h
    split
    next hsub =>
      refine ⟨fun h' => ⟨⟨h.1, h.2, hsub⟩, (Except.ok.inj h').symm⟩, fun h' => by rw [h'.2]⟩
    next hsub => exact ⟨fun h' => (by cases h'), fun h' => absurd h'.1.2.2 hsub⟩

theorem execute_ok {V : Type} {parameters : List (Text × V)} {maxRows : Nat} {call : CypherCall V}
    (h : q.execute parameters maxRows = .ok call) :
    call.query = q.text ∧ (parameters.map Prod.fst).toFinset = q.required := by
  unfold execute at h
  split at h
  next => cases h
  next query columns hcompile =>
    split at h
    next => cases h
    next hsupplied =>
      cases h
      have htext := (compile_iff.1 hcompile).2
      exact ⟨congrArg Prod.fst htext, not_not.1 hsupplied⟩

end CypherQuery

end Plenora.Sdk.GraphQuery
