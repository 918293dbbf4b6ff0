import Plenora.Core.QueryAst

/-!
# The recursive rule of a well-formed query

What is asked of each operation and of each expression of a query, clause by
clause, and of the whole tree: its depth and its number of nodes.

    MeetsRule limits query:  every part of the tree has its shape (`QueryPart.Shape`),
                             no path is longer than `maxFilterDepth`,
                             and at most `maxFilterNodes` nodes
-/

namespace Plenora.Core

/-- The limits the validation reads. -/
structure Limits where
  maxIdentifierBytes : Nat
  maxFilterDepth : Nat
  maxFilterNodes : Nat
  deriving DecidableEq, Repr

/-! ## Names, frames, conditions -/

/-- A name that may be sent: not empty, without NUL, within the limit. -/
def IsIdentifier (maxBytes : Nat) (value : String) : Prop :=
  value ≠ "" ∧ '\x00' ∉ value.toList ∧ value.utf8ByteSize ≤ maxBytes

/-- The frame does not end before it starts. -/
def WindowFrame.Ordered (frame : WindowFrame) : Prop :=
  ∀ stop ∈ frame.stop, frame.start.position ≤ stop.position

/-- The expressions that may be a condition. -/
inductive BooleanShaped : QueryExpression → Prop
  | compare (left : QueryExpression) (operator : ComparisonOperator) (right : QueryExpression) :
      BooleanShaped (.compare left operator right)
  | inList (e : QueryExpression) (values : List QueryExpression) (negated : Bool) :
      BooleanShaped (.inList e values negated)
  | between (e lower upper : QueryExpression) (negated : Bool) :
      BooleanShaped (.between e lower upper negated)
  | like (e pattern : QueryExpression) (caseInsensitive negated : Bool) :
      BooleanShaped (.like e pattern caseInsensitive negated)
  | isNull (e : QueryExpression) (negated : Bool) : BooleanShaped (.isNull e negated)
  | existsSubquery (q : QueryOperation) (negated : Bool) :
      BooleanShaped (.existsSubquery q negated)
  | inSubquery (e : QueryExpression) (q : QueryOperation) (negated : Bool) :
      BooleanShaped (.inSubquery e q negated)
  | spatial (function : SpatialFunction) (arguments : List QueryExpression) :
      function.returnsBoolean arguments.length = true →
      BooleanShaped (.spatial function arguments)
  | spatialOperator (operator : SpatialOperator) (left right : QueryExpression) :
      operator.returnsBoolean = true → BooleanShaped (.spatialOperator operator left right)
  | not (e : QueryExpression) : BooleanShaped e → BooleanShaped (.not e)
  | and (arguments : List QueryExpression) :
      (∀ a ∈ arguments, BooleanShaped a) → BooleanShaped (.and arguments)
  | or (arguments : List QueryExpression) :
      (∀ a ∈ arguments, BooleanShaped a) → BooleanShaped (.or arguments)

/-! ## Windows -/

namespace QueryExpression

def isWindow : QueryExpression → Bool
  | .window _ _ _ _ _ | .spatialWindow _ _ _ _ _ => true
  | _ => false

/-- A window or an aggregate: no window may stand in its arguments. -/
def enclosesNoWindow : QueryExpression → Bool
  | .window _ _ _ _ _ | .spatialWindow _ _ _ _ _ => true
  | .scalar function _ => function.isAggregate
  | .spatial function arguments => function.isAggregate arguments.length
  | _ => false

/-- A window is called in the expression. -/
abbrev CallsWindow (e : QueryExpression) : Prop := e.Contains (·.isWindow = true)

/-- A window is called inside the arguments of another or of an aggregate. -/
abbrev NestsWindow (e : QueryExpression) : Prop :=
  e.Contains fun outer => outer.enclosesNoWindow = true ∧ ∃ o ∈ outer.operands, o.CallsWindow

end QueryExpression

/-- Where the windows of an operation may be called. -/
structure WindowsPlaced (q : QueryOperation) : Prop where
  projection : ∀ p ∈ q.projection, ¬ p.expression.NestsWindow
  joins : ∀ join ∈ q.joins, ∀ on ∈ join.on, ¬ on.CallsWindow
  filter : ∀ e ∈ q.filter, ¬ e.CallsWindow
  groupBy : ∀ e ∈ q.groupBy, ¬ e.CallsWindow
  distinctOn : ∀ e ∈ q.distinctOn, ¬ e.CallsWindow
  having : ∀ e ∈ q.having, ¬ e.CallsWindow
  orderBy : ∀ ordering ∈ q.orderBy, ¬ ordering.expression.NestsWindow
  orderBySets : q.setOperations ≠ [] → ∀ ordering ∈ q.orderBy, ¬ ordering.expression.CallsWindow

/-! ## Expressions -/

/-- What is asked of an expression itself. -/
def ExpressionShape (limits : Limits) : QueryExpression → Prop
  | .wildcard relation => ∀ name ∈ relation, IsIdentifier limits.maxIdentifierBytes name
  | .column column =>
    (∀ name ∈ column.relation, IsIdentifier limits.maxIdentifierBytes name) ∧
      IsIdentifier limits.maxIdentifierBytes column.field
  | .parameter name | .typedParameter name _ => IsIdentifier 256 name
  | .scalar function arguments =>
    function.requiresWindow = false ∧ function.acceptsArgumentCount arguments.length = true
  | .spatial function arguments =>
    function.isWindowOnly = false ∧ function.acceptsArgumentCount arguments.length = true
  | .spatialOutput expression _ => expression.isColumn = true
  | .spatialValue expression srid _ => srid ≠ 0 ∧ expression.isBind = true
  | .inList _ values _ => values ≠ []
  | .caseWhen branches _ => branches ≠ [] ∧ ∀ branch ∈ branches, BooleanShaped branch.condition
  | .window function arguments _ _ frame =>
    function.isWindowFunction = true ∧ function.acceptsArgumentCount arguments.length = true ∧
      ∀ f ∈ frame, f.Ordered
  | .spatialWindow function arguments _ _ frame =>
    function.isWindowOnly = true ∧ function.acceptsArgumentCount arguments.length = true ∧
      ∀ f ∈ frame, f.Ordered
  | .and arguments | .or arguments => arguments ≠ []
  | .arithmetic _ _ _ | .spatialOperator _ _ _ | .compare _ _ _ | .between _ _ _ _
  | .like _ _ _ _ | .cast _ _ | .nullsOrder _ _ | .isNull _ _ | .not _ | .scalarSubquery _
  | .existsSubquery _ _ | .inSubquery _ _ _ => True

/-! ## Operations -/

/-- The names of a table source. -/
structure SourceNames (maxBytes : Nat) (source : QuerySource) : Prop where
  catalog : ∀ name ∈ source.object.catalog, IsIdentifier maxBytes name
  schema : ∀ name ∈ source.object.schema, IsIdentifier maxBytes name
  object : IsIdentifier maxBytes source.object.object
  aliasName : ∀ name ∈ source.aliasName, IsIdentifier maxBytes name

/-- A table or a subquery, not both. -/
def OneSource (maxBytes : Nat) (source : Option QuerySource)
    (derived : Option QueryDerivedSource) : Prop :=
  (∃ s, source = some s ∧ derived = none ∧ SourceNames maxBytes s) ∨
    ∃ d, source = none ∧ derived = some d ∧ IsIdentifier maxBytes d.aliasName

/-- A query of no rows: nothing in it refers to a relation. -/
structure NoSource (q : QueryOperation) : Prop where
  source : q.source = none
  derivedSource : q.derivedSource = none
  joins : q.joins = []
  locking : q.locking = none
  declaredCrs : q.declaredCrs = []
  references : ∀ e ∈ q.clauseExpressions, ¬ e.Contains (·.isSourceReference = true)

structure JoinShape (maxBytes : Nat) (join : QueryJoin) : Prop where
  lateral : join.lateral = true → join.derivedSource ≠ none
  source : OneSource maxBytes join.source join.derivedSource
  cross : join.kind = .cross ↔ join.on = none
  on : ∀ condition ∈ join.on, BooleanShaped condition

/-- The name a table source goes by. -/
def QuerySource.visibleName (source : QuerySource) : String :=
  source.aliasName.getD source.object.object

/-- The relations of the operation that can be locked. -/
def QueryOperation.lockableRelations (q : QueryOperation) : List String :=
  q.source.toList.map (·.visibleName) ++
    q.joins.flatMap fun join => join.source.toList.map (·.visibleName)

/-- What is asked of an operation that locks its rows. -/
structure LockShape (maxBytes : Nat) (q : QueryOperation) (lock : QueryLock) : Prop where
  setOperations : q.setOperations = []
  distinct : q.distinct = false
  distinctOn : q.distinctOn = []
  groupBy : q.groupBy = []
  having : q.having = none
  projection : ∀ p ∈ q.projection, ¬ p.expression.Contains (·.isLockingIncompatible = true)
  relations : ∀ name ∈ lock.relations, IsIdentifier maxBytes name ∧ name ∈ q.lockableRelations

/-- What is asked of an operation itself. -/
structure OperationShape (limits : Limits) (q : QueryOperation) : Prop where
  projection : q.projection ≠ []
  distinct : q.distinct = true → q.distinctOn = []
  offset : q.rowOffset ≠ none → q.orderBy ≠ []
  distinctOn : q.distinctOn <+: q.orderBy.map (·.expression)
  setOperations : ∀ set ∈ q.setOperations, set.query.projection.length = q.projection.length
  locking : ∀ lock ∈ q.locking, LockShape limits.maxIdentifierBytes q lock
  source : OneSource limits.maxIdentifierBytes q.source q.derivedSource ∨ NoSource q
  ctes : ∀ cte ∈ q.commonTableExpressions, IsIdentifier limits.maxIdentifierBytes cte.name
  aliases : ∀ p ∈ q.projection, ∀ name ∈ p.aliasName, IsIdentifier limits.maxIdentifierBytes name
  joins : ∀ join ∈ q.joins, JoinShape limits.maxIdentifierBytes join
  filter : ∀ condition ∈ q.filter, BooleanShaped condition
  having : ∀ condition ∈ q.having, BooleanShaped condition

/-! ## The rule -/

/-- What is asked of a part of the tree. -/
def QueryPart.Shape (limits : Limits) : QueryPart → Prop
  | .operation q => OperationShape limits q ∧ WindowsPlaced q
  | .expression e => ExpressionShape limits e

/-- **The rule**: every part of the tree has its shape, the tree its bounds. -/
structure MeetsRule (limits : Limits) (query : QueryOperation) : Prop where
  shape : ∀ depth part, (QueryPart.operation query).Within depth part → part.Shape limits
  depth : ∀ depth part, (QueryPart.operation query).Within depth part →
    depth ≤ limits.maxFilterDepth
  nodes : (QueryPart.operation query).nodes ≤ limits.maxFilterNodes

end Plenora.Core
