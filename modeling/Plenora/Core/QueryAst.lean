import Plenora.Core.Plan

/-!
# The relational query tree

Expressions and operations of a portable query, with the tables of the functions
they call.  Expressions hold operations (subqueries) and operations hold
expressions; the trees shrink along both:

    operand ∈ e.operands   → sizeOf operand < sizeOf e          (sizeOf_operand_lt)
    query ∈ e.subqueries   → sizeOf query < sizeOf e            (sizeOf_subquery_lt)
-/

namespace Plenora.Core

/-! ## Functions and operators -/

structure ColumnRef where
  relation : Option String
  field : String
  deriving DecidableEq, Repr

inductive ScalarFunction where
  | lower | upper | coalesce | count | sum | average | minimum | maximum
  | rowNumber | rank | denseRank | lag | lead
  deriving DecidableEq, Repr

namespace ScalarFunction

def acceptsArgumentCount (function : ScalarFunction) (count : Nat) : Bool :=
  match function with
  | lower | upper | .count | sum | average | minimum | maximum => count == 1
  | coalesce => 1 ≤ count
  | rowNumber | rank | denseRank => count == 0
  | lag | lead => 1 ≤ count && count ≤ 3

def requiresWindow : ScalarFunction → Bool
  | rowNumber | rank | denseRank | lag | lead => true
  | _ => false

/-- The function collapses a group of rows into one value. -/
def isAggregate : ScalarFunction → Bool
  | count | sum | average | minimum | maximum => true
  | _ => false

/-- The functions that may stand before `OVER`. -/
def isWindowFunction : ScalarFunction → Bool
  | count | sum | average | minimum | maximum | rowNumber | rank | denseRank | lag | lead => true
  | lower | upper | coalesce => false

end ScalarFunction

inductive SpatialOperator where
  | boundingBoxIntersects | boundingBoxContains | boundingBoxContainedBy
  | knnDistance | knnCentroidDistance
  deriving DecidableEq, Repr

def SpatialOperator.returnsBoolean : SpatialOperator → Bool
  | boundingBoxIntersects | boundingBoxContains | boundingBoxContainedBy => true
  | knnDistance | knnCentroidDistance => false

namespace SpatialFunction

def isUnaryPredicate : SpatialFunction → Bool
  | isEmpty | isValid | isSimple | isClosed => true
  | _ => false

def isBinaryPredicate : SpatialFunction → Bool
  | intersects | contains | containsProperly | within | covers | coveredBy | touches | crosses
  | overlaps | disjoint | equals => true
  | _ => false

def returnsBoolean (function : SpatialFunction) (argumentCount : Nat) : Bool :=
  function.isUnaryPredicate || function.isBinaryPredicate || function == dWithin ||
    (function == relate && argumentCount == 3)

/-- The function is an aggregate with that many arguments. -/
def isAggregate (function : SpatialFunction) (argumentCount : Nat) : Bool :=
  match function with
  | extent | collect => argumentCount == 1
  | asMvt => 1 ≤ argumentCount && argumentCount ≤ 5
  | asGeobuf | union => argumentCount == 1 || argumentCount == 2
  | _ => false

/-- The function exists only as a window function. -/
def isWindowOnly : SpatialFunction → Bool
  | clusterDbscan | clusterKMeans => true
  | _ => false

def acceptsArgumentCount (function : SpatialFunction) (count : Nat) : Bool :=
  match function with
  | geometryType | srid | dimensions | x | y | z | m | nPoints | nRings | startPoint | endPoint
  | isEmpty | isSimple | isClosed | force2d | centroid | pointOnSurface | envelope | convexHull
  | orientedEnvelope | boundary | lineMerge | reverse | extent => count == 1
  | intersects | contains | containsProperly | within | covers | coveredBy | touches | crosses
  | overlaps | disjoint | equals | maxDistance | distance3d | azimuth | pointN | setSrid
  | simplifyPreserveTopology => count == 2
  | dWithin => count == 3 || count == 4
  | relate | intersection | difference | distance | hausdorffDistance | frechetDistance
  | symDifference | transform | offsetCurve | simplify | buffer | clusterKMeans =>
    count == 2 || count == 3
  | isValid | force3d | force3dm | unaryUnion | makeValid | collect | asGeobuf | area | length
  | perimeter => count == 1 || count == 2
  | force4d | union | subdivide | asGeoJson => 1 ≤ count && count ≤ 3
  | snapToGrid => count == 2 || count == 3 || count == 5
  | asMvtGeom => 2 ≤ count && count ≤ 5
  | asMvt => 1 ≤ count && count ≤ 5
  | clusterDbscan => count == 3

end SpatialFunction

/-- Where the result of a geometry function stands. -/
inductive CrsRule where
  | preserves | argument | undefined
  deriving DecidableEq, Repr

namespace SpatialFunction

def returnsGeometry : SpatialFunction → Bool
  | startPoint | endPoint | pointN | setSrid | transform | force2d | force3d | force3dm | force4d
  | buffer | offsetCurve | intersection | difference | symDifference | union | unaryUnion
  | simplify | simplifyPreserveTopology | makeValid | centroid | pointOnSurface | envelope
  | convexHull | orientedEnvelope | boundary | lineMerge | reverse | subdivide | snapToGrid
  | collect | asMvtGeom => true
  | _ => false

def crsRule : SpatialFunction → Option CrsRule
  | setSrid | transform => some .argument
  | intersection | difference | symDifference | union | asMvtGeom => some .undefined
  | function => if function.returnsGeometry then some .preserves else none

def takesGeometryAt (function : SpatialFunction) (index : Nat) : Bool :=
  if index = 0 then
    match function with
    | asMvt | asGeobuf => false
    | _ => true
  else
    index == 1 &&
      match function with
      | intersects | contains | containsProperly | within | covers | coveredBy | touches | crosses
      | overlaps | disjoint | equals | relate | dWithin | intersection | difference
      | symDifference | union | distance | distance3d | maxDistance | hausdorffDistance
      | frechetDistance | azimuth | collect | asMvtGeom => true
      | _ => false

end SpatialFunction

inductive ArithmeticOperator where
  | add | subtract | multiply | divide
  deriving DecidableEq, Repr

inductive QueryParameterType where
  | boolean | integer | bigInteger | float | string | binary | date | timestamp | timestampTz
  | decimal | uuid | json
  deriving DecidableEq, Repr

/-! ## Windows, joins, locks -/

inductive WindowFrameUnits where
  | rows | range | groups
  deriving DecidableEq, Repr

inductive WindowFrameBound where
  | unboundedPreceding
  | preceding (offset : UInt64)
  | currentRow
  | following (offset : UInt64)
  | unboundedFollowing
  deriving DecidableEq, Repr

/-- Where a bound stands relative to the current row, as a 128-bit integer. -/
def WindowFrameBound.position : WindowFrameBound → Int
  | unboundedPreceding => -2 ^ 127
  | preceding offset => -offset.toNat
  | currentRow => 0
  | following offset => offset.toNat
  | unboundedFollowing => 2 ^ 127 - 1

structure WindowFrame where
  units : WindowFrameUnits
  start : WindowFrameBound
  stop : Option WindowFrameBound
  deriving DecidableEq, Repr

inductive JoinKind where
  | inner | left | right | full | cross
  deriving DecidableEq, Repr

inductive QueryNullsOrder where
  | first | last
  deriving DecidableEq, Repr

inductive QuerySetOperator where
  | union | intersect | except
  deriving DecidableEq, Repr

inductive QueryLockStrength where
  | update | noKeyUpdate | share | keyShare
  deriving DecidableEq, Repr

inductive QueryLockWait where
  | wait | noWait | skipLocked
  deriving DecidableEq, Repr

structure QueryLock where
  strength : QueryLockStrength
  relations : List String
  wait : QueryLockWait
  deriving DecidableEq, Repr

structure QuerySource where
  object : ObjectRef
  aliasName : Option String
  deriving DecidableEq, Repr

/-! ## Expressions and operations -/

mutual

inductive QueryExpression where
  | wildcard (relation : Option String)
  | column (column : ColumnRef)
  | parameter (name : String)
  | typedParameter (name : String) (parameterType : QueryParameterType)
  | arithmetic (left : QueryExpression) (operator : ArithmeticOperator) (right : QueryExpression)
  | cast (expression : QueryExpression) (targetType : QueryParameterType)
  | nullsOrder (expression : QueryExpression) (position : QueryNullsOrder)
  | caseWhen (branches : List QueryCaseBranch) (elseExpression : Option QueryExpression)
  | scalar (function : ScalarFunction) (arguments : List QueryExpression)
  | spatial (function : SpatialFunction) (arguments : List QueryExpression)
  | spatialOutput (expression : QueryExpression) (semantics : SpatialSemantics)
  | spatialValue (expression : QueryExpression) (srid : UInt32) (semantics : SpatialSemantics)
  | spatialOperator (operator : SpatialOperator) (left right : QueryExpression)
  | window (function : ScalarFunction) (arguments partitionBy : List QueryExpression)
      (orderBy : List QueryOrdering) (frame : Option WindowFrame)
  | spatialWindow (function : SpatialFunction) (arguments partitionBy : List QueryExpression)
      (orderBy : List QueryOrdering) (frame : Option WindowFrame)
  | scalarSubquery (query : QueryOperation)
  | existsSubquery (query : QueryOperation) (negated : Bool)
  | inSubquery (expression : QueryExpression) (query : QueryOperation) (negated : Bool)
  | compare (left : QueryExpression) (operator : ComparisonOperator) (right : QueryExpression)
  | inList (expression : QueryExpression) (values : List QueryExpression) (negated : Bool)
  | between (expression lower upper : QueryExpression) (negated : Bool)
  | like (expression pattern : QueryExpression) (caseInsensitive negated : Bool)
  | not (expression : QueryExpression)
  | and (arguments : List QueryExpression)
  | or (arguments : List QueryExpression)
  | isNull (expression : QueryExpression) (negated : Bool)

structure QueryCaseBranch where
  condition : QueryExpression
  value : QueryExpression

structure QueryOrdering where
  expression : QueryExpression
  direction : SortDirection

structure QueryProjection where
  expression : QueryExpression
  aliasName : Option String

structure QueryDerivedSource where
  query : QueryOperation
  aliasName : String

structure QueryJoin where
  kind : JoinKind
  source : Option QuerySource
  derivedSource : Option QueryDerivedSource
  lateral : Bool
  on : Option QueryExpression

structure QuerySetOperation where
  operator : QuerySetOperator
  all : Bool
  query : QueryOperation

structure CommonTableExpression where
  name : String
  recursive : Bool
  query : QueryOperation

structure QueryOperation where
  commonTableExpressions : List CommonTableExpression
  source : Option QuerySource
  derivedSource : Option QueryDerivedSource
  projection : List QueryProjection
  joins : List QueryJoin
  filter : Option QueryExpression
  groupBy : List QueryExpression
  having : Option QueryExpression
  orderBy : List QueryOrdering
  distinct : Bool
  distinctOn : List QueryExpression
  setOperations : List QuerySetOperation
  rowLimit : Option UInt64
  rowOffset : Option UInt64
  locking : Option QueryLock
  declaredCrs : List DeclaredCrs

end

/-! ## The tree -/

/-- The expressions of the clauses, without join conditions and nested queries. -/
def QueryOperation.clauseExpressions (q : QueryOperation) : List QueryExpression :=
  q.projection.map (·.expression) ++ q.filter.toList ++ q.groupBy ++ q.having.toList ++
    q.orderBy.map (·.expression) ++ q.distinctOn

/-- The expressions directly inside an expression, subqueries left out. -/
def QueryExpression.operands : QueryExpression → List QueryExpression
  | .wildcard _ | .column _ | .parameter _ | .typedParameter _ _ => []
  | .arithmetic left _ right | .spatialOperator _ left right | .compare left _ right =>
    [left, right]
  | .cast expression _ | .nullsOrder expression _ | .spatialOutput expression _
  | .spatialValue expression _ _ | .not expression | .isNull expression _
  | .inSubquery expression _ _ => [expression]
  | .caseWhen branches elseExpression =>
    elseExpression.toList ++ branches.flatMap fun branch => [branch.condition, branch.value]
  | .scalar _ arguments | .spatial _ arguments | .and arguments | .or arguments => arguments
  | .window _ arguments partitionBy orderBy _
  | .spatialWindow _ arguments partitionBy orderBy _ =>
    arguments ++ partitionBy ++ orderBy.map (·.expression)
  | .scalarSubquery _ | .existsSubquery _ _ => []
  | .inList expression values _ => expression :: values
  | .between expression lower upper _ => [expression, lower, upper]
  | .like expression pattern _ _ => [expression, pattern]

/-- The queries directly inside an expression. -/
def QueryExpression.subqueries : QueryExpression → List QueryOperation
  | .scalarSubquery query | .existsSubquery query _ | .inSubquery _ query _ => [query]
  | _ => []

/-- The expression, or one inside it at any depth but in no subquery, satisfies `p`. -/
inductive QueryExpression.Contains (p : QueryExpression → Prop) : QueryExpression → Prop
  | here (expression : QueryExpression) : p expression → Contains p expression
  | operand (expression operand : QueryExpression) : operand ∈ expression.operands →
      Contains p operand → Contains p expression

theorem QueryExpression.contains_iff (p : QueryExpression → Prop) (e : QueryExpression) :
    e.Contains p ↔ p e ∨ ∃ o ∈ e.operands, o.Contains p := by
  constructor
  · rintro (⟨_, hp⟩ | ⟨_, o, ho, hcontains⟩)
    · exact .inl hp
    · exact .inr ⟨o, ho, hcontains⟩
  · rintro (hp | ⟨o, ho, hcontains⟩)
    · exact .here e hp
    · exact .operand e o ho hcontains

/-- A member of a list is smaller than what holds the list. -/
private theorem lt_of_mem {α : Type} [SizeOf α] {a : α} {as : List α} {n : Nat} (h : a ∈ as)
    (hn : sizeOf as ≤ n) : sizeOf a < n :=
  Nat.lt_of_lt_of_le (List.sizeOf_lt_of_mem h) hn

private theorem ordering_lt {e : QueryExpression} {orderBy : List QueryOrdering} {n : Nat}
    (h : e ∈ orderBy.map (·.expression)) (hn : sizeOf orderBy ≤ n) : sizeOf e < n := by
  obtain ⟨ordering, hmem, rfl⟩ := List.mem_map.1 h
  have hlt := lt_of_mem hmem hn
  cases ordering
  simp at hlt ⊢
  omega

theorem QueryExpression.sizeOf_operand_lt {e o : QueryExpression} (h : o ∈ e.operands) :
    sizeOf o < sizeOf e := by
  cases e with
  | wildcard _ | column _ | parameter _ | typedParameter _ _ | scalarSubquery _
  | existsSubquery _ _ => cases h
  | arithmetic left operator right | spatialOperator operator left right
  | compare left operator right | like left right _ _ =>
    simp only [operands, List.mem_cons, List.not_mem_nil, or_false] at h
    rcases h with rfl | rfl
    · simp +arith
    · simp +arith
  | cast expression _ | nullsOrder expression _ | spatialOutput expression _
  | spatialValue expression _ _ | not expression | isNull expression _
  | inSubquery expression _ _ =>
    simp only [operands, List.mem_singleton] at h
    subst h
    simp +arith
  | caseWhen branches elseExpression =>
    simp only [operands, List.mem_append, Option.mem_toList, List.mem_flatMap, List.mem_cons,
      List.not_mem_nil, or_false] at h
    rcases h with rfl | ⟨branch, hbranch, hpart⟩
    · simp +arith
    · have hlt := List.sizeOf_lt_of_mem hbranch
      cases branch
      rcases hpart with rfl | rfl
      · simp at hlt ⊢
        omega
      · simp at hlt ⊢
        omega
  | scalar _ arguments | spatial _ arguments | and arguments | or arguments =>
    exact lt_of_mem (show o ∈ arguments from h) (by simp +arith)
  | window _ arguments partitionBy orderBy _ | spatialWindow _ arguments partitionBy orderBy _ =>
    simp only [operands, List.mem_append] at h
    rcases h with (h | h) | h
    · exact lt_of_mem h (by simp +arith)
    · exact lt_of_mem h (by simp +arith)
    · exact ordering_lt h (by simp +arith)
  | inList expression values _ =>
    rcases List.mem_cons.1 h with rfl | h
    · simp +arith
    · exact lt_of_mem h (by simp +arith)
  | between expression lower upper _ =>
    simp only [operands, List.mem_cons, List.not_mem_nil, or_false] at h
    rcases h with rfl | rfl | rfl
    · simp +arith
    · simp +arith
    · simp +arith

theorem QueryExpression.sizeOf_subquery_lt {e : QueryExpression} {q : QueryOperation}
    (h : q ∈ e.subqueries) : sizeOf q < sizeOf e := by
  cases e with
  | scalarSubquery query | existsSubquery query _ | inSubquery _ query _ =>
    simp only [subqueries, List.mem_singleton] at h
    subst h
    simp +arith
  | _ => cases h

def QueryExpression.isColumn : QueryExpression → Bool
  | .column _ => true
  | _ => false

def QueryExpression.isBind : QueryExpression → Bool
  | .parameter _ | .typedParameter _ _ => true
  | _ => false

def QueryExpression.isLockingIncompatible : QueryExpression → Bool
  | .window _ _ _ _ _ | .spatialWindow _ _ _ _ _ => true
  | .scalar function _ => function.isAggregate
  | .spatial function arguments => function.isAggregate arguments.length
  | _ => false

def QueryExpression.isSourceReference : QueryExpression → Bool
  | .column _ | .wildcard _ => true
  | _ => false

/-- A node of the tree of a query. -/
inductive QueryPart where
  | operation (q : QueryOperation)
  | expression (e : QueryExpression)

open QueryPart in
/-- What stands directly in the clauses of an operation. -/
def QueryOperation.parts (q : QueryOperation) : List QueryPart :=
  (q.derivedSource.toList.map fun derived => operation derived.query) ++
    (q.commonTableExpressions.map fun cte => operation cte.query) ++
    (q.projection.map fun projection => expression projection.expression) ++
    (q.joins.flatMap fun join =>
      (join.derivedSource.toList.map fun derived => operation derived.query) ++
        join.on.toList.map expression) ++
    q.filter.toList.map expression ++ q.groupBy.map expression ++
    q.distinctOn.map expression ++ q.having.toList.map expression ++
    (q.orderBy.map fun ordering => expression ordering.expression) ++
    (q.setOperations.map fun set => operation set.query)

namespace QueryPart

noncomputable def size : QueryPart → Nat
  | .operation q => sizeOf q
  | .expression e => sizeOf e

def children : QueryPart → List QueryPart
  | .operation q => q.parts
  | .expression e => e.operands.map .expression ++ e.subqueries.map .operation

end QueryPart

theorem QueryOperation.size_part_lt {q : QueryOperation} {part : QueryPart} (h : part ∈ q.parts) :
    part.size < sizeOf q := by
  obtain ⟨ctes, source, derivedSource, projection, joins, filter, groupBy, having, orderBy,
    distinct, distinctOn, setOperations, rowLimit, rowOffset, locking, declaredCrs⟩ := q
  simp only [parts, List.mem_append, List.mem_map, List.mem_flatMap, Option.mem_toList] at h
  rcases h with ((((((((h | h) | h) | h) | h) | h) | h) | h) | h) | h
  · obtain ⟨derived, rfl, rfl⟩ := h
    cases derived
    simp +arith [QueryPart.size]
  · obtain ⟨cte, hcte, rfl⟩ := h
    have hlt := List.sizeOf_lt_of_mem hcte
    cases cte
    simp [QueryPart.size] at hlt ⊢
    omega
  · obtain ⟨projection', hprojection, rfl⟩ := h
    have hlt := List.sizeOf_lt_of_mem hprojection
    cases projection'
    simp [QueryPart.size] at hlt ⊢
    omega
  · obtain ⟨join, hjoin, h⟩ := h
    have hlt := List.sizeOf_lt_of_mem hjoin
    obtain ⟨kind, source', derived, lateral, on⟩ := join
    rcases h with ⟨derived', rfl, rfl⟩ | ⟨condition, rfl, rfl⟩
    · cases derived'
      simp [QueryPart.size] at hlt ⊢
      omega
    · simp [QueryPart.size] at hlt ⊢
      omega
  · obtain ⟨e, rfl, rfl⟩ := h
    simp +arith [QueryPart.size]
  · obtain ⟨e, he, rfl⟩ := h
    exact lt_of_mem he (by simp +arith)
  · obtain ⟨e, he, rfl⟩ := h
    exact lt_of_mem he (by simp +arith)
  · obtain ⟨e, rfl, rfl⟩ := h
    simp +arith [QueryPart.size]
  · obtain ⟨ordering, hordering, rfl⟩ := h
    exact ordering_lt (List.mem_map_of_mem hordering) (by simp +arith)
  · obtain ⟨set, hset, rfl⟩ := h
    have hlt := List.sizeOf_lt_of_mem hset
    cases set
    simp [QueryPart.size] at hlt ⊢
    omega

namespace QueryPart

theorem size_child_lt {part child : QueryPart} (h : child ∈ part.children) :
    child.size < part.size := by
  cases part with
  | operation q => exact QueryOperation.size_part_lt h
  | expression e =>
    simp only [children, List.mem_append, List.mem_map] at h
    rcases h with ⟨operand, hoperand, rfl⟩ | ⟨query, hquery, rfl⟩
    · exact QueryExpression.sizeOf_operand_lt hoperand
    · exact QueryExpression.sizeOf_subquery_lt hquery

/-- What the part itself counts: one, and one for each listed clause element. -/
def weight : QueryPart → Nat
  | .operation q =>
    1 + q.commonTableExpressions.length + q.projection.length + q.joins.length +
      q.groupBy.length + q.orderBy.length + q.distinctOn.length + q.setOperations.length
  | .expression _ => 1

/-- The number of nodes of the tree. -/
def nodes (part : QueryPart) : Nat :=
  part.weight + (part.children.attach.map fun child => child.1.nodes).sum
termination_by part.size
decreasing_by exact size_child_lt child.2

theorem nodes_eq (part : QueryPart) :
    part.nodes = part.weight + (part.children.map nodes).sum := by
  have hmap : part.children.attach.map (fun child => child.1.nodes) =
      part.children.map nodes := by
    simp
  rw [nodes, hmap]

/-- The parts of the tree with their depth; the root is at depth one. -/
inductive Within (root : QueryPart) : Nat → QueryPart → Prop
  | root : Within root 1 root
  | child (depth : Nat) (part child : QueryPart) : Within root depth part →
      child ∈ part.children → Within root (depth + 1) child

theorem within_child {root child part : QueryPart} {depth : Nat} (hchild : child ∈ root.children)
    (h : child.Within depth part) : root.Within (depth + 1) part := by
  induction h with
  | root => exact .child 1 root child .root hchild
  | child depth part below _ hbelow ih => exact .child (depth + 1) part below ih hbelow

/-- A part is the root, or within one of its children. -/
theorem within_iff (root part : QueryPart) (depth : Nat) :
    root.Within depth part ↔ (depth = 1 ∧ part = root) ∨
      ∃ child ∈ root.children, ∃ below, child.Within below part ∧ depth = below + 1 := by
  constructor
  · intro h
    induction h with
    | root => exact .inl ⟨rfl, rfl⟩
    | child depth part below _ hbelow ih =>
      rcases ih with ⟨rfl, rfl⟩ | ⟨child, hchild, d, hd, rfl⟩
      · exact .inr ⟨below, hbelow, 1, .root, rfl⟩
      · exact .inr ⟨child, hchild, d + 1, .child d part below hd hbelow, rfl⟩
  · rintro (⟨rfl, rfl⟩ | ⟨child, hchild, below, hbelow, rfl⟩)
    · exact .root
    · exact within_child hchild hbelow

end QueryPart

end Plenora.Core
