import Plenora.Lib.Outcome
import Plenora.Lib.WorkStack
import Plenora.Core.QueryRule

/-!
# Structural validation of a query

`validate_query_operation` walks the tree of a query with a stack of nodes, each
with its depth and, for an expression, with the place it stands in: there a
window function may or may not be called.  Three more loops of the same shape
serve it: the test of a predicate and two searches through an expression.

The derived equality of expressions, which the `DISTINCT ON` check uses, is the
instance `DecidableEq QueryExpression`.
-/

namespace Plenora.Core

open Plenora.Lib

/-! ## Visiting the tree -/

inductive QueryWalkNode where
  | operation (q : QueryOperation)
  | expression (e : QueryExpression)
  | source (s : QuerySource)

inductive QueryWalkControl where
  | proceed | skip | stop
  deriving DecidableEq, Repr

open QueryWalkNode in
def pushOperationChildren (q : QueryOperation) : List QueryWalkNode :=
  (q.setOperations.reverse.map fun set => operation set.query) ++
    q.distinctOn.reverse.map expression ++
    (q.orderBy.reverse.map fun ordering => expression ordering.expression) ++
    q.having.toList.map expression ++ q.groupBy.reverse.map expression ++
    q.filter.toList.map expression ++
    (q.projection.reverse.map fun projection => expression projection.expression) ++
    (q.joins.reverse.flatMap fun join =>
      join.on.toList.map expression ++
        (join.derivedSource.toList.map fun derived => operation derived.query) ++
        join.source.toList.map source) ++
    (q.commonTableExpressions.reverse.map fun cte => operation cte.query) ++
    (q.derivedSource.toList.map fun derived => operation derived.query) ++
    q.source.toList.map source

def pushExpressionChildren : QueryExpression → List QueryWalkNode
  | .scalar _ arguments | .spatial _ arguments | .and arguments | .or arguments =>
    arguments.reverse.map .expression
  | .arithmetic left _ right | .spatialOperator _ left right | .compare left _ right =>
    [.expression right, .expression left]
  | .inList expression values _ => values.reverse.map .expression ++ [.expression expression]
  | .between expression lower upper _ =>
    [.expression upper, .expression lower, .expression expression]
  | .like expression pattern _ _ => [.expression pattern, .expression expression]
  | .window _ arguments partitionBy orderBy _
  | .spatialWindow _ arguments partitionBy orderBy _ =>
    (orderBy.reverse.map fun ordering => .expression ordering.expression) ++
      partitionBy.reverse.map .expression ++ arguments.reverse.map .expression
  | .scalarSubquery query | .existsSubquery query _ => [.operation query]
  | .inSubquery expression query _ => [.operation query, .expression expression]
  | .cast expression _ | .nullsOrder expression _ | .spatialOutput expression _
  | .spatialValue expression _ _ | .isNull expression _ | .not expression =>
    [.expression expression]
  | .caseWhen branches elseExpression =>
    elseExpression.toList.map .expression ++
      branches.reverse.flatMap fun branch => [.expression branch.value, .expression branch.condition]
  | .wildcard _ | .column _ | .parameter _ | .typedParameter _ _ => []

namespace QueryWalkNode

def pushed : QueryWalkNode → List QueryWalkNode
  | .operation q => pushOperationChildren q
  | .expression e => pushExpressionChildren e
  | .source _ => []

end QueryWalkNode

theorem operation_mem_push {q c : QueryOperation} (h : .operation c ∈ pushOperationChildren q) :
    .operation c ∈ q.parts := by
  simp only [pushOperationChildren, QueryOperation.parts, List.mem_append, List.mem_map,
    List.mem_flatMap, List.mem_reverse, Option.mem_toList, QueryWalkNode.operation.injEq,
    QueryPart.operation.injEq, reduceCtorEq, and_false, exists_false, or_false, false_or] at h ⊢
  simpa only [or_assoc, or_comm, or_left_comm] using h

theorem expression_mem_push {q : QueryOperation} {e : QueryExpression}
    (h : .expression e ∈ pushOperationChildren q) : .expression e ∈ q.parts := by
  simp only [pushOperationChildren, QueryOperation.parts, List.mem_append, List.mem_map,
    List.mem_flatMap, List.mem_reverse, Option.mem_toList, QueryWalkNode.expression.injEq,
    QueryPart.expression.injEq, reduceCtorEq, and_false, exists_false, or_false, false_or,
    exists_eq_right] at h ⊢
  simpa only [or_assoc, or_comm, or_left_comm] using h

theorem expression_mem_pushExpression {e o : QueryExpression} :
    .expression o ∈ pushExpressionChildren e ↔ o ∈ e.operands := by
  cases e <;> simp [pushExpressionChildren, QueryExpression.operands, or_comm, or_assoc,
    or_left_comm, and_comm]

theorem operation_mem_pushExpression {e : QueryExpression} {q : QueryOperation} :
    .operation q ∈ pushExpressionChildren e ↔ q ∈ e.subqueries := by
  cases e <;> simp [pushExpressionChildren, QueryExpression.subqueries, eq_comm]

theorem source_not_mem_pushExpression {e : QueryExpression} {s : QuerySource} :
    .source s ∉ pushExpressionChildren e := by
  cases e <;> simp [pushExpressionChildren]

namespace QueryWalkNode

noncomputable def size : QueryWalkNode → Nat
  | .operation q => sizeOf q
  | .expression e => sizeOf e
  | .source _ => 0

theorem size_pushed_lt {n c : QueryWalkNode} (h : c ∈ n.pushed) : c.size < n.size := by
  cases n with
  | operation q =>
    cases c with
    | operation c => exact QueryOperation.size_part_lt (operation_mem_push h)
    | expression c => exact QueryOperation.size_part_lt (expression_mem_push h)
    | source c =>
      cases q
      simp +arith [size]
  | expression e =>
    cases c with
    | operation c => exact QueryExpression.sizeOf_subquery_lt (operation_mem_pushExpression.1 h)
    | expression c => exact QueryExpression.sizeOf_operand_lt (expression_mem_pushExpression.1 h)
    | source c => exact absurd h source_not_mem_pushExpression
  | source s => cases h

end QueryWalkNode

def walkLoop (visitor : QueryWalkNode → QueryWalkControl) : WorkStack QueryWalkNode Unit where
  visit n :=
    match visitor n with
    | .stop => .error ()
    | .skip => .ok []
    | .proceed => .ok n.pushed
  weight _ := 0
  wf := by
    refine Subrelation.wf (fun {c n} => ?_) (measure QueryWalkNode.size).wf
    rintro ⟨pushed, hvisit, hc⟩
    split at hvisit
    next => cases hvisit
    next => cases hvisit; cases hc
    next => cases hvisit; exact QueryWalkNode.size_pushed_lt hc

/-- Whether the walk comes to its end. -/
def walkQueryExpression (e : QueryExpression) (visitor : QueryWalkNode → QueryWalkControl) : Bool :=
  match (walkLoop visitor).run 0 () [.expression e] 0 with
  | .ok _ => true
  | .error _ => false

/-- The visitor that stops at an expression of `p` and enters no subquery. -/
def stopAt (p : QueryExpression → Bool) : QueryWalkNode → QueryWalkControl
  | .expression e => if p e then .stop else .proceed
  | .operation _ => .skip
  | .source _ => .proceed

def containsLockingIncompatibleExpression (e : QueryExpression) : Bool :=
  !walkQueryExpression e (stopAt (·.isLockingIncompatible))

def containsDirectSourceReference (e : QueryExpression) : Bool :=
  !walkQueryExpression e (stopAt (·.isSourceReference))

/-! ## Predicates -/

def notBoolean : DatabaseError := .invalidPlan "espressione non booleana usata come predicato"

def visitPredicate : QueryExpression → Result (List QueryExpression)
  | .compare _ _ _ | .inList _ _ _ | .between _ _ _ _ | .like _ _ _ _ | .isNull _ _
  | .existsSubquery _ _ | .inSubquery _ _ _ => .ok []
  | .and arguments | .or arguments => .ok arguments
  | .not expression => .ok [expression]
  | .spatial function arguments =>
    if function.returnsBoolean arguments.length then .ok [] else .error notBoolean
  | .spatialOperator operator _ _ =>
    if operator.returnsBoolean then .ok [] else .error notBoolean
  | _ => .error notBoolean

theorem mem_operands_of_visitPredicate {e c : QueryExpression} {pushed : List QueryExpression}
    (h : visitPredicate e = .ok pushed) (hc : c ∈ pushed) : c ∈ e.operands := by
  cases e with
  | and arguments | or arguments =>
    cases h
    exact hc
  | not expression =>
    cases h
    exact hc
  | compare _ _ _ | inList _ _ _ | between _ _ _ _ | like _ _ _ _ | isNull _ _
  | existsSubquery _ _ | inSubquery _ _ _ =>
    cases h
    cases hc
  | spatial function arguments =>
    simp only [visitPredicate] at h
    split at h
    next =>
      cases h
      cases hc
    next => cases h
  | spatialOperator operator left right =>
    simp only [visitPredicate] at h
    split at h
    next =>
      cases h
      cases hc
    next => cases h
  | _ => cases h

def predicateLoop : WorkStack QueryExpression DatabaseError where
  visit := visitPredicate
  weight _ := 0
  wf := by
    refine Subrelation.wf (fun {c n} => ?_) (measure (sizeOf : QueryExpression → Nat)).wf
    rintro ⟨pushed, hvisit, hc⟩
    exact QueryExpression.sizeOf_operand_lt (mem_operands_of_visitPredicate hvisit hc)

def predicate (e : QueryExpression) : Result Unit := predicateLoop.run 0 notBoolean [e] 0

/-! ## Names and frames -/

def identifier (value : String) (maxBytes : Nat) : Result Unit :=
  failIf (value = "" ∨ '\x00' ∈ value.toList ∨ maxBytes < value.utf8ByteSize)
    (.invalidPlan "identificatore query vuoto, con NUL o oltre limite")

/-- `identifier` of a name that may be absent. -/
def optionalIdentifier (value : Option String) (maxBytes : Nat) : Result Unit :=
  match value with
  | some value => identifier value maxBytes
  | none => .ok ()

def source (value : QuerySource) (maxBytes : Nat) : Result Unit := do
  optionalIdentifier value.object.catalog maxBytes
  optionalIdentifier value.object.schema maxBytes
  identifier value.object.object maxBytes
  optionalIdentifier value.aliasName maxBytes

def validateWindowFrame (frame : WindowFrame) : Result Unit :=
  match frame.stop with
  | some stop =>
    failIf (stop.position < frame.start.position)
      (.invalidPlan "frame window con limite iniziale successivo al finale")
  | none => .ok ()

/-! ## The nodes of the validation -/

/-- Where an expression stands in its query. -/
inductive WindowPosition where
  /-- Projection and `ORDER BY` of an operation. -/
  | allowed
  /-- `WHERE`, `ON`, `GROUP BY`, `DISTINCT ON`, `HAVING`. -/
  | clause
  /-- Inside the arguments of a window or of an aggregate. -/
  | nested
  /-- The `ORDER BY` of the result of set operations. -/
  | setOperation
  deriving DecidableEq, Repr

inductive Node where
  | operation (q : QueryOperation) (depth : Nat)
  | expression (e : QueryExpression) (depth : Nat) (position : WindowPosition)

def rejectWindow : WindowPosition → Result Unit
  | .allowed => .ok ()
  | .clause => .error (.invalidPlan "funzione window fuori da projection e ORDER BY")
  | .setOperation => .error (.invalidPlan "funzione window nell'ORDER BY di una set operation")
  | .nested => .error (.invalidPlan "funzione window annidata in una window o in un'aggregata")

/-- The frame of a window, when it has one. -/
def optionalWindowFrame (frame : Option WindowFrame) : Result Unit :=
  match frame with
  | some frame => validateWindowFrame frame
  | none => .ok ()

def pushWindowChildren (depth : Nat) (arguments partitionBy : List QueryExpression)
    (orderBy : List QueryOrdering) : List Node :=
  (arguments ++ partitionBy).map (.expression · (depth + 1) .nested) ++
    orderBy.map fun ordering => .expression ordering.expression (depth + 1) .nested

/-! ## Visiting an expression -/

def visitExpression (limits : Limits) (e : QueryExpression) (depth : Nat)
    (position : WindowPosition) : Result (List Node) :=
  match e with
  | .wildcard relation => do
    optionalIdentifier relation limits.maxIdentifierBytes
    .ok []
  | .column column => do
    optionalIdentifier column.relation limits.maxIdentifierBytes
    identifier column.field limits.maxIdentifierBytes
    .ok []
  | .parameter name | .typedParameter name _ => do
    identifier name 256
    .ok []
  | .scalar function arguments => do
    failIf (function.requiresWindow = true)
      (.invalidPlan "funzione window usata senza clausola OVER")
    failIf (¬ function.acceptsArgumentCount arguments.length)
      (.invalidPlan "numero argomenti funzione scalare non valido")
    let inner := if function.isAggregate then .nested else position
    .ok (arguments.map (.expression · (depth + 1) inner))
  | .spatial function arguments => do
    failIf (function.isWindowOnly = true)
      (.invalidPlan ("funzione spatial window usata come chiamata ordinaria: " ++
        "richiede QueryExpression::SpatialWindow"))
    failIf (¬ function.acceptsArgumentCount arguments.length)
      (.invalidPlan "numero argomenti funzione spatial non valido")
    let inner := if function.isAggregate arguments.length then .nested else position
    .ok (arguments.map (.expression · (depth + 1) inner))
  | .spatialOutput expression _ => do
    failIf (¬ expression.isColumn) (.invalidPlan "projection spatial richiede una colonna")
    .ok [.expression expression (depth + 1) position]
  | .spatialValue expression srid _ => do
    failIf (srid = 0) (.invalidPlan "valore spatial richiede SRID positivo")
    failIf (¬ expression.isBind) (.invalidPlan "valore spatial richiede un bind")
    .ok [.expression expression (depth + 1) position]
  | .arithmetic left _ right | .spatialOperator _ left right | .compare left _ right =>
    .ok [.expression left (depth + 1) position, .expression right (depth + 1) position]
  | .inList expression values _ => do
    failIf (values = []) (.invalidPlan "lista IN query vuota")
    .ok (.expression expression (depth + 1) position ::
      values.map (.expression · (depth + 1) position))
  | .between expression lower upper _ =>
    .ok ([expression, lower, upper].map (.expression · (depth + 1) position))
  | .like expression pattern _ _ =>
    .ok ([expression, pattern].map (.expression · (depth + 1) position))
  | .cast expression _ | .nullsOrder expression _ | .isNull expression _ | .not expression =>
    .ok [.expression expression (depth + 1) position]
  | .caseWhen branches elseExpression => do
    failIf (branches = []) (.invalidPlan "CASE richiede almeno un ramo")
    let pushed ← branches.mapM fun branch => do
      predicate branch.condition
      .ok [Node.expression branch.condition (depth + 1) position,
        Node.expression branch.value (depth + 1) position]
    .ok (elseExpression.toList.map (.expression · (depth + 1) position) ++ pushed.flatten)
  | .window function arguments partitionBy orderBy frame => do
    failIf (¬ function.isWindowFunction) (.invalidPlan "funzione non valida come window")
    rejectWindow position
    failIf (¬ function.acceptsArgumentCount arguments.length)
      (.invalidPlan "numero argomenti funzione window non valido")
    optionalWindowFrame frame
    .ok (pushWindowChildren depth arguments partitionBy orderBy)
  | .spatialWindow function arguments partitionBy orderBy frame => do
    failIf (¬ function.isWindowOnly ∨ ¬ function.acceptsArgumentCount arguments.length)
      (.invalidPlan "funzione spatial window non valida")
    rejectWindow position
    optionalWindowFrame frame
    .ok (pushWindowChildren depth arguments partitionBy orderBy)
  | .scalarSubquery query | .existsSubquery query _ => .ok [.operation query (depth + 1)]
  | .inSubquery expression query _ =>
    .ok [.expression expression (depth + 1) position, .operation query (depth + 1)]
  | .and arguments | .or arguments => do
    failIf (arguments = []) (.invalidPlan "gruppo query vuoto")
    .ok (arguments.map (.expression · (depth + 1) position))

/-! ## Visiting an operation -/

def visitSource (limits : Limits) (q : QueryOperation) (depth : Nat) : Result (List Node) :=
  match q.source, q.derivedSource with
  | some value, none => do
    source value limits.maxIdentifierBytes
    .ok []
  | none, some value => do
    identifier value.aliasName limits.maxIdentifierBytes
    .ok [.operation value.query (depth + 1)]
  | none, none => do
    failIf (¬ (q.joins = [] ∧ q.locking = none ∧ q.declaredCrs = [] ∧
        q.clauseExpressions.any containsDirectSourceReference = false))
      (.invalidPlan "query con riferimenti relazionali richiede una sola source")
    .ok []
  | some _, some _ =>
    .error (.invalidPlan "query con riferimenti relazionali richiede una sola source")

def visitJoinSource (limits : Limits) (join : QueryJoin) (depth : Nat) : Result (List Node) :=
  match join.source, join.derivedSource with
  | some value, none => do
    source value limits.maxIdentifierBytes
    .ok []
  | none, some value => do
    identifier value.aliasName limits.maxIdentifierBytes
    .ok [.operation value.query (depth + 1)]
  | _, _ => .error (.invalidPlan "join richiede una sola source, tabella o subquery")

def visitJoinCondition (join : QueryJoin) (depth : Nat) : Result (List Node) :=
  match join.kind, join.on with
  | .cross, some _ => .error (.invalidPlan "CROSS JOIN con clausola ON")
  | .cross, none => .ok []
  | _, some on => do
    predicate on
    .ok [.expression on (depth + 1) .clause]
  | _, none => .error (.invalidPlan "JOIN senza clausola ON")

def visitJoin (limits : Limits) (depth : Nat) (join : QueryJoin) : Result (List Node) := do
  failIf (join.lateral = true ∧ join.derivedSource.isNone) (.invalidPlan "LATERAL richiede una subquery")
  let derived ← visitJoinSource limits join depth
  let on ← visitJoinCondition join depth
  .ok (derived ++ on)

/-- `WHERE` and `HAVING`. -/
def visitCondition (condition : Option QueryExpression) (depth : Nat) : Result (List Node) :=
  match condition with
  | some condition => do
    predicate condition
    .ok [.expression condition (depth + 1) .clause]
  | none => .ok []

def checkLocking (limits : Limits) (q : QueryOperation) : Result Unit :=
  match q.locking with
  | some locking =>
    let lockableRelations := q.source.toList.map (·.visibleName) ++
      q.joins.flatMap fun join => join.source.toList.map (·.visibleName)
    locking.relations.forM fun relation => do
      identifier relation limits.maxIdentifierBytes
      failIf (relation ∉ lockableRelations)
        (.invalidPlan "relazione FOR UPDATE/SHARE non direttamente lockable")
  | none => .ok ()

def visitOperation [DecidableEq QueryExpression] (limits : Limits) (q : QueryOperation) (depth : Nat) : Result (List Node) := do
  failIf (q.projection = []) (.invalidPlan "query senza projection")
  failIf (q.distinct = true ∧ q.distinctOn ≠ [])
    (.invalidPlan "DISTINCT e DISTINCT ON non possono coesistere")
  failIf (q.rowOffset.isSome ∧ q.orderBy = []) (.invalidPlan "OFFSET richiede ORDER BY deterministico")
  failIf (q.distinctOn ≠ [] ∧ (q.orderBy.length < q.distinctOn.length ∨
      (q.distinctOn.zip q.orderBy).any fun (on, order) => on ≠ order.expression))
    (.invalidPlan "DISTINCT ON deve coincidere col prefisso ORDER BY")
  failIf (q.setOperations.any fun set => set.query.projection.length ≠ q.projection.length)
    (.invalidPlan "set operation con numero di colonne differente")
  failIf (q.locking.isSome ∧ q.setOperations ≠ [])
    (.invalidPlan "locking non ammesso su query con set operation")
  failIf (q.locking.isSome ∧ (q.distinct = true ∨ q.distinctOn ≠ [] ∨ q.groupBy ≠ [] ∨
      q.having.isSome ∨
      q.projection.any (containsLockingIncompatibleExpression ·.expression)))
    (.invalidPlan "locking non ammesso con distinct, aggregazioni o window")
  let derived ← visitSource limits q depth
  let ctes ← q.commonTableExpressions.mapM fun cte => do
    identifier cte.name limits.maxIdentifierBytes
    .ok (Node.operation cte.query (depth + 1))
  let projection ← q.projection.mapM fun projection => do
    optionalIdentifier projection.aliasName limits.maxIdentifierBytes
    .ok (Node.expression projection.expression (depth + 1) .allowed)
  let joins ← q.joins.mapM (visitJoin limits depth)
  let filter ← visitCondition q.filter depth
  let having ← visitCondition q.having depth
  let orderingPosition := if q.setOperations = [] then .allowed else .setOperation
  checkLocking limits q
  .ok [derived, ctes, projection, joins.flatten, filter,
    q.groupBy.map (.expression · (depth + 1) .clause),
    q.distinctOn.map (.expression · (depth + 1) .clause), having,
    q.orderBy.map fun ordering => .expression ordering.expression (depth + 1) orderingPosition,
    q.setOperations.map fun set => .operation set.query (depth + 1)].flatten

/-! ## What each check accepts -/

theorem identifier_eq_ok {value : String} {maxBytes : Nat} {u : Unit} :
    identifier value maxBytes = .ok u ↔ IsIdentifier maxBytes value := by
  unfold identifier IsIdentifier
  rw [failIf_eq_ok, not_or, not_or, Nat.not_lt]

theorem optionalIdentifier_eq_ok {value : Option String} {maxBytes : Nat} {u : Unit} :
    optionalIdentifier value maxBytes = .ok u ↔ ∀ name ∈ value, IsIdentifier maxBytes name := by
  cases value with
  | none => simp [optionalIdentifier]
  | some value => simp [optionalIdentifier, identifier_eq_ok]

theorem source_eq_ok {value : QuerySource} {maxBytes : Nat} {u : Unit} :
    source value maxBytes = .ok u ↔ SourceNames maxBytes value := by
  simp only [source, bind_eq_ok, optionalIdentifier_eq_ok, identifier_eq_ok, exists_const]
  constructor
  · rintro ⟨hcatalog, hschema, hobject, halias⟩
    exact ⟨hcatalog, hschema, hobject, halias⟩
  · rintro ⟨hcatalog, hschema, hobject, halias⟩
    exact ⟨hcatalog, hschema, hobject, halias⟩

theorem optionalWindowFrame_eq_ok {frame : Option WindowFrame} {u : Unit} :
    optionalWindowFrame frame = .ok u ↔ ∀ f ∈ frame, f.Ordered := by
  cases frame with
  | none => simp [optionalWindowFrame]
  | some frame =>
    obtain ⟨units, start, stop⟩ := frame
    cases stop with
    | none => simp [optionalWindowFrame, validateWindowFrame, WindowFrame.Ordered]
    | some stop =>
      simp [optionalWindowFrame, validateWindowFrame, WindowFrame.Ordered, failIf_eq_ok]

theorem rejectWindow_eq_ok {position : WindowPosition} {u : Unit} :
    rejectWindow position = .ok u ↔ position = .allowed := by
  cases position <;> simp [rejectWindow]

theorem predicateLoop_clean (e : QueryExpression) : predicateLoop.Clean e ↔ BooleanShaped e := by
  constructor
  · intro h
    induction h with
    | intro e pushed hvisit _ ih =>
      have hvisit : visitPredicate e = .ok pushed := hvisit
      cases e with
      | and arguments =>
        cases hvisit
        exact .and _ ih
      | or arguments =>
        cases hvisit
        exact .or _ ih
      | not expression =>
        cases hvisit
        exact .not expression (ih expression (List.mem_singleton_self _))
      | spatial function arguments =>
        simp only [visitPredicate] at hvisit
        split at hvisit
        next hbool => exact .spatial function arguments hbool
        next => cases hvisit
      | spatialOperator operator left right =>
        simp only [visitPredicate] at hvisit
        split at hvisit
        next hbool => exact .spatialOperator operator left right hbool
        next => cases hvisit
      | compare left operator right => exact .compare left operator right
      | inList e values negated => exact .inList e values negated
      | between e lower upper negated => exact .between e lower upper negated
      | like e pattern caseInsensitive negated => exact .like e pattern caseInsensitive negated
      | isNull e negated => exact .isNull e negated
      | existsSubquery q negated => exact .existsSubquery q negated
      | inSubquery e q negated => exact .inSubquery e q negated
      | _ => cases hvisit
  · intro h
    rw [predicateLoop.clean_iff]
    induction h with
    | and arguments _ ih =>
      exact ⟨arguments, rfl, fun a ha => (predicateLoop.clean_iff a).2 (ih a ha)⟩
    | or arguments _ ih =>
      exact ⟨arguments, rfl, fun a ha => (predicateLoop.clean_iff a).2 (ih a ha)⟩
    | not e _ ih =>
      refine ⟨[e], rfl, fun a ha => ?_⟩
      rw [List.mem_singleton.1 ha]
      exact (predicateLoop.clean_iff e).2 ih
    | spatial function arguments hbool => exact ⟨[], if_pos hbool, fun _ h => by cases h⟩
    | spatialOperator operator left right hbool => exact ⟨[], if_pos hbool, fun _ h => by cases h⟩
    | _ => exact ⟨[], rfl, fun _ h => by cases h⟩

theorem predicate_eq_ok {e : QueryExpression} {u : Unit} :
    predicate e = .ok u ↔ BooleanShaped e := by
  unfold predicate
  rw [predicateLoop.run_free_eq_ok fun _ => rfl]
  simp [predicateLoop_clean]

theorem walkLoop_clean (p : QueryExpression → Bool) (e : QueryExpression) :
    (walkLoop (stopAt p)).Clean (.expression e) ↔ ¬ e.Contains (p · = true) := by
  induction hsize : sizeOf e using Nat.strong_induction_on generalizing e with
  | h size ih =>
    rw [(walkLoop (stopAt p)).clean_iff, QueryExpression.contains_iff]
    by_cases hp : p e = true
    · have hvisit : (walkLoop (stopAt p)).visit (.expression e) = .error () := by
        simp [walkLoop, stopAt, hp]
      rw [hvisit]
      simp [hp]
    · have hvisit : (walkLoop (stopAt p)).visit (.expression e) =
          .ok (pushExpressionChildren e) := by
        simp [walkLoop, stopAt, hp, QueryWalkNode.pushed]
      rw [hvisit]
      simp only [Except.ok.injEq, exists_eq_left', hp, Bool.false_eq_true, false_or, not_exists,
        not_and]
      constructor
      · intro hclean o ho
        have := hclean (.expression o) (expression_mem_pushExpression.2 ho)
        exact (ih (sizeOf o) (hsize ▸ QueryExpression.sizeOf_operand_lt ho) o rfl).1 this
      · intro hcontains c hc
        cases c with
        | operation q =>
          exact .intro _ [] rfl fun _ h => by cases h
        | expression o =>
          have ho := expression_mem_pushExpression.1 hc
          exact (ih (sizeOf o) (hsize ▸ QueryExpression.sizeOf_operand_lt ho) o rfl).2
            (hcontains o ho)
        | source s => exact absurd hc source_not_mem_pushExpression

theorem walkQueryExpression_eq_false {p : QueryExpression → Bool} {e : QueryExpression} :
    walkQueryExpression e (stopAt p) = false ↔ e.Contains (p · = true) := by
  have hrun := (walkLoop (stopAt p)).run_free_eq_ok (fun _ => rfl) () [.expression e]
  rw [List.forall_mem_singleton, walkLoop_clean] at hrun
  unfold walkQueryExpression
  split
  next u hok => 
    have : ¬ e.Contains (p · = true) := hrun.1 hok
    simp [this]
  next u herr =>
    rw [herr] at hrun
    simpa using hrun

theorem containsLockingIncompatibleExpression_iff (e : QueryExpression) :
    containsLockingIncompatibleExpression e = true ↔
      e.Contains (·.isLockingIncompatible = true) := by
  rw [containsLockingIncompatibleExpression, Bool.not_eq_true', walkQueryExpression_eq_false]

theorem containsDirectSourceReference_iff (e : QueryExpression) :
    containsDirectSourceReference e = true ↔ e.Contains (·.isSourceReference = true) := by
  rw [containsDirectSourceReference, Bool.not_eq_true', walkQueryExpression_eq_false]

/-! ## What a visit accepts -/

/-- The place of the operands of an expression. -/
def WindowPosition.inner (position : WindowPosition) (e : QueryExpression) : WindowPosition :=
  if e.enclosesNoWindow then .nested else position

/-- The nodes under an expression. -/
def expressionNodes (e : QueryExpression) (depth : Nat) (position : WindowPosition) : List Node :=
  e.operands.map (.expression · (depth + 1) (position.inner e)) ++
    e.subqueries.map (.operation · (depth + 1))

theorem mapM_ok_iff {α β ε : Type} {f : α → Except ε β} {C : α → Prop} {g : α → β}
    (h : ∀ a b, f a = .ok b ↔ C a ∧ b = g a) {as : List α} {bs : List β} :
    as.mapM f = .ok bs ↔ (∀ a ∈ as, C a) ∧ bs = as.map g := by
  rw [mapM_eq_ok]
  induction as generalizing bs with
  | nil => simp
  | cons a as ih =>
    rw [List.forall₂_cons_left_iff]
    constructor
    · rintro ⟨b, rest, hb, hrest, rfl⟩
      obtain ⟨ha, rfl⟩ := (h a b).1 hb
      obtain ⟨has, rfl⟩ := ih.1 hrest
      exact ⟨List.forall_mem_cons.2 ⟨ha, has⟩, rfl⟩
    · rintro ⟨hall, rfl⟩
      obtain ⟨ha, has⟩ := List.forall_mem_cons.1 hall
      exact ⟨g a, as.map g, (h a _).2 ⟨ha, rfl⟩, ih.2 ⟨has, rfl⟩, rfl⟩

theorem ok_eq_ok {α ε : Type} {a b : α} : (Except.ok a : Except ε α) = .ok b ↔ b = a := by
  rw [Except.ok.injEq, eq_comm]

theorem visitExpression_eq_ok (limits : Limits) (e : QueryExpression) (depth : Nat)
    (position : WindowPosition) (pushed : List Node) :
    visitExpression limits e depth position = .ok pushed ↔ ExpressionShape limits e ∧
      (e.isWindow = true → position = .allowed) ∧ pushed = expressionNodes e depth position := by
  cases e with
  | caseWhen branches elseExpression =>
    have hbranch : ∀ (branch : QueryCaseBranch) (nodes : List Node),
        (do
          predicate branch.condition
          Except.ok [Node.expression branch.condition (depth + 1) position,
            Node.expression branch.value (depth + 1) position]) = .ok nodes ↔
        BooleanShaped branch.condition ∧
          nodes = [Node.expression branch.condition (depth + 1) position,
            Node.expression branch.value (depth + 1) position] := by
      intro branch nodes
      simp only [bind_eq_ok, predicate_eq_ok, exists_const, ok_eq_ok]
    have hnodes : expressionNodes (.caseWhen branches elseExpression) depth position =
        elseExpression.toList.map (Node.expression · (depth + 1) position) ++
          (branches.map fun branch => [Node.expression branch.condition (depth + 1) position,
            Node.expression branch.value (depth + 1) position]).flatten := by
      simp [expressionNodes, QueryExpression.operands, QueryExpression.subqueries,
        WindowPosition.inner, QueryExpression.enclosesNoWindow, List.flatMap_def,
        Function.comp_def]
    simp only [visitExpression, bind_eq_ok, failIf_eq_ok, exists_const, mapM_ok_iff hbranch,
      and_assoc, exists_and_left, exists_eq_left, ok_eq_ok]
    rw [hnodes]
    constructor
    · rintro ⟨hne, hbool, hpushed⟩
      exact ⟨⟨hne, hbool⟩, fun h => (by cases h), hpushed⟩
    · rintro ⟨⟨hne, hbool⟩, _, hpushed⟩
      exact ⟨hne, hbool, hpushed⟩
  | window function arguments partitionBy orderBy frame =>
    have hnodes : expressionNodes (.window function arguments partitionBy orderBy frame) depth
        position = pushWindowChildren depth arguments partitionBy orderBy := by
      simp [expressionNodes, QueryExpression.operands, QueryExpression.subqueries,
        WindowPosition.inner, QueryExpression.enclosesNoWindow, pushWindowChildren]
    simp only [visitExpression, bind_eq_ok, failIf_eq_ok, rejectWindow_eq_ok, not_not,
      optionalWindowFrame_eq_ok, exists_const, ok_eq_ok]
    rw [hnodes]
    constructor
    · rintro ⟨hfunction, hplace, hcount, hframe, hpushed⟩
      exact ⟨⟨hfunction, hcount, hframe⟩, fun _ => hplace, hpushed⟩
    · rintro ⟨⟨hfunction, hcount, hframe⟩, hplace, hpushed⟩
      exact ⟨hfunction, hplace rfl, hcount, hframe, hpushed⟩
  | spatialWindow function arguments partitionBy orderBy frame =>
    have hnodes : expressionNodes (.spatialWindow function arguments partitionBy orderBy frame)
        depth position = pushWindowChildren depth arguments partitionBy orderBy := by
      simp [expressionNodes, QueryExpression.operands, QueryExpression.subqueries,
        WindowPosition.inner, QueryExpression.enclosesNoWindow, pushWindowChildren]
    simp only [visitExpression, bind_eq_ok, failIf_eq_ok, rejectWindow_eq_ok, not_or, not_not,
      optionalWindowFrame_eq_ok, exists_const, ok_eq_ok]
    rw [hnodes]
    constructor
    · rintro ⟨⟨hfunction, hcount⟩, hplace, hframe, hpushed⟩
      exact ⟨⟨hfunction, hcount, hframe⟩, fun _ => hplace, hpushed⟩
    · rintro ⟨⟨hfunction, hcount, hframe⟩, hplace, hpushed⟩
      exact ⟨⟨hfunction, hcount⟩, hplace rfl, hframe, hpushed⟩
  | scalar function arguments =>
    simp only [visitExpression, bind_eq_ok, failIf_eq_ok, exists_const, ok_eq_ok,
      expressionNodes, QueryExpression.operands, QueryExpression.subqueries, List.map_nil,
      List.append_nil, ExpressionShape, Bool.not_eq_true, Bool.not_eq_false, and_assoc]
    constructor
    · rintro ⟨hwindow, hcount, hpushed⟩
      exact ⟨hwindow, hcount, fun h => (by cases h), hpushed⟩
    · rintro ⟨hwindow, hcount, _, hpushed⟩
      exact ⟨hwindow, hcount, hpushed⟩
  | spatial function arguments =>
    simp only [visitExpression, bind_eq_ok, failIf_eq_ok, exists_const, ok_eq_ok,
      expressionNodes, QueryExpression.operands, QueryExpression.subqueries, List.map_nil,
      List.append_nil, ExpressionShape, Bool.not_eq_true, Bool.not_eq_false, and_assoc]
    constructor
    · rintro ⟨hwindow, hcount, hpushed⟩
      exact ⟨hwindow, hcount, fun h => (by cases h), hpushed⟩
    · rintro ⟨hwindow, hcount, _, hpushed⟩
      exact ⟨hwindow, hcount, hpushed⟩
  | _ =>
    simp [visitExpression, bind_eq_ok, failIf_eq_ok, ok_eq_ok, optionalIdentifier_eq_ok,
      identifier_eq_ok, ExpressionShape, expressionNodes, QueryExpression.operands,
      QueryExpression.subqueries, QueryExpression.isWindow, WindowPosition.inner,
      QueryExpression.enclosesNoWindow, and_assoc, -Except.ok.injEq]

theorem forM_eq_ok {α ε : Type} {f : α → Except ε Unit} {as : List α} {u : Unit} :
    as.forM f = .ok u ↔ ∀ a ∈ as, f a = .ok () := by
  induction as with
  | nil => exact ⟨fun _ a ha => (by cases ha), fun _ => rfl⟩
  | cons a as ih =>
    show (f a >>= fun _ => as.forM f) = .ok u ↔ _
    rw [bind_eq_ok, List.forall_mem_cons]
    simp only [ih]
    constructor
    · rintro ⟨⟨⟩, ha, has⟩
      exact ⟨ha, has⟩
    · rintro ⟨ha, has⟩
      exact ⟨(), ha, has⟩

theorem visitSource_eq_ok (limits : Limits) (q : QueryOperation) (depth : Nat)
    (pushed : List Node) :
    visitSource limits q depth = .ok pushed ↔
      (OneSource limits.maxIdentifierBytes q.source q.derivedSource ∨ NoSource q) ∧
        pushed = q.derivedSource.toList.map fun derived => .operation derived.query (depth + 1) := by
  have hno : ∀ s, q.source = some s → ¬ NoSource q := by
    intro s hs h
    rw [h.source] at hs
    cases hs
  have hnod : ∀ d, q.derivedSource = some d → ¬ NoSource q := by
    intro d hd h
    rw [h.derivedSource] at hd
    cases hd
  unfold visitSource
  split
  next value hsource hderived =>
    simp [hsource, hderived, OneSource, hno value hsource, source_eq_ok, bind_eq_ok, ok_eq_ok,
      -Except.ok.injEq]
  next value hsource hderived =>
    simp [hsource, hderived, OneSource, hnod value hderived, identifier_eq_ok, bind_eq_ok,
      ok_eq_ok, -Except.ok.injEq]
  next hsource hderived =>
    have hiff : NoSource q ↔ q.joins = [] ∧ q.locking = none ∧ q.declaredCrs = [] ∧
        q.clauseExpressions.any containsDirectSourceReference = false := by
      simp only [List.any_eq_false, containsDirectSourceReference_iff]
      constructor
      · rintro ⟨_, _, hjoins, hlocking, hcrs, hreferences⟩
        exact ⟨hjoins, hlocking, hcrs, hreferences⟩
      · rintro ⟨hjoins, hlocking, hcrs, hreferences⟩
        exact ⟨hsource, hderived, hjoins, hlocking, hcrs, hreferences⟩
    rw [hiff]
    simp [hsource, hderived, OneSource, bind_eq_ok, failIf_eq_ok, ok_eq_ok, -Except.ok.injEq,
      and_assoc]
  next value value' hsource hderived =>
    simp [hsource, hderived, OneSource, hno value hsource]

/-- The nodes under a join. -/
def joinNodes (depth : Nat) (join : QueryJoin) : List Node :=
  (join.derivedSource.toList.map fun derived => .operation derived.query (depth + 1)) ++
    join.on.toList.map (.expression · (depth + 1) .clause)

theorem visitJoin_eq_ok (limits : Limits) (depth : Nat) (join : QueryJoin) (pushed : List Node) :
    visitJoin limits depth join = .ok pushed ↔
      JoinShape limits.maxIdentifierBytes join ∧ pushed = joinNodes depth join := by
  have hsource : ∀ nodes, visitJoinSource limits join depth = .ok nodes ↔
      OneSource limits.maxIdentifierBytes join.source join.derivedSource ∧
        nodes = join.derivedSource.toList.map fun derived => .operation derived.query (depth + 1) := by
    intro nodes
    unfold visitJoinSource OneSource
    cases join.source <;> cases join.derivedSource <;>
      simp [source_eq_ok, identifier_eq_ok, bind_eq_ok, ok_eq_ok, -Except.ok.injEq]
  have hon : ∀ nodes, visitJoinCondition join depth = .ok nodes ↔
      ((join.kind = .cross ↔ join.on = none) ∧ ∀ condition ∈ join.on, BooleanShaped condition) ∧
        nodes = join.on.toList.map (.expression · (depth + 1) .clause) := by
    intro nodes
    unfold visitJoinCondition
    cases join.kind <;> cases join.on <;>
      simp [predicate_eq_ok, bind_eq_ok, ok_eq_ok, -Except.ok.injEq]
  simp only [visitJoin, bind_eq_ok, failIf_eq_ok, exists_const, hsource, hon, and_assoc,
    exists_and_left, exists_eq_left, ok_eq_ok, joinNodes]
  constructor
  · rintro ⟨hlateral, hsource, hcross, hon, hpushed⟩
    exact ⟨⟨fun h hnone => hlateral ⟨h, by simp [hnone]⟩, hsource, hcross, hon⟩, hpushed⟩
  · rintro ⟨⟨hlateral, hsource, hcross, hon⟩, hpushed⟩
    exact ⟨fun h => hlateral h.1 (by simpa using h.2), hsource, hcross, hon, hpushed⟩

theorem visitCondition_eq_ok (condition : Option QueryExpression) (depth : Nat)
    (pushed : List Node) :
    visitCondition condition depth = .ok pushed ↔ (∀ c ∈ condition, BooleanShaped c) ∧
      pushed = condition.toList.map (.expression · (depth + 1) .clause) := by
  cases condition <;>
    simp [visitCondition, predicate_eq_ok, bind_eq_ok, ok_eq_ok, -Except.ok.injEq]

theorem checkLocking_eq_ok (limits : Limits) (q : QueryOperation) (u : Unit) :
    checkLocking limits q = .ok u ↔ ∀ lock ∈ q.locking, ∀ name ∈ lock.relations,
      IsIdentifier limits.maxIdentifierBytes name ∧ name ∈ q.lockableRelations := by
  unfold checkLocking
  cases q.locking with
  | none => simp
  | some lock =>
    simp only [forM_eq_ok, bind_eq_ok, identifier_eq_ok, failIf_eq_ok, exists_const, not_not,
      Option.mem_def, Option.some.injEq, forall_eq']
    rfl

theorem prefix_iff [DecidableEq QueryExpression] (distinctOn : List QueryExpression)
    (orderBy : List QueryOrdering) :
    ¬ (orderBy.length < distinctOn.length ∨ (distinctOn.zip orderBy).any fun (on, order) =>
      on ≠ order.expression) ↔ distinctOn <+: orderBy.map (·.expression) := by
  induction distinctOn generalizing orderBy with
  | nil => simp
  | cons on distinctOn ih =>
    cases orderBy with
    | nil => simp
    | cons order orderBy =>
      rw [List.map_cons, List.cons_prefix_cons, ← ih orderBy]
      simp only [List.length_cons, Nat.add_lt_add_iff_right, List.zip_cons_cons, List.any_cons,
        Bool.or_eq_true, decide_eq_true_eq]
      constructor
      · intro h
        refine ⟨?_, fun h' => h (h'.imp id .inr)⟩
        by_contra hne
        exact h (.inr (.inl hne))
      · rintro ⟨rfl, h⟩ (h' | h' | h')
        · exact h (.inl h')
        · exact h' rfl
        · exact h (.inr h')

/-- The nodes under an operation. -/
def operationNodes (q : QueryOperation) (depth : Nat) : List Node :=
  [q.derivedSource.toList.map fun derived => .operation derived.query (depth + 1),
    q.commonTableExpressions.map fun cte => .operation cte.query (depth + 1),
    q.projection.map fun projection => .expression projection.expression (depth + 1) .allowed,
    (q.joins.map (joinNodes depth)).flatten,
    q.filter.toList.map (.expression · (depth + 1) .clause),
    q.groupBy.map (.expression · (depth + 1) .clause),
    q.distinctOn.map (.expression · (depth + 1) .clause),
    q.having.toList.map (.expression · (depth + 1) .clause),
    q.orderBy.map fun ordering => .expression ordering.expression (depth + 1)
      (if q.setOperations = [] then .allowed else .setOperation),
    q.setOperations.map fun set => .operation set.query (depth + 1)].flatten

theorem distinctOn_iff [DecidableEq QueryExpression] (q : QueryOperation) :
    ¬ (q.distinctOn ≠ [] ∧ (q.orderBy.length < q.distinctOn.length ∨
      (q.distinctOn.zip q.orderBy).any fun (on, order) => on ≠ order.expression)) ↔
      q.distinctOn <+: q.orderBy.map (·.expression) := by
  rw [← prefix_iff]
  constructor
  · intro h hbad
    refine h ⟨fun hnil => ?_, hbad⟩
    rw [hnil] at hbad
    simp at hbad
  · exact fun h hbad => h hbad.2

theorem setOperations_iff (q : QueryOperation) :
    ¬ ((q.setOperations.any fun set =>
      set.query.projection.length ≠ q.projection.length) = true) ↔
      ∀ set ∈ q.setOperations, set.query.projection.length = q.projection.length := by
  simp

/-- The three checks of a lock. -/
theorem locking_iff (limits : Limits) (q : QueryOperation) :
    (¬ (q.locking.isSome ∧ q.setOperations ≠ []) ∧
      ¬ (q.locking.isSome ∧ (q.distinct = true ∨ q.distinctOn ≠ [] ∨ q.groupBy ≠ [] ∨
        q.having.isSome ∨
        q.projection.any (containsLockingIncompatibleExpression ·.expression))) ∧
      ∀ lock ∈ q.locking, ∀ name ∈ lock.relations,
        IsIdentifier limits.maxIdentifierBytes name ∧ name ∈ q.lockableRelations) ↔
      ∀ lock ∈ q.locking, LockShape limits.maxIdentifierBytes q lock := by
  cases hlocking : q.locking with
  | none => simp
  | some lock =>
    have hprojection : q.projection.any (containsLockingIncompatibleExpression ·.expression) = true
        ↔ ∃ p ∈ q.projection, p.expression.Contains (·.isLockingIncompatible = true) := by
      simp only [List.any_eq_true, containsLockingIncompatibleExpression_iff]
    simp only [hprojection, Option.isSome_some, true_and, not_not, not_or, Option.mem_def,
      Option.some.injEq, forall_eq', Bool.not_eq_true, Option.isSome_eq_false_iff,
      Option.isNone_iff_eq_none, not_exists, not_and]
    constructor
    · rintro ⟨hsets, ⟨hdistinct, hon, hgroup, hhaving, hp⟩, hrelations⟩
      exact ⟨hsets, hdistinct, hon, hgroup, hhaving, hp, hrelations⟩
    · rintro ⟨hsets, hdistinct, hon, hgroup, hhaving, hp, hrelations⟩
      exact ⟨hsets, ⟨hdistinct, hon, hgroup, hhaving, hp⟩, hrelations⟩

theorem visitOperation_eq_ok [DecidableEq QueryExpression] (limits : Limits) (q : QueryOperation)
    (depth : Nat) (pushed : List Node) :
    visitOperation limits q depth = .ok pushed ↔
      OperationShape limits q ∧ pushed = operationNodes q depth := by
  have hcte : ∀ (cte : CommonTableExpression) (node : Node),
      (do
        identifier cte.name limits.maxIdentifierBytes
        Except.ok (Node.operation cte.query (depth + 1))) = .ok node ↔
      IsIdentifier limits.maxIdentifierBytes cte.name ∧
        node = Node.operation cte.query (depth + 1) := by
    intro cte node
    simp only [bind_eq_ok, identifier_eq_ok, exists_const, ok_eq_ok]
  have hprojection : ∀ (projection : QueryProjection) (node : Node),
      (do
        optionalIdentifier projection.aliasName limits.maxIdentifierBytes
        Except.ok (Node.expression projection.expression (depth + 1) .allowed)) = .ok node ↔
      (∀ name ∈ projection.aliasName, IsIdentifier limits.maxIdentifierBytes name) ∧
        node = Node.expression projection.expression (depth + 1) .allowed := by
    intro projection node
    simp only [bind_eq_ok, optionalIdentifier_eq_ok, exists_const, ok_eq_ok]
  simp only [visitOperation, bind_eq_ok, failIf_eq_ok, exists_const, mapM_ok_iff hcte,
    mapM_ok_iff hprojection, mapM_ok_iff (visitJoin_eq_ok limits depth), visitSource_eq_ok,
    visitCondition_eq_ok, checkLocking_eq_ok, and_assoc, exists_and_left, exists_eq_left, ok_eq_ok]
  constructor
  · rintro ⟨hne, hdistinct, hoffset, hon, hsets, hlockSets, hlock, hsource, hctes, haliases, hjoins,
      hfilter, hhaving, hrelations, hpushed⟩
    refine ⟨⟨hne, fun h => ?_, fun h hnil => hoffset ⟨Option.isSome_iff_ne_none.2 h, hnil⟩,
      (distinctOn_iff q).1 hon, (setOperations_iff q).1 hsets,
      (locking_iff limits q).1 ⟨hlockSets, hlock, hrelations⟩, hsource, hctes, haliases, hjoins,
      hfilter, hhaving⟩, hpushed⟩
    by_contra hne'
    exact hdistinct ⟨h, hne'⟩
  · rintro ⟨⟨hne, hdistinct, hoffset, hon, hsets, hlock, hsource, hctes, haliases, hjoins,
      hfilter, hhaving⟩, hpushed⟩
    obtain ⟨hlockSets, hlock, hrelations⟩ := (locking_iff limits q).2 hlock
    exact ⟨hne, fun h => h.2 (hdistinct h.1),
      fun h => hoffset (Option.isSome_iff_ne_none.1 h.1) h.2, (distinctOn_iff q).2 hon,
      (setOperations_iff q).2 hsets, hlockSets, hlock, hsource, hctes, haliases, hjoins, hfilter,
      hhaving, hrelations, hpushed⟩

/-! ## The validation -/

namespace Node

def depth : Node → Nat
  | .operation _ depth => depth
  | .expression _ depth _ => depth

/-- The node without its depth and its place. -/
def part : Node → QueryPart
  | .operation q _ => .operation q
  | .expression e _ _ => .expression e

/-- What is asked of the node itself. -/
def Shape (limits : Limits) : Node → Prop
  | .operation q _ => OperationShape limits q
  | .expression e _ position =>
    ExpressionShape limits e ∧ (e.isWindow = true → position = .allowed)

def children : Node → List Node
  | .operation q depth => operationNodes q depth
  | .expression e depth position => expressionNodes e depth position

theorem children_part (n : Node) : n.children.map part = n.part.children := by
  cases n with
  | operation q depth =>
    simp [children, operationNodes, joinNodes, part, QueryPart.children, QueryOperation.parts,
      List.map_flatten, Function.comp_def, List.flatMap_def]
  | expression e depth position =>
    simp [children, expressionNodes, part, QueryPart.children, Function.comp_def]

end Node

theorem forall_operationNodes (P : Node → Prop) (q : QueryOperation) (depth : Nat) :
    (∀ c ∈ operationNodes q depth, P c) ↔
      (∀ derived ∈ q.derivedSource, P (.operation derived.query (depth + 1))) ∧
      (∀ cte ∈ q.commonTableExpressions, P (.operation cte.query (depth + 1))) ∧
      (∀ p ∈ q.projection, P (.expression p.expression (depth + 1) .allowed)) ∧
      (∀ join ∈ q.joins, (∀ derived ∈ join.derivedSource,
        P (.operation derived.query (depth + 1))) ∧
        ∀ on ∈ join.on, P (.expression on (depth + 1) .clause)) ∧
      (∀ e ∈ q.filter, P (.expression e (depth + 1) .clause)) ∧
      (∀ e ∈ q.groupBy, P (.expression e (depth + 1) .clause)) ∧
      (∀ e ∈ q.distinctOn, P (.expression e (depth + 1) .clause)) ∧
      (∀ e ∈ q.having, P (.expression e (depth + 1) .clause)) ∧
      (∀ ordering ∈ q.orderBy, P (.expression ordering.expression (depth + 1)
        (if q.setOperations = [] then .allowed else .setOperation))) ∧
      ∀ set ∈ q.setOperations, P (.operation set.query (depth + 1)) := by
  have hjoins : (∀ c ∈ (q.joins.map (joinNodes depth)).flatten, P c) ↔
      ∀ join ∈ q.joins, (∀ derived ∈ join.derivedSource,
        P (.operation derived.query (depth + 1))) ∧
        ∀ on ∈ join.on, P (.expression on (depth + 1) .clause) := by
    rw [← List.flatMap_def, List.forall_mem_flatMap]
    simp only [joinNodes, List.forall_mem_append, List.forall_mem_map, Option.mem_toList]
    rfl
  simp only [operationNodes, List.flatten_cons, List.flatten_nil, List.append_nil,
    List.forall_mem_append, List.forall_mem_map, Option.mem_toList, hjoins]
  rfl

theorem children_depth (n : Node) : ∀ c ∈ n.children, c.depth = n.depth + 1 := by
  cases n with
  | operation q depth =>
    rw [Node.children, forall_operationNodes]
    simp [Node.depth]
  | expression e depth position =>
    simp [Node.children, expressionNodes, Node.depth, or_imp, forall_and]

def overLimits : DatabaseError := .invalidPlan "query oltre i limiti di profondità o nodi"

/-- One turn of the loop; the counter of the nodes is kept by the loop. -/
def visit [DecidableEq QueryExpression] (limits : Limits) (n : Node) : Result (List Node) := do
  let pushed ←
    match n with
    | .operation q depth => visitOperation limits q depth
    | .expression e depth position => visitExpression limits e depth position
  failIf (limits.maxFilterDepth < n.depth) overLimits
  .ok pushed

theorem visit_eq_ok [DecidableEq QueryExpression] (limits : Limits) (n : Node) (pushed : List Node) :
    visit limits n = .ok pushed ↔
      (n.Shape limits ∧ n.depth ≤ limits.maxFilterDepth) ∧ pushed = n.children := by
  cases n with
  | operation q depth =>
    simp only [visit, bind_eq_ok, visitOperation_eq_ok, failIf_eq_ok, Nat.not_lt, exists_const,
      ok_eq_ok, and_assoc, exists_and_left, exists_eq_left]
    rfl
  | expression e depth position =>
    simp only [visit, bind_eq_ok, visitExpression_eq_ok, failIf_eq_ok, Nat.not_lt, exists_const,
      ok_eq_ok, and_assoc, exists_and_left, exists_eq_left]
    constructor
    · rintro ⟨hshape, hplace, hdepth, hpushed⟩
      exact ⟨⟨hshape, hplace⟩, hdepth, hpushed⟩
    · rintro ⟨⟨hshape, hplace⟩, hdepth, hpushed⟩
      exact ⟨hshape, hplace, hdepth, hpushed⟩

/-- The counters count nodes of a value in memory, so their saturation never shows. -/
def queryLoop [DecidableEq QueryExpression] (limits : Limits) : WorkStack Node DatabaseError where
  visit := visit limits
  weight n := n.part.weight
  wf := by
    refine Subrelation.wf (fun {c n} => ?_) (measure fun n : Node => n.part.size).wf
    rintro ⟨pushed, hvisit, hc⟩
    obtain ⟨-, rfl⟩ := (visit_eq_ok limits n pushed).1 hvisit
    have hpart : c.part ∈ n.part.children := n.children_part ▸ List.mem_map_of_mem hc
    exact QueryPart.size_child_lt hpart

def validateQueryOperation [DecidableEq QueryExpression] (limits : Limits) (query : QueryOperation) : Result Unit :=
  (queryLoop limits).run limits.maxFilterNodes overLimits [.operation query 1] 0

end Plenora.Core
