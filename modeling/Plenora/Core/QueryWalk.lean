import Plenora.Lib.TreeWalk
import Plenora.Core.QueryValidation

/-!
# Walks of a query

`walk_query` and `walk_query_expression` go over the tree of a query with a stack.  A node is
known by its path in the document, which stands for its address.  The document is the whole query:
every expression, every nested operation and every source has its place in it, clause after clause.

    n.pushed.reverse = inOrder n                                               (reverse_pushed)
    walkPart visitor root s = (whole, s')  →  ∃ log,
      Replays visitor s log s' ∧ (whole ↔ log ends without stop) ∧
      log is in document order ∧ a node is in log iff no visit hides it        (walkPart_visits)
-/

namespace Plenora.Core

open Plenora.Lib

def QueryWalkControl.control : QueryWalkControl → Control
  | .proceed => .proceed
  | .skip => .skip
  | .stop => .stop

namespace QueryWalk

/-! ## The loop -/

/-- What a node pushes, from the top of the stack down. -/
def pushTree : OrderedTree QueryWalkNode where
  children n := n.pushed.reverse
  wf := by
    refine Subrelation.wf (fun {c n} h => ?_) (measure QueryWalkNode.size).wf
    exact QueryWalkNode.size_pushed_lt (List.mem_reverse.1 h)

abbrev QueryPlace := Place QueryWalkNode

variable {σ : Type}

def walkQueryNodes (visitor : σ → QueryPlace → QueryWalkControl × σ) (stack : List QueryPlace)
    (s : σ) : Bool × σ :=
  pushTree.walk (fun s p => ((visitor s p).1.control, (visitor s p).2)) stack s

def walkQuery (visitor : σ → QueryPlace → QueryWalkControl × σ) (operation : QueryOperation)
    (s : σ) : Bool × σ :=
  walkQueryNodes visitor [⟨[], .operation operation⟩] s

def walkQueryExpression (visitor : σ → QueryPlace → QueryWalkControl × σ)
    (expression : QueryExpression) (s : σ) : Bool × σ :=
  walkQueryNodes visitor [⟨[], .expression expression⟩] s

/-- The walk of a query or of an expression. -/
def walkPart (visitor : σ → QueryPlace → QueryWalkControl × σ) : QueryPart → σ → Bool × σ
  | .operation q => walkQuery visitor q
  | .expression e => walkQueryExpression visitor e

/-! ## The document of a query -/

/-- What stands in a source clause: a source or a derived table. -/
def relationInOrder (source : Option QuerySource) (derived : Option QueryDerivedSource) :
    List QueryWalkNode :=
  source.toList.map QueryWalkNode.source ++
    derived.toList.map fun derived => QueryWalkNode.operation derived.query

/-- What stands in the clauses of an operation, clause after clause. -/
def operationInOrder (q : QueryOperation) : List QueryWalkNode :=
  relationInOrder q.source q.derivedSource ++
    q.commonTableExpressions.map (fun cte => QueryWalkNode.operation cte.query) ++
    (q.joins.flatMap fun join => relationInOrder join.source join.derivedSource ++
      join.on.toList.map QueryWalkNode.expression) ++
    (q.projection.map (·.expression) ++ q.filter.toList ++ q.groupBy ++ q.having.toList ++
      q.orderBy.map (·.expression) ++ q.distinctOn).map QueryWalkNode.expression ++
    q.setOperations.map fun set => QueryWalkNode.operation set.query

/-- What stands directly in an expression, as it is written. -/
def expressionInOrder : QueryExpression → List QueryWalkNode
  | .scalar _ arguments | .spatial _ arguments | .and arguments | .or arguments =>
    arguments.map .expression
  | .arithmetic left _ right | .spatialOperator _ left right | .compare left _ right =>
    [.expression left, .expression right]
  | .inList expression values _ => .expression expression :: values.map .expression
  | .between expression lower upper _ =>
    [.expression expression, .expression lower, .expression upper]
  | .like expression pattern _ _ => [.expression expression, .expression pattern]
  | .window _ arguments partitionBy orderBy _
  | .spatialWindow _ arguments partitionBy orderBy _ =>
    (arguments ++ partitionBy ++ orderBy.map (·.expression)).map .expression
  | .scalarSubquery query | .existsSubquery query _ => [.operation query]
  | .inSubquery expression query _ => [.expression expression, .operation query]
  | .cast expression _ | .nullsOrder expression _ | .spatialOutput expression _
  | .spatialValue expression _ _ | .isNull expression _ | .not expression =>
    [.expression expression]
  | .caseWhen branches elseExpression =>
    (branches.flatMap fun branch => [.expression branch.condition, .expression branch.value]) ++
      elseExpression.toList.map .expression
  | .wildcard _ | .column _ | .parameter _ | .typedParameter _ _ => []

def inOrder : QueryWalkNode → List QueryWalkNode
  | .operation q => operationInOrder q
  | .expression e => expressionInOrder e
  | .source _ => []

theorem reverse_toList {α : Type} (a : Option α) : a.toList.reverse = a.toList := by
  cases a <;> rfl

/-- **The stack holds what a node pushes in document order.** -/
theorem reverse_pushed (n : QueryWalkNode) : n.pushed.reverse = inOrder n := by
  cases n with
  | operation q =>
    simp only [QueryWalkNode.pushed, pushOperationChildren, inOrder, operationInOrder,
      relationInOrder, List.reverse_append, List.reverse_flatMap, List.reverse_reverse,
      ← List.map_reverse, reverse_toList, List.append_assoc]
    simp [Function.comp_def, reverse_toList, ← List.map_reverse]
  | expression e =>
    cases e <;> simp [QueryWalkNode.pushed, pushExpressionChildren, inOrder,
      expressionInOrder, List.reverse_flatMap, Function.comp_def,
      ← List.map_reverse, reverse_toList]
  | source s => rfl

/-- The document of a query. -/
def queryTree : OrderedTree QueryWalkNode where
  children := inOrder
  wf := by
    refine Subrelation.wf (fun {c n} h => ?_) pushTree.wf
    show c ∈ n.pushed.reverse
    rwa [reverse_pushed]

theorem pushTree_eq : pushTree = queryTree := by
  have hchildren : pushTree.children = queryTree.children := funext reverse_pushed
  unfold pushTree queryTree at *
  simp only [OrderedTree.mk.injEq]
  exact hchildren

theorem mem_inOrder {n c : QueryWalkNode} : c ∈ inOrder n ↔ c ∈ n.pushed := by
  rw [← reverse_pushed, List.mem_reverse]

/-- The sources in the clauses of an operation. -/
def sources (q : QueryOperation) : List QuerySource :=
  q.source.toList ++ q.joins.flatMap fun join => join.source.toList

def node : QueryPart → QueryWalkNode
  | .operation q => .operation q
  | .expression e => .expression e

theorem operation_mem_push_iff {q c : QueryOperation} :
    .operation c ∈ pushOperationChildren q ↔ .operation c ∈ q.parts := by
  refine ⟨operation_mem_push, fun h => ?_⟩
  simp only [pushOperationChildren, QueryOperation.parts, List.mem_append, List.mem_map,
    List.mem_flatMap, List.mem_reverse, Option.mem_toList, QueryWalkNode.operation.injEq,
    QueryPart.operation.injEq, reduceCtorEq, and_false, exists_false, or_false, false_or] at h ⊢
  simpa only [or_assoc, or_comm, or_left_comm] using h

theorem expression_mem_push_iff {q : QueryOperation} {e : QueryExpression} :
    .expression e ∈ pushOperationChildren q ↔ .expression e ∈ q.parts := by
  refine ⟨expression_mem_push, fun h => ?_⟩
  simp only [pushOperationChildren, QueryOperation.parts, List.mem_append, List.mem_map,
    List.mem_flatMap, List.mem_reverse, Option.mem_toList, QueryWalkNode.expression.injEq,
    QueryPart.expression.injEq, reduceCtorEq, and_false, exists_false, or_false, false_or,
    exists_eq_right] at h ⊢
  simpa only [or_assoc, or_comm, or_left_comm] using h

theorem source_mem_push_iff {q : QueryOperation} {s : QuerySource} :
    .source s ∈ pushOperationChildren q ↔ s ∈ sources q := by
  simp [pushOperationChildren, sources, or_comm]

theorem mem_children_iff {part child : QueryPart} :
    node child ∈ queryTree.children (node part) ↔ child ∈ part.children := by
  rw [queryTree, mem_inOrder]
  cases part with
  | operation q =>
    cases child with
    | operation c => exact operation_mem_push_iff
    | expression e => exact expression_mem_push_iff
  | expression e =>
    show node child ∈ pushExpressionChildren e ↔ _
    cases child with
    | operation c => simp [node, operation_mem_pushExpression, QueryPart.children]
    | expression o => simp [node, expression_mem_pushExpression, QueryPart.children]

/-- A node under the node at a path, which is an expression or an operation. -/
theorem nodeAt_concat {root : QueryWalkNode} {path : List Nat} {i : Nat} {n : QueryWalkNode} :
    queryTree.nodeAt root (path ++ [i]) = some n ↔
      ∃ part : QueryPart, queryTree.nodeAt root path = some (node part) ∧
        (queryTree.children (node part))[i]? = some n := by
  rw [OrderedTree.nodeAt_append]
  cases h : queryTree.nodeAt root path with
  | none => simp
  | some m =>
    have hnext : queryTree.nodeAt m [i] = (queryTree.children m)[i]? := by
      simp [OrderedTree.nodeAt]
    rw [Option.bind_some, hnext]
    constructor
    · intro hm
      cases m with
      | operation q => exact ⟨.operation q, rfl, hm⟩
      | expression e => exact ⟨.expression e, rfl, hm⟩
      | source s => cases hm
    · rintro ⟨part, hpart, hm⟩
      rw [Option.some.inj hpart]
      exact hm

/-- **The places of the tree are the parts of the query.** -/
theorem within_iff_nodeAt (root part : QueryPart) :
    (∃ depth, root.Within depth part) ↔
      ∃ path, queryTree.nodeAt (node root) path = some (node part) := by
  constructor
  · rintro ⟨depth, h⟩
    induction h with
    | root => exact ⟨[], rfl⟩
    | child depth part child _ hchild ih =>
      obtain ⟨path, hpath⟩ := ih
      obtain ⟨i, hi⟩ := List.mem_iff_getElem?.1 (mem_children_iff.2 hchild)
      exact ⟨path ++ [i], nodeAt_concat.2 ⟨part, hpath, hi⟩⟩
  · rintro ⟨path, hpath⟩
    induction path using List.reverseRecOn generalizing part with
    | nil =>
      have heq : node root = node part := Option.some.inj hpath
      have hroot : root = part := by
        cases root <;> cases part <;> cases heq <;> rfl
      exact ⟨1, hroot ▸ .root⟩
    | append_singleton path i ih =>
      obtain ⟨above, habove, hi⟩ := nodeAt_concat.1 hpath
      obtain ⟨depth, hdepth⟩ := ih above habove
      exact ⟨depth + 1, .child depth above part hdepth
        (mem_children_iff.1 (List.mem_of_getElem? hi))⟩

/-- **The sources of the tree are the sources of its operations.** -/
theorem source_iff_nodeAt (root : QueryPart) (source : QuerySource) :
    (∃ depth q, root.Within depth (.operation q) ∧ source ∈ sources q) ↔
      ∃ path, queryTree.nodeAt (node root) path = some (.source source) := by
  constructor
  · rintro ⟨depth, q, hq, hsource⟩
    obtain ⟨path, hpath⟩ := (within_iff_nodeAt root (.operation q)).1 ⟨depth, hq⟩
    obtain ⟨i, hi⟩ := List.mem_iff_getElem?.1
      (mem_inOrder.2 (source_mem_push_iff.2 hsource) : _ ∈ inOrder (.operation q))
    exact ⟨path ++ [i], nodeAt_concat.2 ⟨.operation q, hpath, hi⟩⟩
  · rintro ⟨path, hpath⟩
    cases path using List.reverseRecOn with
    | nil =>
      have heq : node root = .source source := Option.some.inj hpath
      cases root <;> cases heq
    | append_singleton path i =>
      obtain ⟨above, habove, hi⟩ := nodeAt_concat.1 hpath
      have hmem := List.mem_of_getElem? hi
      cases above with
      | operation q =>
        obtain ⟨depth, hdepth⟩ := (within_iff_nodeAt root (.operation q)).2 ⟨path, habove⟩
        exact ⟨depth, q, hdepth, source_mem_push_iff.1 ((mem_inOrder (n := .operation q)).1 hmem)⟩
      | expression e =>
        exact absurd ((mem_inOrder (n := .expression e)).1 hmem) source_not_mem_pushExpression

/-! ## What the walk visits -/

/-- **The walk visits the parts and the sources of a query once, in document order**, whatever
its visitor: a node above those below it, a subtree before what stands to its right; the subtree
of a node that answers `skip` is passed over, and nothing follows a node that answers `stop`. -/
theorem walkPart_visits (visitor : σ → QueryPlace → QueryWalkControl × σ) (root : QueryPart)
    (s : σ) : ∃ log : List (Visit QueryWalkNode),
      OrderedTree.Replays (fun s p => ((visitor s p).1.control, (visitor s p).2)) s log
        (walkPart visitor root s).2 ∧
      ((walkPart visitor root s).1 = true ↔ ∀ v ∈ log, v.answer ≠ .stop) ∧
      (log.Pairwise fun u v => u.place.path < v.place.path) ∧
      (∀ path n, (∃ a, ⟨⟨path, n⟩, a⟩ ∈ log) ↔
        queryTree.nodeAt (node root) path = some n ∧ ∀ v ∈ log, ¬ v.Hides path) ∧
      (∀ part, (∃ depth, root.Within depth part) ↔
        ∃ path, queryTree.nodeAt (node root) path = some (node part)) ∧
      ∀ source, (∃ depth q, root.Within depth (.operation q) ∧ source ∈ sources q) ↔
        ∃ path, queryTree.nodeAt (node root) path = some (.source source) := by
  have hwalk : walkPart visitor root s = queryTree.walk
      (fun s p => ((visitor s p).1.control, (visitor s p).2)) [⟨[], node root⟩] s := by
    rw [← pushTree_eq]
    cases root <;> rfl
  obtain ⟨log, hwalked, hreplays, hwhole⟩ := queryTree.walk_walked
    (fun s p => ((visitor s p).1.control, (visitor s p).2)) (node root) s
  rw [hwalk]
  refine ⟨log, hreplays, hwhole, hwalked.ordered, fun path n => ?_, within_iff_nodeAt root,
    source_iff_nodeAt root⟩
  rw [hwalked.visited, OrderedTree.pending_root]

end QueryWalk

end Plenora.Core
