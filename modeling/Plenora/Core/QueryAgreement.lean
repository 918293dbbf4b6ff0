import Plenora.Core.QueryValidation

/-!
# The validation agrees with the rule

The stack of `validate_query_operation` visits exactly the parts of the tree.  The
place a node carries is right when it says what the rule says of the windows
under it, so a loop that ends well has found every part in its shape:

    n.Clean ↔ n.Placed ∧ every part within n has its shape, within the depth  (clean_iff_rule)
    validateQueryOperation limits query = .ok () ↔ MeetsRule limits query,
      in whatever order the pending nodes are visited       (validateQueryOperation_agrees)
-/

namespace Plenora.Core

open Plenora.Lib

/-! ## Places -/

/-- What the place of a node promises of the windows under it. -/
def Node.Placed : Node → Prop
  | .operation _ _ => True
  | .expression e _ .allowed => ¬ e.NestsWindow
  | .expression e _ _ => ¬ e.CallsWindow

theorem callsWindow_of_nests {e : QueryExpression} (h : e.NestsWindow) : e.CallsWindow := by
  induction h with
  | here e h =>
    obtain ⟨-, o, ho, hcalls⟩ := h
    exact .operand e o ho hcalls
  | operand e o ho _ ih => exact .operand e o ho ih

theorem not_callsWindow_iff (e : QueryExpression) :
    ¬ e.CallsWindow ↔ e.isWindow = false ∧ ∀ o ∈ e.operands, ¬ o.CallsWindow := by
  unfold QueryExpression.CallsWindow
  rw [QueryExpression.contains_iff]
  simp

theorem not_nestsWindow_iff (e : QueryExpression) :
    ¬ e.NestsWindow ↔ ∀ o ∈ e.operands,
      if e.enclosesNoWindow then ¬ o.CallsWindow else ¬ o.NestsWindow := by
  unfold QueryExpression.NestsWindow
  rw [QueryExpression.contains_iff]
  by_cases hencloses : e.enclosesNoWindow = true
  · simp only [hencloses, true_and, if_true, not_or, not_exists, not_and]
    constructor
    · exact fun h o ho => h.1 o ho
    · exact fun h => ⟨h, fun o ho hnests => h o ho (callsWindow_of_nests hnests)⟩
  · simp [hencloses]

theorem placed_expression_iff (e : QueryExpression) (depth : Nat) (position : WindowPosition) :
    (Node.expression e depth position).Placed ↔
      (e.isWindow = true → position = .allowed) ∧
        ∀ o ∈ e.operands, (Node.expression o (depth + 1) (position.inner e)).Placed := by
  by_cases hplace : position = .allowed
  · subst hplace
    show ¬ e.NestsWindow ↔ _
    rw [not_nestsWindow_iff]
    by_cases hencloses : e.enclosesNoWindow = true
    · simp [WindowPosition.inner, hencloses, Node.Placed]
    · simp [WindowPosition.inner, hencloses, Node.Placed]
  · have hcalls : ∀ (o : QueryExpression) (d : Nat) (p : WindowPosition), p ≠ .allowed →
        ((Node.expression o d p).Placed ↔ ¬ o.CallsWindow) := by
      intro o d p hp
      cases p with
      | allowed => exact absurd rfl hp
      | clause | nested | setOperation => exact Iff.rfl
    have hinner : position.inner e ≠ .allowed := by
      unfold WindowPosition.inner
      split
      next => simp
      next => exact hplace
    rw [hcalls e depth position hplace, not_callsWindow_iff]
    simp only [hcalls _ _ _ hinner, hplace, imp_false, Bool.not_eq_true]

theorem windowsPlaced_iff (q : QueryOperation) (depth : Nat) :
    WindowsPlaced q ↔ ∀ c ∈ operationNodes q depth, c.Placed := by
  rw [forall_operationNodes]
  constructor
  · intro h
    refine ⟨fun _ _ => trivial, fun _ _ => trivial, h.projection,
      fun join hjoin => ⟨fun _ _ => trivial, h.joins join hjoin⟩, h.filter, h.groupBy,
      h.distinctOn, h.having, fun ordering hordering => ?_, fun _ _ => trivial⟩
    split
    next => exact h.orderBy ordering hordering
    next hsets => exact h.orderBySets hsets ordering hordering
  · rintro ⟨-, -, hprojection, hjoins, hfilter, hgroup, hon, hhaving, horder, -⟩
    refine ⟨hprojection, fun join hjoin => (hjoins join hjoin).2, hfilter, hgroup, hon, hhaving,
      fun ordering hordering => ?_, fun hsets ordering hordering => ?_⟩
    · have hplaced := horder ordering hordering
      split at hplaced
      next => exact hplaced
      next =>
        have hcalls : ¬ ordering.expression.CallsWindow := hplaced
        exact fun hnests => hcalls (callsWindow_of_nests hnests)
    · have hplaced := horder ordering hordering
      rw [if_neg hsets] at hplaced
      exact hplaced

/-- The place of a node and the shape of its part are the node's own shape and the
places of its children. -/
theorem placed_shape_iff (limits : Limits) (n : Node) :
    n.Placed ∧ n.part.Shape limits ↔ n.Shape limits ∧ ∀ c ∈ n.children, c.Placed := by
  cases n with
  | operation q depth =>
    show True ∧ OperationShape limits q ∧ WindowsPlaced q ↔ _
    rw [true_and, windowsPlaced_iff q depth]
    exact Iff.rfl
  | expression e depth position =>
    have hchildren : (∀ c ∈ expressionNodes e depth position, c.Placed) ↔
        ∀ o ∈ e.operands, (Node.expression o (depth + 1) (position.inner e)).Placed := by
      simp only [expressionNodes, List.forall_mem_append, List.forall_mem_map]
      exact ⟨fun h => h.1, fun h => ⟨h, fun _ _ => trivial⟩⟩
    rw [placed_expression_iff]
    show _ ∧ ExpressionShape limits e ↔ (ExpressionShape limits e ∧ _) ∧
      ∀ c ∈ expressionNodes e depth position, c.Placed
    rw [hchildren]
    constructor
    · rintro ⟨⟨hwindow, hplaced⟩, hshape⟩
      exact ⟨⟨hshape, hwindow⟩, hplaced⟩
    · rintro ⟨⟨hshape, hwindow⟩, hplaced⟩
      exact ⟨⟨hwindow, hplaced⟩, hshape⟩

/-! ## The tree under a node -/

section Tree

variable (limits : Limits)

/-- What the rule asks of the tree under a node. -/
def TreeShape (n : Node) : Prop :=
  ∀ depth part, n.part.Within depth part →
    part.Shape limits ∧ n.depth + depth ≤ limits.maxFilterDepth + 1

/-- One level of the tree. -/
theorem treeShape_iff (n : Node) :
    TreeShape limits n ↔ (n.part.Shape limits ∧ n.depth ≤ limits.maxFilterDepth) ∧
      ∀ c ∈ n.children, TreeShape limits c := by
  constructor
  · intro h
    obtain ⟨hshape, hdepth⟩ := h 1 n.part .root
    refine ⟨⟨hshape, by omega⟩, fun c hc depth part hwithin => ?_⟩
    have hpart : c.part ∈ n.part.children := n.children_part ▸ List.mem_map_of_mem hc
    obtain ⟨hshape', hdepth'⟩ := h (depth + 1) part (QueryPart.within_child hpart hwithin)
    have hchild := children_depth n c hc
    exact ⟨hshape', by omega⟩
  · rintro ⟨⟨hshape, hdepth⟩, hchildren⟩ depth part hwithin
    rcases (QueryPart.within_iff n.part part depth).1 hwithin with
      ⟨rfl, rfl⟩ | ⟨child, hchild, below, hbelow, rfl⟩
    · exact ⟨hshape, by omega⟩
    · rw [← n.children_part] at hchild
      obtain ⟨c, hc, rfl⟩ := List.mem_map.1 hchild
      obtain ⟨hshape', hdepth'⟩ := hchildren c hc below part hbelow
      have := children_depth n c hc
      exact ⟨hshape', by omega⟩

variable [DecidableEq QueryExpression]

theorem clean_step (n : Node) :
    (queryLoop limits).Clean n ↔ (n.Shape limits ∧ n.depth ≤ limits.maxFilterDepth) ∧
      ∀ c ∈ n.children, (queryLoop limits).Clean c := by
  rw [WorkStack.clean_iff]
  show (∃ pushed, visit limits n = .ok pushed ∧ _) ↔ _
  simp only [visit_eq_ok]
  constructor
  · rintro ⟨pushed, ⟨hlocal, rfl⟩, hclean⟩
    exact ⟨hlocal, hclean⟩
  · rintro ⟨hlocal, hclean⟩
    exact ⟨n.children, ⟨hlocal, rfl⟩, hclean⟩

/-- **Every visit is accepted exactly when the windows under the node are where its
place allows and every part has its shape.** -/
theorem clean_iff_rule (n : Node) :
    (queryLoop limits).Clean n ↔ n.Placed ∧ TreeShape limits n := by
  induction hsize : n.part.size using Nat.strong_induction_on generalizing n with
  | h size ih =>
    have hchildren : (∀ c ∈ n.children, (queryLoop limits).Clean c) ↔
        (∀ c ∈ n.children, c.Placed) ∧ ∀ c ∈ n.children, TreeShape limits c := by
      rw [← forall₂_and]
      refine forall₂_congr fun c hc => ih c.part.size ?_ c rfl
      have hpart : c.part ∈ n.part.children := n.children_part ▸ List.mem_map_of_mem hc
      exact hsize ▸ QueryPart.size_child_lt hpart
    have hshape := placed_shape_iff limits n
    rw [clean_step, hchildren, treeShape_iff]
    constructor
    · rintro ⟨⟨hn, hdepth⟩, hplaced, htrees⟩
      obtain ⟨hp, hs⟩ := hshape.2 ⟨hn, hplaced⟩
      exact ⟨hp, ⟨hs, hdepth⟩, htrees⟩
    · rintro ⟨hp, ⟨hs, hdepth⟩, htrees⟩
      obtain ⟨hn, hplaced⟩ := hshape.1 ⟨hp, hs⟩
      exact ⟨⟨hn, hdepth⟩, hplaced, htrees⟩

/-- Where every visit is accepted, the loop counts the nodes of the tree. -/
theorem total_eq_nodes (n : Node) (h : (queryLoop limits).Clean n) :
    (queryLoop limits).total n = n.part.nodes := by
  induction h with
  | intro n pushed hvisit _ ih =>
    obtain ⟨-, rfl⟩ := (visit_eq_ok limits n pushed).1 hvisit
    have hmap : n.children.map (queryLoop limits).total = n.part.children.map QueryPart.nodes := by
      rw [← n.children_part, List.map_map]
      exact List.map_congr_left ih
    rw [WorkStack.total, WorkStack.sumOver_eq, WorkStack.pushed_eq _ hvisit, QueryPart.nodes_eq,
      ← hmap]
    rfl

theorem fits_iff (query : QueryOperation) :
    (queryLoop limits).Fits limits.maxFilterNodes [.operation query 1] 0 ↔
      MeetsRule limits query := by
  unfold WorkStack.Fits
  have htree : (queryLoop limits).Clean (.operation query 1) ↔
      TreeShape limits (.operation query 1) := by
    rw [clean_iff_rule]
    exact ⟨fun h => h.2, fun h => ⟨trivial, h⟩⟩
  rw [List.forall_mem_singleton, List.map_singleton, List.sum_singleton, Nat.zero_add]
  constructor
  · rintro (hnil | ⟨hclean, hnodes⟩)
    · cases hnil
    · rw [total_eq_nodes limits _ hclean] at hnodes
      have hrule := htree.1 hclean
      refine ⟨fun depth part h => (hrule depth part h).1, fun depth part h => ?_, hnodes⟩
      have := (hrule depth part h).2
      simp only [Node.depth] at this
      omega
  · rintro ⟨hshape, hdepth, hnodes⟩
    have hclean : (queryLoop limits).Clean (.operation query 1) := by
      refine htree.2 fun depth part h => ⟨hshape depth part h, ?_⟩
      have := hdepth depth part h
      simp only [Node.depth]
      omega
    refine .inr ⟨hclean, ?_⟩
    rw [total_eq_nodes limits _ hclean]
    exact hnodes

end Tree

/-! ## Top theorem -/

/-- **The iterative validation agrees with the recursive rule**, and taking the
pending nodes in any other order gives the same verdict. -/
theorem validateQueryOperation_agrees [DecidableEq QueryExpression] (limits : Limits)
    (query : QueryOperation) :
    (validateQueryOperation limits query = .ok () ↔ MeetsRule limits query) ∧
      ∀ pick : List Node → Nat → Nat,
        (queryLoop limits).runBy limits.maxFilterNodes overLimits pick [.operation query 1] 0 =
          .ok () ↔ validateQueryOperation limits query = .ok () := by
  have hrule : validateQueryOperation limits query = .ok () ↔ MeetsRule limits query := by
    rw [validateQueryOperation, WorkStack.run_eq_ok, fits_iff]
  refine ⟨hrule, fun pick => ?_⟩
  rw [hrule, WorkStack.runBy_eq_ok, fits_iff]

end Plenora.Core
