import Plenora.Core.QueryAgreement
import Plenora.Mysql.GroupMeaning

/-!
# Grouped queries are determined where the searches suffice

The two searches go through calls, comparisons, `AND`, `OR` and `IS NULL`, while the
shape admits aggregates and windows below more kinds of nodes.

    containsAggregate e = true ↔ Finds isAggregateCall e               (containsAggregate_iff)
    isDeterminedByGroup keys e → e has one value in each group          (value_of_determined)
    accepted query: Determinate query ↔ SearchesSuffice query           (determinate_iff)
-/

namespace Plenora.Mysql

open Plenora.Lib Plenora.Core

/-! ## Searches -/

theorem searchFor_clean (p : QueryExpression → Bool) (e : QueryExpression) :
    (walkLoop (searchFor p)).Clean (.expression e) ↔ ¬ Finds p e := by
  induction hsize : sizeOf e using Nat.strong_induction_on generalizing e with
  | h size ih =>
    rw [(walkLoop (searchFor p)).clean_iff, Finds, reaches_iff]
    by_cases hp : p e = true
    · have hvisit : (walkLoop (searchFor p)).visit (.expression e) = .error () := by
        simp [walkLoop, searchFor, hp]
      rw [hvisit]
      simp [hp]
    · by_cases hsearched : isSearched e = true
      · have hvisit : (walkLoop (searchFor p)).visit (.expression e) =
            .ok (pushExpressionChildren e) := by
          simp [walkLoop, searchFor, hp, hsearched, QueryWalkNode.pushed]
        rw [hvisit]
        simp only [Except.ok.injEq, exists_eq_left', hp, Bool.false_eq_true, false_or, hsearched,
          true_and, not_exists, not_and]
        constructor
        · intro hclean o ho
          have := hclean (.expression o) (expression_mem_pushExpression.2 ho)
          exact (ih (sizeOf o) (hsize ▸ QueryExpression.sizeOf_operand_lt ho) o rfl).1 this
        · intro hfinds c hc
          cases c with
          | operation q => exact .intro _ [] rfl fun _ h => by cases h
          | expression o =>
            have ho := expression_mem_pushExpression.1 hc
            exact (ih (sizeOf o) (hsize ▸ QueryExpression.sizeOf_operand_lt ho) o rfl).2
              (hfinds o ho)
          | source s => exact absurd hc source_not_mem_pushExpression
      · have hvisit : (walkLoop (searchFor p)).visit (.expression e) = .ok [] := by
          simp [walkLoop, searchFor, hp, hsearched]
        rw [hvisit]
        simp [hp, hsearched]

theorem walkQueryExpression_searchFor {p : QueryExpression → Bool} {e : QueryExpression} :
    walkQueryExpression e (searchFor p) = false ↔ Finds p e := by
  have hrun := (walkLoop (searchFor p)).run_free_eq_ok (fun _ => rfl) () [.expression e]
  rw [List.forall_mem_singleton, searchFor_clean] at hrun
  unfold walkQueryExpression
  split
  next u hok =>
    have : ¬ Finds p e := hrun.1 hok
    simp [this]
  next u herr =>
    rw [herr] at hrun
    simpa using hrun

theorem containsAggregate_iff (e : QueryExpression) :
    containsAggregate e = true ↔ Finds isAggregateCall e := by
  rw [containsAggregate, Bool.not_eq_true', walkQueryExpression_searchFor]

theorem containsWindow_iff (e : QueryExpression) :
    containsWindow e = true ↔ Finds isScalarWindow e := by
  rw [containsWindow, Bool.not_eq_true', walkQueryExpression_searchFor]

theorem isAggregated_iff (query : QueryOperation) :
    isAggregated query = true ↔ ∃ e ∈ aggregable query, Finds isAggregateCall e := by
  simp only [isAggregated, aggregable, Bool.or_eq_true, List.any_eq_true, containsAggregate_iff,
    Option.any_eq_true, List.mem_append, List.mem_map, Option.mem_toList]
  constructor
  · rintro ((⟨p, hp, hfinds⟩ | ⟨e, he, hfinds⟩) | ⟨ordering, ho, hfinds⟩)
    · exact ⟨p.expression, .inl (.inl ⟨p, hp, rfl⟩), hfinds⟩
    · exact ⟨e, .inl (.inr he), hfinds⟩
    · exact ⟨ordering.expression, .inr ⟨ordering, ho, rfl⟩, hfinds⟩
  · rintro ⟨e, (⟨p, hp, rfl⟩ | he) | ⟨ordering, ho, rfl⟩, hfinds⟩
    · exact .inl (.inl ⟨p, hp, hfinds⟩)
    · exact .inl (.inr ⟨e, he, hfinds⟩)
    · exact .inr ⟨ordering, ho, hfinds⟩

theorem isGrouped_iff (query : QueryOperation) :
    isGrouped query = true ↔
      query.groupBy ≠ [] ∨ ∃ e ∈ aggregable query, Finds isAggregateCall e := by
  rw [isGrouped, Bool.or_eq_true, isAggregated_iff]
  simp [or_comm]

/-! ## Accepted expressions -/

section Shape

variable {profile : QueryProfile} {relations : List String}
variable {ensureOperand : QueryExpression → Result Unit} {e o : QueryExpression} {scope : Scope}

theorem shape_clean_iff :
    (shapeLoop profile relations ensureOperand).Clean (e, scope) ↔
      ensureItem profile relations ensureOperand e scope = .ok () ∧
        ∀ c ∈ pushedItems e scope, (shapeLoop profile relations ensureOperand).Clean c := by
  rw [WorkStack.clean_iff]
  constructor
  · rintro ⟨pushed, hvisit, hclean⟩
    obtain ⟨⟨⟩, hitem, hpushed⟩ := bind_eq_ok.1 hvisit
    cases hpushed
    exact ⟨hitem, hclean⟩
  · rintro ⟨hitem, hclean⟩
    exact ⟨pushedItems e scope, bind_eq_ok.2 ⟨(), hitem, rfl⟩, hclean⟩

theorem ensureExpressionWith_eq_ok :
    ensureExpressionWith profile relations ensureOperand e scope = .ok () ↔
      (shapeLoop profile relations ensureOperand).Clean (e, scope) := by
  rw [ensureExpressionWith, WorkStack.run_free_eq_ok _ (fun _ => rfl), List.forall_mem_singleton]

/-- The operands of an accepted node are inspected in its scope, an aggregate or a window apart. -/
theorem operand_mem_pushedItems (h : ensureItem profile relations ensureOperand e scope = .ok ())
    (hwindow : e.isWindow = false) (haggregate : isAggregateCall e = false)
    (ho : o ∈ e.operands) : (o, scope) ∈ pushedItems e scope := by
  cases e with
  | wildcard _ | column _ | parameter _ | typedParameter _ _ | scalarSubquery _
  | existsSubquery _ _ => cases ho
  | window _ _ _ _ _ | spatialWindow _ _ _ _ _ => cases hwindow
  | spatialOutput _ _ | spatialValue _ _ _ | spatialOperator _ _ _ | inSubquery _ _ _ => cases h
  | caseWhen branches elseExpression =>
    simp only [QueryExpression.operands, List.mem_append, List.mem_flatMap, Option.mem_toList] at ho
    simp only [pushedItems, List.mem_append, List.mem_flatMap, List.mem_map, Option.mem_toList,
      List.mem_cons, Prod.mk.injEq, and_true, List.not_mem_nil, or_false]
    rcases ho with he | ⟨branch, hbranch, hpart⟩
    · exact .inr ⟨o, he, rfl⟩
    · refine .inl ⟨branch, hbranch, ?_⟩
      simpa using hpart
  | scalar function arguments =>
    have hnot : function.isAggregate = false := haggregate
    simp only [pushedItems, hnot, Bool.false_eq_true, if_false]
    exact List.mem_map.2 ⟨o, ho, rfl⟩
  | arithmetic _ _ _ | compare _ _ _ | cast _ _ | nullsOrder _ _ | not _ | isNull _ _
  | between _ _ _ _ | like _ _ _ _ | inList _ _ _ | spatial _ _ | and _ | or _ =>
    simp only [QueryExpression.operands, List.mem_cons, List.not_mem_nil, or_false] at ho
    simp only [pushedItems, List.mem_cons, List.mem_map, Prod.mk.injEq, List.not_mem_nil, and_true,
      or_false, exists_eq_right]
    exact ho

/-- The arguments of an accepted aggregate: `*`, or inspected as such. -/
theorem argument_of_aggregate (haggregate : isAggregateCall e = true) (ho : o ∈ e.operands) :
    o = .wildcard none ∨ (o, .aggregateArgument) ∈ pushedItems e scope := by
  cases e with
  | scalar function arguments =>
    have hfunction : function.isAggregate = true := haggregate
    simp only [pushedItems, hfunction, if_true]
    split
    next hstar =>
      unfold isCountStar at hstar
      split at hstar
      next => exact .inl (List.mem_singleton.1 ho)
      next => cases hstar
    next => exact .inr (List.mem_map.2 ⟨o, ho, rfl⟩)
  | _ => cases haggregate

/-- Outside of the select list no window is accepted. -/
theorem not_callsWindow_of_clean
    (h : (shapeLoop profile relations ensureOperand).Clean (e, scope))
    (hscope : scope ≠ .projection) : ¬ e.CallsWindow := by
  induction hsize : sizeOf e using Nat.strong_induction_on generalizing e scope with
  | h size ih =>
    obtain ⟨hitem, hpushed⟩ := shape_clean_iff.1 h
    have hwindow : e.isWindow = false := by
      cases e with
      | window _ _ _ _ _ =>
        rw [ensureItem, if_neg hscope] at hitem
        cases hitem
      | spatialWindow _ _ _ _ _ => cases hitem
      | _ => rfl
    refine (not_callsWindow_iff e).2 ⟨hwindow, fun o ho => ?_⟩
    have hlt : sizeOf o < size := hsize ▸ QueryExpression.sizeOf_operand_lt ho
    by_cases haggregate : isAggregateCall e = true
    · rcases @argument_of_aggregate e o scope haggregate ho with rfl | hmem
      · exact (not_callsWindow_iff _).2 ⟨rfl, fun _ h => by cases h⟩
      · exact ih (sizeOf o) hlt (hpushed _ hmem) (by simp) rfl
    · have hmem := operand_mem_pushedItems hitem hwindow (by simpa using haggregate) ho
      exact ih (sizeOf o) hlt (hpushed _ hmem) hscope rfl

/-- No accepted expression is a wildcard. -/
theorem not_wildcard_of_clean (h : (shapeLoop profile relations ensureOperand).Clean (e, scope))
    (relation : Option String) : e ≠ .wildcard relation := by
  rintro rfl
  obtain ⟨hitem, -⟩ := shape_clean_iff.1 h
  cases hitem

/-- The arguments of an accepted aggregate call no window. -/
theorem not_callsWindow_of_aggregate
    (h : (shapeLoop profile relations ensureOperand).Clean (e, scope))
    (haggregate : isAggregateCall e = true) : ¬ e.CallsWindow := by
  have hwindow : e.isWindow = false := by
    cases e with
    | scalar _ _ => rfl
    | _ => cases haggregate
  refine (not_callsWindow_iff e).2 ⟨hwindow, fun o ho => ?_⟩
  rcases @argument_of_aggregate e o scope haggregate ho with rfl | hmem
  · exact (not_callsWindow_iff _).2 ⟨rfl, fun _ h => by cases h⟩
  · exact not_callsWindow_of_clean ((shape_clean_iff.1 h).2 _ hmem) (by simp)

end Shape

/-! ## Determined by the group -/

section Determined

variable [DecidableEq QueryExpression] {keys : List QueryExpression} {e : QueryExpression}

theorem isDeterminedByGroup_cases (h : isDeterminedByGroup keys e = true) :
    e ∈ keys ∨ (∃ name, e = .parameter name) ∨ isAggregateCall e = true ∨
      e.isColumn = false ∧ e.isWindow = false ∧ isAggregateCall e = false ∧
        ∀ o ∈ e.operands, isDeterminedByGroup keys o = true := by
  cases e with
  | parameter name => exact .inr (.inl ⟨name, rfl⟩)
  | scalar function arguments =>
    by_cases haggregate : function.isAggregate = true
    · exact .inr (.inr (.inl haggregate))
    · rw [isDeterminedByGroup, Bool.or_eq_true, decide_eq_true_eq] at h
      refine h.imp id fun h => .inr (.inr ⟨rfl, rfl, by simpa [isAggregateCall] using haggregate,
        fun o ho => ?_⟩)
      simp only [haggregate, Bool.false_or, List.all_eq_true] at h
      exact h ⟨o, ho⟩ (List.mem_attach _ _)
  | compare left operator right =>
    rw [isDeterminedByGroup, Bool.or_eq_true, decide_eq_true_eq, Bool.and_eq_true] at h
    refine h.imp id fun h => .inr (.inr ⟨rfl, rfl, rfl, fun o ho => ?_⟩)
    rcases List.mem_cons.1 ho with rfl | ho
    · exact h.1
    · rw [List.mem_singleton.1 ho]
      exact h.2
  | and arguments | or arguments =>
    rw [isDeterminedByGroup, Bool.or_eq_true, decide_eq_true_eq, List.all_eq_true] at h
    exact h.imp id fun h => .inr (.inr ⟨rfl, rfl, rfl, fun o ho => h ⟨o, ho⟩ (List.mem_attach _ _)⟩)
  | isNull expression negated =>
    rw [isDeterminedByGroup, Bool.or_eq_true, decide_eq_true_eq] at h
    refine h.imp id fun h => .inr (.inr ⟨rfl, rfl, rfl, fun o ho => ?_⟩)
    rw [List.mem_singleton.1 ho]
    exact h
  | _ => exact .inl (by simpa [isDeterminedByGroup] using h)

/-- **A determined expression has one value in each group.** -/
theorem value_of_determined {ν : Type} {E : Evaluator ν} {group : List (ServerRow ν)}
    (hgroup : IsGroup E keys group) {r r' : ServerRow ν} (hr : r ∈ group) (hr' : r' ∈ group)
    (h : isDeterminedByGroup keys e = true) : E.value group r e = E.value group r' e := by
  induction hsize : sizeOf e using Nat.strong_induction_on generalizing e with
  | h size ih =>
    rcases isDeterminedByGroup_cases h with hkey | ⟨name, rfl⟩ | haggregate |
      ⟨hcolumn, hwindow, haggregate, hoperands⟩
    · exact hgroup r hr r' hr' e hkey
    · rw [Evaluator.value_operator rfl rfl rfl, Evaluator.value_operator rfl rfl rfl]
      rfl
    · rw [Evaluator.value_aggregate haggregate, Evaluator.value_aggregate haggregate]
    · rw [Evaluator.value_operator hcolumn hwindow haggregate,
        Evaluator.value_operator hcolumn hwindow haggregate]
      congr 1
      exact List.map_congr_left fun o ho =>
        ih (sizeOf o) (hsize ▸ QueryExpression.sizeOf_operand_lt ho) (hoperands o ho) rfl

/-- A determined expression of the select list calls no window. -/
theorem not_callsWindow_of_determined {profile : QueryProfile} {relations : List String}
    {ensureOperand : QueryExpression → Result Unit} {scope : Scope}
    (hkeys : ∀ k ∈ keys, ¬ k.CallsWindow) (h : isDeterminedByGroup keys e = true)
    (hclean : (shapeLoop profile relations ensureOperand).Clean (e, scope)) : ¬ e.CallsWindow := by
  induction hsize : sizeOf e using Nat.strong_induction_on generalizing e with
  | h size ih =>
    rcases isDeterminedByGroup_cases h with hkey | ⟨name, rfl⟩ | haggregate |
      ⟨-, hwindow, haggregate, hoperands⟩
    · exact hkeys e hkey
    · exact (not_callsWindow_iff _).2 ⟨rfl, fun _ h => by cases h⟩
    · exact not_callsWindow_of_aggregate hclean haggregate
    · obtain ⟨hitem, hpushed⟩ := shape_clean_iff.1 hclean
      refine (not_callsWindow_iff e).2 ⟨hwindow, fun o ho => ?_⟩
      exact ih (sizeOf o) (hsize ▸ QueryExpression.sizeOf_operand_lt ho) (hoperands o ho)
        (hpushed _ (operand_mem_pushedItems hitem hwindow haggregate ho)) rfl

end Determined

/-! ## Values that read no row, values that read no group -/

section Reading

variable {ν : Type} {E : Evaluator ν} {group group' : List (ServerRow ν)} {r r' : ServerRow ν}
variable {e : QueryExpression}

theorem value_of_not_readsRow (hrow : ¬ ReadsRow e) (hwindow : ¬ e.CallsWindow) :
    E.value group r e = E.value group r' e := by
  induction hsize : sizeOf e using Nat.strong_induction_on generalizing e with
  | h size ih =>
    obtain ⟨hnone, hwindows⟩ := (not_callsWindow_iff e).1 hwindow
    by_cases haggregate : isAggregateCall e = true
    · rw [Evaluator.value_aggregate haggregate, Evaluator.value_aggregate haggregate]
    · rw [Bool.not_eq_true] at haggregate
      rw [ReadsRow, reaches_iff, not_or] at hrow
      have hcolumn : e.isColumn = false := by
        cases e with
        | column _ => exact absurd rfl hrow.1
        | _ => rfl
      rw [Evaluator.value_operator hcolumn hnone haggregate,
        Evaluator.value_operator hcolumn hnone haggregate]
      congr 1
      refine List.map_congr_left fun o ho => ?_
      exact ih (sizeOf o) (hsize ▸ QueryExpression.sizeOf_operand_lt ho)
        (fun h => hrow.2 ⟨haggregate, o, ho, h⟩) (hwindows o ho) rfl

theorem value_of_not_callsAggregate (h : ¬ CallsAggregate e) :
    E.value group r e = E.value group' r e := by
  induction hsize : sizeOf e using Nat.strong_induction_on generalizing e with
  | h size ih =>
    rw [CallsAggregate, reaches_iff, not_or, Bool.not_eq_true] at h
    by_cases hwindow : e.isWindow = true
    · rw [Evaluator.value_window hwindow, Evaluator.value_window hwindow]
    · rw [Bool.not_eq_true] at hwindow
      by_cases hcolumn : e.isColumn = true
      · cases e with
        | column column => rw [Evaluator.value_column, Evaluator.value_column]
        | _ => cases hcolumn
      · rw [Bool.not_eq_true] at hcolumn
        rw [Evaluator.value_operator hcolumn hwindow h.1,
          Evaluator.value_operator hcolumn hwindow h.1]
        congr 1
        refine List.map_congr_left fun o ho => ?_
        exact ih (sizeOf o) (hsize ▸ QueryExpression.sizeOf_operand_lt ho)
          (fun hcalls => h.2 ⟨hwindow, o, ho, hcalls⟩) rfl

/-- Values as the trees of what was applied. -/
inductive Term where
  | cell (value : Bool)
  | applied (operands : List Term)

/-- The evaluator that forgets nothing of the row. -/
def free : Evaluator Term where
  operator _ operands := .applied operands
  aggregate _ _ := .applied []
  window _ _ := .applied []

/-- What reads the row has different values in different rows. -/
theorem value_of_readsRow {profile : QueryProfile} {relations : List String}
    {ensureOperand : QueryExpression → Result Unit} {scope : Scope}
    {group : List (ServerRow Term)} (hrow : ReadsRow e) (hwindow : ¬ e.CallsWindow)
    (hclean : (shapeLoop profile relations ensureOperand).Clean (e, scope)) :
    free.value group (fun _ => .cell true) e ≠ free.value group (fun _ => .cell false) e := by
  induction hrow with
  | here e hp =>
    cases e with
    | column column =>
      rw [Evaluator.value_column, Evaluator.value_column]
      simp
    | wildcard relation => exact absurd rfl (not_wildcard_of_clean hclean relation)
    | _ => cases hp
  | operand e o haggregate ho _ ih =>
    obtain ⟨hnone, hwindows⟩ := (not_callsWindow_iff e).1 hwindow
    obtain ⟨hitem, hpushed⟩ := shape_clean_iff.1 hclean
    have hne := ih (hwindows o ho) (hpushed _ (operand_mem_pushedItems hitem hnone haggregate ho))
    have hcolumn : e.isColumn = false := by
      cases e with
      | column _ => cases ho
      | _ => rfl
    rw [Evaluator.value_operator hcolumn hnone haggregate,
      Evaluator.value_operator hcolumn hnone haggregate]
    intro heq
    injection heq with heq
    exact hne (List.map_inj_left.1 heq o ho)

end Reading

/-! ## Accepted queries -/

section Accepted

variable [DecidableEq QueryExpression] {profile : QueryProfile} {database : String}
variable {relations : List String} {query : QueryOperation}

/-- An expression accepted in a clause. -/
abbrev CleanIn (profile : QueryProfile) (relations : List String) (scope : Scope)
    (e : QueryExpression) : Prop :=
  (shapeLoop profile relations (ensureWindowOperand profile relations)).Clean (e, scope)

/-- What an accepted query has been judged for. -/
structure Accepted (profile : QueryProfile) (relations : List String)
    (query : QueryOperation) : Prop where
  having : query.having.isSome → isGrouped query = true
  windows : (∃ p ∈ query.projection, containsWindow p.expression = true) →
    isGrouped query = false ∧ query.distinct = false
  keys : ∀ k ∈ query.groupBy, CleanIn profile relations (.rowOnly "in GROUP BY") k
  projection : ∀ p ∈ query.projection, ((∃ relation, p.expression = .wildcard relation) ∧
    isGrouped query = false) ∨ CleanIn profile relations .projection p.expression
  havingClean : ∀ e ∈ query.having, CleanIn profile relations .aggregable e
  orderBy : ∀ ordering ∈ query.orderBy,
    CleanIn profile relations .aggregable ordering.expression
  grouped : isGrouped query = true →
    (∀ p ∈ query.projection, isDeterminedByGroup query.groupBy p.expression = true) ∧
    (∀ e ∈ query.having, isDeterminedByGroup query.groupBy e = true) ∧
    ∀ ordering ∈ query.orderBy, isDeterminedByGroup query.groupBy ordering.expression = true ∨
      matchesProjection ordering.expression query = true
  distinct : query.distinct = true → ∀ ordering ∈ query.orderBy,
    matchesProjection ordering.expression query = true

omit [DecidableEq QueryExpression] in
theorem ensureExpression_eq_ok {e : QueryExpression} {scope : Scope} :
    ensureExpression profile relations e scope = .ok () ↔ CleanIn profile relations scope e :=
  ensureExpressionWith_eq_ok

omit [DecidableEq QueryExpression] in
theorem ensureProjection_eq_ok {grouped : Bool} {p : QueryProjection}
    (h : ensureProjection profile relations grouped p = .ok ()) :
    ((∃ relation, p.expression = .wildcard relation) ∧ grouped = false) ∨
      CleanIn profile relations .projection p.expression := by
  obtain ⟨_, -, h⟩ := bind_eq_ok.1 h
  split at h
  next relation heq =>
    obtain ⟨_, -, h⟩ := bind_eq_ok.1 h
    exact .inl ⟨⟨relation, heq⟩, by simpa using failIf_eq_ok.1 h⟩
  next => exact .inr (ensureExpression_eq_ok.1 h)

omit [DecidableEq QueryExpression] in
theorem ensureWindowInteractions_eq_ok {grouped : Bool}
    (h : ensureWindowInteractions query grouped = .ok ()) :
    (∃ p ∈ query.projection, containsWindow p.expression = true) →
      grouped = false ∧ query.distinct = false := by
  rintro ⟨p, hp, hcontains⟩
  rw [ensureWindowInteractions, if_pos (List.any_eq_true.2 ⟨p, hp, hcontains⟩)] at h
  obtain ⟨_, hgrouped, hdistinct⟩ := bind_eq_ok.1 h
  exact ⟨by simpa using failIf_eq_ok.1 hgrouped, by simpa using failIf_eq_ok.1 hdistinct⟩

theorem ensureGroupDeterminism_eq_ok (h : ensureGroupDeterminism query = .ok ()) :
    (∀ p ∈ query.projection, isDeterminedByGroup query.groupBy p.expression = true) ∧
    (∀ e ∈ query.having, isDeterminedByGroup query.groupBy e = true) ∧
    ∀ ordering ∈ query.orderBy, isDeterminedByGroup query.groupBy ordering.expression = true ∨
      matchesProjection ordering.expression query = true := by
  simp only [ensureGroupDeterminism, bind_eq_ok, forM_eq_ok, failIf_eq_ok, exists_const, not_not,
    Option.mem_toList, not_and] at h
  obtain ⟨hprojection, hhaving, horder⟩ := h
  refine ⟨hprojection, hhaving, fun ordering ho => ?_⟩
  by_cases hdet : isDeterminedByGroup query.groupBy ordering.expression = true
  · exact .inl hdet
  · exact .inr (by simpa using horder ordering ho hdet)

theorem accepted_of_shape (h : ensureQualifiedShape profile database query = .ok ()) :
    ∃ relations, Accepted profile relations query := by
  simp only [ensureQualifiedShape, bind_eq_ok] at h
  obtain ⟨_, -, _, -, relations, -, _, hhaving, _, hwindows, _, hkeys, _, hprojection, _, -, _,
    hclean, _, horder, _, hgroup, hdistinct⟩ := h
  refine ⟨relations, ?_, ensureWindowInteractions_eq_ok hwindows, fun k hk => ?_,
    fun p hp => ensureProjection_eq_ok (forM_eq_ok.1 hprojection p hp), fun e he => ?_,
    fun ordering ho => ensureExpression_eq_ok.1 (forM_eq_ok.1 horder ordering ho), fun hg => ?_,
    fun hd ordering ho => ?_⟩
  · intro hsome
    by_contra hnot
    exact failIf_eq_ok.1 hhaving ⟨hsome, hnot⟩
  · obtain ⟨_, -, hkey⟩ := bind_eq_ok.1 (forM_eq_ok.1 hkeys k hk)
    exact ensureExpression_eq_ok.1 hkey
  · exact ensureExpression_eq_ok.1 (forM_eq_ok.1 hclean e (Option.mem_toList.2 he))
  · rw [if_pos hg] at hgroup
    exact ensureGroupDeterminism_eq_ok hgroup
  · rw [if_pos hd] at hdistinct
    have := failIf_eq_ok.1 (forM_eq_ok.1 hdistinct ordering ho)
    simpa using this

theorem projects_cases {e : QueryExpression} {p : QueryProjection} (h : projects e p = true) :
    p.expression = e ∨ p.expression = .wildcard none ∨
      (∃ relation field, p.expression = .wildcard (some relation) ∧
        e = .column ⟨some relation, field⟩) ∨
      ∃ field, e = .column ⟨none, field⟩ ∧ p.aliasName = some field := by
  unfold projects at h
  rw [Bool.or_eq_true, decide_eq_true_eq] at h
  rcases h with h | h
  · exact .inl h
  refine .inr ?_
  split at h
  next heq => exact .inl heq
  next relation column heq =>
    obtain ⟨named, field⟩ := column
    have hrelation : named = some relation := eq_of_beq h
    exact .inr (.inl ⟨relation, field, heq, by rw [hrelation]⟩)
  next => cases h
  next column _ _ =>
    obtain ⟨relation, field⟩ := column
    rw [Bool.and_eq_true, Option.isNone_iff_eq_none] at h
    obtain ⟨rfl, halias⟩ := h
    exact .inr (.inr ⟨field, rfl, eq_of_beq halias⟩)
  next => cases h

omit [DecidableEq QueryExpression] in
theorem mem_named {name : String} {e : QueryExpression} (h : e ∈ named query name) :
    ∃ p ∈ query.projection, p.expression = e := by
  obtain ⟨p, hp, rfl⟩ := List.mem_map.1 h
  exact ⟨p, (List.mem_filter.1 hp).1, rfl⟩

omit [DecidableEq QueryExpression] in
theorem named_ne_nil {name : String} {p : QueryProjection} (hp : p ∈ query.projection)
    (h : p.aliasName = some name) : named query name ≠ [] := by
  intro hnil
  have hmem : p.expression ∈ named query name :=
    List.mem_map_of_mem (List.mem_filter.2 ⟨hp, by simp [h]⟩)
  rw [hnil] at hmem
  cases hmem

omit [DecidableEq QueryExpression] in
/-- An ordering reads projections, or it is the expression itself and no name of the list. -/
theorem orderingReads_cases {e read : QueryExpression} (h : read ∈ orderingReads query e) :
    (∃ p ∈ query.projection, p.expression = read) ∨
      read = e ∧ ∀ field, e = .column ⟨none, field⟩ → named query field = [] := by
  unfold orderingReads at h
  split at h
  next field =>
    split at h
    next hnil =>
      refine .inr ⟨List.mem_singleton.1 h, fun field' heq => ?_⟩
      cases heq
      exact hnil
    next => exact .inl (mem_named h)
  next hnot =>
    refine .inr ⟨List.mem_singleton.1 h, fun field heq => ?_⟩
    exact absurd heq (hnot field)

omit [DecidableEq QueryExpression] in
theorem sameAt_value {ν : Type} {E : Evaluator ν} {p p' : Place ν} {e : QueryExpression}
    (h : ∀ relation, e ≠ .wildcard relation) :
    SameAt E p p' e ↔ E.value p.group p.row e = E.value p'.group p'.row e := by
  cases e with
  | wildcard relation => exact absurd rfl (h relation)
  | _ => exact Iff.rfl

/-- An ordering that matches the select list is a function of what is published. -/
theorem sameAt_of_matchesProjection {ν : Type} {E : Evaluator ν} {p p' : Place ν}
    {e read : QueryExpression} (hread : read ∈ orderingReads query e)
    (hmatches : matchesProjection e query = true)
    (hsame : ∀ projection ∈ query.projection, SameAt E p p' projection.expression)
    (hwild : ∀ relation, e ≠ .wildcard relation)
    (hall : ∀ projection ∈ query.projection, projection.expression = .wildcard none →
      ¬ CallsAggregate e) : SameAt E p p' read := by
  rcases orderingReads_cases hread with ⟨projection, hmem, rfl⟩ | ⟨rfl, hunnamed⟩
  · exact hsame projection hmem
  · obtain ⟨projection, hmem, hprojects⟩ := List.any_eq_true.1 hmatches
    rcases projects_cases hprojects with rfl | hstar | ⟨relation, field, hstar, rfl⟩ |
      ⟨field, rfl, halias⟩
    · exact hsame projection hmem
    · have hrow := hsame projection hmem
      rw [hstar] at hrow
      have hrow : p.row = p'.row := hrow
      rw [sameAt_value hwild, hrow]
      exact value_of_not_callsAggregate (hall projection hmem hstar)
    · have hrow := hsame projection hmem
      rw [hstar] at hrow
      have hcell : p.row ⟨some relation, field⟩ = p'.row ⟨some relation, field⟩ := hrow field
      rw [sameAt_value hwild, Evaluator.value_column, Evaluator.value_column]
      exact hcell
    · exact absurd (hunnamed field rfl) (named_ne_nil hmem halias)

omit [DecidableEq QueryExpression] in
theorem ungrouped (hgrouped : isGrouped query = false) :
    query.groupBy = [] ∧ ∀ e ∈ aggregable query, ¬ Finds isAggregateCall e := by
  have hnot : ¬ (query.groupBy ≠ [] ∨ ∃ e ∈ aggregable query, Finds isAggregateCall e) := by
    rw [← isGrouped_iff, hgrouped]
    simp
  rw [not_or, not_not] at hnot
  exact ⟨hnot.1, fun e he hfinds => hnot.2 ⟨e, he, hfinds⟩⟩

/-! ## Grouped, and taken for grouped -/

variable (h : Accepted profile relations query)

include h

theorem Accepted.no_window_grouped (hgrouped : isGrouped query = true) :
    ∀ p ∈ query.projection, ¬ p.expression.CallsWindow := by
  intro p hp
  have hkeys : ∀ k ∈ query.groupBy, ¬ k.CallsWindow := fun k hk =>
    not_callsWindow_of_clean (h.keys k hk) (by simp)
  rcases h.projection p hp with ⟨-, hnot⟩ | hclean
  · rw [hgrouped] at hnot
    cases hnot
  · exact not_callsWindow_of_determined hkeys ((h.grouped hgrouped).1 p hp) hclean

theorem Accepted.not_wildcard_grouped (hgrouped : isGrouped query = true) :
    ∀ p ∈ query.projection, ∀ relation, p.expression ≠ .wildcard relation := by
  intro p hp relation
  rcases h.projection p hp with ⟨-, hnot⟩ | hclean
  · rw [hgrouped] at hnot
    cases hnot
  · exact not_wildcard_of_clean hclean relation

/-- A query taken for a grouped one is determined by its groups. -/
theorem Accepted.determined_grouped (hgrouped : isGrouped query = true) :
    ∀ e ∈ published query, Determined query.groupBy e := by
  obtain ⟨hprojection, hhaving, horder⟩ := h.grouped hgrouped
  have hselect : ∀ p ∈ query.projection, Determined query.groupBy p.expression := by
    intro p hp ν E group hgroup r hr r' hr'
    rw [sameAt_value (h.not_wildcard_grouped hgrouped p hp)]
    exact value_of_determined hgroup hr hr' (hprojection p hp)
  intro e he
  simp only [published, List.mem_append, List.mem_map, Option.mem_toList, List.mem_flatMap] at he
  rcases he with (⟨p, hp, rfl⟩ | he) | ⟨ordering, hordering, hread⟩
  · exact hselect p hp
  · intro ν E group hgroup r hr r' hr'
    rw [sameAt_value (not_wildcard_of_clean (h.havingClean e he))]
    exact value_of_determined hgroup hr hr' (hhaving e he)
  · have hwild := not_wildcard_of_clean (h.orderBy ordering hordering)
    intro ν E group hgroup r hr r' hr'
    have hsame : ∀ projection ∈ query.projection,
        SameAt E ⟨group, r⟩ ⟨group, r'⟩ projection.expression :=
      fun projection hp => hselect projection hp ν E group hgroup r hr r' hr'
    rcases horder ordering hordering with hdetermined | hmatches
    · rcases orderingReads_cases hread with ⟨p, hp, rfl⟩ | ⟨rfl, -⟩
      · exact hsame p hp
      · rw [sameAt_value hwild]
        exact value_of_determined hgroup hr hr' hdetermined
    · exact sameAt_of_matchesProjection hread hmatches hsame hwild fun p hp hstar =>
        absurd hstar (h.not_wildcard_grouped hgrouped p hp none)

theorem Accepted.determinate_grouped (hgrouped : isGrouped query = true) :
    Determinate query where
  group _ := h.determined_grouped hgrouped
  distinct hdistinct _ _ _ _ hsame ordering hordering _ he :=
    sameAt_of_matchesProjection he (h.distinct hdistinct ordering hordering) hsame
      (not_wildcard_of_clean (h.orderBy ordering hordering)) fun projection hp hstar =>
        absurd hstar (h.not_wildcard_grouped hgrouped projection hp none)
  window projection hp hcalls := absurd hcalls (h.no_window_grouped hgrouped projection hp)

/-! ## Not taken for grouped -/

/-- The clauses of an expression the query publishes. -/
theorem Accepted.published_cases {e : QueryExpression} (he : e ∈ published query) :
    (∃ p ∈ query.projection, p.expression = e) ∨ CleanIn profile relations .aggregable e := by
  simp only [published, List.mem_append, List.mem_map, Option.mem_toList, List.mem_flatMap] at he
  rcases he with (⟨p, hp, rfl⟩ | he) | ⟨ordering, hordering, hread⟩
  · exact .inl ⟨p, hp, rfl⟩
  · exact .inr (h.havingClean e he)
  · rcases orderingReads_cases hread with hprojection | ⟨rfl, -⟩
    · exact .inl hprojection
    · exact .inr (h.orderBy ordering hordering)

/-- Nothing published reads a row: the query is determined by any groups. -/
theorem Accepted.determined_of_not_readsRow
    (hwindows : ∀ p ∈ query.projection, ¬ p.expression.CallsWindow)
    (hrow : ∀ e ∈ published query, ¬ ReadsRow e) :
    ∀ e ∈ published query, Determined query.groupBy e := by
  intro e he ν E group _ r _ r' _
  have hwild : ∀ relation, e ≠ .wildcard relation := by
    rintro relation rfl
    exact hrow _ he (.here _ rfl)
  have hwindow : ¬ e.CallsWindow := by
    rcases h.published_cases he with ⟨p, hp, rfl⟩ | hclean
    · exact hwindows p hp
    · exact not_callsWindow_of_clean hclean (by simp)
  rw [sameAt_value hwild]
  exact value_of_not_readsRow (hrow e he) hwindow

/-- What is determined by the group of all rows reads none of them. -/
theorem Accepted.not_readsRow_of_determined (hkeys : query.groupBy = [])
    (hwindows : ∀ p ∈ query.projection, ¬ p.expression.CallsWindow)
    {e : QueryExpression} (he : e ∈ published query) (hdetermined : Determined query.groupBy e) :
    ¬ ReadsRow e := by
  have hgroup : IsGroup free query.groupBy [fun _ => .cell true, fun _ => .cell false] := by
    rw [hkeys]
    intro _ _ _ _ k hk
    cases hk
  have hsame := hdetermined Term free _ hgroup (fun _ => .cell true) List.mem_cons_self
    (fun _ => .cell false) (List.mem_cons_of_mem _ (List.mem_singleton_self _))
  have hdiffers : (.cell true : Term) ≠ .cell false := by simp
  have hclean : (∃ relation, e = .wildcard relation) ∨
      ¬ e.CallsWindow ∧ ∃ scope, CleanIn profile relations scope e := by
    rcases h.published_cases he with ⟨p, hp, rfl⟩ | hclean
    · rcases h.projection p hp with ⟨hstar, -⟩ | hclean
      · exact .inl hstar
      · exact .inr ⟨hwindows p hp, _, hclean⟩
    · exact .inr ⟨not_callsWindow_of_clean hclean (by simp), _, hclean⟩
  rcases hclean with ⟨relation, rfl⟩ | ⟨hwindow, scope, hclean⟩
  · cases relation with
    | none => exact absurd (congrFun (show (fun _ => _) = (fun _ => _) from hsame) ⟨none, ""⟩) hdiffers
    | some relation => exact absurd (hsame "") hdiffers
  · rw [sameAt_value (not_wildcard_of_clean hclean)] at hsame
    exact fun hrow => value_of_readsRow hrow hwindow hclean hsame

theorem Accepted.suffice_of_determinate (hgrouped : isGrouped query = false)
    (hdeterminate : Determinate query) : SearchesSuffice query := by
  obtain ⟨hkeys, -⟩ := ungrouped hgrouped
  refine ⟨fun hcalls => .inr ?_, fun hdistinct p hp hwindow => ?_⟩
  · have hwindows : ∀ p ∈ query.projection, ¬ p.expression.CallsWindow := fun p hp hwindow =>
      (hdeterminate.window p hp hwindow).2.1 hcalls
    exact ⟨hwindows, fun e he =>
      h.not_readsRow_of_determined hkeys hwindows he (hdeterminate.group (.inr hcalls) e he)⟩
  · have := (hdeterminate.window p hp hwindow).2.2
    rw [hdistinct] at this
    cases this

theorem Accepted.determinate_of_suffice (hgrouped : isGrouped query = false)
    (hsuffice : SearchesSuffice query) : Determinate query := by
  obtain ⟨hkeys, hnone⟩ := ungrouped hgrouped
  have hmissed : CallsAggregates query →
      (∀ p ∈ query.projection, ¬ p.expression.CallsWindow) ∧
        ∀ e ∈ published query, ¬ ReadsRow e := by
    intro hcalls
    rcases hsuffice.aggregate hcalls with hfound | hrow
    · have := (isGrouped_iff query).2 hfound
      rw [hgrouped] at this
      cases this
    · exact hrow
  refine ⟨fun hgroup => ?_, fun hdistinct ν E p p' hsame ordering hordering e he => ?_,
    fun p hp hwindow => ⟨hkeys, fun hcalls => (hmissed hcalls).1 p hp hwindow, ?_⟩⟩
  · have hcalls : CallsAggregates query := hgroup.resolve_left (by simp [hkeys])
    obtain ⟨hwindows, hrow⟩ := hmissed hcalls
    exact h.determined_of_not_readsRow hwindows hrow
  · refine sameAt_of_matchesProjection he (h.distinct hdistinct ordering hordering) hsame
      (not_wildcard_of_clean (h.orderBy ordering hordering)) fun projection hp hstar hcalls => ?_
    have hall : CallsAggregates query := by
      refine ⟨ordering.expression, ?_, hcalls⟩
      simp only [aggregable, List.mem_append, List.mem_map]
      exact .inr ⟨ordering, hordering, rfl⟩
    refine (hmissed hall).2 projection.expression ?_ (.here _ (by rw [hstar]; rfl))
    simp only [published, List.mem_append, List.mem_map]
    exact .inl (.inl ⟨projection, hp, rfl⟩)
  · by_contra hdistinct
    rw [Bool.not_eq_false] at hdistinct
    have hfinds := hsuffice.window hdistinct p hp hwindow
    have := (h.windows ⟨p, hp, (containsWindow_iff _).2 hfinds⟩).2
    rw [hdistinct] at this
    cases this

theorem Accepted.determinate_iff : Determinate query ↔ SearchesSuffice query := by
  cases hgrouped : isGrouped query with
  | true =>
    refine iff_of_true (h.determinate_grouped hgrouped) ⟨fun _ => .inl ?_, fun _ p hp hwindow => ?_⟩
    · exact (isGrouped_iff query).1 hgrouped
    · exact absurd hwindow (h.no_window_grouped hgrouped p hp)
  | false => exact ⟨h.suffice_of_determinate hgrouped, h.determinate_of_suffice hgrouped⟩

end Accepted

/-! ## Top theorem -/

/-- **An accepted query is determinate exactly where the two searches miss nothing that matters.** -/
theorem ensureQualifiedShape_determinate [DecidableEq QueryExpression] (profile : QueryProfile)
    (database : String) (limits : Limits) (query : QueryOperation)
    (_hvalid : validateQueryOperation limits query = .ok ())
    (hshape : ensureQualifiedShape profile database query = .ok ()) :
    Determinate query ↔ SearchesSuffice query := by
  obtain ⟨relations, h⟩ := accepted_of_shape hshape
  exact h.determinate_iff

/-! ## Examples -/

/-- `SELECT … FROM orders` with these projections. -/
def ordersQuery (projection : List QueryProjection) : QueryOperation where
  commonTableExpressions := []
  source := some ⟨⟨none, none, "orders"⟩, none⟩
  derivedSource := none
  projection := projection
  joins := []
  filter := none
  groupBy := []
  having := none
  orderBy := []
  distinct := false
  distinctOn := []
  setOperations := []
  rowLimit := none
  rowOffset := none
  locking := none
  declaredCrs := []

def total : QueryExpression := .scalar .sum [.column ⟨none, "amount"⟩]

def fee : QueryExpression := .parameter "fee"

/-- `SELECT SUM(amount) + ?, customer FROM orders` -/
def totalPlusFee : QueryOperation :=
  ordersQuery [⟨.arithmetic total .add fee, none⟩,
    ⟨.column ⟨none, "customer"⟩, none⟩]

theorem totalPlusFee_valid [DecidableEq QueryExpression] :
    validateQueryOperation defaultLimits totalPlusFee = .ok () :=
  WorkStack.run_of_runWithin _ (show WorkStack.runWithin _ _ _ 10 _ _ = _ from rfl)

theorem totalPlusFee_ungrouped : isGrouped totalPlusFee = false := by
  have hsum : containsAggregate (.arithmetic total .add fee) = false := by
    rw [containsAggregate, walkQueryExpression, WorkStack.run_of_runWithin _
      (show WorkStack.runWithin _ _ _ 5 _ _ = _ from rfl)]
    rfl
  have hcolumn : containsAggregate (.column ⟨none, "customer"⟩) = false := by
    rw [containsAggregate, walkQueryExpression, WorkStack.run_of_runWithin _
      (show WorkStack.runWithin _ _ _ 5 _ _ = _ from rfl)]
    rfl
  show ((containsAggregate (.arithmetic total .add fee) ||
    (containsAggregate (.column ⟨none, "customer"⟩) || false)) || false || false || false) = false
  rw [hsum, hcolumn]
  rfl

theorem totalPlusFee_shape [DecidableEq QueryExpression] :
    ensureQualifiedShape mysqlQueryProfile "shop" totalPlusFee = .ok () := by
  have hcolumn : containsWindow (.column ⟨none, "customer"⟩) = false := by
    rw [containsWindow, walkQueryExpression, WorkStack.run_of_runWithin _
      (show WorkStack.runWithin _ _ _ 5 _ _ = _ from rfl)]
    rfl
  have hsum : containsWindow (.arithmetic total .add fee) = false := by
    rw [containsWindow, walkQueryExpression, WorkStack.run_of_runWithin _
      (show WorkStack.runWithin _ _ _ 5 _ _ = _ from rfl)]
    rfl
  have hwindows : ensureWindowInteractions totalPlusFee false = .ok () := by
    refine if_neg ?_
    show ¬ (containsWindow (.arithmetic total .add fee) ||
      (containsWindow (.column ⟨none, "customer"⟩) || false)) = true
    rw [hsum, hcolumn]
    exact Bool.false_ne_true
  have hfirst : ensureExpression mysqlQueryProfile ["orders"] (.arithmetic total .add fee)
      .projection = .ok () :=
    WorkStack.run_of_runWithin _ (show WorkStack.runWithin _ _ _ 5 _ _ = _ from rfl)
  have hsecond : ensureExpression mysqlQueryProfile ["orders"] (.column ⟨none, "customer"⟩)
      .projection = .ok () :=
    WorkStack.run_of_runWithin _ (show WorkStack.runWithin _ _ _ 5 _ _ = _ from rfl)
  have hprojection : totalPlusFee.projection.forM
      (ensureProjection mysqlQueryProfile ["orders"] false) = .ok () := by
    refine forM_eq_ok.2 fun p hp => ?_
    rcases List.mem_cons.1 hp with rfl | hp
    · exact hfirst
    · rw [List.mem_singleton.1 hp]
      exact hsecond
  rw [ensureQualifiedShape, totalPlusFee_ungrouped]
  refine bind_eq_ok.2 ⟨(), rfl, bind_eq_ok.2 ⟨(), rfl, bind_eq_ok.2 ⟨["orders"], rfl, ?_⟩⟩⟩
  refine bind_eq_ok.2 ⟨(), rfl, bind_eq_ok.2 ⟨(), hwindows, bind_eq_ok.2 ⟨(), rfl, ?_⟩⟩⟩
  exact bind_eq_ok.2 ⟨(), hprojection, rfl⟩

open Classical in
/-- **The search misses a sum below an addition**: the customer comes from any row. -/
theorem totalPlusFee_not_determinate :
    validateQueryOperation defaultLimits totalPlusFee = .ok () ∧
      ensureQualifiedShape mysqlQueryProfile "shop" totalPlusFee = .ok () ∧
      ¬ Determinate totalPlusFee := by
  refine ⟨totalPlusFee_valid, totalPlusFee_shape, fun h => ?_⟩
  have hcalls : CallsAggregates totalPlusFee :=
    ⟨.arithmetic total .add fee, List.mem_cons_self,
      .operand _ total rfl List.mem_cons_self (.here _ rfl)⟩
  have hdetermined := h.group (.inr hcalls) (.column ⟨none, "customer"⟩)
    (List.mem_cons_of_mem _ List.mem_cons_self)
  obtain ⟨relations, haccepted⟩ := accepted_of_shape totalPlusFee_shape
  exact haccepted.not_readsRow_of_determined rfl
    (fun p hp hwindow => (h.window p hp hwindow).2.1 hcalls)
    (List.mem_cons_of_mem _ List.mem_cons_self) hdetermined (.here _ rfl)

open Classical in
theorem ensureQualifiedShape_determinate_totalPlusFee :
    Determinate totalPlusFee ↔ SearchesSuffice totalPlusFee :=
  ensureQualifiedShape_determinate mysqlQueryProfile "shop" defaultLimits totalPlusFee
    totalPlusFee_valid totalPlusFee_shape

end Plenora.Mysql
