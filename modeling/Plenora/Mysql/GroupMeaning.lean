import Plenora.Mysql.QueryShape

/-!
# What a grouped query publishes

Without `ONLY_FULL_GROUP_BY` the server reads the columns of a grouped row from
any row of the group.  Here the value of an expression is taken at a place: the
group and the row read for it.  Functions, operators, aggregates and windows mean
anything (`Evaluator`); a query is determinate when, whatever they mean, nothing it
publishes depends on the row read.

    IsGroup E keys g:     the rows of `g` agree on the keys
    Determined keys e:    in every group, `e` has one value
    Determinate q:        what is published is determined, an ordering under `DISTINCT` is
                          a function of the row, no window meets a group or `DISTINCT`
-/

namespace Plenora.Mysql

open Plenora.Lib Plenora.Core

/-! ## Values -/

/-- A row: the values of its columns. -/
abbrev ServerRow (ν : Type) := ColumnRef → ν

/-- What the server computes at the head of an expression. -/
structure Evaluator (ν : Type) where
  /-- A constant, a function or an operator, from the values of its operands. -/
  operator : QueryExpression → List ν → ν
  /-- An aggregate, from the values of its arguments in each row of the group. -/
  aggregate : QueryExpression → List (List ν) → ν
  /-- A window, in the row it stands in. -/
  window : QueryExpression → ServerRow ν → ν

namespace Evaluator

variable {ν : Type} (E : Evaluator ν)

/-- The value of an expression in a group, where the server reads `row` of it. -/
def value (group : List (ServerRow ν)) (row : ServerRow ν) (e : QueryExpression) : ν :=
  match e with
  | .column column => row column
  | e =>
    if e.isWindow then E.window e row
    else if isAggregateCall e then
      E.aggregate e (group.map fun r => e.operands.attach.map fun o => value group r o.1)
    else E.operator e (e.operands.attach.map fun o => value group row o.1)
termination_by sizeOf e
decreasing_by
  · exact QueryExpression.sizeOf_operand_lt o.2
  · exact QueryExpression.sizeOf_operand_lt o.2

variable {E} {group : List (ServerRow ν)} {row : ServerRow ν}

theorem value_column (column : ColumnRef) : E.value group row (.column column) = row column := by
  rw [value]

theorem value_window {e : QueryExpression} (h : e.isWindow = true) :
    E.value group row e = E.window e row := by
  cases e with
  | window _ _ _ _ _ | spatialWindow _ _ _ _ _ =>
    rw [value, if_pos h]
    intro column heq
    cases heq
  | _ => cases h

theorem value_aggregate {e : QueryExpression} (h : isAggregateCall e = true) :
    E.value group row e =
      E.aggregate e (group.map fun r => e.operands.map fun o => E.value group r o) := by
  cases e with
  | scalar function arguments =>
    rw [value, if_neg (by simp [QueryExpression.isWindow]), if_pos h]
    · simp
    · intro column heq
      cases heq
  | _ => cases h

theorem value_operator {e : QueryExpression} (hcolumn : e.isColumn = false)
    (hwindow : e.isWindow = false) (haggregate : isAggregateCall e = false) :
    E.value group row e = E.operator e (e.operands.map fun o => E.value group row o) := by
  rw [value, if_neg (by simp [hwindow]), if_neg (by simp [haggregate])]
  · simp
  · rintro column rfl
    cases hcolumn

end Evaluator

/-! ## Determined expressions -/

/-- An expression of `p`, reached through expressions of `through` only. -/
inductive Reaches (through p : QueryExpression → Prop) : QueryExpression → Prop
  | here (e : QueryExpression) : p e → Reaches through p e
  | operand (e o : QueryExpression) : through e → o ∈ e.operands → Reaches through p o →
      Reaches through p e

theorem reaches_iff (through p : QueryExpression → Prop) (e : QueryExpression) :
    Reaches through p e ↔ p e ∨ through e ∧ ∃ o ∈ e.operands, Reaches through p o := by
  constructor
  · rintro (⟨_, hp⟩ | ⟨_, o, hthrough, ho, hreaches⟩)
    · exact .inl hp
    · exact .inr ⟨hthrough, o, ho, hreaches⟩
  · rintro (hp | ⟨hthrough, o, ho, hreaches⟩)
    · exact .here e hp
    · exact .operand e o hthrough ho hreaches

/-- An aggregate is called in the expression, outside of any window. -/
abbrev CallsAggregate (e : QueryExpression) : Prop :=
  Reaches (·.isWindow = false) (isAggregateCall · = true) e

/-- A column is read outside of any aggregate. -/
abbrev ReadsRow (e : QueryExpression) : Prop :=
  Reaches (isAggregateCall · = false) (·.isSourceReference = true) e

section Meaning

variable {ν : Type}

/-- Where a value of the result is taken: a group, and the row read for it. -/
structure Place (ν : Type) where
  group : List (ServerRow ν)
  row : ServerRow ν

/-- What the server publishes for `e` is the same at both places. -/
def SameAt (E : Evaluator ν) (p p' : Place ν) : QueryExpression → Prop
  | .wildcard none => p.row = p'.row
  | .wildcard (some relation) =>
    ∀ field, p.row ⟨some relation, field⟩ = p'.row ⟨some relation, field⟩
  | e => E.value p.group p.row e = E.value p'.group p'.row e

/-- Rows that agree on the keys. -/
def IsGroup (E : Evaluator ν) (keys : List QueryExpression) (group : List (ServerRow ν)) : Prop :=
  ∀ r ∈ group, ∀ r' ∈ group, ∀ k ∈ keys, E.value group r k = E.value group r' k

end Meaning

/-- In every group the expression has one value, whichever row is read. -/
def Determined (keys : List QueryExpression) (e : QueryExpression) : Prop :=
  ∀ (ν : Type) (E : Evaluator ν) (group : List (ServerRow ν)), IsGroup E keys group →
    ∀ r ∈ group, ∀ r' ∈ group, SameAt E ⟨group, r⟩ ⟨group, r'⟩ e

/-! ## Determinate queries -/

/-- The projections under a name. -/
def named (query : QueryOperation) (name : String) : List QueryExpression :=
  (query.projection.filter fun p => p.aliasName == some name).map (·.expression)

/-- What an ordering stands for: a name of the select list comes before a column. -/
def orderingReads (query : QueryOperation) (e : QueryExpression) : List QueryExpression :=
  match e with
  | .column ⟨none, field⟩ => if named query field = [] then [e] else named query field
  | e => [e]

/-- The expressions whose values decide what is published, and in which order. -/
def published (query : QueryOperation) : List QueryExpression :=
  query.projection.map (·.expression) ++ query.having.toList ++
    query.orderBy.flatMap fun ordering => orderingReads query ordering.expression

/-- The clauses where an aggregate may be called. -/
def aggregable (query : QueryOperation) : List QueryExpression :=
  query.projection.map (·.expression) ++ query.having.toList ++
    query.orderBy.map (·.expression)

def CallsAggregates (query : QueryOperation) : Prop := ∃ e ∈ aggregable query, CallsAggregate e

/-- **What the grouping, the distinct rows and the windows of a query are to each other.** -/
structure Determinate (query : QueryOperation) : Prop where
  group : query.groupBy ≠ [] ∨ CallsAggregates query →
    ∀ e ∈ published query, Determined query.groupBy e
  distinct : query.distinct = true → ∀ (ν : Type) (E : Evaluator ν) (p p' : Place ν),
    (∀ projection ∈ query.projection, SameAt E p p' projection.expression) →
      ∀ ordering ∈ query.orderBy, ∀ e ∈ orderingReads query ordering.expression, SameAt E p p' e
  window : ∀ projection ∈ query.projection, projection.expression.CallsWindow →
    query.groupBy = [] ∧ ¬ CallsAggregates query ∧ query.distinct = false

/-- The searches come to an expression of `p`. -/
abbrev Finds (p : QueryExpression → Bool) (e : QueryExpression) : Prop :=
  Reaches (isSearched · = true) (p · = true) e

/-- **When the searches miss nothing that matters**: an aggregate is found, or nothing published
reads a row; and every window of a distinct query is found. -/
structure SearchesSuffice (query : QueryOperation) : Prop where
  aggregate : CallsAggregates query →
    (query.groupBy ≠ [] ∨ ∃ e ∈ aggregable query, Finds isAggregateCall e) ∨
      (∀ projection ∈ query.projection, ¬ projection.expression.CallsWindow) ∧
        ∀ e ∈ published query, ¬ ReadsRow e
  window : query.distinct = true → ∀ projection ∈ query.projection,
    projection.expression.CallsWindow → Finds isScalarWindow projection.expression

end Plenora.Mysql
