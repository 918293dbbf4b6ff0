import Plenora.Core.QueryAgreement

/-!
# Queries that lock their rows

An operation that locks its rows must give rows of tables: no grouping, no window, no set.
The validation looks for them in every clause but the `ORDER BY`:

    validateQueryOperation limits query = .ok () →
      (every locking operation is row-lockable ↔
        none orders by an aggregate or a window)              (locking_rowLockable_iff)
-/

namespace Plenora.Core

/-- The tables of the operation itself. -/
def QueryOperation.sources (q : QueryOperation) : List QuerySource :=
  q.source.toList ++ q.joins.flatMap fun join => join.source.toList

/-- An aggregate or a window is called, outside the nested operations. -/
abbrev QueryExpression.CallsGroup (e : QueryExpression) : Prop :=
  e.Contains (·.isLockingIncompatible = true)

/-- Every row of the operation is one row of each locked table. -/
structure RowLockable (q : QueryOperation) (lock : QueryLock) : Prop where
  distinct : q.distinct = false ∧ q.distinctOn = []
  setOperations : q.setOperations = []
  grouping : q.groupBy = [] ∧ q.having = none
  projection : ∀ p ∈ q.projection, ¬ p.expression.CallsGroup
  orderBy : ∀ ordering ∈ q.orderBy, ¬ ordering.expression.CallsGroup
  relations : ∀ name ∈ lock.relations, ∃ source ∈ q.sources, source.visibleName = name

/-- The operations of a query that lock their rows, at any depth. -/
def Locks (query q : QueryOperation) (lock : QueryLock) : Prop :=
  (∃ depth, (QueryPart.operation query).Within depth (.operation q)) ∧ q.locking = some lock

theorem mem_lockableRelations {q : QueryOperation} {name : String} :
    name ∈ q.lockableRelations ↔ ∃ source ∈ q.sources, source.visibleName = name := by
  have hmap : q.lockableRelations = q.sources.map (·.visibleName) := by
    unfold QueryOperation.lockableRelations QueryOperation.sources
    rw [List.map_append, List.map_flatMap]
  rw [hmap, List.mem_map]

/-- What the validation asks of a locking operation, and what it leaves out. -/
theorem rowLockable_iff {maxBytes : Nat} {q : QueryOperation} {lock : QueryLock}
    (h : LockShape maxBytes q lock) :
    RowLockable q lock ↔ ∀ ordering ∈ q.orderBy, ¬ ordering.expression.CallsGroup := by
  constructor
  · exact fun hlockable => hlockable.orderBy
  · intro horder
    exact
      { distinct := ⟨h.distinct, h.distinctOn⟩
        setOperations := h.setOperations
        grouping := ⟨h.groupBy, h.having⟩
        projection := h.projection
        orderBy := horder
        relations := fun name hname => mem_lockableRelations.1 (h.relations name hname).2 }

section Accepted

variable [DecidableEq QueryExpression] {limits : Limits} {query : QueryOperation}

theorem meetsRule_of_validate (h : validateQueryOperation limits query = .ok ()) :
    MeetsRule limits query := by
  rwa [validateQueryOperation, Lib.WorkStack.run_eq_ok, fits_iff] at h

theorem lockShape_of_validate (h : validateQueryOperation limits query = .ok ())
    {q : QueryOperation} {lock : QueryLock} (hlocks : Locks query q lock) :
    LockShape limits.maxIdentifierBytes q lock := by
  obtain ⟨⟨depth, hwithin⟩, hlock⟩ := hlocks
  exact ((meetsRule_of_validate h).shape depth _ hwithin).1.locking lock hlock

/-- **The locking operations of an accepted query are row-lockable exactly when none orders by
an aggregate or a window.** -/
theorem locking_rowLockable_iff (h : validateQueryOperation limits query = .ok ()) :
    (∀ q lock, Locks query q lock → RowLockable q lock) ↔
      ∀ q lock, Locks query q lock →
        ∀ ordering ∈ q.orderBy, ¬ ordering.expression.CallsGroup := by
  constructor
  · intro hall q lock hlocks
    exact (rowLockable_iff (lockShape_of_validate h hlocks)).1 (hall q lock hlocks)
  · intro hall q lock hlocks
    exact (rowLockable_iff (lockShape_of_validate h hlocks)).2 (hall q lock hlocks)

end Accepted

/-! ## A query ordered by an aggregate -/

def nameColumn : QueryExpression := .column { relation := none, field := "name" }

/-- `SELECT name FROM people ORDER BY count(name) FOR UPDATE OF people`. -/
def peopleByCount : QueryOperation where
  commonTableExpressions := []
  source := some
    { object := { catalog := none, schema := none, object := "people" }, aliasName := none }
  derivedSource := none
  projection := [{ expression := nameColumn, aliasName := none }]
  joins := []
  filter := none
  groupBy := []
  having := none
  orderBy := [{ expression := .scalar .count [nameColumn], direction := .asc }]
  distinct := false
  distinctOn := []
  setOperations := []
  rowLimit := none
  rowOffset := none
  locking := some { strength := .update, relations := ["people"], wait := .wait }
  declaredCrs := []

def smallLimits : Limits where
  maxIdentifierBytes := 64
  maxFilterDepth := 8
  maxFilterNodes := 100

theorem nameColumn_within {depth : Nat} {part : QueryPart}
    (h : (QueryPart.expression nameColumn).Within depth part) :
    depth = 1 ∧ part = .expression nameColumn := by
  rcases (QueryPart.within_iff _ _ _).1 h with h | ⟨child, hchild, -⟩
  · exact h
  · cases hchild

theorem countName_within {depth : Nat} {part : QueryPart}
    (h : (QueryPart.expression (.scalar .count [nameColumn])).Within depth part) :
    depth ≤ 2 ∧ (part = .expression (.scalar .count [nameColumn]) ∨
      part = .expression nameColumn) := by
  rcases (QueryPart.within_iff _ _ _).1 h with ⟨rfl, rfl⟩ | ⟨child, hchild, below, hbelow, rfl⟩
  · exact ⟨by omega, .inl rfl⟩
  · rcases List.mem_singleton.1 (show child ∈ [QueryPart.expression nameColumn] from hchild)
    obtain ⟨rfl, rfl⟩ := nameColumn_within hbelow
    exact ⟨by omega, .inr rfl⟩

theorem peopleByCount_within {depth : Nat} {part : QueryPart}
    (h : (QueryPart.operation peopleByCount).Within depth part) :
    depth ≤ 3 ∧ (part = .operation peopleByCount ∨
      part = .expression (.scalar .count [nameColumn]) ∨ part = .expression nameColumn) := by
  rcases (QueryPart.within_iff _ _ _).1 h with ⟨rfl, rfl⟩ | ⟨child, hchild, below, hbelow, rfl⟩
  · exact ⟨by omega, .inl rfl⟩
  · have hparts : child ∈ [QueryPart.expression nameColumn,
        .expression (.scalar .count [nameColumn])] := hchild
    rcases List.mem_cons.1 hparts with rfl | hparts
    · obtain ⟨rfl, rfl⟩ := nameColumn_within hbelow
      exact ⟨by omega, .inr (.inr rfl)⟩
    · rcases List.mem_singleton.1 hparts
      obtain ⟨hdepth, hpart⟩ := countName_within hbelow
      exact ⟨by omega, .inr hpart⟩

theorem peopleByCount_nodes : (QueryPart.operation peopleByCount).nodes = 6 := by
  have hcolumn : (QueryPart.expression nameColumn).nodes = 1 := by
    rw [QueryPart.nodes_eq]
    rfl
  have hcount : (QueryPart.expression (.scalar .count [nameColumn])).nodes = 2 := by
    rw [QueryPart.nodes_eq]
    show 1 + ([QueryPart.expression nameColumn].map QueryPart.nodes).sum = 2
    rw [List.map_singleton, hcolumn]
    rfl
  rw [QueryPart.nodes_eq]
  show 3 + ([QueryPart.expression nameColumn, .expression (.scalar .count [nameColumn])].map
    QueryPart.nodes).sum = 6
  rw [List.map_cons, List.map_singleton, hcolumn, hcount]
  rfl

theorem nameColumn_calls {p : QueryExpression → Prop} :
    nameColumn.Contains p ↔ p nameColumn := by
  rw [QueryExpression.contains_iff]
  constructor
  · rintro (h | ⟨operand, hoperand, -⟩)
    · exact h
    · cases hoperand
  · exact .inl

theorem countName_calls {p : QueryExpression → Prop} :
    (QueryExpression.scalar .count [nameColumn]).Contains p ↔
      p (.scalar .count [nameColumn]) ∨ p nameColumn := by
  rw [QueryExpression.contains_iff]
  show _ ∨ (∃ operand ∈ [nameColumn], _) ↔ _
  rw [List.exists_mem_cons_iff, nameColumn_calls]
  simp

theorem isIdentifier_people : IsIdentifier 64 "people" := ⟨by decide, by decide, by decide⟩

theorem isIdentifier_name : IsIdentifier 64 "name" := ⟨by decide, by decide, by decide⟩

theorem peopleByCount_shape : OperationShape smallLimits peopleByCount where
  projection := List.cons_ne_nil _ _
  distinct := fun _ => rfl
  offset := fun _ => List.cons_ne_nil _ _
  distinctOn := List.nil_prefix
  setOperations := fun _ hset => absurd hset List.not_mem_nil
  locking := by
    rintro lock ⟨⟩
    refine ⟨rfl, rfl, rfl, rfl, rfl, ?_, ?_⟩
    · intro p hp
      rcases List.mem_singleton.1 hp
      rw [nameColumn_calls]
      exact Bool.false_ne_true
    · intro name hname
      rcases List.mem_singleton.1 hname
      exact ⟨isIdentifier_people, List.mem_singleton.2 rfl⟩
  source := .inl (.inl ⟨_, rfl, rfl, by rintro _ ⟨⟩, by rintro _ ⟨⟩, isIdentifier_people,
    by rintro _ ⟨⟩⟩)
  ctes := fun _ hcte => absurd hcte List.not_mem_nil
  aliases := by
    intro p hp name hname
    rcases List.mem_singleton.1 hp
    cases hname
  joins := fun _ hjoin => absurd hjoin List.not_mem_nil
  filter := by rintro _ ⟨⟩
  having := by rintro _ ⟨⟩

theorem peopleByCount_windows : WindowsPlaced peopleByCount where
  projection := by
    intro p hp
    rcases List.mem_singleton.1 hp
    show ¬ nameColumn.Contains _
    rw [nameColumn_calls]
    rintro ⟨⟨⟩, -⟩
  joins := fun _ hjoin => absurd hjoin List.not_mem_nil
  filter := by rintro _ ⟨⟩
  groupBy := fun _ he => absurd he List.not_mem_nil
  distinctOn := fun _ he => absurd he List.not_mem_nil
  having := by rintro _ ⟨⟩
  orderBy := by
    intro ordering hordering
    rcases List.mem_singleton.1 hordering
    show ¬ (QueryExpression.scalar .count [nameColumn]).Contains _
    rw [countName_calls]
    rintro (⟨-, operand, hoperand, hcalls⟩ | ⟨⟨⟩, -⟩)
    rcases List.mem_singleton.1 (show operand ∈ [nameColumn] from hoperand)
    rw [QueryExpression.CallsWindow, nameColumn_calls] at hcalls
    cases hcalls
  orderBySets := fun hsets => absurd rfl hsets

theorem peopleByCount_accepted [DecidableEq QueryExpression] :
    validateQueryOperation smallLimits peopleByCount = .ok () := by
  rw [validateQueryOperation, Lib.WorkStack.run_eq_ok, fits_iff]
  refine ⟨fun depth part h => ?_, fun depth part h => ?_, ?_⟩
  · obtain ⟨-, rfl | rfl | rfl⟩ := peopleByCount_within h
    · exact ⟨peopleByCount_shape, peopleByCount_windows⟩
    · exact ⟨rfl, rfl⟩
    · exact ⟨by rintro _ ⟨⟩, isIdentifier_name⟩
  · exact Nat.le_trans (peopleByCount_within h).1 (by decide)
  · rw [peopleByCount_nodes]
    decide

theorem peopleByCount_locks :
    Locks peopleByCount peopleByCount { strength := .update, relations := ["people"], wait := .wait } :=
  ⟨⟨1, .root⟩, rfl⟩

open Classical in
theorem locking_rowLockable_people :
    (∀ q lock, Locks peopleByCount q lock → RowLockable q lock) ↔
      ∀ q lock, Locks peopleByCount q lock →
        ∀ ordering ∈ q.orderBy, ¬ ordering.expression.CallsGroup :=
  locking_rowLockable_iff peopleByCount_accepted

open Classical in
/-- The validation accepts a query that locks its rows and orders them by an aggregate. -/
theorem peopleByCount_not_rowLockable :
    validateQueryOperation smallLimits peopleByCount = .ok () ∧
      ¬ ∀ q lock, Locks peopleByCount q lock → RowLockable q lock := by
  refine ⟨peopleByCount_accepted, fun hall => ?_⟩
  refine (hall _ _ peopleByCount_locks).orderBy _ (List.mem_singleton.2 rfl) ?_
  show (QueryExpression.scalar .count [nameColumn]).Contains _
  rw [countName_calls]
  exact .inl rfl

end Plenora.Core
