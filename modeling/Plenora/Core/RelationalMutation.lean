import Plenora.Core.PortableCompiler

/-!
# The filter of a relational mutation

`predicate` lowers the filter of an `UPDATE` or a `DELETE` to a portable filter
and names what its placeholders bind.  Like the compiler it keeps the condition
and works on the operands from left to right:

    predicate target e binds = .ok (p, binds') →
      e.condition = some q ∧ q.shape = p.condition.shape ∧
        q.leaves.mapM (lowerOperand target) binds = .ok (p.condition.leaves, binds')
                                                               (predicate_spec)
-/

namespace Plenora.Core.RelationalMutation

open Plenora.Lib Plenora.Lib.Conditions Plenora.Lib.StateRuns
open Plenora.Core.Portable (Expression Predicate Relation Leaf)

/-! ## Lowering -/

/-- The placeholders so far: without `values` their literals are stand-ins. -/
structure Binds where
  names : List String
  values : Option (List ParameterValue)
  spatial : List Nat
  typed : List (Nat × QueryParameterType)
  deriving DecidableEq, Repr

abbrev Lower (α : Type) := StateT Binds (Except DatabaseError) α

namespace Binds

def sentinels : Binds := ⟨[], none, [], []⟩

def ofValues (values : List ParameterValue) : Binds := ⟨[], some values, [], []⟩

/-- The literal of the next placeholder. -/
def literal (binds : Binds) (parameterType : Option QueryParameterType) : Result ParameterValue :=
  match binds.values with
  | some values =>
    okOr values[binds.names.length]?
      (.invalidPlan "valori DML meno dei segnaposto del piano")
  | none => .ok (if parameterType = some .timestampTz then .timestampTz "" else .i64 0)

def named (binds : Binds) (name : String) : Binds := { binds with names := binds.names ++ [name] }

def scalar (name : String) (parameterType : Option QueryParameterType) : Lower Expression :=
  fun binds => do
    let value ← binds.literal parameterType
    return (.literal value, binds.named name)

def typedBind (name : String) (parameterType : QueryParameterType) : Lower Expression :=
  modifyGet fun binds => (.typedParameter parameterType,
    { binds.named name with typed := binds.typed ++ [(binds.names.length, parameterType)] })

def spatialBind (name : String) : Lower Unit :=
  modify fun binds => { binds.named name with spatial := binds.spatial ++ [binds.names.length] }

end Binds

def column (expression : QueryExpression) (target : ObjectRef) : Result String :=
  match expression with
  | .column column => do
    failIf (column.relation.any (· ≠ target.object))
      (.invalidPlan "predicato DML riferito a una relazione diversa dal target")
    return column.field
  | _ => .error (.invalidPlan "predicato DML richiede una colonna a sinistra")

def spatialValue (expression : QueryExpression) (srid : UInt32) (semantics : SpatialSemantics) :
    Lower Expression := do
  (failIf (srid = 0) (.invalidPlan "valore spatial richiede SRID positivo") : Result Unit)
  match expression with
  | .parameter name | .typedParameter name _ =>
    Binds.spatialBind name
    return .spatialValue (.literal (.null "bytea")) srid semantics
  | _ => throw (.invalidPlan "valore spatial richiede un bind")

/-- A value that is compared, or one that is written. -/
def value (expression : QueryExpression) (target : ObjectRef) (compared : Bool) :
    Lower Expression :=
  match expression with
  | .parameter name => Binds.scalar name none
  | .typedParameter name parameterType =>
    if compared then Binds.typedBind name parameterType
    else Binds.scalar name (some parameterType)
  | .column _ => return .column (← column expression target)
  | .spatialValue expression srid semantics => spatialValue expression srid semantics
  | _ => throw (.invalidPlan "valore DML richiede bind() o Column")

def comparison (operator : ComparisonOperator) (column : String) (value : Expression) : Predicate :=
  match operator with
  | .eq => .eq column value
  | .ne => .ne column value
  | .lt => .lt column value
  | .lte => .lte column value
  | .gt => .gt column value
  | .gte => .gte column value

def negate (predicate : Predicate) (negated : Bool) : Predicate :=
  if negated then .not predicate else predicate

mutual

def predicate (target : ObjectRef) : QueryExpression → Lower Predicate
  | .compare left operator right => do
    let column ← column left target
    let value ← value right target true
    return comparison operator column value
  | .inList expression values negated => do
    let column ← column expression target
    let values ← values.mapM fun expression => value expression target true
    return negate (.isIn column values) negated
  | .between expression lower upper negated => do
    let column ← column expression target
    let low ← value lower target true
    let high ← value upper target true
    return negate (.between column low high) negated
  | .like expression pattern caseInsensitive negated => do
    if caseInsensitive then
      throw (.invalidPlan "ILIKE DML non ancora portabile")
    let column ← column expression target
    let pattern ← value pattern target true
    return negate (.like column pattern) negated
  | .isNull expression negated => do
    let column ← column expression target
    return if negated then .isNotNull column else .isNull column
  | .and arguments => return .and (← predicates target arguments)
  | .or arguments => return .or (← predicates target arguments)
  | .not expression => return .not (← predicate target expression)
  | _ => throw (.invalidPlan "predicato DML non ancora supportato")

def predicates (target : ObjectRef) : List QueryExpression → Lower (List Predicate)
  | [] => return []
  | e :: es => do
    let p ← predicate target e
    let ps ← predicates target es
    return p :: ps

end

/-! ## The condition of an expression -/

/-- An operand of a filter: what is tested, or what it is tested against. -/
inductive Operand where
  | tested (expression : QueryExpression)
  | given (expression : QueryExpression)

def negated (c : Condition Relation Operand) (negated : Bool) : Condition Relation Operand :=
  if negated then .not c else c

mutual

/-- The condition a filter stands for; other expressions and `ILIKE` are no filter of a
mutation. -/
def condition : QueryExpression → Option (Condition Relation Operand)
  | .compare left operator right =>
    some (.relation (.comparison operator) (.tested left) (.given right))
  | .inList expression values negate =>
    some (negated (.inList (.tested expression) (values.map .given)) negate)
  | .between expression lower upper negate =>
    some (negated (.between (.tested expression) (.given lower) (.given upper)) negate)
  | .like expression pattern false negate =>
    some (negated (.relation .like (.tested expression) (.given pattern)) negate)
  | .isNull expression negate => some (.isNull negate (.tested expression))
  | .and arguments => (conditions arguments).map .and
  | .or arguments => (conditions arguments).map .or
  | .not expression => (condition expression).map .not
  | _ => none

def conditions : List QueryExpression → Option (List (Condition Relation Operand))
  | [] => some []
  | e :: es => (condition e).bind fun c => (conditions es).map (c :: ·)

end

/-! ## What lowering does to the operands -/

def lowerOperand (target : ObjectRef) : Operand → Lower Leaf
  | .tested expression => return .column (← column expression target)
  | .given expression => return .value (← value expression target true)

section Spec

variable {target : ObjectRef} {binds binds' : Binds}

/-- The filter is the condition of the expression over its lowered operands. -/
def Lowers (target : ObjectRef) (e : QueryExpression) (binds : Binds) (p : Predicate)
    (binds' : Binds) : Prop :=
  ∃ q, condition e = some q ∧ q.shape = p.condition.shape ∧
    (q.leaves.mapM (lowerOperand target)).run binds = .ok (p.condition.leaves, binds')

theorem comparison_condition (operator : ComparisonOperator) (column : String)
    (value : Expression) : (comparison operator column value).condition =
      .relation (.comparison operator) (.column column) (.value value) := by
  cases operator <;> rw [comparison, Predicate.condition] <;> rfl

theorem negate_condition (p : Predicate) (b : Bool) :
    (negate p b).condition = if b then .not p.condition else p.condition := by
  cases b
  · rfl
  · rw [negate, if_pos rfl, if_pos rfl, Predicate.condition]

theorem Lowers.negate {q : Condition Relation Operand} {e : QueryExpression} {p : Predicate}
    {b : Bool} (he : condition e = some (negated q b)) (hshape : q.shape = p.condition.shape)
    (hleaves : (q.leaves.mapM (lowerOperand target)).run binds = .ok (p.condition.leaves, binds')) :
    Lowers target e binds (negate p b) binds' := by
  refine ⟨_, he, ?_, ?_⟩
  · rw [negate_condition]
    cases b
    · exact hshape
    · rw [negated, if_pos rfl, if_pos rfl, Condition.shape_not, Condition.shape_not, hshape]
  · rw [negate_condition]
    cases b
    · exact hleaves
    · rw [negated, if_pos rfl, if_pos rfl, Condition.leaves, Condition.leaves]
      exact hleaves

theorem lowerOperand_tested {e : QueryExpression} {name : String} {s : Binds}
    (h : (liftM (column e target) : Lower String).run binds = .ok (name, s)) :
    (lowerOperand target (.tested e)).run binds = .ok (.column name, s) :=
  run_bind.2 ⟨name, s, h, rfl⟩

theorem lowerOperand_given {e : QueryExpression} {x : Expression} {s : Binds}
    (h : (value e target true).run binds = .ok (x, s)) :
    (lowerOperand target (.given e)).run binds = .ok (.value x, s) :=
  run_bind.2 ⟨x, s, h, rfl⟩

theorem lowerOperand_values {es : List QueryExpression} {xs : List Expression}
    (h : (es.mapM fun e => value e target true).run binds = .ok (xs, binds')) :
    ((es.map .given).mapM (lowerOperand target)).run binds = .ok (xs.map .value, binds') := by
  induction es generalizing binds xs with
  | nil =>
    obtain ⟨rfl, rfl⟩ := Prod.mk.inj (mapM_nil.1 h)
    rfl
  | cons e es ih =>
    obtain ⟨x, s, xs, hx, hxs, rfl⟩ := mapM_cons.1 h
    exact mapM_cons.2 ⟨_, s, _, lowerOperand_given hx, ih hxs, rfl⟩

/-- A comparison or a `LIKE`. -/
theorem lowers_pair {left right : QueryExpression} {name : String} {x : Expression} {s s' : Binds}
    (hleft : (liftM (column left target) : Lower String).run binds = .ok (name, s))
    (hright : (value right target true).run s = .ok (x, s')) (relation : Relation) :
    ((Condition.relation relation (Operand.tested left) (.given right)).leaves.mapM
      (lowerOperand target)).run binds =
        .ok ((Condition.relation relation (Leaf.column name) (.value x)).leaves, s') := by
  rw [Condition.leaves, Condition.leaves]
  refine mapM_cons.2 ⟨_, s, _, lowerOperand_tested hleft, ?_, rfl⟩
  exact mapM_cons.2 ⟨_, s', _, lowerOperand_given hright, rfl, rfl⟩

theorem predicates_spec {es : List QueryExpression}
    (ih : ∀ e ∈ es, ∀ binds p binds', (predicate target e).run binds = .ok (p, binds') →
      Lowers target e binds p binds') {ps : List Predicate}
    (h : (predicates target es).run binds = .ok (ps, binds')) :
    ∃ qs, conditions es = some qs ∧
      qs.map Condition.shape = (ps.map Predicate.condition).map Condition.shape ∧
      ((qs.flatMap Condition.leaves).mapM (lowerOperand target)).run binds =
        .ok ((ps.map Predicate.condition).flatMap Condition.leaves, binds') := by
  induction es generalizing binds ps with
  | nil =>
    obtain ⟨rfl, rfl⟩ := Prod.mk.inj (run_pure.1 h)
    exact ⟨[], rfl, rfl, rfl⟩
  | cons e es ihs =>
    rw [predicates] at h
    obtain ⟨p, s, hp, h⟩ := run_bind.1 h
    obtain ⟨ps, s', hps, h⟩ := run_bind.1 h
    obtain ⟨rfl, rfl⟩ := Prod.mk.inj (run_pure.1 h)
    obtain ⟨q, hq, hshape, hleaves⟩ := ih e (List.mem_cons_self ..) _ _ _ hp
    obtain ⟨qs, hqs, hshapes, hleavess⟩ :=
      ihs (fun e he => ih e (List.mem_cons_of_mem _ he)) hps
    refine ⟨q :: qs, by rw [conditions, hq, hqs]; rfl, ?_, ?_⟩
    · simp only [List.map_cons, hshape, hshapes]
    · rw [List.map_cons, List.flatMap_cons, List.flatMap_cons]
      exact mapM_append hleaves hleavess

/-- **A lowered filter is the condition of the expression over its lowered operands.** -/
theorem predicate_spec (e : QueryExpression) (binds : Binds) (p : Predicate) (binds' : Binds)
    (h : (predicate target e).run binds = .ok (p, binds')) : Lowers target e binds p binds' := by
  induction hn : sizeOf e using Nat.strong_induction_on generalizing e binds p binds' with
  | _ n ih =>
    subst hn
    have hmember : ∀ es : List QueryExpression, (∀ e' ∈ es, sizeOf e' < sizeOf e) → ∀ e' ∈ es, ∀ binds p binds',
        (predicate target e').run binds = .ok (p, binds') → Lowers target e' binds p binds' :=
      fun es hes e' he' binds p binds' h' => ih _ (hes e' he') e' binds p binds' h' rfl
    cases e with
    | compare left operator right =>
      rw [predicate] at h
      obtain ⟨name, s, hname, h⟩ := run_bind.1 h
      obtain ⟨x, s', hx, h⟩ := run_bind.1 h
      obtain ⟨rfl, rfl⟩ := Prod.mk.inj (run_pure.1 h)
      refine ⟨_, rfl, ?_, ?_⟩
      · rw [comparison_condition]
        simp [Condition.shape, Condition.map]
      · rw [comparison_condition]
        exact lowers_pair hname hx _
    | inList expression values negate =>
      rw [predicate] at h
      obtain ⟨name, s, hname, h⟩ := run_bind.1 h
      obtain ⟨xs, s', hxs, h⟩ := run_bind.1 h
      obtain ⟨rfl, rfl⟩ := Prod.mk.inj (run_pure.1 h)
      have hlength := mapM_length hxs
      refine Lowers.negate (q := .inList (.tested expression) (values.map .given)) rfl ?_ ?_
      · rw [Predicate.condition]
        simp [Condition.shape, Condition.map, Function.comp_def, List.map_const', hlength]
      · rw [Predicate.condition, Condition.leaves, Condition.leaves]
        exact mapM_cons.2 ⟨_, s, _, lowerOperand_tested hname, lowerOperand_values hxs, rfl⟩
    | between expression lower upper negate =>
      rw [predicate] at h
      obtain ⟨name, s, hname, h⟩ := run_bind.1 h
      obtain ⟨low, s', hlow, h⟩ := run_bind.1 h
      obtain ⟨high, s'', hhigh, h⟩ := run_bind.1 h
      obtain ⟨rfl, rfl⟩ := Prod.mk.inj (run_pure.1 h)
      refine Lowers.negate (q := .between (.tested expression) (.given lower) (.given upper)) rfl
        ?_ ?_
      · rw [Predicate.condition]
        simp [Condition.shape, Condition.map]
      · rw [Predicate.condition, Condition.leaves, Condition.leaves]
        refine mapM_cons.2 ⟨_, s, _, lowerOperand_tested hname, ?_, rfl⟩
        refine mapM_cons.2 ⟨_, s', _, lowerOperand_given hlow, ?_, rfl⟩
        exact mapM_cons.2 ⟨_, _, _, lowerOperand_given hhigh, rfl, rfl⟩
    | like expression pattern caseInsensitive negate =>
      rw [predicate] at h
      cases caseInsensitive with
      | true =>
        obtain ⟨_, _, hthrow, -⟩ := run_bind.1 h
        exact absurd hthrow run_throw
      | false =>
        obtain ⟨name, s, hname, h⟩ := run_bind.1 h
        obtain ⟨x, s', hx, h⟩ := run_bind.1 h
        obtain ⟨rfl, rfl⟩ := Prod.mk.inj (run_pure.1 h)
        refine Lowers.negate (q := .relation .like (.tested expression) (.given pattern)) rfl ?_ ?_
        · rw [Predicate.condition, Portable.comparisonCondition]
          simp [Condition.shape, Condition.map]
        · rw [Predicate.condition]
          exact lowers_pair hname hx _
    | isNull expression negate =>
      rw [predicate] at h
      obtain ⟨name, s, hname, h⟩ := run_bind.1 h
      obtain ⟨rfl, rfl⟩ := Prod.mk.inj (run_pure.1 h)
      have hcondition : (if negate then Predicate.isNotNull name else .isNull name).condition =
          .isNull negate (.column name) := by
        cases negate <;> simp [Predicate.condition]
      refine ⟨_, rfl, ?_, ?_⟩
      · rw [hcondition]
        simp [Condition.shape, Condition.map]
      · rw [hcondition, Condition.leaves, Condition.leaves]
        exact mapM_cons.2 ⟨_, _, _, lowerOperand_tested hname, rfl, rfl⟩
    | and arguments =>
      rw [predicate] at h
      obtain ⟨ps, s, hps, h⟩ := run_bind.1 h
      obtain ⟨rfl, rfl⟩ := Prod.mk.inj (run_pure.1 h)
      obtain ⟨qs, hqs, hshapes, hleaves⟩ := predicates_spec
        (hmember arguments fun e' he' => QueryExpression.sizeOf_operand_lt he') hps
      refine ⟨.and qs, by rw [condition, hqs]; rfl, ?_, ?_⟩
      · rw [Predicate.condition, Condition.shape_and, Condition.shape_and, hshapes]
      · rw [Predicate.condition, Condition.leaves, Condition.leaves]
        exact hleaves
    | or arguments =>
      rw [predicate] at h
      obtain ⟨ps, s, hps, h⟩ := run_bind.1 h
      obtain ⟨rfl, rfl⟩ := Prod.mk.inj (run_pure.1 h)
      obtain ⟨qs, hqs, hshapes, hleaves⟩ := predicates_spec
        (hmember arguments fun e' he' => QueryExpression.sizeOf_operand_lt he') hps
      refine ⟨.or qs, by rw [condition, hqs]; rfl, ?_, ?_⟩
      · rw [Predicate.condition, Condition.shape_or, Condition.shape_or, hshapes]
      · rw [Predicate.condition, Condition.leaves, Condition.leaves]
        exact hleaves
    | not expression =>
      rw [predicate] at h
      obtain ⟨p, s, hp, h⟩ := run_bind.1 h
      obtain ⟨rfl, rfl⟩ := Prod.mk.inj (run_pure.1 h)
      obtain ⟨q, hq, hshape, hleaves⟩ := hmember [expression]
        (fun e' he' => QueryExpression.sizeOf_operand_lt he') expression (by simp) _ _ _ hp
      refine ⟨.not q, by rw [condition, hq]; rfl, ?_, ?_⟩
      · rw [Predicate.condition, Condition.shape_not, Condition.shape_not, hshape]
      · rw [Predicate.condition, Condition.leaves, Condition.leaves]
        exact hleaves
    | _ =>
      rw [predicate] at h
      · exact absurd h run_throw
      all_goals simp

end Spec

/-! ## One operand -/

/-- The names an operand binds. -/
def Operand.names : Operand → List String
  | .given (.parameter name) | .given (.typedParameter name _)
  | .given (.spatialValue (.parameter name) _ _)
  | .given (.spatialValue (.typedParameter name _) _ _) => [name]
  | _ => []

namespace Binds

/-- A position is that of a typed placeholder. -/
def isTyped (binds : Binds) (i : Nat) : Prop := ∃ t, (i, t) ∈ binds.typed

/-- A position whose value replaces a stand-in after the compilation. -/
def isMarked (binds : Binds) (i : Nat) : Prop := binds.isTyped i ∨ i ∈ binds.spatial

def WellFormed (binds : Binds) : Prop := ∀ i, binds.isMarked i → i < binds.names.length

end Binds

/-- More placeholders were bound. -/
structure Extends (b B : Binds) : Prop where
  names : b.names <+: B.names
  values : B.values = b.values
  typed : ∀ i, b.isTyped i → B.isTyped i
  marked : ∀ i, B.isMarked i → b.isMarked i ∨ b.names.length ≤ i

theorem Extends.refl (b : Binds) : Extends b b :=
  ⟨List.prefix_rfl, rfl, fun _ h => h, fun _ h => .inl h⟩

theorem Extends.trans {b₁ b₂ b₃ : Binds} (h : Extends b₁ b₂) (h' : Extends b₂ b₃) :
    Extends b₁ b₃ where
  names := h.names.trans h'.names
  values := h'.values.trans h.values
  typed i hi := h'.typed i (h.typed i hi)
  marked i hi := by
    rcases h'.marked i hi with hi | hi
    · exact h.marked i hi
    · exact .inr (h.names.length_le.trans hi)

/-- The literal of a leaf stands in for the value of the caller. -/
def isStandIn : Leaf → Bool
  | .value (.typedParameter _) | .value (.spatialValue _ _ _) => true
  | _ => false

/-- What lowering an operand does. -/
structure Lowered (o : Operand) (binds : Binds) (leaf : Leaf) (binds' : Binds) : Prop where
  extend : Extends binds binds'
  names : binds'.names = binds.names ++ o.names
  wellFormed : binds.WellFormed → binds'.WellFormed
  typed : leaf.isTyped = true → binds'.isTyped binds.names.length
  kept : isStandIn leaf = false → ∀ i, binds'.isMarked i → binds.isMarked i
  notSpatial : leaf.isSpatial = false

theorem column_eq {e : QueryExpression} {target : ObjectRef} {name : String}
    (h : column e target = .ok name) : ∃ c, e = .column c ∧ name = c.field := by
  unfold column at h
  split at h
  next c =>
    obtain ⟨_, -, h⟩ := bind_eq_ok.1 h
    exact ⟨c, rfl, (Except.ok.inj h).symm⟩
  next => cases h

section Operands

variable {target : ObjectRef} {binds binds' : Binds}

theorem extends_named (binds : Binds) (name : String) : Extends binds (binds.named name) :=
  ⟨List.prefix_append .., rfl, fun _ h => h, fun _ h => .inl h⟩

theorem lowered_literal {name : String} {o : Operand} (ho : o.names = [name])
    (value : ParameterValue) : Lowered o binds (.value (.literal value)) (binds.named name) where
  extend := extends_named binds name
  names := by rw [ho]; rfl
  wellFormed h i hi := (h i hi).trans_le (extends_named binds name).names.length_le
  typed h := by simp [Portable.Leaf.isTyped, Portable.Expression.isTyped] at h
  kept _ _ h := h
  notSpatial := rfl

/-- A column, tested or given. -/
theorem lowered_same {o : Operand} {leaf : Leaf} (ho : o.names = []) (hleaf : leaf.isTyped = false)
    (hspatial : leaf.isSpatial = false) : Lowered o binds leaf binds where
  extend := .refl binds
  names := by rw [ho, List.append_nil]
  wellFormed h := h
  typed h := by simp [hleaf] at h
  kept _ _ h := h
  notSpatial := hspatial

/-- A stand-in marks its own position. -/
theorem lowered_standIn {name : String} {o : Operand} {leaf : Leaf} (ho : o.names = [name])
    (hleaf : isStandIn leaf = true) (hspatial : leaf.isSpatial = false)
    (hnames : binds'.names = binds.names ++ [name]) (hvalues : binds'.values = binds.values)
    (htyped : ∀ i, binds'.isTyped i ↔
      binds.isTyped i ∨ leaf.isTyped = true ∧ i = binds.names.length)
    (hmarked : ∀ i, binds'.isMarked i ↔ binds.isMarked i ∨ i = binds.names.length) :
    Lowered o binds leaf binds' where
  extend := by
    refine ⟨hnames ▸ List.prefix_append .., hvalues, fun i h => (htyped i).2 (.inl h), ?_⟩
    intro i hi
    exact ((hmarked i).1 hi).imp_right fun h => h.ge
  names := by rw [ho, hnames]
  wellFormed h i hi := by
    rw [hnames, List.length_append, List.length_singleton]
    rcases (hmarked i).1 hi with hi | hi
    · have := h i hi
      omega
    · omega
  typed h := (htyped _).2 (.inr ⟨h, rfl⟩)
  kept h := by simp [hleaf] at h
  notSpatial := hspatial

theorem lowered_typed {name : String} {o : Operand} (ho : o.names = [name])
    (parameterType : QueryParameterType) :
    Lowered o binds (.value (.typedParameter parameterType))
      { binds.named name with typed := binds.typed ++ [(binds.names.length, parameterType)] } := by
  refine lowered_standIn ho rfl rfl rfl rfl ?_ ?_ <;> intro i
  · simp [Binds.isTyped, Portable.Leaf.isTyped, Portable.Expression.isTyped, exists_or]
  · simp [Binds.isMarked, Binds.isTyped, Binds.named, exists_or]
    tauto

theorem lowered_spatial {name : String} {o : Operand} (ho : o.names = [name]) (srid : UInt32)
    (semantics : SpatialSemantics) :
    Lowered o binds (.value (.spatialValue (.literal (.null "bytea")) srid semantics))
      { binds.named name with spatial := binds.spatial ++ [binds.names.length] } := by
  refine lowered_standIn ho rfl rfl rfl rfl ?_ ?_ <;> intro i
  · simp [Binds.isTyped, Binds.named, Portable.Leaf.isTyped, Portable.Expression.isTyped]
  · simp [Binds.isMarked, Binds.isTyped, Binds.named, or_assoc]

/-- What a value lowers to, by its form. -/
theorem value_cases {e : QueryExpression} {x : Expression}
    (h : (value e target true).run binds = .ok (x, binds')) :
    (∃ c, e = .column c ∧ x = .column c.field ∧ binds' = binds) ∨
    (∃ name v, e = .parameter name ∧ x = .literal v ∧ binds.literal none = .ok v ∧
      binds' = binds.named name) ∨
    (∃ name t, e = .typedParameter name t ∧ x = .typedParameter t ∧
      binds' = { binds.named name with typed := binds.typed ++ [(binds.names.length, t)] }) ∨
    (∃ e' name srid semantics, e = .spatialValue e' srid semantics ∧
      (Operand.given e).names = [name] ∧
      x = .spatialValue (.literal (.null "bytea")) srid semantics ∧
      binds' = { binds.named name with spatial := binds.spatial ++ [binds.names.length] }) := by
  unfold value at h
  split at h
  next name =>
    obtain ⟨v, hv, h⟩ := bind_eq_ok.1 h
    obtain ⟨rfl, rfl⟩ := Prod.mk.inj (Except.ok.inj h)
    exact .inr (.inl ⟨name, v, rfl, rfl, hv, rfl⟩)
  next name parameterType =>
    obtain ⟨rfl, rfl⟩ := Prod.mk.inj (Except.ok.inj h)
    exact .inr (.inr (.inl ⟨name, parameterType, rfl, rfl, rfl⟩))
  next c =>
    obtain ⟨field, hfield, h⟩ := run_lift_bind.1 h
    obtain ⟨rfl, rfl⟩ := Prod.mk.inj (run_pure.1 h)
    obtain ⟨c', hc, rfl⟩ := column_eq hfield
    obtain rfl := QueryExpression.column.inj hc
    exact .inl ⟨c, rfl, rfl, rfl⟩
  next e' srid semantics =>
    unfold spatialValue at h
    obtain ⟨_, -, hrest⟩ := run_lift_bind.1 h
    cases e' with
    | parameter name =>
      obtain ⟨_, _, hbind, hpure⟩ := run_bind.1 hrest
      obtain ⟨-, rfl⟩ := Prod.mk.inj (Except.ok.inj hbind)
      obtain ⟨rfl, rfl⟩ := Prod.mk.inj (run_pure.1 hpure)
      exact .inr (.inr (.inr ⟨_, name, srid, semantics, rfl, rfl, rfl, rfl⟩))
    | typedParameter name parameterType =>
      obtain ⟨_, _, hbind, hpure⟩ := run_bind.1 hrest
      obtain ⟨-, rfl⟩ := Prod.mk.inj (Except.ok.inj hbind)
      obtain ⟨rfl, rfl⟩ := Prod.mk.inj (run_pure.1 hpure)
      exact .inr (.inr (.inr ⟨_, name, srid, semantics, rfl, rfl, rfl, rfl⟩))
    | _ => exact absurd hrest run_throw
  next => exact absurd h run_throw

theorem lowerOperand_spec {o : Operand} {leaf : Leaf}
    (h : (lowerOperand target o).run binds = .ok (leaf, binds')) :
    Lowered o binds leaf binds' := by
  cases o with
  | tested e =>
    obtain ⟨name, hname, h⟩ := run_lift_bind.1 h
    obtain ⟨rfl, rfl⟩ := Prod.mk.inj (run_pure.1 h)
    exact lowered_same rfl rfl rfl
  | given e =>
    obtain ⟨x, s, hx, h⟩ := run_bind.1 h
    obtain ⟨rfl, rfl⟩ := Prod.mk.inj (run_pure.1 h)
    obtain ⟨c, rfl, rfl, rfl⟩ | ⟨name, v, rfl, rfl, -, rfl⟩ | ⟨name, t, rfl, rfl, rfl⟩ |
      ⟨e', name, srid, semantics, rfl, hnames, rfl, rfl⟩ := value_cases hx
    · exact lowered_same rfl rfl rfl
    · exact lowered_literal rfl v
    · exact lowered_typed rfl t
    · exact lowered_spatial hnames srid semantics

theorem lowerOperands_extend {os : List Operand} {leaves : List Leaf}
    (h : (os.mapM (lowerOperand target)).run binds = .ok (leaves, binds')) :
    Extends binds binds' := by
  induction os generalizing binds leaves with
  | nil =>
    obtain ⟨rfl, rfl⟩ := Prod.mk.inj (mapM_nil.1 h)
    exact .refl _
  | cons o os ih =>
    obtain ⟨leaf, s, leaves, hleaf, hleaves, rfl⟩ := mapM_cons.1 h
    exact (lowerOperand_spec hleaf).extend.trans (ih hleaves)

/-- **The names are those of the operands, from left to right.** -/
theorem lowerOperands_names {os : List Operand} {leaves : List Leaf}
    (h : (os.mapM (lowerOperand target)).run binds = .ok (leaves, binds')) :
    binds'.names = binds.names ++ os.flatMap Operand.names := by
  induction os generalizing binds leaves with
  | nil =>
    obtain ⟨rfl, rfl⟩ := Prod.mk.inj (mapM_nil.1 h)
    simp
  | cons o os ih =>
    obtain ⟨leaf, s, leaves, hleaf, hleaves, rfl⟩ := mapM_cons.1 h
    rw [ih hleaves, (lowerOperand_spec hleaf).names, List.flatMap_cons, List.append_assoc]

theorem lowerOperands_notSpatial {os : List Operand} {leaves : List Leaf}
    (h : (os.mapM (lowerOperand target)).run binds = .ok (leaves, binds')) :
    ∀ leaf ∈ leaves, leaf.isSpatial = false := by
  induction os generalizing binds leaves with
  | nil =>
    obtain ⟨rfl, rfl⟩ := Prod.mk.inj (mapM_nil.1 h)
    simp
  | cons o os ih =>
    obtain ⟨leaf, s, leaves, hleaf, hleaves, rfl⟩ := mapM_cons.1 h
    exact List.forall_mem_cons.2 ⟨(lowerOperand_spec hleaf).notSpatial, ih hleaves⟩

end Operands

/-! ## Execution -/

/-- The values executed: the gate puts the caller's in the place of the stand-ins. -/
def executed (binds : Binds) (values params : List ParameterValue) : List ParameterValue :=
  (binds.spatial ++ binds.typed.map (·.1)).foldl
    (fun params i => params.set i (values.getD i (.null ""))) params

theorem foldl_set_getElem? {values : List ParameterValue} (positions : List Nat)
    (params : List ParameterValue) (i : Nat) :
    (positions.foldl (fun params i => params.set i (values.getD i (.null ""))) params)[i]? =
      if i ∈ positions ∧ i < params.length then some (values.getD i (.null "")) else params[i]? := by
  induction positions generalizing params with
  | nil => simp
  | cons j positions ih =>
    rw [List.foldl_cons, ih, List.length_set, List.getElem?_set]
    by_cases hj : j = i
    · subst hj
      by_cases hlt : j < params.length <;> simp [hlt]
    · simp [hj, Ne.symm hj]

theorem executed_typed {binds : Binds} {values params : List ParameterValue} {i : Nat}
    (h : binds.isTyped i) (hi : i < params.length) :
    (executed binds values params)[i]? = some (values.getD i (.null "")) := by
  obtain ⟨t, ht⟩ := h
  rw [executed, foldl_set_getElem?, if_pos]
  exact ⟨List.mem_append_right _ (List.mem_map.2 ⟨_, ht, rfl⟩), hi⟩

theorem executed_kept {binds : Binds} {values params : List ParameterValue} {i : Nat}
    (h : ¬ binds.isMarked i) : (executed binds values params)[i]? = params[i]? := by
  rw [executed, foldl_set_getElem?, if_neg]
  rintro ⟨hmem, -⟩
  rcases List.mem_append.1 hmem with hmem | hmem
  · exact h (.inr hmem)
  · obtain ⟨⟨j, t⟩, ht, rfl⟩ := List.mem_map.1 hmem
    exact h (.inl ⟨t, ht⟩)

end Plenora.Core.RelationalMutation
