import Plenora.Lib.Conditions
import Plenora.Lib.StateRuns
import Plenora.Core.Portable

/-!
# The portable predicate compiler

`compilePredicate` writes a filter as the words of a `WHERE` clause and pushes
the values it binds.  The words keep apart what the text writes side by side.  What it
does to a tree it does to the operands from left to right, and the words are the
printed condition over what it wrote for them:

    compilePredicate c p params = .ok (words, params') →
      words = d.print ∧ d.shape = p.condition.shape ∧
        p.condition.leaves.mapM (compileLeaf c) params = .ok (d.leaves, params')
                                                             (compilePredicate_spec)
-/

namespace Plenora.Core.Portable

open Plenora.Lib Plenora.Lib.Conditions Plenora.Lib.StateRuns

/-! ## What is written for an operand -/

inductive Wrapper where
  | bare | castJson | timestampTz
  deriving DecidableEq, Repr

/-- A placeholder, numbered from 1 by the values bound up to it, and what stands around it. -/
structure Placeholder where
  number : Nat
  wrapper : Wrapper
  deriving DecidableEq, Repr

inductive Piece (α : Type) where
  | text (s : String)
  | marker (a : α)
  deriving DecidableEq, Repr

inductive Term where
  | column (quoted : String)
  | bound (placeholder : Placeholder)
  | typed (placeholder : Placeholder) (parameterType : QueryParameterType)
  /-- A spatial predicate, as its text with the placeholders in it. -/
  | call (pieces : List (Piece Placeholder))
  deriving DecidableEq, Repr

/-- A comparison of the words, or `LIKE`. -/
inductive Relation where
  | comparison (operator : ComparisonOperator)
  | like
  deriving DecidableEq, Repr

abbrev Words := List (Word Relation Term)

/-! ## Compiler -/

/-- What does not change while a statement is compiled; `relation` is its quoted table. -/
structure CompileContext where
  dialect : DialectKind
  relation : Option String
  deriving DecidableEq, Repr

/-- A step of the compiler, over the values bound so far. -/
abbrev Compile (α : Type) := StateT (List ParameterValue) (Except DatabaseError) α

/-- What is pushed for a value, and what stands around its placeholder. -/
def carried (d : DialectKind) : ParameterValue → ParameterValue × Wrapper
  | .json document =>
    if d = .mysql then (.string document.text, .castJson) else (.json document, .bare)
  | .timestampTz value => (.timestampTz value, if d = .oracle then .timestampTz else .bare)
  | value => (value, .bare)

/-- `CompileContext::bind`. -/
def bind (c : CompileContext) (value : ParameterValue) : Compile Placeholder :=
  modifyGet fun params =>
    (⟨params.length + 1, (carried c.dialect value).2⟩, params ++ [(carried c.dialect value).1])

def ensureJsonSupported (provider : ProviderKind) : Result Unit :=
  failIf (provider = .mariadb) (.unsupported provider .prepare
    ("JSON tipizzato MariaDB non supportato: usare SQL con confronto JSON esplicito e parametri " ++
      "String"))

/-- An expression of a predicate: a spatial value there would be compared, not written. -/
def compileExpression (c : CompileContext) : Expression → Compile Term
  | .literal value => do
    match value with
    | .json _ => ensureJsonSupported c.dialect.provider
    | _ => pure ()
    return .bound (← bind c value)
  | .typedParameter parameterType => do
    if parameterType = .json then
      ensureJsonSupported c.dialect.provider
    return .typed (← bind c (.i64 0)) parameterType
  | .column name => return .column (← quoteIdentifier name c.dialect)
  | .spatialValue _ srid _ =>
    if srid = 0 then
      throw (.invalidPlan "valore spatial richiede SRID positivo")
    else
      throw (.unsupported c.dialect.provider .prepare SpatialProbe.spatialValueOutsideSpatial)

/-! ## Spatial predicates -/

section Forms

variable {α : Type}

def postgisEmpty (srid : List (Piece α)) : List (Piece α) :=
  [[.text "ST_SetSRID('POINT EMPTY'::geometry, "], srid, [.text ")"]].flatten

/-- The guard that compares the SRID of the value with the one of the column's type. -/
def postgresColumnGuard (value srid relation column : List (Piece α)) : List (Piece α) :=
  [[.text "(CASE WHEN ST_Equals("], postgisEmpty srid, [.text ", "],
    postgisEmpty ([[.text ("COALESCE((SELECT postgis_typmod_srid(a.atttypmod) " ++
        "FROM pg_catalog.pg_attribute a WHERE a.attrelid = to_regclass(")], relation,
      [.text ") AND a.attname = "], column,
      [.text " AND a.attnum > 0 AND NOT a.attisdropped), 0)"]].flatten),
    [.text ") THEN "], value, [.text " END)"]].flatten

def postgresGuardedProbe (geometry srid relation column : List (Piece α)) : List (Piece α) :=
  postgresColumnGuard
    ([[.text "ST_SetSRID(ST_GeomFromEWKB("], geometry, [.text "), "], srid, [.text ")"]].flatten)
    srid relation column

/-- The arguments of a spatial predicate; `distance` only for `dWithin`. -/
structure SpatialArguments (α : Type) where
  geometry : α
  srid : α
  relation : α
  column : α
  distance : Option α

def postgresForm (col : String) (predicate : SpatialPredicate) (semantics : SpatialSemantics)
    (a : SpatialArguments α) : List (Piece α) :=
  let colCast := if semantics = .geography then col ++ "::geography" else col
  let geomExpr := postgresGuardedProbe [.marker a.geometry] [.marker a.srid, .text "::int4"]
    [.marker a.relation, .text "::text"] [.marker a.column, .text "::text"] ++
      [.text (SpatialPolicy.postgresCastFor semantics)]
  match predicate with
  | .intersects => [[.text ("ST_Intersects(" ++ colCast ++ ", ")], geomExpr, [.text ")"]].flatten
  | .contains => [[.text ("ST_Contains(" ++ colCast ++ ", ")], geomExpr, [.text ")"]].flatten
  | .within => [[.text ("ST_Within(" ++ colCast ++ ", ")], geomExpr, [.text ")"]].flatten
  | .boundingBox => [[.text (colCast ++ " && ")], geomExpr].flatten
  | .dWithin _ => [[.text ("ST_DWithin(" ++ colCast ++ ", ")], geomExpr, [.text ", "],
      a.distance.toList.map .marker, [.text ")"]].flatten

def wkbAxisArgument (d : DialectKind) : String :=
  if d = .mysql then ", 'axis-order=long-lat'" else ""

def mysqlFunction : SpatialPredicate → Option String
  | .intersects => some "ST_Intersects"
  | .contains => some "ST_Contains"
  | .within => some "ST_Within"
  | .boundingBox => some "MBRIntersects"
  | .dWithin _ => none

def mysqlForm (d : DialectKind) (function col : String) (geometry srid : α) : List (Piece α) :=
  [.text (function ++ "(" ++ col ++ ", ST_GeomFromWKB(CAST("), .marker geometry,
    .text " AS BINARY), ", .marker srid, .text (wkbAxisArgument d ++ "))")]

end Forms

def predicateNotQualified (provider : ProviderKind) : DatabaseError :=
  .unsupported provider .prepare
    "il predicato spatial richiesto non e qualificato per il provider"

/-- `i32::try_from` of the SRID. -/
def sridArgument (srid : UInt32) (server : String) : Result ParameterValue := do
  failIf (2 ^ 31 ≤ srid.toNat) (.invalidPlan ("SRID " ++ toString srid ++
    " eccede il range i32 supportato da " ++ server ++ " (max 2147483647)"))
  return .i32 (.ofNat srid.toNat)

def hexUpper (bytes : List UInt8) : String :=
  .ofList (bytes.flatMap fun byte =>
    [("0123456789ABCDEF".toList.getD (byte.toNat / 16) '0'),
      ("0123456789ABCDEF".toList.getD (byte.toNat % 16) '0')])

def compileSpatialPostgres (c : CompileContext) (column col : String)
    (predicate : SpatialPredicate) (reference : SpatialReference) : Compile Term := do
  reference.validate
  SpatialPolicy.validatePredicate .postgres predicate reference
  let geometry ← bind c (.bytes reference.ewkb)
  let srid ← bind c (← sridArgument reference.srid "PostGIS")
  let relation ← (okOr c.relation (.new .internal .prepare (some .postgres)
    "predicato spatial PostgreSQL senza la tabella dello statement") : Result String)
  let relation ← bind c (.string relation)
  let name ← bind c (.string column)
  match predicate with
  | .dWithin distanceMeters =>
    let distance ← bind c (.f64 distanceMeters)
    return .call (postgresForm col predicate reference.semantics
      ⟨geometry, srid, relation, name, some distance⟩)
  | _ =>
    return .call (postgresForm col predicate reference.semantics
      ⟨geometry, srid, relation, name, none⟩)

def compileSpatialMysql (c : CompileContext) (col : String) (predicate : SpatialPredicate)
    (reference : SpatialReference) : Compile Term := do
  reference.validate
  SpatialPolicy.validatePredicate .mysql predicate reference
  let geometry ← bind c (.bytes reference.ewkb)
  let srid ← bind c (← sridArgument reference.srid "MySQL")
  let function ← (okOr (mysqlFunction predicate) (predicateNotQualified .mysql) : Result String)
  return .call (mysqlForm c.dialect function col geometry srid)

def compileSpatialSqlserver (c : CompileContext) (col : String) (predicate : SpatialPredicate)
    (reference : SpatialReference) : Compile Term := do
  reference.validate
  SpatialPolicy.validatePredicate .sqlserver predicate reference
  let constructor := match reference.semantics with
    | .geometry => "geometry::STGeomFromWKB("
    | .geography => "geography::STGeomFromWKB("
  let geometry ← bind c (.bytes reference.ewkb)
  let srid ← bind c (← sridArgument reference.srid "SQL Server")
  let call (method : String) := Term.call [.text ("(" ++ col ++ "." ++ method ++ "(" ++ constructor),
    .marker geometry, .text ", ", .marker srid, .text ")) = 1)"]
  match predicate with
  | .intersects => return call "STIntersects"
  | .contains => return call "STContains"
  | .within => return call "STWithin"
  | .boundingBox =>
    return .call [.text ("(" ++ col ++ ".STEnvelope().STIntersects((" ++ constructor),
      .marker geometry, .text ", ", .marker srid, .text ")).STEnvelope()) = 1)"]
  | .dWithin _ => throw (predicateNotQualified .sqlserver)

def compileSpatialDb2 (c : CompileContext) (col : String) (predicate : SpatialPredicate)
    (reference : SpatialReference) : Compile Term := do
  reference.validate
  SpatialPolicy.validatePredicate .db2 predicate reference
  let geometry ← bind c (.string (hexUpper reference.ewkb))
  let srid ← bind c (← sridArgument reference.srid "Db2")
  let call (function : String) := Term.call [.text ("(" ++ function ++ "(" ++ col ++
      ", ST_GEOMETRY(BLOB(HEXTORAW(CAST("), .marker geometry,
    .text " AS VARCHAR(32672)))), ", .marker srid, .text ")) = 1)"]
  match predicate with
  | .intersects => return call "ST_INTERSECTS"
  | .contains => return call "ST_CONTAINS"
  | .within => return call "ST_WITHIN"
  | .dWithin _ | .boundingBox => throw (predicateNotQualified .db2)

def compileSpatialOracle (c : CompileContext) (col : String) (predicate : SpatialPredicate)
    (reference : SpatialReference) : Compile Term := do
  reference.validate
  SpatialPolicy.validatePredicate .oracle predicate reference
  let geometry ← bind c (.bytes reference.ewkb)
  let srid ← bind c (← sridArgument reference.srid "Oracle Spatial")
  let call (function : String) (options : List (Piece Placeholder)) :=
    Term.call ([.text ("(MDSYS." ++ function ++ "(" ++ col ++
        ", MDSYS.SDO_UTIL.FROM_WKBGEOMETRY(TO_BLOB("), .marker geometry, .text "), ", .marker srid,
      .text "), "] ++ options ++ [.text ") = 'TRUE')"])
  match predicate with
  | .intersects => return call "SDO_RELATE" [.text "'mask=ANYINTERACT'"]
  | .contains => return call "SDO_RELATE" [.text "'mask=CONTAINS'"]
  | .within => return call "SDO_RELATE" [.text "'mask=INSIDE'"]
  | .boundingBox => return call "SDO_FILTER" [.text "'querytype=WINDOW'"]
  | .dWithin distanceMeters =>
    let distance ← bind c (.f64 distanceMeters)
    return call "SDO_WITHIN_DISTANCE" [.text "'distance=' || ", .marker distance,
      .text " || ' unit=M'"]

def compileSpatial (c : CompileContext) (column : String) (predicate : SpatialPredicate)
    (reference : SpatialReference) : Compile Term := do
  let col ← quoteIdentifier column c.dialect
  reference.validate
  let _ ← SpatialProbe.admitProbe c.dialect.provider
    (if predicate = .boundingBox then .boundingBox else .function)
    (if reference.srid = 0 then none else some reference.srid)
  match c.dialect with
  | .postgres => compileSpatialPostgres c column col predicate reference
  | .mysql | .mariadb => compileSpatialMysql c col predicate reference
  | .sqlServer => compileSpatialSqlserver c col predicate reference
  | .db2 => compileSpatialDb2 c col predicate reference
  | .oracle => compileSpatialOracle c col predicate reference

/-! ## Predicates -/

def compileComparison (c : CompileContext) (column : String) (relation : Relation)
    (value : Expression) : Compile Words := do
  let col ← quoteIdentifier column c.dialect
  let v ← compileExpression c value
  return [.operand (.column col), .relation relation, .operand v]

def compileNullTest (c : CompileContext) (column : String) (test : Word Relation Term) :
    Compile Words := do
  let col ← quoteIdentifier column c.dialect
  return [.operand (.column col), test]

mutual

def compilePredicate (c : CompileContext) : Predicate → Compile Words
  | .eq column value => compileComparison c column (.comparison .eq) value
  | .ne column value => compileComparison c column (.comparison .ne) value
  | .lt column value => compileComparison c column (.comparison .lt) value
  | .lte column value => compileComparison c column (.comparison .lte) value
  | .gt column value => compileComparison c column (.comparison .gt) value
  | .gte column value => compileComparison c column (.comparison .gte) value
  | .isIn column values => do
    if values.isEmpty then
      throw (.invalidPlan "IN richiede almeno un valore")
    let col ← quoteIdentifier column c.dialect
    let items ← values.mapM (compileExpression c)
    return [.operand (.column col), .isIn, .left] ++
      [Word.comma].intercalate (items.map fun item => [.operand item]) ++ [.right]
  | .between column low high => do
    let col ← quoteIdentifier column c.dialect
    let l ← compileExpression c low
    let h ← compileExpression c high
    return [.operand (.column col), .between, .operand l, .and, .operand h]
  | .like column pattern => compileComparison c column .like pattern
  | .isNull column => compileNullTest c column .isNull
  | .isNotNull column => compileNullTest c column .isNotNull
  | .and predicates => do
    if predicates.isEmpty then
      throw (.invalidPlan "AND richiede almeno un predicato")
    let parts ← compilePredicates c predicates
    return [.left] ++ [Word.and].intercalate parts ++ [.right]
  | .or predicates => do
    if predicates.isEmpty then
      throw (.invalidPlan "OR richiede almeno un predicato")
    let parts ← compilePredicates c predicates
    return [.left] ++ [Word.or].intercalate parts ++ [.right]
  | .not predicate => do
    let inner ← compilePredicate c predicate
    return [.not, .left] ++ inner ++ [.right]
  | .spatial column predicate reference => do
    return [.operand (← compileSpatial c column predicate reference)]

def compilePredicates (c : CompileContext) : List Predicate → Compile (List Words)
  | [] => return []
  | p :: ps => do
    let part ← compilePredicate c p
    let parts ← compilePredicates c ps
    return part :: parts

end

/-! ## The condition of a predicate -/

/-- An operand of a predicate. -/
inductive Leaf where
  | column (name : String)
  | value (expression : Expression)
  | spatial (column : String) (predicate : SpatialPredicate) (reference : SpatialReference)

def Expression.isTyped : Expression → Bool
  | .typedParameter _ => true
  | .spatialValue expression _ _ => expression.isTyped
  | .literal _ | .column _ => false

def Leaf.isTyped : Leaf → Bool
  | .value expression => expression.isTyped
  | .column _ | .spatial _ _ _ => false

def Leaf.isSpatial : Leaf → Bool
  | .spatial _ _ _ => true
  | _ => false

def comparisonCondition (column : String) (relation : Relation) (value : Expression) :
    Condition Relation Leaf :=
  .relation relation (.column column) (.value value)

/-- The condition a filter stands for. -/
def Predicate.condition : Predicate → Condition Relation Leaf
  | .eq column value => comparisonCondition column (.comparison .eq) value
  | .ne column value => comparisonCondition column (.comparison .ne) value
  | .lt column value => comparisonCondition column (.comparison .lt) value
  | .lte column value => comparisonCondition column (.comparison .lte) value
  | .gt column value => comparisonCondition column (.comparison .gt) value
  | .gte column value => comparisonCondition column (.comparison .gte) value
  | .isIn column values => .inList (.column column) (values.map .value)
  | .between column low high => .between (.column column) (.value low) (.value high)
  | .like column pattern => comparisonCondition column .like pattern
  | .isNull column => .isNull false (.column column)
  | .isNotNull column => .isNull true (.column column)
  | .and predicates => .and (predicates.map fun p => p.condition)
  | .or predicates => .or (predicates.map fun p => p.condition)
  | .not predicate => .not predicate.condition
  | .spatial column predicate reference => .atom (.spatial column predicate reference)

def compileLeaf (c : CompileContext) : Leaf → Compile Term
  | .column name => return .column (← quoteIdentifier name c.dialect)
  | .value expression => compileExpression c expression
  | .spatial column predicate reference => compileSpatial c column predicate reference

/-! ### What the compiler does to the leaves -/

section Leaves

variable {c : CompileContext} {params params' : List ParameterValue}

/-- The leaves compiled one after the other. -/
def compileLeaves (c : CompileContext) (leaves : List Leaf) : Compile (List Term) :=
  leaves.mapM (compileLeaf c)

/-- The words are the printed condition over what the compiler wrote for the leaves of `b`. -/
def Writes (c : CompileContext) (b : Condition Relation Leaf) (params : List ParameterValue)
    (ws : Words) (params' : List ParameterValue) : Prop :=
  ∃ d : Condition Relation Term, ws = d.print ∧ d.shape = b.shape ∧ d.Grouped ∧
    (compileLeaves c b.leaves).run params = .ok (d.leaves, params')

theorem compileLeaves_values {values : List Expression} {terms : List Term} :
    (values.mapM (compileExpression c)).run params = .ok (terms, params') ↔
      (compileLeaves c (values.map .value)).run params = .ok (terms, params') := by
  rw [compileLeaves, List.mapM_map]
  rfl

theorem compileComparison_spec {column : String} {relation : Relation} {value : Expression}
    {ws : Words} (h : (compileComparison c column relation value).run params = .ok (ws, params')) :
    Writes c (comparisonCondition column relation value) params ws params' := by
  rw [compileComparison, run_bind] at h
  obtain ⟨col, s, hcol, h⟩ := h
  obtain ⟨v, s', hv, h⟩ := run_bind.1 h
  obtain ⟨rfl, rfl⟩ := Prod.mk.inj (run_pure.1 h)
  refine ⟨.relation relation (.column col) v, ?_, ?_, ?_, ?_⟩
  · rw [Condition.print]
  · simp [comparisonCondition, Condition.shape, Condition.map]
  · simp [Condition.Grouped]
  · rw [comparisonCondition, Condition.leaves, Condition.leaves]
    refine mapM_cons.2 ⟨.column col, s, [v], ?_, ?_, rfl⟩
    · exact run_bind.2 ⟨col, s, hcol, rfl⟩
    · exact mapM_cons.2 ⟨v, params', [], hv, rfl, rfl⟩

theorem compileNullTest_spec {column : String} {negated : Bool} {ws : Words}
    (h : (compileNullTest c column (if negated then .isNotNull else .isNull)).run params =
      .ok (ws, params')) : Writes c (.isNull negated (.column column)) params ws params' := by
  rw [compileNullTest, run_bind] at h
  obtain ⟨col, s, hcol, h⟩ := h
  obtain ⟨rfl, rfl⟩ := Prod.mk.inj (run_pure.1 h)
  refine ⟨.isNull negated (.column col), ?_, ?_, ?_, ?_⟩
  · rw [Condition.print]
  · simp [Condition.shape, Condition.map]
  · simp [Condition.Grouped]
  · rw [Condition.leaves, Condition.leaves]
    exact mapM_cons.2 ⟨.column col, _, [], run_bind.2 ⟨col, _, hcol, rfl⟩, rfl, rfl⟩

@[induction_eliminator]
theorem Predicate.ind {P : Predicate → Prop} (eq : ∀ column value, P (.eq column value))
    (ne : ∀ column value, P (.ne column value)) (lt : ∀ column value, P (.lt column value))
    (lte : ∀ column value, P (.lte column value)) (gt : ∀ column value, P (.gt column value))
    (gte : ∀ column value, P (.gte column value)) (isIn : ∀ column values, P (.isIn column values))
    (between : ∀ column low high, P (.between column low high))
    (like : ∀ column pattern, P (.like column pattern)) (isNull : ∀ column, P (.isNull column))
    (isNotNull : ∀ column, P (.isNotNull column))
    (and : ∀ ps, (∀ p ∈ ps, P p) → P (.and ps)) (or : ∀ ps, (∀ p ∈ ps, P p) → P (.or ps))
    (not : ∀ p, P p → P (.not p))
    (spatial : ∀ column predicate reference, P (.spatial column predicate reference))
    (p : Predicate) : P p :=
  Predicate.rec (motive_1 := P) (motive_2 := fun ps => ∀ p ∈ ps, P p) eq ne lt lte gt gte isIn
    between like isNull isNotNull and or not spatial (by simp) (by simp_all) p

/-- Members of a group, each written as its condition. -/
theorem compilePredicates_spec {ps : List Predicate}
    (ih : ∀ p ∈ ps, ∀ params ws params', (compilePredicate c p).run params = .ok (ws, params') →
      Writes c p.condition params ws params') {parts : List Words}
    (h : (compilePredicates c ps).run params = .ok (parts, params')) :
    ∃ ds : List (Condition Relation Term), parts = ds.map Condition.print ∧
      ds.map Condition.shape = (ps.map Predicate.condition).map Condition.shape ∧
      (∀ d ∈ ds, d.Grouped) ∧
      (compileLeaves c ((ps.map Predicate.condition).flatMap Condition.leaves)).run params =
        .ok (ds.flatMap Condition.leaves, params') := by
  induction ps generalizing params parts with
  | nil =>
    obtain ⟨rfl, rfl⟩ := Prod.mk.inj (run_pure.1 h)
    exact ⟨[], rfl, rfl, by simp, rfl⟩
  | cons p ps ihs =>
    rw [compilePredicates, run_bind] at h
    obtain ⟨part, s, hpart, h⟩ := h
    obtain ⟨parts, s', hparts, h⟩ := run_bind.1 h
    obtain ⟨rfl, rfl⟩ := Prod.mk.inj (run_pure.1 h)
    obtain ⟨d, rfl, hshape, hgrouped, hleaves⟩ :=
      ih p (List.mem_cons_self ..) _ _ _ hpart
    obtain ⟨ds, rfl, hshapes, hgroupeds, hleavess⟩ :=
      ihs (fun p hp => ih p (List.mem_cons_of_mem _ hp)) hparts
    refine ⟨d :: ds, rfl, ?_, ?_, ?_⟩
    · simp only [List.map_cons, hshape, hshapes]
    · exact List.forall_mem_cons.2 ⟨hgrouped, hgroupeds⟩
    · rw [List.map_cons, List.flatMap_cons, List.flatMap_cons]
      exact mapM_append hleaves hleavess

/-- **A compiled predicate is the printed condition of the tree over its compiled leaves.** -/
theorem compilePredicate_spec (p : Predicate) (params : List ParameterValue) (ws : Words)
    (params' : List ParameterValue)
    (h : (compilePredicate c p).run params = .ok (ws, params')) :
    Writes c p.condition params ws params' := by
  induction p generalizing params ws params' with
  | eq column value =>
    rw [Predicate.condition]
    exact compileComparison_spec h
  | ne column value =>
    rw [Predicate.condition]
    exact compileComparison_spec h
  | lt column value =>
    rw [Predicate.condition]
    exact compileComparison_spec h
  | lte column value =>
    rw [Predicate.condition]
    exact compileComparison_spec h
  | gt column value =>
    rw [Predicate.condition]
    exact compileComparison_spec h
  | gte column value =>
    rw [Predicate.condition]
    exact compileComparison_spec h
  | like column pattern =>
    rw [Predicate.condition]
    exact compileComparison_spec h
  | isNull column =>
    rw [Predicate.condition]
    exact @compileNullTest_spec _ _ _ _ false _ h
  | isNotNull column =>
    rw [Predicate.condition]
    exact @compileNullTest_spec _ _ _ _ true _ h
  | isIn column values =>
    rw [compilePredicate] at h
    split at h
    next =>
      obtain ⟨_, _, hthrow, -⟩ := run_bind.1 h
      exact absurd hthrow run_throw
    next hempty =>
      obtain ⟨col, s, hcol, h⟩ := run_bind.1 h
      obtain ⟨items, s', hitems, h⟩ := run_bind.1 h
      obtain ⟨rfl, rfl⟩ := Prod.mk.inj (run_pure.1 h)
      have hlength : items.length = values.length := mapM_length hitems
      rw [Predicate.condition]
      refine ⟨.inList (.column col) items, ?_, ?_, ?_, ?_⟩
      · rw [Condition.print]
      · simp [Condition.shape, Condition.map, Function.comp_def, List.map_const', hlength]
      · rw [Condition.Grouped]
        intro hitems
        rw [hitems, List.length_nil, eq_comm, List.length_eq_zero_iff] at hlength
        exact hempty (by rw [hlength]; rfl)
      · rw [Condition.leaves, Condition.leaves]
        exact mapM_cons.2 ⟨.column col, s, items, run_bind.2 ⟨col, s, hcol, rfl⟩,
          compileLeaves_values.1 hitems, rfl⟩
  | between column low high =>
    rw [compilePredicate] at h
    obtain ⟨col, s, hcol, h⟩ := run_bind.1 h
    obtain ⟨l, s', hl, h⟩ := run_bind.1 h
    obtain ⟨u, s'', hu, h⟩ := run_bind.1 h
    obtain ⟨rfl, rfl⟩ := Prod.mk.inj (run_pure.1 h)
    rw [Predicate.condition]
    refine ⟨.between (.column col) l u, ?_, ?_, ?_, ?_⟩
    · rw [Condition.print]
    · simp [Condition.shape, Condition.map]
    · simp [Condition.Grouped]
    · rw [Condition.leaves, Condition.leaves]
      refine mapM_cons.2 ⟨.column col, s, [l, u], run_bind.2 ⟨col, s, hcol, rfl⟩, ?_, rfl⟩
      refine mapM_cons.2 ⟨l, s', [u], hl, ?_, rfl⟩
      exact mapM_cons.2 ⟨u, _, [], hu, rfl, rfl⟩
  | and ps ih =>
    rw [compilePredicate] at h
    split at h
    next =>
      obtain ⟨_, _, hthrow, -⟩ := run_bind.1 h
      exact absurd hthrow run_throw
    next hempty =>
      obtain ⟨parts, s, hparts, h⟩ := run_bind.1 h
      obtain ⟨rfl, rfl⟩ := Prod.mk.inj (run_pure.1 h)
      obtain ⟨ds, rfl, hshapes, hgrouped, hleaves⟩ := compilePredicates_spec ih hparts
      rw [Predicate.condition]
      refine ⟨.and ds, ?_, ?_, ?_, ?_⟩
      · rw [Condition.print_and]
        rfl
      · rw [Condition.shape_and, Condition.shape_and, hshapes]
      · rw [Condition.Grouped]
        refine ⟨?_, hgrouped⟩
        rintro rfl
        simp at hshapes
        exact hempty (by simp [hshapes])
      · rw [Condition.leaves, Condition.leaves]
        exact hleaves
  | or ps ih =>
    rw [compilePredicate] at h
    split at h
    next =>
      obtain ⟨_, _, hthrow, -⟩ := run_bind.1 h
      exact absurd hthrow run_throw
    next hempty =>
      obtain ⟨parts, s, hparts, h⟩ := run_bind.1 h
      obtain ⟨rfl, rfl⟩ := Prod.mk.inj (run_pure.1 h)
      obtain ⟨ds, rfl, hshapes, hgrouped, hleaves⟩ := compilePredicates_spec ih hparts
      rw [Predicate.condition]
      refine ⟨.or ds, ?_, ?_, ?_, ?_⟩
      · rw [Condition.print_or]
        rfl
      · rw [Condition.shape_or, Condition.shape_or, hshapes]
      · rw [Condition.Grouped]
        refine ⟨?_, hgrouped⟩
        rintro rfl
        simp at hshapes
        exact hempty (by simp [hshapes])
      · rw [Condition.leaves, Condition.leaves]
        exact hleaves
  | not p ih =>
    rw [compilePredicate] at h
    obtain ⟨inner, s, hinner, h⟩ := run_bind.1 h
    obtain ⟨rfl, rfl⟩ := Prod.mk.inj (run_pure.1 h)
    obtain ⟨d, rfl, hshape, hgrouped, hleaves⟩ := ih _ _ _ hinner
    rw [Predicate.condition]
    refine ⟨.not d, ?_, ?_, ?_, ?_⟩
    · rw [Condition.print_not]
      rfl
    · rw [Condition.shape_not, Condition.shape_not, hshape]
    · rw [Condition.Grouped]
      exact hgrouped
    · rw [Condition.leaves, Condition.leaves]
      exact hleaves
  | spatial column predicate reference =>
    rw [compilePredicate] at h
    obtain ⟨t, s, ht, h⟩ := run_bind.1 h
    obtain ⟨rfl, rfl⟩ := Prod.mk.inj (run_pure.1 h)
    rw [Predicate.condition]
    refine ⟨.atom t, ?_, ?_, ?_, ?_⟩
    · rw [Condition.print]
    · simp [Condition.shape, Condition.map]
    · simp [Condition.Grouped]
    · rw [Condition.leaves, Condition.leaves]
      exact mapM_cons.2 ⟨t, _, [], ht, rfl, rfl⟩

end Leaves

end Plenora.Core.Portable
