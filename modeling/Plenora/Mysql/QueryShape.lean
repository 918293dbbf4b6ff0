import Plenora.Core.QueryValidation

/-!
# The queries MySQL takes

`ensure_qualified_shape`: the part of the portable query tree the MySQL path
renders.  The session's `sql_mode` leaves `ONLY_FULL_GROUP_BY` out, so whether a
grouped query is determined by its groups is judged here.  An expression is
inspected with a stack of nodes, each with the clause it stands in.

    ensureExpression … scope e = .ok () ↔ (shapeLoop …).Clean (e, scope)   (ensureExpression_eq_ok)
-/

namespace Plenora.Mysql

open Plenora.Lib Plenora.Core

def prepareError (category : ErrorCategory) (message : String) : DatabaseError :=
  .new category .prepare (some .mysql) message

def unsupported (message : String) : DatabaseError := .unsupported .mysql .prepare message

/-- What the query path reads of a product's profile. -/
structure QueryProfile where
  product : String
  verifiedSpatialFunctions : List SpatialFunction

def verifiedSpatialFunctions : List SpatialFunction :=
  [.geometryType, .srid, .dimensions, .nPoints, .isEmpty, .isValid, .isClosed, .intersects,
    .contains, .within, .disjoint, .equals, .distance, .area, .length, .x, .y, .isSimple, .touches,
    .crosses, .overlaps, .hausdorffDistance, .frechetDistance, .asGeoJson, .envelope, .centroid,
    .buffer, .startPoint, .endPoint, .pointN, .convexHull, .simplify]

def mysqlQueryProfile : QueryProfile := ⟨"MySQL", verifiedSpatialFunctions⟩

/-- `Limits::default`, of the limits the validation reads. -/
def defaultLimits : Limits where
  maxIdentifierBytes := 256
  maxFilterDepth := 64
  maxFilterNodes := 4096

/-! ## Names and sources -/

def maxIdentifierCharacters : Nat := 64

def ensureIdentifier (value : String) : Result Unit :=
  failIf (value = "" ∨ '\x00' ∈ value.toList ∨ maxIdentifierCharacters < value.length)
    (prepareError .invalidPlan "identificatore vuoto, con NUL o oltre 64 caratteri")

def ensureSource (source : QuerySource) (database : String) : Result Unit := do
  failIf ((source.object.catalog.any (· ≠ database) || source.object.schema.any (· ≠ database)) =
    true) (unsupported "accesso cross-database non supportato dal provider")
  failIf (source.object.catalog.isSome ∧ source.object.schema.isSome)
    (unsupported "il dialetto non ammette nomi qualificati a tre componenti")
  (source.object.catalog.toList ++ source.object.schema.toList ++ [source.object.object] ++
    source.aliasName.toList).forM ensureIdentifier

/-- The name under which the columns of a relation are qualified. -/
def relationName (source : QuerySource) : String := source.aliasName.getD source.object.object

def ensureKnownRelation (relation : String) (relations : List String) : Result Unit := do
  ensureIdentifier relation
  failIf (relation ∉ relations)
    (prepareError .invalidPlan "riferimento a una relazione assente da FROM e dai join")

/-! ## Windows -/

def totalOrderNotProvable : String :=
  "window che numera le righe pari (ROW_NUMBER, LAG, LEAD, frame ROWS) " ++
    "non ancora qualificata nel path query: l'AST portabile non dimostra che la " ++
    "chiave d'ordine sia un ordine totale univoco e con chiavi duplicate il " ++
    "valore non sarebbe riproducibile"

def frameOffset : WindowFrameBound → Bool
  | .preceding _ | .following _ => true
  | _ => false

def ensureWindowFrame (frame : WindowFrame) (orderBy : List QueryOrdering) : Result Unit := do
  match frame.units with
  | .rows => .error (unsupported totalOrderNotProvable)
  | .range => do
    failIf (frame.start = .unboundedFollowing ∨ frame.stop = some .unboundedPreceding)
      (prepareError .invalidPlan "frame RANGE con limite iniziale o finale non valido")
    failIf ((frameOffset frame.start || frame.stop.any frameOffset) = true)
      (unsupported ("frame RANGE con offset non ancora qualificato nel path query: " ++
        "l'AST portabile non esprime l'INTERVAL richiesto da una chiave temporale"))
  | .groups =>
    .error (unsupported ("la clausola GROUPS non esiste in questo dialetto: " ++
      "le unita di frame disponibili sono ROWS e RANGE"))
  failIf (orderBy = []) (prepareError .invalidPlan
    "frame di window senza ORDER BY: la porzione di partizione non sarebbe determinata")

def ensurePeerStableWindow (orderBy : List QueryOrdering) (frame : Option WindowFrame) :
    Result Unit := do
  failIf (orderBy = []) (prepareError .invalidPlan
    "window di rango senza ORDER BY: la posizione della riga non sarebbe riproducibile")
  failIf (frame.isSome) (prepareError .invalidPlan
    ("frame esplicito su una window di rango: " ++
      "il motore lo ignora e il piano reso non sarebbe quello richiesto"))

/-- `COUNT(*)`. -/
def isCountStar : ScalarFunction → List QueryExpression → Bool
  | .count, [.wildcard none] => true
  | _, _ => false

def ensureWindowFunction (function : ScalarFunction) (arguments : List QueryExpression)
    (orderBy : List QueryOrdering) (frame : Option WindowFrame) : Result Unit :=
  match function with
  | .rank | .denseRank => do
    failIf (arguments ≠ []) (prepareError .invalidPlan
      "funzione di rango con argomenti: la posizione non ne accetta")
    ensurePeerStableWindow orderBy frame
  | .rowNumber | .lag | .lead => .error (unsupported totalOrderNotProvable)
  | .count | .sum | .average | .minimum | .maximum =>
    match frame with
    | some frame => ensureWindowFrame frame orderBy
    | none => .ok ()
  | .lower | .upper | .coalesce =>
    .error (prepareError .invalidPlan "funzione scalare usata come window function")

/-- A window of the select list; `ensureOperand` inspects what stands inside it. -/
def ensureWindow (ensureOperand : QueryExpression → Result Unit) (function : ScalarFunction)
    (arguments partitionBy : List QueryExpression) (orderBy : List QueryOrdering)
    (frame : Option WindowFrame) : Result Unit := do
  ensureWindowFunction function arguments orderBy frame
  (if isCountStar function arguments then [] else arguments).forM ensureOperand
  partitionBy.forM ensureOperand
  orderBy.forM fun ordering => ensureOperand ordering.expression

/-! ## Expressions -/

/-- Where an expression is inspected. -/
inductive Scope where
  /-- The select list: aggregates and windows. -/
  | projection
  /-- `HAVING` and `ORDER BY`: aggregates, no windows. -/
  | aggregable
  /-- `WHERE`, `GROUP BY`, `ON` and the operands of a window. -/
  | rowOnly (clause : String)
  | aggregateArgument
  deriving DecidableEq, Repr

def windowOperand : Scope := .rowOnly "dentro una window function"

def ensureAggregable : Scope → Result Unit
  | .projection | .aggregable => .ok ()
  | .rowOnly clause =>
    .error (prepareError .invalidPlan s!"funzione aggregata non ammessa {clause}")
  | .aggregateArgument =>
    .error (prepareError .invalidPlan "aggregato annidato in un altro aggregato")

section Inspection

variable (profile : QueryProfile) (relations : List String)
variable (ensureOperand : QueryExpression → Result Unit)

/-- What `Debug` prints: the name of the variant, which has a capital in the source. -/
def debugName (function : SpatialFunction) : String :=
  (((reprStr function).splitOn ".").getLastD "").capitalize

/-- What a node is refused for; its operands come after it. -/
def ensureItem (e : QueryExpression) (scope : Scope) : Result Unit :=
  match e with
  | .wildcard _ => .error (prepareError .invalidPlan
      "wildcard ammesso solo come voce di proiezione o come COUNT(*)")
  | .column column => do
    column.relation.toList.forM (ensureKnownRelation · relations)
    ensureIdentifier column.field
  | .parameter _ | .typedParameter _ _ | .arithmetic _ _ _ | .compare _ _ _ | .cast _ _
  | .nullsOrder _ _ | .not _ | .isNull _ _ | .caseWhen _ _ | .inList _ _ _ | .between _ _ _ _
  | .and _ | .or _ => .ok ()
  | .scalar function _ =>
    match function with
    | .lower | .upper | .coalesce => .ok ()
    | .count | .sum | .average | .minimum | .maximum => ensureAggregable scope
    | .rowNumber | .rank | .denseRank | .lag | .lead =>
      .error (prepareError .invalidPlan "funzione window usata senza clausola OVER")
  | .like _ _ caseInsensitive _ => failIf (caseInsensitive = true)
      (unsupported "LIKE case-insensitive richiede una collation esplicita")
  | .window function arguments partitionBy orderBy frame =>
    if scope = .projection then
      ensureWindow ensureOperand function arguments partitionBy orderBy frame
    else .error (unsupported "window function non ancora qualificata nel path query")
  | .spatialWindow _ _ _ _ _ =>
    .error (unsupported "window function non ancora qualificata nel path query")
  | .spatial function _ => failIf (function ∉ profile.verifiedSpatialFunctions)
      (unsupported s!"funzione spatial '{debugName function}' non qualificata su {profile.product}")
  | .spatialOperator _ _ _ =>
    .error (unsupported "spatial operator non ancora qualificato nel path query")
  | .spatialOutput _ _ | .spatialValue _ _ _ =>
    .error (unsupported "I/O spatial OLTP non ancora qualificato nel path query")
  | .scalarSubquery _ | .existsSubquery _ _ | .inSubquery _ _ _ =>
    .error (unsupported "subquery non ancora qualificata nel path query")

/-- The nodes pushed for an accepted node, each with its scope. -/
def pushedItems (e : QueryExpression) (scope : Scope) : List (QueryExpression × Scope) :=
  match e with
  | .arithmetic left _ right | .compare left _ right => [(left, scope), (right, scope)]
  | .cast expression _ | .nullsOrder expression _ | .not expression | .isNull expression _ =>
    [(expression, scope)]
  | .caseWhen branches elseExpression =>
    (branches.flatMap fun branch => [(branch.condition, scope), (branch.value, scope)]) ++
      elseExpression.toList.map (·, scope)
  | .scalar function arguments =>
    if function.isAggregate then
      if isCountStar function arguments then [] else arguments.map (·, .aggregateArgument)
    else arguments.map (·, scope)
  | .inList expression values _ => (expression, scope) :: values.map (·, scope)
  | .between expression lower upper _ => [(expression, scope), (lower, scope), (upper, scope)]
  | .like expression pattern _ _ => [(expression, scope), (pattern, scope)]
  | .spatial _ arguments | .and arguments | .or arguments => arguments.map (·, scope)
  | _ => []

/-- The scope of the operands of an expression. -/
def Scope.inner (scope : Scope) : QueryExpression → Scope
  | .scalar function _ => if function.isAggregate then .aggregateArgument else scope
  | _ => scope

theorem mem_pushedItems {e o : QueryExpression} {scope scope' : Scope}
    (h : (o, scope') ∈ pushedItems e scope) : o ∈ e.operands ∧ scope' = scope.inner e := by
  cases e with
  | caseWhen branches elseExpression =>
    simp only [pushedItems, List.mem_append, List.mem_flatMap, List.mem_cons, Prod.mk.injEq,
      List.not_mem_nil, or_false, List.mem_map] at h
    rcases h with ⟨branch, hmem, hpart⟩ | ⟨e, he, rfl, rfl⟩
    · refine ⟨List.mem_append_right _ (List.mem_flatMap.2 ⟨branch, hmem, ?_⟩), ?_⟩
      · rcases hpart with ⟨rfl, -⟩ | ⟨rfl, -⟩
        · exact List.mem_cons_self
        · exact List.mem_cons_of_mem _ (List.mem_singleton_self _)
      · rcases hpart with ⟨-, rfl⟩ | ⟨-, rfl⟩
        · rfl
        · rfl
    · exact ⟨List.mem_append_left _ he, rfl⟩
  | scalar function arguments =>
    simp only [pushedItems] at h
    by_cases haggregate : function.isAggregate = true
    · simp only [haggregate, if_true] at h
      split at h
      next => cases h
      next =>
        obtain ⟨o', ho, heq⟩ := List.mem_map.1 h
        cases heq
        exact ⟨ho, by simp [Scope.inner, haggregate]⟩
    · simp only [haggregate, Bool.false_eq_true, if_false] at h
      obtain ⟨o', ho, heq⟩ := List.mem_map.1 h
      cases heq
      exact ⟨ho, by simp [Scope.inner, haggregate]⟩
  | arithmetic _ _ _ | compare _ _ _ | cast _ _ | nullsOrder _ _ | not _ | isNull _ _
  | between _ _ _ _ | like _ _ _ _ | inList _ _ _ | spatial _ _ | and _ | or _ =>
    simp only [pushedItems, List.mem_cons, List.mem_map, Prod.mk.injEq, List.not_mem_nil,
      or_false] at h
    simp only [QueryExpression.operands, List.mem_cons, List.not_mem_nil, or_false, Scope.inner]
    grind
  | _ => cases h

/-- The loop over the pending nodes; the last pushed is taken first. -/
def shapeLoop : WorkStack (QueryExpression × Scope) DatabaseError where
  visit item := do
    ensureItem profile relations ensureOperand item.1 item.2
    .ok (pushedItems item.1 item.2)
  weight _ := 0
  wf := by
    refine Subrelation.wf (fun {c n} => ?_)
      (measure fun item : QueryExpression × Scope => sizeOf item.1).wf
    rintro ⟨pushed, hvisit, hc⟩
    obtain ⟨_, -, heq⟩ := bind_eq_ok.1 hvisit
    cases heq
    exact QueryExpression.sizeOf_operand_lt (mem_pushedItems hc).1

end Inspection

def nothingPending : DatabaseError := prepareError .internal ""

/-- `ensure_expression`, with the inspection of what stands inside a window. -/
def ensureExpressionWith (profile : QueryProfile) (relations : List String)
    (ensureOperand : QueryExpression → Result Unit) (e : QueryExpression) (scope : Scope) :
    Result Unit :=
  (shapeLoop profile relations ensureOperand).run 0 nothingPending [(e, scope)] 0

/-- Inside a window no scope admits another one, so its operands are never asked for. -/
def ensureWindowOperand (profile : QueryProfile) (relations : List String)
    (e : QueryExpression) : Result Unit :=
  ensureExpressionWith profile relations (fun _ => .ok ()) e windowOperand

def ensureExpression (profile : QueryProfile) (relations : List String) (e : QueryExpression)
    (scope : Scope) : Result Unit :=
  ensureExpressionWith profile relations (ensureWindowOperand profile relations) e scope

/-! ## Relations -/

def ensureJoinKind : JoinKind → Result Unit
  | .inner | .left | .right | .cross => .ok ()
  | .full => .error (unsupported ("FULL JOIN non esiste in questo dialetto: la forma equivalente " ++
      "e l'unione di un LEFT JOIN e di un RIGHT JOIN"))

/-- A condition sees the base relation, the joins before and the one it joins. -/
def ensureJoinCondition (profile : QueryProfile) (relations : List String) (join : QueryJoin) :
    Result Unit :=
  match join.kind, join.on with
  | .cross, none => .ok ()
  | .cross, some _ => .error (prepareError .invalidPlan "CROSS JOIN con clausola ON")
  | _, none => .error (prepareError .invalidPlan "JOIN senza clausola ON")
  | _, some on => ensureExpression profile relations on (.rowOnly "in ON")

def ensureJoin (profile : QueryProfile) (database : String) (relations : List String)
    (join : QueryJoin) : Result (List String) := do
  failIf (join.lateral = true) (unsupported "join LATERAL non ancora qualificati nel path query")
  failIf (join.derivedSource.isSome)
    (unsupported "join su subquery non ancora qualificati nel path query")
  ensureJoinKind join.kind
  let joined ← okOr join.source (prepareError .invalidPlan "join senza sorgente fisica")
  ensureSource joined database
  failIf (relationName joined ∈ relations)
    (prepareError .invalidPlan "alias di relazione duplicato fra sorgente e join")
  ensureJoinCondition profile (relationName joined :: relations) join
  .ok (relationName joined :: relations)

/-- The names of the relations the query sees. -/
def ensureRelations (profile : QueryProfile) (database : String) (query : QueryOperation) :
    Result (List String) := do
  let source ← okOr query.source (prepareError .invalidPlan "query senza sorgente fisica")
  ensureSource source database
  query.joins.foldlM (ensureJoin profile database) [relationName source]

/-! ## Searches -/

/-- The nodes the searches go through. -/
def isSearched : QueryExpression → Bool
  | .scalar _ _ | .compare _ _ _ | .and _ | .or _ | .isNull _ _ => true
  | _ => false

def isAggregateCall : QueryExpression → Bool
  | .scalar function _ => function.isAggregate
  | _ => false

def isScalarWindow : QueryExpression → Bool
  | .window _ _ _ _ _ => true
  | _ => false

/-- Stop at an expression of `p`, go through the searched nodes, skip the others. -/
def searchFor (p : QueryExpression → Bool) : QueryWalkNode → QueryWalkControl
  | .expression e => if p e then .stop else if isSearched e then .proceed else .skip
  | .operation _ | .source _ => .skip

def containsAggregate (e : QueryExpression) : Bool :=
  !walkQueryExpression e (searchFor isAggregateCall)

def containsWindow (e : QueryExpression) : Bool :=
  !walkQueryExpression e (searchFor isScalarWindow)

/-! ## Determinism -/

section Determinism

variable [DecidableEq QueryExpression]

/-- An aggregate, a constant or a key, or built from them. -/
def isDeterminedByGroup (keys : List QueryExpression) (e : QueryExpression) : Bool :=
  decide (e ∈ keys) ||
    match e with
    | .parameter _ => true
    | .scalar function arguments =>
      function.isAggregate || arguments.attach.all fun a => isDeterminedByGroup keys a.1
    | .compare left _ right => isDeterminedByGroup keys left && isDeterminedByGroup keys right
    | .and arguments | .or arguments => arguments.attach.all fun a => isDeterminedByGroup keys a.1
    | .isNull expression _ => isDeterminedByGroup keys expression
    | _ => false
termination_by sizeOf e
decreasing_by
  all_goals first
    | exact QueryExpression.sizeOf_operand_lt (List.mem_cons_self ..)
    | exact QueryExpression.sizeOf_operand_lt (List.mem_cons_of_mem _ (List.mem_singleton_self _))
    | exact QueryExpression.sizeOf_operand_lt a.2

/-- The projection `p` publishes what `e` reads. -/
def projects (e : QueryExpression) (p : QueryProjection) : Bool :=
  decide (p.expression = e) ||
    match p.expression, e with
    | .wildcard none, _ => true
    | .wildcard (some relation), .column column => column.relation == some relation
    | .wildcard _, _ => false
    | _, .column column => column.relation.isNone && p.aliasName == some column.field
    | _, _ => false

def matchesProjection (e : QueryExpression) (query : QueryOperation) : Bool :=
  query.projection.any (projects e)

def ensureGroupDeterminism (query : QueryOperation) : Result Unit := do
  query.projection.forM fun p =>
    failIf (¬ isDeterminedByGroup query.groupBy p.expression)
      (prepareError .invalidPlan "proiezione non aggregata e assente da GROUP BY")
  query.having.toList.forM fun having =>
    failIf (¬ isDeterminedByGroup query.groupBy having)
      (prepareError .invalidPlan "HAVING su un'espressione assente da GROUP BY")
  query.orderBy.forM fun ordering =>
    failIf (¬ isDeterminedByGroup query.groupBy ordering.expression ∧
        ¬ matchesProjection ordering.expression query)
      (prepareError .invalidPlan "ORDER BY su un'espressione assente da GROUP BY")

def ensureDistinctDeterminism (query : QueryOperation) : Result Unit :=
  query.orderBy.forM fun ordering =>
    failIf (¬ matchesProjection ordering.expression query) (prepareError .invalidPlan
      "ORDER BY fuori dalla proiezione DISTINCT: l'ordine non sarebbe riproducibile")

/-! ## The shape -/

def ensureQualifiedSubset (query : QueryOperation) : Result Unit := do
  failIf (query.commonTableExpressions ≠ [])
    (unsupported "CTE non ancora qualificate nel path query")
  failIf (query.setOperations ≠ [])
    (unsupported "set operation non ancora qualificate nel path query")
  failIf (query.derivedSource.isSome)
    (unsupported "subquery come sorgente non ancora qualificata nel path query")
  failIf (query.locking.isSome)
    (unsupported "locking esplicito non ancora qualificato nel path query")
  failIf (query.distinctOn ≠ [])
    (unsupported "DISTINCT ON non esiste in questo dialetto: la forma qualificata e DISTINCT")

/-- The searches find an aggregate in the select list, `HAVING` or `ORDER BY`. -/
def isAggregated (query : QueryOperation) : Bool :=
  (query.projection.any fun p => containsAggregate p.expression) ||
    query.having.any containsAggregate ||
    query.orderBy.any fun ordering => containsAggregate ordering.expression

/-- The query is taken for a grouped one. -/
def isGrouped (query : QueryOperation) : Bool := isAggregated query || !query.groupBy.isEmpty

def ensureWindowInteractions (query : QueryOperation) (grouped : Bool) : Result Unit :=
  if query.projection.any fun p => containsWindow p.expression then do
    failIf (grouped = true) (unsupported ("window insieme a GROUP BY o a un aggregato di gruppo " ++
      "non ancora qualificata nel path query"))
    failIf (query.distinct = true)
      (unsupported "window insieme a DISTINCT non ancora qualificata nel path query")
  else .ok ()

def ensureGroupKey (profile : QueryProfile) (relations : List String) (key : QueryExpression) :
    Result Unit := do
  failIf (key.isBind = true)
    (prepareError .invalidPlan "parametro in GROUP BY: la chiave sarebbe ambigua")
  ensureExpression profile relations key (.rowOnly "in GROUP BY")

def ensureProjection (profile : QueryProfile) (relations : List String) (grouped : Bool)
    (p : QueryProjection) : Result Unit := do
  p.aliasName.toList.forM ensureIdentifier
  match p.expression with
  | .wildcard relation => do
    relation.toList.forM (ensureKnownRelation · relations)
    failIf (grouped = true) (prepareError .invalidPlan
      "wildcard in una query aggregata non e determinato dal gruppo")
  | e => ensureExpression profile relations e .projection

def ensureQualifiedShape (profile : QueryProfile) (database : String) (query : QueryOperation) :
    Result Unit := do
  ensureQualifiedSubset query
  failIf (query.rowLimit.isSome ∧ query.orderBy = []) (prepareError .invalidPlan
    "LIMIT richiede ORDER BY esplicito per un risultato deterministico")
  let relations ← ensureRelations profile database query
  failIf (query.having.isSome ∧ ¬ isGrouped query) (prepareError .invalidPlan
    "HAVING senza aggregazione: il filtro per riga appartiene a WHERE")
  ensureWindowInteractions query (isGrouped query)
  query.groupBy.forM (ensureGroupKey profile relations)
  query.projection.forM (ensureProjection profile relations (isGrouped query))
  query.filter.toList.forM (ensureExpression profile relations · (.rowOnly "in WHERE"))
  query.having.toList.forM (ensureExpression profile relations · .aggregable)
  query.orderBy.forM fun ordering =>
    ensureExpression profile relations ordering.expression .aggregable
  (if isGrouped query then ensureGroupDeterminism query else .ok ())
  if query.distinct then ensureDistinctDeterminism query else .ok ()

end Determinism

end Plenora.Mysql
