import Plenora.Core.RelationalMutation

/-!
# What a lowered predicate means

A filter, its text and the relational expression it was lowered from, each with
its truth on a row.  The operands carry the values through, one leaf after the
other:

    compileLeaf c leaf params = .ok (t, params') →
      S.termValue c.dialect row final t = S.leafValue row (S.boundAt final n) leaf
                                                              (compileLeaf_spec)

and the shape of the condition does the rest.
-/

namespace Plenora.Core.Portable

open Plenora.Lib.Conditions

/-! ## Placeholders of the text -/

def Term.numbers : Term → List Nat
  | .column _ => []
  | .bound p => [p.number]
  | .typed p _ => [p.number]
  | .call pieces => pieces.filterMap fun piece => match piece with
    | .text _ => none
    | .marker p => some p.number

/-- The numbers of the placeholders in the order of the text. -/
def textNumbers (ws : Words) : List Nat := (Word.operands ws).flatMap Term.numbers

/-- The placeholders of the text are read by their position. -/
def positional : DialectKind → Bool
  | .mysql | .mariadb | .db2 => true
  | .postgres | .oracle | .sqlServer => false

section Forms

variable {α β : Type}

def Piece.map (f : α → β) : Piece α → Piece β
  | .text s => .text s
  | .marker a => .marker (f a)

def SpatialArguments.map (f : α → β) (a : SpatialArguments α) : SpatialArguments β :=
  ⟨f a.geometry, f a.srid, f a.relation, f a.column, a.distance.map f⟩

theorem postgresForm_map (f : α → β) (col : String) (predicate : SpatialPredicate)
    (semantics : SpatialSemantics) (a : SpatialArguments α) :
    (postgresForm col predicate semantics a).map (Piece.map f) =
      postgresForm col predicate semantics (a.map f) := by
  cases predicate <;> cases hdistance : a.distance <;>
    simp [postgresForm, postgresGuardedProbe, postgresColumnGuard, postgisEmpty, Piece.map,
      SpatialArguments.map, hdistance]

theorem mysqlForm_map (f : α → β) (d : DialectKind) (function col : String) (geometry srid : α) :
    (mysqlForm d function col geometry srid).map (Piece.map f) =
      mysqlForm d function col (f geometry) (f srid) := rfl

end Forms

end Plenora.Core.Portable

namespace Plenora.Core.PredicateMeaning

open Plenora.Lib Plenora.Lib.Conditions Plenora.Lib.StateRuns
open Plenora.Core.Portable Plenora.Core.RelationalMutation

/-! ## The server -/

/-- The operations of a server on its values, and the value each literal stands for. -/
structure Server (V : Type) where
  compare : ComparisonOperator → V → V → Truth
  like : V → V → Truth
  isNull : V → Bool
  holds : V → Truth
  /-- The value a literal of a tree stands for. -/
  denoted : ParameterValue → V
  /-- The value of a bare placeholder. -/
  bound : ParameterValue → V
  asJson : V → V
  asTimestampTz : V → V
  cast : QueryParameterType → V → V
  call : (String → V) → List (Piece V) → V
  spatial : SpatialPredicate → V → SpatialReference → V

variable {V : Type}

namespace Server

def meaning (S : Server V) : Meaning Relation V where
  relation := fun
    | .comparison operator => S.compare operator
    | .like => S.like
  equals := .comparison .eq
  atLeast := .comparison .gte
  atMost := .comparison .lte
  isNull := S.isNull
  holds := S.holds

def wrapped (S : Server V) : Wrapper → V → V
  | .bare => id
  | .castJson => S.asJson
  | .timestampTz => S.asTimestampTz

/-- The value of the placeholder with a number. -/
def boundAt (S : Server V) (final : List ParameterValue) (number : Nat) : V :=
  S.bound (final.getD (number - 1) (.null ""))

def placeholderValue (S : Server V) (final : List ParameterValue) (p : Placeholder) : V :=
  S.wrapped p.wrapper (S.boundAt final p.number)

/-- The value of an operand of the text on a row, with the values bound. -/
def termValue (S : Server V) (d : DialectKind) (row : String → V) (final : List ParameterValue) :
    Term → V
  | .column quoted => row ((d.identifier.unquote quoted).getD "")
  | .bound p => S.placeholderValue final p
  | .typed p parameterType => S.cast parameterType (S.placeholderValue final p)
  | .call pieces => S.call row (pieces.map (Piece.map (S.placeholderValue final)))

/-- The arguments of the guarded call of PostGIS. -/
def postgresArguments (S : Server V) (relation column : String) (predicate : SpatialPredicate)
    (reference : SpatialReference) : SpatialArguments V where
  geometry := S.bound (.bytes reference.ewkb)
  srid := S.bound (.i32 (.ofNat reference.srid.toNat))
  relation := S.bound (.string relation)
  column := S.bound (.string column)
  distance := match predicate with
    | .dWithin distanceMeters => some (S.bound (.f64 distanceMeters))
    | _ => none

/-- The server does with a bound value and with a spatial call what their documentation says. -/
structure Conforms (S : Server V) (d : DialectKind) : Prop where
  /-- A value sent as the compiler sends it arrives as the value it stands for. -/
  carries : ∀ value, S.wrapped (carried d value).2 (S.bound (carried d value).1) = S.denoted value
  postgis : d = .postgres → ∀ row column quoted relation predicate reference,
    quoteIdentifier column d = .ok quoted →
    S.call row (postgresForm quoted predicate reference.semantics
      (S.postgresArguments relation column predicate reference)) =
        S.spatial predicate (row column) reference
  mysql : d = .mysql → ∀ row column quoted predicate reference function,
    quoteIdentifier column d = .ok quoted → mysqlFunction predicate = some function →
    S.call row (mysqlForm d function quoted (S.bound (.bytes reference.ewkb))
      (S.bound (.i32 (.ofNat reference.srid.toNat)))) = S.spatial predicate (row column) reference

/-- The value of an expression of a filter; `given` is what its placeholder is bound to. -/
def expressionValue (S : Server V) (row : String → V) (given : V) : Expression → V
  | .literal value => S.denoted value
  | .column name => row name
  | .typedParameter parameterType => S.cast parameterType given
  | .spatialValue expression _ _ => S.expressionValue row given expression

def leafValue (S : Server V) (row : String → V) (given : V) : Leaf → V
  | .column name => row name
  | .value expression => S.expressionValue row given expression
  | .spatial column predicate reference => S.spatial predicate (row column) reference

theorem expressionValue_untyped (S : Server V) (row : String → V) (given given' : V)
    {e : Expression} (h : e.isTyped = false) :
    S.expressionValue row given e = S.expressionValue row given' e := by
  induction e with
  | literal value => rfl
  | column name => rfl
  | typedParameter parameterType => simp [Expression.isTyped] at h
  | spatialValue e srid semantics ih => exact ih h

/-- Only a typed placeholder depends on what it is given. -/
theorem leafValue_untyped (S : Server V) (row : String → V) (given given' : V) {leaf : Leaf}
    (h : leaf.isTyped = false) : S.leafValue row given leaf = S.leafValue row given' leaf := by
  cases leaf with
  | column name => rfl
  | value e => exact S.expressionValue_untyped row given given' h
  | spatial column predicate reference => rfl

/-- The value of an expression of a relational filter; `other` is the value of the expressions no
filter of a mutation has. -/
def queryValue (S : Server V) (row : String → V) (other : QueryExpression → V)
    (env : String → ParameterValue) : QueryExpression → V
  | .column column => row column.field
  | .parameter name => S.denoted (env name)
  | .typedParameter name parameterType => S.cast parameterType (S.bound (env name))
  | e => other e

def operandValue (S : Server V) (row : String → V) (other : QueryExpression → V)
    (env : String → ParameterValue) : Operand → V
  | .tested e | .given e => S.queryValue row other env e

/-- What the placeholder of an operand is given. -/
def givenValue (S : Server V) (env : String → ParameterValue) : Operand → V
  | .given (.typedParameter name _) => S.bound (env name)
  | _ => S.bound (.null "")

theorem boundAt_eq (S : Server V) {final : List ParameterValue} {n : Nat} {value : ParameterValue}
    (h : final[n]? = some value) : S.boundAt final (n + 1) = S.bound value := by
  rw [boundAt, Nat.add_sub_cancel, List.getD_eq_getElem?_getD, h]
  rfl

end Server

theorem run_portableBind (c : CompileContext) (value : ParameterValue)
    (params : List ParameterValue) :
    (Portable.bind c value).run params =
      .ok (⟨params.length + 1, (carried c.dialect value).2⟩,
        params ++ [(carried c.dialect value).1]) := rfl

theorem run_portableBind_bind {α : Type} {c : CompileContext} {value : ParameterValue}
    {f : Placeholder → Compile α} {params : List ParameterValue} {r : α × List ParameterValue} :
    (Portable.bind c value >>= f).run params = .ok r ↔
      (f ⟨params.length + 1, (carried c.dialect value).2⟩).run
        (params ++ [(carried c.dialect value).1]) = .ok r := by
  rw [run_bind, run_portableBind]
  simp

/-! ## One leaf -/

/-- The values that a leaf without a spatial predicate binds. -/
def valuesBound : Leaf → Nat
  | .value (.literal _) | .value (.typedParameter _) => 1
  | _ => 0

/-- What compiling a leaf does. -/
structure Compiled (S : Server V) (d : DialectKind) (leaf : Leaf) (params : List ParameterValue)
    (t : Term) (params' : List ParameterValue) : Prop where
  grows : params <+: params'
  count : leaf.isSpatial = false → params'.length = params.length + valuesBound leaf
  numbers : ∀ i, i ∈ t.numbers ↔ params.length < i ∧ i ≤ params'.length
  inOrder : leaf.isSpatial = false ∨ positional d = true →
    t.numbers = List.range' (params.length + 1) (params'.length - params.length)
  /-- The values bound are the ones that were pushed; for a typed placeholder, any. -/
  value : ∀ row final, (leaf.isTyped = false →
      ∀ i, params.length ≤ i → i < params'.length → final[i]? = params'[i]?) →
    S.termValue d row final t = S.leafValue row (S.boundAt final (params.length + 1)) leaf

section Leaf

variable {S : Server V} {c : CompileContext} {params params' : List ParameterValue} {t : Term}

theorem compiled_column {name quoted : String} (hname : quoteIdentifier name c.dialect = .ok quoted) :
    Compiled S c.dialect (.column name) params (.column quoted) params where
  grows := List.prefix_rfl
  count _ := rfl
  numbers i := by
    simp only [Term.numbers, List.not_mem_nil, false_iff]
    omega
  inOrder _ := by simp [Term.numbers]
  value row final _ := by
    rw [Server.termValue, IdentifierDialect.unquote_quote hname]
    rfl

/-- A leaf that binds one value. -/
theorem compiled_one {leaf : Leaf} {pushed : ParameterValue} (hcount : valuesBound leaf = 1)
    (hnumbers : t.numbers = [params.length + 1])
    (hvalue : ∀ row final, (leaf.isTyped = false → final[params.length]? = some pushed) →
      S.termValue c.dialect row final t =
        S.leafValue row (S.boundAt final (params.length + 1)) leaf) :
    Compiled S c.dialect leaf params t (params ++ [pushed]) where
  grows := List.prefix_append ..
  count _ := by rw [List.length_append, hcount, List.length_singleton]
  numbers i := by
    rw [hnumbers, List.mem_singleton, List.length_append, List.length_singleton]
    omega
  inOrder _ := by simp [hnumbers]
  value row final hfinal := by
    refine hvalue row final fun htyped => ?_
    rw [hfinal htyped params.length (Nat.le_refl _) (by simp)]
    simp

theorem compileExpression_spec (hS : S.Conforms c.dialect) {expression : Expression}
    (h : (compileExpression c expression).run params = .ok (t, params')) :
    Compiled S c.dialect (.value expression) params t params' := by
  cases expression with
  | literal value =>
    have hbind : (do return .bound (← Portable.bind c value) : Compile Term).run params =
        .ok (t, params') := by
      cases value with
      | json document =>
        obtain ⟨_, s, hjson, h⟩ := run_bind.1 h
        obtain ⟨_, -, hs⟩ := run_lift.1 hjson
        rwa [(Prod.mk.inj hs).2] at h
      | _ => exact h
    obtain ⟨p, s, hp, h⟩ := run_bind.1 hbind
    obtain ⟨rfl, rfl⟩ := Prod.mk.inj (Except.ok.inj (hp.symm.trans (run_portableBind ..)))
    obtain ⟨rfl, rfl⟩ := Prod.mk.inj (run_pure.1 h)
    refine compiled_one rfl rfl fun row final hfinal => ?_
    rw [Server.termValue, Server.placeholderValue, S.boundAt_eq (hfinal rfl), hS.carries]
    rfl
  | typedParameter parameterType =>
    have hbind : (do return .typed (← Portable.bind c (.i64 0)) parameterType :
        Compile Term).run params = .ok (t, params') := by
      rw [compileExpression] at h
      split at h
      next =>
        obtain ⟨_, s, hjson, h⟩ := run_bind.1 h
        obtain ⟨_, -, hs⟩ := run_lift.1 hjson
        rwa [(Prod.mk.inj hs).2] at h
      next => exact h
    obtain ⟨p, s, hp, h⟩ := run_bind.1 hbind
    obtain ⟨rfl, rfl⟩ := Prod.mk.inj (Except.ok.inj (hp.symm.trans (run_portableBind ..)))
    obtain ⟨rfl, rfl⟩ := Prod.mk.inj (run_pure.1 h)
    exact compiled_one rfl rfl fun row final _ => rfl
  | column name =>
    obtain ⟨quoted, s, hlift, hpure⟩ := run_bind.1 h
    obtain ⟨_, hquoted, hs⟩ := run_lift.1 hlift
    obtain ⟨rfl, rfl⟩ := Prod.mk.inj hs
    obtain ⟨rfl, rfl⟩ := Prod.mk.inj (run_pure.1 hpure)
    have hcolumn : Compiled S c.dialect (.column name) params' (.column quoted) params' :=
      compiled_column hquoted
    exact ⟨hcolumn.grows, hcolumn.count, hcolumn.numbers, hcolumn.inOrder, fun row final =>
      hcolumn.value row final⟩
  | spatialValue expression srid semantics =>
    rw [compileExpression] at h
    split at h <;> exact absurd h run_throw

/-! ## Spatial leaves -/

theorem sridArgument_eq {srid : UInt32} {server : String} {value : ParameterValue}
    (h : sridArgument srid server = .ok value) : value = .i32 (.ofNat srid.toNat) := by
  obtain ⟨_, -, h⟩ := bind_eq_ok.1 h
  exact (Except.ok.inj h).symm

/-- The distance a spatial predicate pushes. -/
def distanceValue : SpatialPredicate → Option ParameterValue
  | .dWithin distanceMeters => some (.f64 distanceMeters)
  | _ => none

theorem getElem?_append_self (params added : List ParameterValue) (i : Nat) :
    (params ++ added)[params.length + i]? = added[i]? := by
  rw [List.getElem?_append_right (Nat.le_add_right ..), Nat.add_sub_cancel_left]

/-- The value of a placeholder that was pushed bare. -/
theorem placeholderValue_pushed {final added : List ParameterValue} {value : ParameterValue}
    (hfinal : ∀ i, params.length ≤ i → i < (params ++ added).length →
      final[i]? = (params ++ added)[i]?) (i : Nat) (hvalue : added[i]? = some value) :
    S.placeholderValue final ⟨params.length + i + 1, .bare⟩ = S.bound value := by
  have hlt : i < added.length := (List.getElem?_eq_some_iff.1 hvalue).1
  have hget := hfinal (params.length + i) (by omega) (by rw [List.length_append]; omega)
  rw [getElem?_append_self, hvalue] at hget
  exact S.boundAt_eq hget

theorem compiled_postgres (hS : S.Conforms .postgres) {column col relation : String}
    (hcol : quoteIdentifier column .postgres = .ok col) (predicate : SpatialPredicate)
    (reference : SpatialReference) :
    Compiled S .postgres (.spatial column predicate reference) params
      (.call (postgresForm col predicate reference.semantics
        ⟨⟨params.length + 1, .bare⟩, ⟨params.length + 2, .bare⟩, ⟨params.length + 3, .bare⟩,
          ⟨params.length + 4, .bare⟩,
          (distanceValue predicate).map fun _ => ⟨params.length + 5, .bare⟩⟩))
      (params ++ ([.bytes reference.ewkb, .i32 (.ofNat reference.srid.toNat), .string relation,
        .string column] ++ (distanceValue predicate).toList)) where
  grows := List.prefix_append ..
  count h := by simp [Leaf.isSpatial] at h
  numbers i := by
    cases predicate <;>
      simp [Term.numbers, postgresForm, postgresGuardedProbe, postgresColumnGuard, postgisEmpty,
        distanceValue] <;> omega
  inOrder h := by simp [Leaf.isSpatial, positional] at h
  value row final hfinal := by
    have hpushed (i : Nat) (value : ParameterValue) :=
      @placeholderValue_pushed _ S _ _ _ value (hfinal rfl) i
    rw [Server.termValue, postgresForm_map, Server.leafValue,
      ← hS.postgis rfl row column col relation predicate reference hcol]
    refine congrArg (fun a => S.call row (postgresForm col predicate reference.semantics a)) ?_
    unfold SpatialArguments.map Server.postgresArguments
    rw [SpatialArguments.mk.injEq]
    refine ⟨hpushed 0 _ rfl, hpushed 1 _ rfl, hpushed 2 _ rfl, hpushed 3 _ rfl, ?_⟩
    cases predicate with
    | dWithin distanceMeters => exact congrArg some (hpushed 4 _ rfl)
    | _ => rfl

theorem compileSpatialPostgres_spec (hS : S.Conforms .postgres)
    {column col : String} (hcol : quoteIdentifier column .postgres = .ok col)
    {predicate : SpatialPredicate} {reference : SpatialReference}
    (h : (compileSpatialPostgres c column col predicate reference).run params = .ok (t, params')) :
    Compiled S .postgres (.spatial column predicate reference) params t params' := by
  obtain ⟨_, -, h⟩ := run_lift_bind.1 h
  obtain ⟨_, -, h⟩ := run_lift_bind.1 h
  have h := run_portableBind_bind.1 h
  obtain ⟨srid, hsrid, h⟩ := run_lift_bind.1 h
  obtain rfl := sridArgument_eq hsrid
  have h := run_portableBind_bind.1 h
  obtain ⟨relation, -, h⟩ := run_lift_bind.1 h
  have hname := run_portableBind_bind.1 h
  have hrest := run_portableBind_bind.1 hname
  have hcompiled := @compiled_postgres _ S params hS _ _ relation hcol predicate reference
  cases predicate with
  | dWithin distanceMeters =>
    have hpure := run_portableBind_bind.1 hrest
    obtain ⟨rfl, rfl⟩ := Prod.mk.inj (run_pure.1 hpure)
    simpa [carried, distanceValue] using hcompiled
  | _ =>
    obtain ⟨rfl, rfl⟩ := Prod.mk.inj (run_pure.1 hrest)
    simpa [carried, distanceValue] using hcompiled

theorem compiled_mysql {d : DialectKind} (hd : d = .mysql) (hS : S.Conforms d)
    {column col function : String} (hcol : quoteIdentifier column d = .ok col)
    {predicate : SpatialPredicate} (hfunction : mysqlFunction predicate = some function)
    (reference : SpatialReference) :
    Compiled S d (.spatial column predicate reference) params
      (.call (mysqlForm d function col ⟨params.length + 1, .bare⟩ ⟨params.length + 2, .bare⟩))
      (params ++ [.bytes reference.ewkb, .i32 (.ofNat reference.srid.toNat)]) where
  grows := List.prefix_append ..
  count h := by simp [Leaf.isSpatial] at h
  numbers i := by
    simp [Term.numbers, mysqlForm]
    omega
  inOrder _ := by simp [Term.numbers, mysqlForm, List.range']
  value row final hfinal := by
    have hpushed (i : Nat) (value : ParameterValue) :=
      @placeholderValue_pushed _ S _ _ _ value (hfinal rfl) i
    rw [Server.termValue, mysqlForm_map, Server.leafValue,
      ← hS.mysql hd row column col predicate reference function hcol hfunction]
    exact congrArg₂ (fun g s => S.call row (mysqlForm d function col g s)) (hpushed 0 _ rfl)
      (hpushed 1 _ rfl)

theorem compileSpatialMysql_spec (hd : c.dialect = .mysql) (hS : S.Conforms c.dialect)
    {column col : String} (hcol : quoteIdentifier column c.dialect = .ok col)
    {predicate : SpatialPredicate} {reference : SpatialReference}
    (h : (compileSpatialMysql c col predicate reference).run params = .ok (t, params')) :
    Compiled S c.dialect (.spatial column predicate reference) params t params' := by
  obtain ⟨_, -, h⟩ := run_lift_bind.1 h
  obtain ⟨_, -, h⟩ := run_lift_bind.1 h
  have h := run_portableBind_bind.1 h
  obtain ⟨srid, hsrid, h⟩ := run_lift_bind.1 h
  obtain rfl := sridArgument_eq hsrid
  have h := run_portableBind_bind.1 h
  obtain ⟨function, hfunction, h⟩ := run_lift_bind.1 h
  obtain ⟨rfl, rfl⟩ := Prod.mk.inj (run_pure.1 h)
  have hcompiled := @compiled_mysql _ S params _ hd hS _ _ _ hcol _ (okOr_eq_ok.1 hfunction) reference
  simpa [carried] using hcompiled

/-- Only the dialects with a measured guard compile a spatial predicate. -/
theorem compileSpatial_spec (hS : S.Conforms c.dialect) {column : String}
    {predicate : SpatialPredicate} {reference : SpatialReference}
    (h : (compileSpatial c column predicate reference).run params = .ok (t, params')) :
    Compiled S c.dialect (.spatial column predicate reference) params t params' := by
  obtain ⟨col, hcol, h⟩ := run_lift_bind.1 h
  obtain ⟨_, -, h⟩ := run_lift_bind.1 h
  obtain ⟨guard, hguard, h⟩ := run_lift_bind.1 h
  obtain ⟨_, -, hguard⟩ := bind_eq_ok.1 hguard
  have hguard := okOr_eq_ok.1 hguard
  cases hd : c.dialect with
  | postgres =>
    rw [hd] at hS hcol h
    exact compileSpatialPostgres_spec hS hcol h
  | mysql =>
    simp only [hd] at h
    rw [← hd]
    exact compileSpatialMysql_spec hd hS hcol h
  | _ => simp [hd, DialectKind.provider, SpatialProbe.serverGuard] at hguard

theorem compileLeaf_spec (hS : S.Conforms c.dialect) {leaf : Leaf}
    (h : (compileLeaf c leaf).run params = .ok (t, params')) :
    Compiled S c.dialect leaf params t params' := by
  cases leaf with
  | column name =>
    obtain ⟨quoted, hquoted, h⟩ := run_lift_bind.1 h
    obtain ⟨rfl, rfl⟩ := Prod.mk.inj (run_pure.1 h)
    exact compiled_column hquoted
  | value expression => exact compileExpression_spec hS h
  | spatial column predicate reference => exact compileSpatial_spec hS h

end Leaf

/-! ## The leaves of a tree -/

section Leaves

variable {S : Server V} {c : CompileContext} {params params' : List ParameterValue}

theorem compileLeaves_grows (hS : S.Conforms c.dialect) {leaves : List Leaf} {terms : List Term}
    (h : (compileLeaves c leaves).run params = .ok (terms, params')) : params <+: params' := by
  induction leaves generalizing params terms with
  | nil =>
    obtain ⟨rfl, rfl⟩ := Prod.mk.inj (mapM_nil.1 h)
    exact List.prefix_rfl
  | cons leaf leaves ih =>
    obtain ⟨t, s, ts, ht, hts, rfl⟩ := mapM_cons.1 h
    exact (compileLeaf_spec hS ht).grows.trans (ih hts)

/-- **Every value bound has its placeholder in the text, and every placeholder its value.** -/
theorem compileLeaves_numbers (hS : S.Conforms c.dialect) {leaves : List Leaf}
    {terms : List Term} (h : (compileLeaves c leaves).run params = .ok (terms, params')) (i : Nat) :
    i ∈ terms.flatMap Term.numbers ↔ params.length < i ∧ i ≤ params'.length := by
  induction leaves generalizing params terms with
  | nil =>
    obtain ⟨rfl, rfl⟩ := Prod.mk.inj (mapM_nil.1 h)
    simp only [List.flatMap_nil, List.not_mem_nil, false_iff]
    omega
  | cons leaf leaves ih =>
    obtain ⟨t, s, ts, ht, hts, rfl⟩ := mapM_cons.1 h
    have hgrows := (compileLeaf_spec hS ht).grows.length_le
    have hgrows' := (compileLeaves_grows hS hts).length_le
    rw [List.flatMap_cons, List.mem_append, ih hts, (compileLeaf_spec hS ht).numbers]
    omega

/-- **Without spatial leaves, or with positional placeholders, the text binds in order.** -/
theorem compileLeaves_inOrder (hS : S.Conforms c.dialect) {leaves : List Leaf}
    {terms : List Term} (h : (compileLeaves c leaves).run params = .ok (terms, params'))
    (horder : (∀ leaf ∈ leaves, leaf.isSpatial = false) ∨ positional c.dialect = true) :
    terms.flatMap Term.numbers =
      List.range' (params.length + 1) (params'.length - params.length) := by
  induction leaves generalizing params terms with
  | nil =>
    obtain ⟨rfl, rfl⟩ := Prod.mk.inj (mapM_nil.1 h)
    simp
  | cons leaf leaves ih =>
    obtain ⟨t, s, ts, ht, hts, rfl⟩ := mapM_cons.1 h
    have hgrows := (compileLeaf_spec hS ht).grows.length_le
    have hgrows' := (compileLeaves_grows hS hts).length_le
    have hhead := (compileLeaf_spec hS ht).inOrder
      (horder.imp_left fun h => h leaf (List.mem_cons_self ..))
    have htail := ih hts (horder.imp_left fun h leaf' hleaf' => h leaf' (List.mem_cons_of_mem _ hleaf'))
    rw [List.flatMap_cons, hhead, htail]
    have hlength : params'.length - params.length =
        (s.length - params.length) + (params'.length - s.length) := by omega
    have hstart : s.length + 1 = params.length + 1 + (s.length - params.length) := by omega
    rw [hlength, hstart, List.range'_append_1]

/-- **Without typed placeholders the operands of the text have the values of the leaves.** -/
theorem compileLeaves_values (hS : S.Conforms c.dialect) (row : String → V) {leaves : List Leaf}
    (huntyped : ∀ leaf ∈ leaves, leaf.isTyped = false) {terms : List Term}
    (h : (compileLeaves c leaves).run params = .ok (terms, params')) {final : List ParameterValue}
    (hfinal : params' <+: final) (given : V) :
    terms.map (S.termValue c.dialect row final) = leaves.map (S.leafValue row given) := by
  induction leaves generalizing params terms with
  | nil =>
    obtain ⟨rfl, rfl⟩ := Prod.mk.inj (mapM_nil.1 h)
    rfl
  | cons leaf leaves ih =>
    obtain ⟨t, s, ts, ht, hts, rfl⟩ := mapM_cons.1 h
    have hleaf := huntyped leaf (List.mem_cons_self ..)
    have hprefix := (compileLeaves_grows hS hts).trans hfinal
    have hvalue := (compileLeaf_spec hS ht).value row final fun _ i _ hi =>
      (List.prefix_iff_getElem?.1 hprefix i hi).trans (List.getElem?_eq_getElem hi).symm
    rw [List.map_cons, List.map_cons, hvalue, S.leafValue_untyped row _ given hleaf,
      ih (fun leaf' hleaf' => huntyped leaf' (List.mem_cons_of_mem _ hleaf')) hts]

end Leaves

/-! ## A filter through both passes -/

section Lowered

variable {S : Server V} {c : CompileContext} {target : ObjectRef}

/-- What the caller gave to the lowering: a value for each name, in the order of the names. -/
structure Given (B : Binds) (values : List ParameterValue) (env : String → ParameterValue) :
    Prop where
  known : B.values = some values
  named : ∀ (i : Nat) (name : String), B.names[i]? = some name → values[i]? = some (env name)

/-- What is executed has the caller's values at the typed placeholders, and what was compiled at the
unmarked positions. -/
structure Executes (B : Binds) (values params' final : List ParameterValue) : Prop where
  typed : ∀ i, B.isTyped i → i < params'.length → final[i]? = some (values.getD i (.null ""))
  kept : ∀ i, ¬ B.isMarked i → final[i]? = params'[i]?

theorem executes_executed (B : Binds) (values params' : List ParameterValue) :
    Executes B values params' (executed B values params') :=
  ⟨fun _ h hi => executed_typed h hi, fun _ h => executed_kept h⟩

/-- An operand of a filter that is compiled binds as many values as it has names. -/
theorem operand_count {o : Operand} {leaf : Leaf} {binds binds' : Binds} {t : Term}
    {params s : List ParameterValue} (ho : (lowerOperand target o).run binds = .ok (leaf, binds'))
    (ht : (compileLeaf c leaf).run params = .ok (t, s)) : valuesBound leaf = o.names.length := by
  cases o with
  | tested e =>
    obtain ⟨name, -, hpure⟩ := run_lift_bind.1 ho
    obtain ⟨rfl, rfl⟩ := Prod.mk.inj (run_pure.1 hpure)
    rfl
  | given e =>
    obtain ⟨x, _, hx, hpure⟩ := run_bind.1 ho
    obtain ⟨rfl, rfl⟩ := Prod.mk.inj (run_pure.1 hpure)
    obtain ⟨column, rfl, rfl, rfl⟩ | ⟨name, v, rfl, rfl, hv, rfl⟩ | ⟨name, type, rfl, rfl, rfl⟩ |
      ⟨e', name, srid, semantics, rfl, hnames, rfl, rfl⟩ := value_cases hx
    · rfl
    · rfl
    · rfl
    · -- A spatial value is not compared.
      have hthrow : (compileExpression c (.spatialValue (.literal (.null "bytea")) srid
          semantics)).run params = .ok (t, s) := ht
      rw [compileExpression] at hthrow
      split at hthrow <;> exact absurd hthrow run_throw

theorem operand_length (hS : S.Conforms c.dialect) {o : Operand} {leaf : Leaf}
    {binds binds' : Binds} {t : Term} {params s : List ParameterValue}
    (ho : (lowerOperand target o).run binds = .ok (leaf, binds'))
    (ht : (compileLeaf c leaf).run params = .ok (t, s)) (hlength : binds.names.length = params.length) :
    binds'.names.length = s.length := by
  have hlowered := lowerOperand_spec ho
  rw [hlowered.names, List.length_append, hlength,
    (compileLeaf_spec hS ht).count hlowered.notSpatial, operand_count ho ht]

theorem operands_length (hS : S.Conforms c.dialect) {os : List Operand} {leaves : List Leaf}
    {terms : List Term} {binds binds' : Binds} {params s : List ParameterValue}
    (hos : (os.mapM (lowerOperand target)).run binds = .ok (leaves, binds'))
    (hts : (compileLeaves c leaves).run params = .ok (terms, s))
    (hlength : binds.names.length = params.length) : binds'.names.length = s.length := by
  induction os generalizing binds params leaves terms with
  | nil =>
    obtain ⟨rfl, rfl⟩ := Prod.mk.inj (mapM_nil.1 hos)
    obtain ⟨rfl, rfl⟩ := Prod.mk.inj (mapM_nil.1 hts)
    exact hlength
  | cons o os ih =>
    obtain ⟨leaf, binds₁, leaves, ho, hrest, rfl⟩ := mapM_cons.1 hos
    obtain ⟨t, s₁, terms, ht, hterms, rfl⟩ := mapM_cons.1 hts
    exact ih hrest hterms (operand_length hS ho ht hlength)

/-- **One operand, lowered and compiled: its term and its leaf have its value.** -/
theorem operand_value (hS : S.Conforms c.dialect) {o : Operand} {leaf : Leaf} {binds binds' B : Binds}
    {t : Term} {params s params' values final : List ParameterValue} {env : String → ParameterValue}
    (ho : (lowerOperand target o).run binds = .ok (leaf, binds'))
    (ht : (compileLeaf c leaf).run params = .ok (t, s)) (hlength : binds.names.length = params.length)
    (hwf : binds.WellFormed) (hB : Extends binds' B) (hgiven : Given B values env)
    (hs : s <+: params') (hfinal : Executes B values params' final) (row : String → V)
    (other : QueryExpression → V) :
    S.termValue c.dialect row final t = S.operandValue row other env o ∧
      S.leafValue row (S.givenValue env o) leaf = S.operandValue row other env o := by
  have hcompiled := compileLeaf_spec hS ht
  have hlowered := lowerOperand_spec ho
  have hcount := hcompiled.count hlowered.notSpatial
  have hcounted := operand_count ho ht
  have hposition : ∀ name, o.names = [name] → values[params.length]? = some (env name) := by
    intro name hname
    refine hgiven.named _ name ?_
    have hnames : binds'.names[params.length]? = some name := by
      rw [hlowered.names, hname, ← hlength, List.getElem?_append_right (Nat.le_refl _),
        Nat.sub_self]
      rfl
    obtain ⟨rest, hrest⟩ := hB.names
    rw [← hrest, List.getElem?_append_left (List.getElem?_eq_some_iff.1 hnames).1, hnames]
  cases o with
  | tested e =>
    obtain ⟨name, hname, hpure⟩ := run_lift_bind.1 ho
    obtain ⟨rfl, rfl⟩ := Prod.mk.inj (run_pure.1 hpure)
    obtain ⟨column, rfl, rfl⟩ := column_eq hname
    refine ⟨?_, rfl⟩
    rw [hcompiled.value row final fun _ i hle hi => absurd hi (by rw [hcount]; exact hle.not_gt)]
    rfl
  | given e =>
    obtain ⟨x, _, hx, hpure⟩ := run_bind.1 ho
    obtain ⟨rfl, rfl⟩ := Prod.mk.inj (run_pure.1 hpure)
    obtain ⟨column, rfl, rfl, rfl⟩ | ⟨name, v, rfl, rfl, hv, rfl⟩ | ⟨name, type, rfl, rfl, rfl⟩ |
      ⟨e', name, srid, semantics, rfl, hnames, rfl, rfl⟩ := value_cases hx
    · refine ⟨?_, rfl⟩
      rw [hcompiled.value row final fun _ i hle hi => absurd hi (by rw [hcount]; exact hle.not_gt)]
      rfl
    · -- A literal is the caller's value, and its position is not marked.
      have hcount' : s.length = params.length + 1 := hcount
      have hv' : v = env name := by
        have hvalues : binds.values = some values :=
          (hlowered.extend.values.symm.trans hB.values.symm).trans hgiven.known
        rw [Binds.literal, hvalues, hlength] at hv
        exact Option.some.inj ((okOr_eq_ok.1 hv).symm.trans (hposition name rfl))
      refine ⟨?_, congrArg S.denoted hv'⟩
      rw [hcompiled.value row final ?_]
      · exact congrArg S.denoted hv'
      · intro _ i hle hi
        rw [hfinal.kept i ?_, List.prefix_iff_getElem?.1 hs i hi, List.getElem?_eq_getElem hi]
        intro hmarked
        rcases hB.marked i hmarked with hmarked | hi'
        · have := hwf i (hlowered.kept rfl i hmarked)
          omega
        · simp [Binds.named] at hi'
          omega
    · -- A typed placeholder is given the caller's value.
      have hcount' : s.length = params.length + 1 := hcount
      have hbound : S.boundAt final (params.length + 1) = S.bound (env name) := by
        refine S.boundAt_eq ?_
        have htyped := hB.typed _ (hlowered.typed rfl)
        have hlt : params.length < params'.length := by
          have := hs.length_le
          omega
        rw [hlength] at htyped
        rw [hfinal.typed _ htyped hlt, List.getD_eq_getElem?_getD, hposition name rfl]
        rfl
      refine ⟨?_, rfl⟩
      rw [hcompiled.value row final fun h => by simp [Leaf.isTyped, Expression.isTyped] at h, hbound]
      rfl
    · rw [hnames] at hcounted
      simp [valuesBound] at hcounted

/-- The operands of a filter, lowered and compiled, from left to right. -/
theorem operands_value (hS : S.Conforms c.dialect) {os : List Operand} {leaves : List Leaf}
    {terms : List Term} {binds binds' B : Binds} {params s params' values final : List ParameterValue}
    {env : String → ParameterValue}
    (hos : (os.mapM (lowerOperand target)).run binds = .ok (leaves, binds'))
    (hts : (compileLeaves c leaves).run params = .ok (terms, s))
    (hlength : binds.names.length = params.length) (hwf : binds.WellFormed) (hB : Extends binds' B)
    (hgiven : Given B values env) (hs : s <+: params') (hfinal : Executes B values params' final)
    (row : String → V) (other : QueryExpression → V) :
    terms.map (S.termValue c.dialect row final) = os.map (S.operandValue row other env) ∧
      List.zipWith (S.leafValue row) (os.map (S.givenValue env)) leaves =
        os.map (S.operandValue row other env) := by
  induction os generalizing binds params leaves terms with
  | nil =>
    obtain ⟨rfl, rfl⟩ := Prod.mk.inj (mapM_nil.1 hos)
    obtain ⟨rfl, rfl⟩ := Prod.mk.inj (mapM_nil.1 hts)
    exact ⟨rfl, rfl⟩
  | cons o os ih =>
    obtain ⟨leaf, binds₁, leaves, ho, hrest, rfl⟩ := mapM_cons.1 hos
    obtain ⟨t, s₁, terms, ht, hterms, rfl⟩ := mapM_cons.1 hts
    have hB₁ := (lowerOperands_extend hrest).trans hB
    have hs₁ := (compileLeaves_grows hS hterms).trans hs
    obtain ⟨hterm, hleaf⟩ := operand_value hS ho ht hlength hwf hB₁ hgiven hs₁ hfinal row other
    obtain ⟨hvalues, hleaves⟩ := ih hrest hterms (operand_length hS ho ht hlength)
      ((lowerOperand_spec ho).wellFormed hwf)
    exact ⟨by rw [List.map_cons, List.map_cons, hterm, hvalues],
      by rw [List.map_cons, List.zipWith_cons_cons, hleaf, hleaves, List.map_cons]⟩

end Lowered

/-! ## Filters -/

namespace Server

/-- The truth of a filter of the caller on a row. -/
def truth (S : Server V) (row : String → V) (p : Predicate) : Truth :=
  p.condition.eval S.meaning (S.leafValue row (S.bound (.null "")))

/-- The filter is `t` on a row when its placeholders are given values, one for each leaf. -/
def TruthGiven (S : Server V) (row : String → V) (given : List V) (p : Predicate) (t : Truth) :
    Prop :=
  ∃ d : Condition Relation V, d.shape = p.condition.shape ∧
    d.leaves = List.zipWith (S.leafValue row) given p.condition.leaves ∧ d.eval S.meaning id = t

/-- The words read as a condition that is `t` on a row with the values bound. -/
def ReadsAs (S : Server V) (d : DialectKind) (row : String → V) (final : List ParameterValue)
    (ws : Words) (t : Truth) : Prop :=
  ∃ b, read ws = some b ∧ b.eval S.meaning (S.termValue d row final) = t

end Server

/-- The placeholders of the text are the values bound from `n` to `n'`, and there is one for
each. -/
def EveryBindOccurs (ws : Words) (n n' : Nat) : Prop := ∀ i, i ∈ textNumbers ws ↔ n < i ∧ i ≤ n'

/-- The placeholders of the text are the values bound from `n` to `n'`, in that order. -/
def InTextOrder (ws : Words) (n n' : Nat) : Prop := textNumbers ws = List.range' (n + 1) (n' - n)

section Filters

variable {S : Server V} {c : CompileContext}

theorem textNumbers_print (d : Condition Relation Term) :
    textNumbers d.print = d.leaves.flatMap Term.numbers := by
  rw [textNumbers, Condition.operands_print]

/-- A printed condition reads as its truth. -/
theorem readsAs_print (d : Condition Relation Term) (hd : d.Grouped) {α : Type}
    {b : Condition Relation α} (hshape : d.shape = b.shape) {row : String → V}
    {final : List ParameterValue} {value : α → V}
    (hvalue : d.leaves.map (S.termValue c.dialect row final) = b.leaves.map value) :
    S.ReadsAs c.dialect row final d.print (b.eval S.meaning value) :=
  ⟨d.normal, read_print d hd, by
    rw [Condition.eval_normal, Condition.eval_congr S.meaning hshape hvalue]⟩

/-- **The portable compiler keeps the truth of a filter and binds its values.** -/
theorem compilePredicate_means (hS : S.Conforms c.dialect) (row : String → V) (p : Predicate)
    (params : List ParameterValue) (ws : Words) (params' : List ParameterValue)
    (h : (compilePredicate c p).run params = .ok (ws, params')) :
    EveryBindOccurs ws params.length params'.length ∧
    ((∀ leaf ∈ p.condition.leaves, leaf.isSpatial = false) ∨ positional c.dialect = true →
      InTextOrder ws params.length params'.length) ∧
    ((∀ leaf ∈ p.condition.leaves, leaf.isTyped = false) → ∀ final, params' <+: final →
      S.ReadsAs c.dialect row final ws (S.truth row p)) := by
  obtain ⟨d, rfl, hshape, hgrouped, hleaves⟩ := compilePredicate_spec p params ws params' h
  refine ⟨fun i => ?_, fun horder => ?_, fun huntyped final hfinal => ?_⟩
  · rw [textNumbers_print, compileLeaves_numbers hS hleaves]
  · rw [InTextOrder, textNumbers_print, compileLeaves_inOrder hS hleaves horder]
  · exact readsAs_print d hgrouped hshape (compileLeaves_values hS row huntyped hleaves hfinal _)

/-- **The lowering keeps the truth of a filter, and its names are bound in the order of the
text.** -/
theorem predicate_means (hS : S.Conforms c.dialect) (row : String → V)
    (other : QueryExpression → V) (target : ObjectRef) (e : QueryExpression) (binds : Binds)
    (p : Predicate) (binds' : Binds) (hlower : (predicate target e).run binds = .ok (p, binds'))
    (params : List ParameterValue) (ws : Words) (params' : List ParameterValue)
    (hcompile : (compilePredicate c p).run params = .ok (ws, params')) (hwf : binds.WellFormed)
    (hlength : binds.names.length = params.length) :
    ∃ q, condition e = some q ∧
      binds'.names = binds.names ++ q.leaves.flatMap Operand.names ∧
      binds'.names.length = params'.length ∧ InTextOrder ws params.length params'.length ∧
      ∀ values env, Given binds' values env →
        S.TruthGiven row (q.leaves.map (S.givenValue env)) p
          (q.eval S.meaning (S.operandValue row other env)) ∧
        S.ReadsAs c.dialect row (executed binds' values params') ws
          (q.eval S.meaning (S.operandValue row other env)) := by
  obtain ⟨q, hq, hshape, hoperands⟩ := predicate_spec e binds p binds' hlower
  obtain ⟨d, rfl, hdshape, hgrouped, hleaves⟩ := compilePredicate_spec p params ws params' hcompile
  refine ⟨q, hq, lowerOperands_names hoperands, operands_length hS hoperands hleaves hlength, ?_, ?_⟩
  · rw [InTextOrder, textNumbers_print]
    exact compileLeaves_inOrder hS hleaves (.inl (lowerOperands_notSpatial hoperands))
  · intro values env hgiven
    obtain ⟨hterms, hgivens⟩ := operands_value hS hoperands hleaves hlength hwf (.refl binds') hgiven
      List.prefix_rfl (executes_executed binds' values params') row other
    constructor
    · refine ⟨q.map (S.operandValue row other env), ?_, ?_, ?_⟩
      · rw [Condition.shape_map, hshape]
      · rw [Condition.leaves_map, hgivens]
      · rw [Condition.eval_map]
        rfl
    · exact readsAs_print d hgrouped (hdshape.trans hshape.symm) hterms

end Filters

end Plenora.Core.PredicateMeaning
