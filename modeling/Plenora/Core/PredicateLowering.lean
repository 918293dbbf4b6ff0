import Plenora.Core.PredicateMeaning

/-!
# Predicate lowering

Both recursions over a filter keep its truth on every row, and what the text
binds is what the filter names:

    compilePredicate c p   the text is true where the portable filter is
    predicate target e     the portable filter and its text are true where the
                           relational expression is

Placeholders that carry a number need not stand in the order of their values:
the guard of a PostGIS predicate names the SRID before the geometry
(`postgres_spatial_out_of_order`).
-/

namespace Plenora.Core.PredicateLowering

open Plenora.Lib Plenora.Lib.Conditions Plenora.Lib.StateRuns
open Plenora.Core.Portable Plenora.Core.RelationalMutation Plenora.Core.PredicateMeaning

variable {V : Type}

/-- **Both lowerings of a filter keep its truth, and bind its values in the order of the text
where the placeholders are positional or no predicate is spatial.** -/
theorem filters_keep_their_truth (S : Server V) (c : CompileContext) (hS : S.Conforms c.dialect)
    (row : String → V) (other : QueryExpression → V) :
    (∀ p params ws params', (compilePredicate c p).run params = .ok (ws, params') →
      EveryBindOccurs ws params.length params'.length ∧
      ((∀ leaf ∈ p.condition.leaves, leaf.isSpatial = false) ∨ positional c.dialect = true →
        InTextOrder ws params.length params'.length) ∧
      ((∀ leaf ∈ p.condition.leaves, leaf.isTyped = false) → ∀ final, params' <+: final →
        S.ReadsAs c.dialect row final ws (S.truth row p))) ∧
    (∀ target e binds p binds', (predicate target e).run binds = .ok (p, binds') →
      ∀ params ws params', (compilePredicate c p).run params = .ok (ws, params') →
      binds.WellFormed → binds.names.length = params.length →
      ∃ q, condition e = some q ∧
        binds'.names = binds.names ++ q.leaves.flatMap Operand.names ∧
        binds'.names.length = params'.length ∧ InTextOrder ws params.length params'.length ∧
        ∀ values env, Given binds' values env →
          S.TruthGiven row (q.leaves.map (S.givenValue env)) p
            (q.eval S.meaning (S.operandValue row other env)) ∧
          S.ReadsAs c.dialect row (executed binds' values params') ws
            (q.eval S.meaning (S.operandValue row other env))) :=
  ⟨compilePredicate_means hS row, predicate_means hS row other⟩

/-! ## A run on a table -/

/-- Values are compared as integers, and everything else is unknown. -/
def integerServer : Server ParameterValue where
  compare := fun operator a b =>
    match a, b with
    | .i64 x, .i64 y => .ofBool (match operator with
      | .eq => x == y
      | .ne => x != y
      | .lt => x.toInt < y.toInt
      | .lte => x.toInt ≤ y.toInt
      | .gt => y.toInt < x.toInt
      | .gte => y.toInt ≤ x.toInt)
    | _, _ => .unknown
  like := fun _ _ => .unknown
  isNull := ParameterValue.isNull
  holds := fun _ => .unknown
  denoted := id
  bound := id
  asJson := id
  asTimestampTz := id
  cast := fun _ => id
  call := fun _ _ => .null ""
  spatial := fun _ _ _ => .null ""

theorem integerServer_conforms : integerServer.Conforms .postgres where
  carries value := by cases value <;> rfl
  postgis _ _ _ _ _ _ _ _ := rfl
  mysql h := by simp at h

def tableContext : CompileContext := ⟨.postgres, some "\"t\""⟩

/-- `id` is 3 and every other column is null. -/
def row : String → ParameterValue := fun name => if name = "id" then .i64 3 else .null ""

def keyFilter : Predicate :=
  .not (.isIn "id" [.literal (.i64 1), .literal (.i64 2)])

def keyWords : Words :=
  [.not, .left, .operand (.column "\"id\""), .isIn, .left, .operand (.bound ⟨1, .bare⟩), .comma,
    .operand (.bound ⟨2, .bare⟩), .right, .right]

theorem quote_id : quoteIdentifier "id" .postgres = .ok "\"id\"" := by decide +kernel

theorem compile_keyFilter :
    (compilePredicate tableContext keyFilter).run [] = .ok (keyWords, [.i64 1, .i64 2]) := by
  have hlist : (compilePredicate tableContext
      (.isIn "id" [.literal (.i64 1), .literal (.i64 2)])).run [] =
        .ok ([.operand (.column "\"id\""), .isIn, .left, .operand (.bound ⟨1, .bare⟩), .comma,
          .operand (.bound ⟨2, .bare⟩), .right], [.i64 1, .i64 2]) :=
    run_lift_bind.2 ⟨_, quote_id, rfl⟩
  exact run_bind.2 ⟨_, _, hlist, rfl⟩

/-- `NOT (id IN (:a, b))`, the first parameter typed. -/
def keyExpression : QueryExpression :=
  .not (.inList (.column ⟨none, "id"⟩) [.typedParameter "a" .bigInteger, .parameter "b"] false)

def keyBinds : Binds := ⟨["a", "b"], some [.i64 1, .i64 2], [], [(0, .bigInteger)]⟩

def keyLowered : Predicate :=
  .not (.isIn "id" [.typedParameter .bigInteger, .literal (.i64 2)])

def keyTypedWords : Words :=
  [.not, .left, .operand (.column "\"id\""), .isIn, .left,
    .operand (.typed ⟨1, .bare⟩ .bigInteger), .comma, .operand (.bound ⟨2, .bare⟩), .right, .right]

theorem predicate_keyExpression (target : ObjectRef) :
    (predicate target keyExpression).run (.ofValues [.i64 1, .i64 2]) =
      .ok (keyLowered, keyBinds) := rfl

theorem compile_keyLowered :
    (compilePredicate tableContext keyLowered).run [] =
      .ok (keyTypedWords, [.i64 0, .i64 2]) := by
  have hlist : (compilePredicate tableContext
      (.isIn "id" [.typedParameter .bigInteger, .literal (.i64 2)])).run [] =
        .ok ([.operand (.column "\"id\""), .isIn, .left,
          .operand (.typed ⟨1, .bare⟩ .bigInteger), .comma, .operand (.bound ⟨2, .bare⟩), .right],
          [.i64 0, .i64 2]) :=
    run_lift_bind.2 ⟨_, quote_id, rfl⟩
  exact run_bind.2 ⟨_, _, hlist, rfl⟩

/-- `a` is 1 and every other parameter 2. -/
def keyValues : String → ParameterValue := fun name => if name = "a" then .i64 1 else .i64 2

theorem given_keyBinds : Given keyBinds [.i64 1, .i64 2] keyValues where
  known := rfl
  named i name h := by
    match i with
    | 0 => obtain rfl := Option.some.inj h; rfl
    | 1 => obtain rfl := Option.some.inj h; rfl
    | i + 2 => simp [keyBinds] at h

/-- The row is selected by the filter, by the expression and by both texts. -/
theorem filters_keep_their_truth_key :
    integerServer.ReadsAs .postgres row [.i64 1, .i64 2] keyWords .true ∧
      integerServer.ReadsAs .postgres row [.i64 1, .i64 2] keyTypedWords .true := by
  obtain ⟨hcompiled, hlowered⟩ := filters_keep_their_truth integerServer tableContext
    integerServer_conforms row fun _ => .null ""
  constructor
  · have htruth : integerServer.truth row keyFilter = .true := by
      simp [Server.truth, keyFilter, Predicate.condition, Condition.eval, Server.meaning,
        integerServer, Server.leafValue, Server.expressionValue, row, Truth.any, Truth.not,
        Truth.ofBool, Truth.or]
    rw [← htruth]
    exact (hcompiled keyFilter [] keyWords _ compile_keyFilter).2.2
      (by simp [keyFilter, Predicate.condition, Condition.leaves, Portable.Leaf.isTyped,
        Portable.Expression.isTyped]) _ List.prefix_rfl
  · obtain ⟨q, hq, -, -, -, hvalues⟩ := hlowered ⟨none, none, "t"⟩ keyExpression _ _ _
      (predicate_keyExpression _) [] keyTypedWords _ compile_keyLowered
      (by simp [Binds.WellFormed, Binds.isMarked, Binds.isTyped, Binds.ofValues]) rfl
    obtain rfl := Option.some.inj hq
    have hread := (hvalues _ _ given_keyBinds).2
    simp only [negated, Bool.false_eq_true, if_false, Condition.eval, List.map_cons, List.map_nil]
      at hread
    exact hread

/-! ## The order of numbered placeholders -/

/-- A little-endian point of EPSG 4326. -/
def pointReference : SpatialReference where
  ewkb := [1, 1, 0, 0, 0x20, 0xe6, 0x10, 0, 0, 0, 0, 0, 0, 0, 0, 0, 0, 0, 0, 0, 0, 0, 0, 0, 0]
  srid := 4326
  dimensions := .xy
  semantics := .geometry

theorem validate_pointReference : pointReference.validate = .ok () := by
  have hinspect : Ewkb.inspectEwkbDetailed pointReference.ewkb (2 ^ 64 - 1) (2 ^ 64 - 1) =
      .ok { stats := { components := 2, maxDepth := 1 }
            root := { baseType := 1, hasZ := false, hasM := false, srid := some 4326 }
            hasAnyZ := false, hasAnyM := false
            hasAnyEmbeddedSrid := true, embeddedSridCount := 1 } := by
    unfold Ewkb.inspectEwkbDetailed Ewkb.scanEwkb
    rw [Ewkb.scanLoop_eq]
    rfl
  unfold SpatialReference.validate
  rw [hinspect]
  rfl

theorem quote_g : quoteIdentifier "g" .postgres = .ok "\"g\"" := by decide +kernel

/-- The words of a predicate on a column `g`: the text of the guard names the values 2, 3 and 4
before the geometry, which is the first. -/
def pointWords : Words :=
  [.operand (.call (postgresForm "\"g\"" .intersects .geometry
    ⟨⟨1, .bare⟩, ⟨2, .bare⟩, ⟨3, .bare⟩, ⟨4, .bare⟩, none⟩))]

theorem compile_pointIntersects :
    (compilePredicate tableContext (.spatial "g" .intersects pointReference)).run [] =
      .ok (pointWords, [.bytes pointReference.ewkb, .i32 4326, .string "\"t\"", .string "g"]) := by
  refine run_bind.2 ⟨_, _, run_lift_bind.2 ⟨_, quote_g, run_lift_bind.2 ⟨_, validate_pointReference,
    run_lift_bind.2 ⟨_, rfl, run_lift_bind.2 ⟨_, validate_pointReference, ?_⟩⟩⟩⟩, rfl⟩
  rfl

/-- **A spatial predicate of PostgreSQL binds its values out of the order of its text.** -/
theorem postgres_spatial_out_of_order : ∃ ws params',
    (compilePredicate tableContext (.spatial "g" .intersects pointReference)).run [] =
      .ok (ws, params') ∧ textNumbers ws = [2, 3, 4, 1, 2] ∧ ¬ InTextOrder ws 0 params'.length :=
  ⟨pointWords, _, compile_pointIntersects, by decide, by unfold InTextOrder; decide⟩

end Plenora.Core.PredicateLowering
