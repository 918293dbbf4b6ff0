import Plenora.Lib.Parts
import Plenora.Mysql.GroupDeterminism
import Plenora.Mysql.QueryPlan

/-!
# The columns a query publishes

The plan counts positions in the select list; the server answers with one column for
a projection and any number for a wildcard.  The two countings agree exactly where
the wildcards expand to as many columns as there are wildcards (`Aligned`).

    columns[j] carries the contract of the projection j        (getElem?_setGeometries)
    a published plan keeps the caller's columns ↔ Aligned      (fromQueryColumns_keeps_iff)
-/

namespace Plenora.Mysql

open Plenora.Lib Plenora.Core
open BatchStream (Value MysqlCrsCheck sridOf confirmCheck confirmDeclaredCrs delivered)

/-! ## What is asked of a published plan -/

section Meaning

/-- The server answers with one item for a projection, with any number for a wildcard. -/
def Describes {α : Type} (projection : List QueryProjection) (parts : List (List α)) : Prop :=
  List.Forall₂ (fun p part => (∀ relation, p.expression ≠ .wildcard relation) → part.length = 1)
    projection parts

/-- The CRS the caller declares for a column. -/
def declaredSrid (operation : QueryOperation) (column : String) : Option UInt32 :=
  (operation.declaredCrs.find? (·.column == column)).map (·.srid)

/-- The source column and the CRS of the geometry a projection computes. -/
def computedGeometry (operation : QueryOperation) (p : QueryProjection) :
    Option (ColumnRef × UInt32) :=
  match p.expression with
  | .spatial function arguments =>
    if function.returnsGeometry then
      (sourceColumn (geometryArguments function arguments)).bind fun column =>
        (declaredSrid operation column.field).map (column, ·)
    else none
  | _ => none

/-- A column as the projection it stands for describes it. -/
def describeAs (operation : QueryOperation) (p : QueryProjection) (column : MysqlColumnSpec) :
    MysqlColumnSpec :=
  match computedGeometry operation p with
  | some (_, srid) => column.asGeometry srid
  | none => column

/-- The wire specifications of described columns. -/
def specifications (profile : QueryProfile) (columns : List Column) : List MysqlColumnSpec :=
  columns.filterMap fun column => (wireColumnSpec profile column).toOption

/-- The columns the caller's projection stands for. -/
def callerColumns (profile : QueryProfile) (operation : QueryOperation)
    (parts : List (List Column)) : List MysqlColumnSpec :=
  (List.zipWith (fun p part => (specifications profile part).map (describeAs operation p))
    operation.projection parts).flatten

/-- The columns the server finds under a reference. -/
structure NameScope (κ : Type) where
  relations : List String
  column : (relation field : String) → Option κ

/-- An unqualified name stands for the only column of that name. -/
def NameScope.resolve {κ : Type} (scope : NameScope κ) (reference : ColumnRef) : Option κ :=
  match reference.relation with
  | some relation =>
    if relation ∈ scope.relations then scope.column relation reference.field else none
  | none =>
    match scope.relations.filterMap (scope.column · reference.field) with
    | [key] => some key
    | _ => none

/-- A row of the result, in which `srid` is the `ST_SRID` of each column. -/
structure AnswersRow {κ : Type} (scope : NameScope κ) (srid : κ → Value)
    (statement : QueryOperation) (values : List (List Value)) : Prop where
  describes : Describes statement.projection values
  srids : ∀ (i : Nat) p column value, statement.projection[i]? = some p →
    p.expression = .spatial .srid [.column column] → values[i]? = some value →
    ∃ key, scope.resolve column = some key ∧ value = [srid key]

/-- **What a published plan owes its caller.** -/
structure Keeps {σ : Type} (profile : QueryProfile) (operation : QueryOperation)
    (plan : MysqlRenderedQuery) (parts : List (List Column)) (readPlan : MysqlReadPlan σ) :
    Prop where
  /-- All the columns of the projection, in order, each with its contract and no others. -/
  columns : readPlan.columns = callerColumns profile operation parts
  /-- A check is the position of its `ST_SRID` column. -/
  checks : ∀ check ∈ readPlan.crsChecks, ∃ i : Nat,
    plan.statement.projection[i]? = some (sridProjection check.column) ∧
      check.resultIndex = offset parts i
  /-- A row that a stream of the plan delivers has the declared CRS in the source of each geometry. -/
  confirmed : ∀ p ∈ operation.projection, ∀ column srid,
    computedGeometry operation p = some (column, srid) →
    ∀ (κ : Type) (scope : NameScope κ) (srids : κ → Value) (values : List (List Value)),
      AnswersRow scope srids plan.statement values → values.map List.length = parts.map List.length →
      (∃ (stream : BatchStream.Plan) (env : BatchStream.Environment)
        (calls : List (Option Interruption)) (w : BatchStream.World),
        stream.crsChecks = readPlan.crsChecks ∧
          values.flatten ∈ delivered (BatchStream.run stream env calls BatchStream.opened w).1) →
      ∀ key, scope.resolve column = some key →
        srids key = .null ∨ sridOf (srids key) = some srid

/-- **The two countings agree**: without a computed geometry the caller's columns are no more than
its projections; with one they are as many, and each geometry stands at its own number. -/
def Aligned (operation : QueryOperation) (parts : List (List Column)) : Prop :=
  (∀ p ∈ operation.projection, computedGeometry operation p = none) ∧
      offset parts operation.projection.length ≤ operation.projection.length ∨
    offset parts operation.projection.length = operation.projection.length ∧
      ∀ (i : Nat) p, operation.projection[i]? = some p → computedGeometry operation p ≠ none →
        offset parts i = i

end Meaning

/-! ## The plan -/

section Plan

variable {profile : QueryProfile} {operation : QueryOperation} {declared : DeclaredMap}

/-- The map of the declared CRS says what the operation declares. -/
theorem lookup_declaredQueryCrs (h : declaredQueryCrs profile operation = .ok declared)
    (column : String) : declared.lookup column = declaredSrid operation column := by
  unfold declaredQueryCrs at h
  have hall : ∀ (entries : List DeclaredCrs) (start : DeclaredMap),
      entries.foldlM (declareCrs profile) start = .ok declared →
      declared.lookup column = (start.lookup column).or
        ((entries.find? (·.column == column)).map (·.srid)) := by
    intro entries
    induction entries with
    | nil =>
      intro start h
      cases h
      simp
    | cons entry entries ih =>
      intro start h
      rw [List.foldlM_cons] at h
      obtain ⟨next, hnext, hrest⟩ := bind_eq_ok.1 h
      obtain ⟨_, -, hnext⟩ := bind_eq_ok.1 hnext
      obtain ⟨_, -, hnext⟩ := bind_eq_ok.1 hnext
      obtain ⟨_, hfresh, hnext⟩ := bind_eq_ok.1 hnext
      cases hnext
      rw [ih _ hrest, List.lookup_cons, List.find?_cons]
      rw [failIf_eq_ok, not_not] at hfresh
      by_cases hcolumn : column = entry.column
      · subst hcolumn
        simp [hfresh]
      · have hne : (entry.column == column) = false := by
          simpa using fun heq : entry.column = column => hcolumn heq.symm
        have hne' : (column == entry.column) = false := by simpa using hcolumn
        rw [hne, hne']
  simpa [declaredSrid] using hall _ _ h

theorem resolveGeometry_eq_ok (hdeclared : declaredQueryCrs profile operation = .ok declared)
    {index : Nat} {p : QueryProjection} {resolved : Option ResolvedGeometry}
    (h : resolveGeometry profile operation declared index p = .ok resolved) :
    resolved = (computedGeometry operation p).map fun geometry =>
      ⟨index, geometry.1.field, geometry.2⟩ := by
  cases hexpression : p.expression with
  | spatial function arguments =>
    simp only [resolveGeometry, computedGeometry, hexpression] at h ⊢
    split at h
    next hreturns =>
      obtain ⟨_, -, h⟩ := bind_eq_ok.1 h
      obtain ⟨_, -, h⟩ := bind_eq_ok.1 h
      obtain ⟨column, hcolumn, h⟩ := bind_eq_ok.1 h
      obtain ⟨srid, hsrid, h⟩ := bind_eq_ok.1 h
      cases h
      rw [okOr_eq_ok] at hcolumn hsrid
      rw [lookup_declaredQueryCrs hdeclared] at hsrid
      simp [hreturns, hcolumn, hsrid]
    next hreturns =>
      cases h
      simp [hreturns]
  | _ =>
    simp only [resolveGeometry, computedGeometry, hexpression] at h ⊢
    cases h
    rfl

/-- The computed geometries with their projection's number. -/
def computedGeometries (operation : QueryOperation) : List ResolvedGeometry :=
  operation.projection.zipIdx.filterMap fun p =>
    (computedGeometry operation p.1).map fun geometry => ⟨p.2, geometry.1.field, geometry.2⟩

theorem resolveQueryGeometries_eq_ok
    (hdeclared : declaredQueryCrs profile operation = .ok declared)
    {geometries : List ResolvedGeometry}
    (h : resolveQueryGeometries profile operation declared = .ok geometries) :
    geometries = computedGeometries operation := by
  obtain ⟨resolved, hresolved, h⟩ := bind_eq_ok.1 h
  cases h
  rw [mapM_eq_ok] at hresolved
  clear h
  unfold computedGeometries
  generalize operation.projection.zipIdx = indexed at hresolved
  induction hresolved with
  | nil => rfl
  | cons hstep _ ih =>
    rw [resolveGeometry_eq_ok hdeclared hstep, List.filterMap_cons, List.filterMap_cons, ih]
    rfl

theorem mem_computedGeometries {geometry : ResolvedGeometry} :
    geometry ∈ computedGeometries operation ↔ ∃ p column,
      operation.projection[geometry.resultIndex]? = some p ∧
      computedGeometry operation p = some (column, geometry.srid) ∧
      column.field = geometry.sourceColumn := by
  obtain ⟨index, source, srid⟩ := geometry
  simp only [computedGeometries, List.mem_filterMap, Option.map_eq_some_iff, Prod.exists,
    List.mem_zipIdx_iff_getElem?, ResolvedGeometry.mk.injEq]
  constructor
  · rintro ⟨p, i, hp, column, srid', hgeometry, rfl, rfl, rfl⟩
    exact ⟨p, column, hp, hgeometry, rfl⟩
  · rintro ⟨p, column, hp, hgeometry, rfl⟩
    exact ⟨p, index, hp, column, srid, hgeometry, rfl, rfl, rfl⟩

theorem nodup_computedGeometries :
    ((computedGeometries operation).map (·.resultIndex)).Nodup := by
  have hsub : ((computedGeometries operation).map (·.resultIndex)).Sublist
      (operation.projection.zipIdx.map (·.2)) := by
    unfold computedGeometries
    generalize operation.projection.zipIdx = indexed
    induction indexed with
    | nil => simp
    | cons p indexed ih =>
      rw [List.filterMap_cons, List.map_cons]
      cases computedGeometry operation p.1 with
      | none => exact ih.cons _
      | some geometry => exact ih.cons_cons _
  refine hsub.nodup ?_
  rw [List.zipIdx_map_snd]
  exact List.nodup_range'

theorem declaredSrid_of_computed {p : QueryProjection} {column : ColumnRef} {srid : UInt32}
    (h : computedGeometry operation p = some (column, srid)) :
    declaredSrid operation column.field = some srid := by
  unfold computedGeometry at h
  split at h
  next function arguments =>
    split at h
    next =>
      obtain ⟨column', -, h⟩ := Option.bind_eq_some_iff.1 h
      obtain ⟨srid', hsrid, h⟩ := Option.map_eq_some_iff.1 h
      cases h
      exact hsrid
    next => cases h
  next => cases h

/-- What the fold over the geometries keeps. -/
structure Appended (operation : QueryOperation) (geometries : List ResolvedGeometry)
    (checked : QueryOperation × List MysqlCrsCheck) : Prop where
  projection : checked.1.projection =
    operation.projection ++ checked.2.map (sridProjection ·.column)
  index : ∀ (k : Nat) check, checked.2[k]? = some check →
    check.resultIndex = operation.projection.length + k
  source : ∀ check ∈ checked.2, ∃ geometry ∈ geometries,
    check.column = geometry.sourceColumn ∧ check.expected = geometry.srid
  seen : ∀ geometry ∈ geometries, ∃ check ∈ checked.2, check.column = geometry.sourceColumn

theorem Appended.step {geometries : List ResolvedGeometry} {geometry : ResolvedGeometry}
    {checked : QueryOperation × List MysqlCrsCheck} (h : Appended operation geometries checked) :
    Appended operation (geometries ++ [geometry]) (appendCrsCheck checked geometry) := by
  unfold appendCrsCheck
  split
  next hany =>
    obtain ⟨check, hcheck, hcolumn⟩ := List.any_eq_true.1 hany
    refine ⟨h.projection, h.index, fun c hc => ?_, fun g hg => ?_⟩
    · obtain ⟨g, hg, hsource⟩ := h.source c hc
      exact ⟨g, List.mem_append_left _ hg, hsource⟩
    · rcases List.mem_append.1 hg with hg | hg
      · exact h.seen g hg
      · rw [List.mem_singleton.1 hg]
        exact ⟨check, hcheck, by simpa using hcolumn⟩
  next =>
    have hlength : checked.1.projection.length = operation.projection.length + checked.2.length := by
      rw [h.projection, List.length_append, List.length_map]
    refine ⟨?_, fun k check hk => ?_, fun c hc => ?_, fun g hg => ?_⟩
    · show checked.1.projection ++ _ = _
      rw [h.projection, List.map_append, List.append_assoc]
      rfl
    · rcases Nat.lt_or_ge k checked.2.length with hlt | hge
      · rw [List.getElem?_append_left hlt] at hk
        exact h.index k check hk
      · rw [List.getElem?_append_right hge] at hk
        obtain ⟨hzero, hcheck⟩ := List.getElem?_eq_some_iff.1 hk
        rw [List.length_singleton] at hzero
        have hk' : k = checked.2.length := by omega
        subst hk'
        simp only [Nat.sub_self, List.getElem_cons_zero] at hcheck
        rw [← hcheck, hlength]
    · rcases List.mem_append.1 hc with hc | hc
      · obtain ⟨g, hg, hsource⟩ := h.source c hc
        exact ⟨g, List.mem_append_left _ hg, hsource⟩
      · rw [List.mem_singleton.1 hc]
        exact ⟨geometry, List.mem_append_right _ (List.mem_singleton_self _), rfl, rfl⟩
    · rcases List.mem_append.1 hg with hg | hg
      · obtain ⟨check, hcheck, hcolumn⟩ := h.seen g hg
        exact ⟨check, List.mem_append_left _ hcheck, hcolumn⟩
      · rw [List.mem_singleton.1 hg]
        exact ⟨_, List.mem_append_right _ (List.mem_singleton_self _), rfl⟩

theorem appended_foldl (geometries : List ResolvedGeometry) :
    Appended operation geometries (geometries.foldl appendCrsCheck (operation, [])) := by
  induction geometries using List.reverseRecOn with
  | nil =>
    exact ⟨by simp, fun _ _ h => (by cases h), fun _ h => (by cases h), fun _ h => (by cases h)⟩
  | append_singleton geometries geometry ih =>
    rw [List.foldl_append]
    exact ih.step

/-- What a plan says of its operation. -/
structure PlanOf (operation : QueryOperation) (plan : MysqlRenderedQuery) : Prop where
  visible : plan.visibleColumns = operation.projection.length
  geometries : plan.geometries =
    (computedGeometries operation).map fun geometry => ⟨geometry.resultIndex, geometry.srid⟩
  appended : Appended operation (computedGeometries operation) (plan.statement, plan.crsChecks)

theorem planOf_of_render [DecidableEq QueryExpression]
    {render : QueryOperation → Result RenderedSql} {database : String} {plan : MysqlRenderedQuery}
    (h : renderQueryPlan profile render operation database = .ok plan) : PlanOf operation plan := by
  unfold renderQueryPlan at h
  obtain ⟨_, -, h⟩ := bind_eq_ok.1 h
  obtain ⟨_, -, h⟩ := bind_eq_ok.1 h
  obtain ⟨declared, hdeclared, h⟩ := bind_eq_ok.1 h
  obtain ⟨geometries, hgeometries, h⟩ := bind_eq_ok.1 h
  have hcomputed := resolveQueryGeometries_eq_ok hdeclared hgeometries
  subst hcomputed
  have hfold := @appended_foldl operation (computedGeometries operation)
  split at h
  next hnil =>
    obtain ⟨rendered, -, h⟩ := bind_eq_ok.1 h
    cases h
    rw [hnil] at hfold
    exact ⟨rfl, by rw [hnil]; rfl, hnil ▸ hfold⟩
  next =>
    obtain ⟨checked, hchecked, h⟩ := bind_eq_ok.1 h
    obtain ⟨rendered, -, h⟩ := bind_eq_ok.1 h
    cases h
    obtain ⟨_, -, hchecked⟩ := bind_eq_ok.1 hchecked
    obtain ⟨_, -, hchecked⟩ := bind_eq_ok.1 hchecked
    cases hchecked
    exact ⟨rfl, rfl, hfold⟩

/-- The check of a computed geometry. -/
theorem PlanOf.check {plan : MysqlRenderedQuery} (h : PlanOf operation plan) {p : QueryProjection}
    (hp : p ∈ operation.projection) {column : ColumnRef} {srid : UInt32}
    (hgeometry : computedGeometry operation p = some (column, srid)) :
    ∃ check ∈ plan.crsChecks, check.column = column.field ∧ check.expected = srid := by
  obtain ⟨i, hi⟩ := List.mem_iff_getElem?.1 hp
  obtain ⟨check, hcheck, hcolumn⟩ := h.appended.seen ⟨i, column.field, srid⟩
    (mem_computedGeometries.2 ⟨p, column, hi, hgeometry, rfl⟩)
  obtain ⟨geometry, hmem, hsource, hexpected⟩ := h.appended.source check hcheck
  obtain ⟨p', column', -, hgeometry', hfield⟩ := mem_computedGeometries.1 hmem
  have hsrid := declaredSrid_of_computed hgeometry
  have hsrid' := declaredSrid_of_computed hgeometry'
  rw [hfield, ← hsource, hcolumn, hsrid] at hsrid'
  cases hsrid'
  exact ⟨check, hcheck, hcolumn, hexpected⟩

end Plan

/-! ## The columns -/

section Columns

variable {profile : QueryProfile} {operation : QueryOperation} {plan : MysqlRenderedQuery}
variable {columns columns' : List MysqlColumnSpec}

theorem specifications_cons {column : Column} {described : List Column}
    {specification : MysqlColumnSpec} (h : wireColumnSpec profile column = .ok specification) :
    specifications profile (column :: described) =
      specification :: specifications profile described := by
  unfold specifications
  rw [List.filterMap_cons, h]
  rfl

theorem resultColumns_eq_ok {names : List String} {described : List Column}
    (h : resultColumns profile names described = .ok columns) :
    columns = specifications profile described ∧
      ∀ column ∈ described, ∃ specification, wireColumnSpec profile column = .ok specification := by
  induction described generalizing names columns with
  | nil =>
    cases h
    exact ⟨rfl, fun _ h => (by cases h)⟩
  | cons column described ih =>
    obtain ⟨specification, hnext, h⟩ := bind_eq_ok.1 h
    obtain ⟨rest, hrest, h⟩ := bind_eq_ok.1 h
    cases h
    obtain ⟨rfl, hall⟩ := ih hrest
    obtain ⟨specification', hwire, hnext⟩ := bind_eq_ok.1 hnext
    obtain ⟨_, -, hnext⟩ := bind_eq_ok.1 hnext
    cases hnext
    refine ⟨?_, List.forall_mem_cons.2 ⟨⟨specification, hwire⟩, hall⟩⟩
    rw [specifications_cons hwire]

theorem queryResultColumns_eq_ok {described : List Column}
    (h : queryResultColumns profile described = .ok columns) :
    columns = specifications profile described ∧
      ∀ column ∈ described, ∃ specification, wireColumnSpec profile column = .ok specification := by
  obtain ⟨_, -, h⟩ := bind_eq_ok.1 h
  exact resultColumns_eq_ok h

theorem length_specifications {part : List Column}
    (h : ∀ column ∈ part, ∃ specification, wireColumnSpec profile column = .ok specification) :
    (specifications profile part).length = part.length := by
  induction part with
  | nil => rfl
  | cons column part ih =>
    obtain ⟨⟨specification, hwire⟩, hall⟩ := List.forall_mem_cons.1 h
    rw [specifications_cons hwire, List.length_cons, List.length_cons, ih hall]

theorem specifications_flatten (parts : List (List Column)) :
    specifications profile parts.flatten = (parts.map (specifications profile)).flatten := by
  unfold specifications
  rw [List.filterMap_flatten]

/-- The driver's own description declares no CRS. -/
theorem not_declared_of_mem {part : List Column} {column : MysqlColumnSpec}
    (h : column ∈ specifications profile part) : column.spatialSridDeclared = false := by
  obtain ⟨described, -, hwire⟩ := List.mem_filterMap.1 h
  cases hspec : wireColumnSpec profile described with
  | error e =>
    rw [hspec] at hwire
    cases hwire
  | ok specification =>
    rw [hspec] at hwire
    cases hwire
    obtain ⟨_, -, hspec⟩ := bind_eq_ok.1 hspec
    obtain ⟨kind, -, hspec⟩ := bind_eq_ok.1 hspec
    cases hspec
    rfl

/-- The contract of a position of the result: that of the projection of the same number. -/
def describeAt (operation : QueryOperation) (j : Nat) (column : MysqlColumnSpec) :
    MysqlColumnSpec :=
  match operation.projection[j]? with
  | some p => describeAs operation p column
  | none => column

theorem setGeometry_eq_ok {geometry : MysqlQueryGeometry}
    (h : setGeometry profile columns geometry = .ok columns') :
    ∃ column, columns[geometry.resultIndex]? = some column ∧
      columns' = columns.set geometry.resultIndex (column.asGeometry geometry.srid) := by
  obtain ⟨column, hcolumn, h⟩ := bind_eq_ok.1 h
  obtain ⟨_, -, h⟩ := bind_eq_ok.1 h
  cases h
  exact ⟨column, okOr_eq_ok.1 hcolumn, rfl⟩

theorem getElem?_setGeometries {geometries : List MysqlQueryGeometry}
    (hnodup : (geometries.map (·.resultIndex)).Nodup)
    (h : geometries.foldlM (setGeometry profile) columns = .ok columns') (j : Nat) :
    columns'[j]? = columns[j]?.map fun column =>
      match geometries.find? (·.resultIndex == j) with
      | some geometry => column.asGeometry geometry.srid
      | none => column := by
  induction geometries generalizing columns with
  | nil =>
    cases h
    simp
  | cons geometry geometries ih =>
    rw [List.foldlM_cons] at h
    obtain ⟨next, hnext, h⟩ := bind_eq_ok.1 h
    obtain ⟨column, hcolumn, rfl⟩ := setGeometry_eq_ok hnext
    rw [List.map_cons, List.nodup_cons] at hnodup
    rw [ih hnodup.2 h, List.find?_cons]
    by_cases hj : geometry.resultIndex = j
    · subst hj
      have hnone : geometries.find? (·.resultIndex == geometry.resultIndex) = none := by
        rw [List.find?_eq_none]
        intro other hother heq
        exact hnodup.1 (List.mem_map.2 ⟨other, hother, by simpa using heq⟩)
      rw [hnone, List.getElem?_set_self (List.getElem?_eq_some_iff.1 hcolumn).1, hcolumn]
      simp
    · have hne : (geometry.resultIndex == j) = false := by simpa using hj
      rw [hne, List.getElem?_set_ne hj]

theorem PlanOf.find_geometry (h : PlanOf operation plan) (j : Nat) :
    (plan.geometries.find? (·.resultIndex == j)).map (·.srid) =
      operation.projection[j]?.bind fun p => (computedGeometry operation p).map (·.2) := by
  rw [h.geometries]
  cases hfind : ((computedGeometries operation).map fun geometry =>
      (⟨geometry.resultIndex, geometry.srid⟩ : MysqlQueryGeometry)).find? (·.resultIndex == j) with
  | some found =>
    obtain ⟨geometry, hmem, rfl⟩ := List.mem_map.1 (List.mem_of_find?_eq_some hfind)
    have hindex : geometry.resultIndex = j := by simpa using List.find?_some hfind
    obtain ⟨p, column, hp, hgeometry, -⟩ := mem_computedGeometries.1 hmem
    rw [hindex] at hp
    simp [hp, hgeometry]
  | none =>
    cases hp : operation.projection[j]? with
    | none => rfl
    | some p =>
      cases hgeometry : computedGeometry operation p with
      | none => simp [hgeometry]
      | some geometry =>
        have hmem : (⟨j, geometry.1.field, geometry.2⟩ : ResolvedGeometry) ∈
            computedGeometries operation :=
          mem_computedGeometries.2 ⟨p, geometry.1, hp, hgeometry, rfl⟩
        have hnone := List.find?_eq_none.1 hfind _ (List.mem_map_of_mem hmem)
        simp at hnone

/-- **The geometry contracts stand at the numbers of their projections.** -/
theorem PlanOf.getElem?_setGeometries (h : PlanOf operation plan)
    (hset : plan.geometries.foldlM (setGeometry profile) columns = .ok columns') (j : Nat) :
    columns'[j]? = columns[j]?.map (describeAt operation j) := by
  have hnodup : (plan.geometries.map (·.resultIndex)).Nodup := by
    rw [h.geometries, List.map_map]
    exact nodup_computedGeometries
  rw [Mysql.getElem?_setGeometries hnodup hset]
  congr 1
  funext column
  have hfind := h.find_geometry j
  unfold describeAt describeAs
  cases hp : operation.projection[j]? with
  | none =>
    rw [hp] at hfind
    rw [Option.map_eq_none_iff.1 hfind]
  | some p =>
    rw [hp] at hfind
    cases hgeometry : computedGeometry operation p with
    | none =>
      rw [Option.bind_some, hgeometry] at hfind
      rw [Option.map_eq_none_iff.1 hfind]
      simp only [hgeometry]
    | some geometry =>
      rw [Option.bind_some, hgeometry] at hfind
      obtain ⟨found, hfound, hsrid⟩ := Option.map_eq_some_iff.1 hfind
      rw [hfound]
      simp only [hgeometry, hsrid]

/-! ## The two countings -/

section Countings

variable {parts : List (List Column)}

theorem Describes.length {α : Type} {projection : List QueryProjection} {items : List (List α)}
    (h : Describes projection items) : items.length = projection.length :=
  (List.Forall₂.length_eq h).symm

theorem Describes.part {α : Type} {projection : List QueryProjection} {items : List (List α)}
    (h : Describes projection items) {i : Nat} {p : QueryProjection}
    (hp : projection[i]? = some p) : ∃ item, items[i]? = some item ∧
      ((∀ relation, p.expression ≠ .wildcard relation) → item.length = 1) := by
  induction h generalizing i with
  | nil => cases hp
  | cons hitem _ ih =>
    cases i with
    | zero =>
      cases hp
      exact ⟨_, rfl, hitem⟩
    | succ i => exact ih hp

theorem not_wildcard_of_computed {p : QueryProjection} (h : computedGeometry operation p ≠ none)
    (relation : Option String) : p.expression ≠ .wildcard relation := by
  intro heq
  rw [computedGeometry, heq] at h
  exact h rfl

/-- The described columns of one projection, with its contract. -/
def callerPart (profile : QueryProfile) (operation : QueryOperation) (p : QueryProjection)
    (part : List Column) : List MysqlColumnSpec :=
  (specifications profile part).map (describeAs operation p)

theorem length_callerPart {part : List Column}
    (hwire : ∀ column ∈ part, ∃ specification, wireColumnSpec profile column = .ok specification)
    (p : QueryProjection) : (callerPart profile operation p part).length = part.length := by
  rw [callerPart, List.length_map, length_specifications hwire]

theorem describeAs_of_none {p : QueryProjection} (h : computedGeometry operation p = none)
    (column : MysqlColumnSpec) : describeAs operation p column = column := by
  rw [describeAs, h]

theorem describeAs_declared {p : QueryProjection} (h : computedGeometry operation p ≠ none)
    (column : MysqlColumnSpec) : (describeAs operation p column).spatialSridDeclared = true := by
  unfold describeAs
  split
  next => rfl
  next hnone => exact absurd hnone h

theorem describeAt_of_getElem? {j : Nat} {p : QueryProjection}
    (hp : operation.projection[j]? = some p) : describeAt operation j = describeAs operation p := by
  funext column
  rw [describeAt, hp]

variable (hplan : PlanOf operation plan)

include hplan

theorem PlanOf.check_part {k : Nat} {check : MysqlCrsCheck}
    (hk : plan.crsChecks[k]? = some check) :
    plan.statement.projection[operation.projection.length + k]? =
      some (sridProjection check.column) := by
  rw [hplan.appended.projection, List.getElem?_append_right (by omega), Nat.add_sub_cancel_left,
    List.getElem?_map, hk]
  rfl

variable (hdescribes : Describes plan.statement.projection parts)

include hdescribes

theorem PlanOf.part {i : Nat} {p : QueryProjection} (hp : operation.projection[i]? = some p) :
    ∃ part, parts[i]? = some part ∧
      (computedGeometry operation p ≠ none → part.length = 1) := by
  have hp' : plan.statement.projection[i]? = some p := by
    rw [hplan.appended.projection,
      List.getElem?_append_left (List.getElem?_eq_some_iff.1 hp).1, hp]
  obtain ⟨part, hpart, hone⟩ := hdescribes.part hp'
  exact ⟨part, hpart, fun h => hone (not_wildcard_of_computed h)⟩

theorem PlanOf.length_parts :
    parts.length = operation.projection.length + plan.crsChecks.length := by
  rw [hdescribes.length, hplan.appended.projection, List.length_append, List.length_map]

/-- The checks come after the caller's columns, one column each. -/
theorem PlanOf.offset_check {k : Nat} (hk : k ≤ plan.crsChecks.length) :
    offset parts (operation.projection.length + k) =
      offset parts operation.projection.length + k := by
  induction k with
  | zero => rfl
  | succ k ih =>
    have hcheck := List.getElem?_eq_getElem (show k < plan.crsChecks.length by omega)
    obtain ⟨part, hpart, hone⟩ := hdescribes.part (hplan.check_part hcheck)
    have hlength := hone (by simp [sridProjection])
    rw [← Nat.add_assoc, offset_succ hpart, ih (by omega), hlength]
    rfl

theorem PlanOf.length_flatten :
    parts.flatten.length = offset parts operation.projection.length + plan.crsChecks.length := by
  rw [← offset_length, hplan.length_parts hdescribes]
  exact hplan.offset_check hdescribes (Nat.le_refl _)

/-- The parts of the caller's columns. -/
theorem PlanOf.offset_callerParts (hwire : ∀ column ∈ parts.flatten,
    ∃ specification, wireColumnSpec profile column = .ok specification) {i : Nat}
    (hi : i ≤ operation.projection.length) :
    offset (List.zipWith (callerPart profile operation) operation.projection parts) i =
      offset parts i := by
  rw [show offset parts i = offset (parts.take operation.projection.length) i from
    (offset_take hi).symm]
  refine offset_congr (List.ext_getElem? fun j => ?_) i
  rw [List.getElem?_map, List.getElem?_map, List.getElem?_zipWith, List.getElem?_take]
  by_cases hj : j < operation.projection.length
  · have hp := List.getElem?_eq_getElem hj
    obtain ⟨part, hpart, -⟩ := hplan.part hdescribes hp
    rw [if_pos hj, hp, hpart]
    simp only [Option.map_some]
    rw [length_callerPart fun column hcolumn =>
      hwire column (List.mem_flatten.2 ⟨part, List.mem_of_getElem? hpart, hcolumn⟩)]
  · rw [if_neg hj, List.getElem?_eq_none (by omega)]
    rfl

/-- A caller's column, at the position of its part. -/
theorem PlanOf.callerColumns_getElem? (hwire : ∀ column ∈ parts.flatten,
    ∃ specification, wireColumnSpec profile column = .ok specification) {i t : Nat}
    {p : QueryProjection} {part : List Column} (hp : operation.projection[i]? = some p)
    (hpart : parts[i]? = some part) (ht : t < part.length) :
    (callerColumns profile operation parts)[offset parts i + t]? =
      (specifications profile parts.flatten)[offset parts i + t]?.map (describeAs operation p) := by
  have hi := (List.getElem?_eq_some_iff.1 hp).1
  have hpartWire : ∀ column ∈ part, ∃ specification,
      wireColumnSpec profile column = .ok specification := fun column hcolumn =>
    hwire column (List.mem_flatten.2 ⟨part, List.mem_of_getElem? hpart, hcolumn⟩)
  have hcaller : (List.zipWith (callerPart profile operation) operation.projection parts)[i]? =
      some (callerPart profile operation p part) := by
    rw [List.getElem?_zipWith, hp, hpart]
  have hraw : (parts.map (specifications profile))[i]? = some (specifications profile part) := by
    rw [List.getElem?_map, hpart]
    rfl
  have hlengths : (parts.map (specifications profile)).map List.length = parts.map List.length := by
    rw [List.map_map]
    refine List.map_congr_left fun other hother => ?_
    exact length_specifications fun column hcolumn =>
      hwire column (List.mem_flatten.2 ⟨other, hother, hcolumn⟩)
  have hleft := getElem?_flatten_offset hcaller
    (t := t) (by rw [length_callerPart hpartWire]; exact ht)
  have hright := getElem?_flatten_offset hraw
    (t := t) (by rw [length_specifications hpartWire]; exact ht)
  rw [hplan.offset_callerParts hdescribes hwire (by omega)] at hleft
  rw [offset_congr hlengths] at hright
  rw [callerColumns, specifications_flatten, hright]
  exact hleft.trans (List.getElem?_map ..)

theorem PlanOf.length_callerColumns (hwire : ∀ column ∈ parts.flatten,
    ∃ specification, wireColumnSpec profile column = .ok specification) :
    (callerColumns profile operation parts).length = offset parts operation.projection.length := by
  have hlength : (List.zipWith (callerPart profile operation) operation.projection parts).length =
      operation.projection.length := by
    rw [List.length_zipWith, hplan.length_parts hdescribes]
    omega
  rw [← hplan.offset_callerParts hdescribes hwire (Nat.le_refl _)]
  conv_rhs => rw [← hlength]
  rw [offset_length]
  rfl

omit hdescribes in
/-- What the plan publishes at a position. -/
theorem PlanOf.published_getElem? {σ : Type} {schemaOf : List MysqlColumnSpec → Result σ}
    {readPlan : MysqlReadPlan σ}
    (hread : fromQueryColumnsWithGeometry schemaOf profile columns plan = .ok readPlan) (j : Nat) :
    readPlan.columns[j]? = if j < operation.projection.length then
      columns[j]?.map (describeAt operation j) else none := by
  obtain ⟨_, -, hread⟩ := bind_eq_ok.1 hread
  obtain ⟨columns', hset, hread⟩ := bind_eq_ok.1 hread
  obtain ⟨schema, -, hread⟩ := bind_eq_ok.1 hread
  cases hread
  show (if plan.visibleColumns < columns'.length then columns'.take plan.visibleColumns
    else columns')[j]? = _
  have htake : (if plan.visibleColumns < columns'.length then columns'.take plan.visibleColumns
      else columns') = columns'.take operation.projection.length := by
    rw [hplan.visible]
    split
    next => rfl
    next hle => rw [List.take_of_length_le (by omega)]
  rw [htake, List.getElem?_take, hplan.getElem?_setGeometries hset]

omit hdescribes in
theorem PlanOf.no_checks (hnone : ∀ p ∈ operation.projection, computedGeometry operation p = none) :
    plan.crsChecks = [] := by
  rw [List.eq_nil_iff_forall_not_mem]
  intro check hcheck
  obtain ⟨geometry, hgeometry, -⟩ := hplan.appended.source check hcheck
  obtain ⟨p, column, hp, hcomputed, -⟩ := mem_computedGeometries.1 hgeometry
  rw [hnone p (List.mem_of_getElem? hp)] at hcomputed
  cases hcomputed

/-- Aligned positions carry the contract of the projection they belong to. -/
theorem PlanOf.columns_of_aligned (hwire : ∀ column ∈ parts.flatten,
    ∃ specification, wireColumnSpec profile column = .ok specification)
    (haligned : Aligned operation parts) {j : Nat} :
    (if j < operation.projection.length then
      (specifications profile parts.flatten)[j]?.map (describeAt operation j) else none) =
      (callerColumns profile operation parts)[j]? := by
  have hlength := hplan.length_callerColumns hdescribes hwire
  have htotal : (specifications profile parts.flatten).length =
      offset parts operation.projection.length + plan.crsChecks.length := by
    rw [length_specifications hwire, hplan.length_flatten hdescribes]
  have hlt_of : j < offset parts operation.projection.length →
      ∃ i t p part, operation.projection[i]? = some p ∧ parts[i]? = some part ∧ t < part.length ∧
        j = offset parts i + t ∧ (computedGeometry operation p ≠ none → t = 0) := by
    intro hj
    obtain ⟨i, t, part, hpart, ht, heq⟩ := exists_position (show j <
      (parts.take operation.projection.length).flatten.length from hj)
    obtain ⟨hi, hget⟩ : i < operation.projection.length ∧ parts[i]? = some part := by
      rw [List.getElem?_take] at hpart
      split at hpart
      next hi => exact ⟨hi, hpart⟩
      next => cases hpart
    rw [offset_take (by omega)] at heq
    have hp := List.getElem?_eq_getElem hi
    obtain ⟨part', hpart', hone⟩ := hplan.part hdescribes hp
    rw [hget] at hpart'
    cases hpart'
    exact ⟨i, t, _, part, hp, hget, ht, heq, fun h => by have := hone h; omega⟩
  rcases haligned with ⟨hnone, hle⟩ | ⟨hwhole, hown⟩
  · have hchecks := hplan.no_checks hnone
    have hid : describeAt operation j = id := by
      funext column
      unfold describeAt
      split
      next p hp => exact describeAs_of_none (hnone p (List.mem_of_getElem? hp)) column
      next => rfl
    rw [hid]
    by_cases hj : j < offset parts operation.projection.length
    · obtain ⟨i, t, p, part, hp, hpart, ht, rfl, -⟩ := hlt_of hj
      have hid' : describeAs operation p = id :=
        funext (describeAs_of_none (hnone p (List.mem_of_getElem? hp)))
      rw [if_pos (by omega), hplan.callerColumns_getElem? hdescribes hwire hp hpart ht, hid']
    · rw [List.getElem?_eq_none (l := callerColumns profile operation parts) (by omega),
        List.getElem?_eq_none (by rw [htotal, hchecks]; simpa using hj)]
      simp
  · by_cases hj : j < operation.projection.length
    · obtain ⟨i, t, p, part, hp, hpart, ht, hposition, hzero⟩ := hlt_of (by omega)
      have hpj := List.getElem?_eq_getElem hj
      obtain ⟨partj, hpartj, honej⟩ := hplan.part hdescribes hpj
      rw [if_pos hj, describeAt_of_getElem? hpj]
      have hcaller := hplan.callerColumns_getElem? hdescribes hwire hp hpart ht
      rw [← hposition] at hcaller
      rw [hcaller]
      congr 1
      by_cases hcomputed : computedGeometry operation p = none
      · have hnone : computedGeometry operation operation.projection[j] = none := by
          by_contra hcomputedj
          have hstart := hown j _ hpj hcomputedj
          have hsame : offset parts i + t = offset parts j + 0 := by omega
          obtain ⟨rfl, -⟩ := position_unique hpart hpartj ht
            (by have := honej hcomputedj; omega) hsame
          rw [hp] at hpj
          cases hpj
          exact hcomputedj hcomputed
        funext column
        rw [describeAs_of_none hcomputed, describeAs_of_none hnone]
      · have hstart := hown i p hp hcomputed
        have := hzero hcomputed
        have hij : i = j := by omega
        subst hij
        rw [hp] at hpj
        cases hpj
        rfl
    · rw [if_neg hj, List.getElem?_eq_none (by omega)]

/-- Where the published columns are the caller's, the two countings agree. -/
theorem PlanOf.aligned_of_columns (hwire : ∀ column ∈ parts.flatten,
    ∃ specification, wireColumnSpec profile column = .ok specification)
    {published : List MysqlColumnSpec}
    (hpublished : ∀ j : Nat, published[j]? = if j < operation.projection.length then
      (specifications profile parts.flatten)[j]?.map (describeAt operation j) else none)
    (heq : published = callerColumns profile operation parts) : Aligned operation parts := by
  subst heq
  have hlength := hplan.length_callerColumns hdescribes hwire
  have htotal : (specifications profile parts.flatten).length =
      offset parts operation.projection.length + plan.crsChecks.length := by
    rw [length_specifications hwire, hplan.length_flatten hdescribes]
  have hle : offset parts operation.projection.length ≤ operation.projection.length := by
    by_contra hlt
    have hget := hpublished operation.projection.length
    rw [if_neg (by omega), List.getElem?_eq_none_iff] at hget
    omega
  by_cases hnone : ∀ p ∈ operation.projection, computedGeometry operation p = none
  · exact .inl ⟨hnone, hle⟩
  · refine .inr ?_
    simp only [not_forall] at hnone
    obtain ⟨p, hmem, hcomputed⟩ := hnone
    obtain ⟨⟨column, srid⟩, hgeometry⟩ := Option.ne_none_iff_exists'.1 hcomputed
    obtain ⟨check, hcheck, -⟩ := hplan.check hmem hgeometry
    have hchecks := List.length_pos_of_mem hcheck
    have hwhole : offset parts operation.projection.length = operation.projection.length := by
      by_contra hne
      have hget := hpublished (offset parts operation.projection.length)
      rw [if_pos (by omega), List.getElem?_eq_none (by omega), List.getElem?_eq_getElem
        (by omega)] at hget
      cases hget
    refine ⟨hwhole, fun i p hp hcomputed => ?_⟩
    have hbound : ∀ i, (∃ p, operation.projection[i]? = some p ∧
        computedGeometry operation p ≠ none) → i < operation.projection.length := by
      rintro i ⟨p, hp, -⟩
      exact (List.getElem?_eq_some_iff.1 hp).1
    refine offset_eq_self hbound (fun i hi => ?_) (fun i hi => ?_) ⟨p, hp, hcomputed⟩
    · obtain ⟨p, hp, hcomputed⟩ := hi
      obtain ⟨part, hpart, hone⟩ := hplan.part hdescribes hp
      exact ⟨part, hpart, by have := hone hcomputed; omega⟩
    · obtain ⟨p, hp, hcomputed⟩ := hi
      obtain ⟨part, hpart, hone⟩ := hplan.part hdescribes hp
      have hlt := offset_lt hpart (by have := hone hcomputed; omega)
        (List.getElem?_eq_some_iff.1 hp).1
      have hget := hpublished (offset parts i)
      have hcaller := hplan.callerColumns_getElem? hdescribes hwire (t := 0) hp hpart
        (by have := hone hcomputed; omega)
      rw [Nat.add_zero] at hcaller
      rw [if_pos (by omega), hcaller, List.getElem?_eq_getElem (by omega)] at hget
      have hp' := List.getElem?_eq_getElem (show offset parts i < operation.projection.length by
        omega)
      refine ⟨_, hp', fun hnone => ?_⟩
      rw [describeAt_of_getElem? hp', Option.map_some, Option.map_some, Option.some.injEq,
        describeAs_of_none hnone] at hget
      have hdeclared := describeAs_declared hcomputed
        ((specifications profile parts.flatten)[offset parts i])
      rw [hget, not_declared_of_mem (List.getElem_mem _)] at hdeclared
      cases hdeclared

end Countings

end Columns

/-! ## The rows -/

/-- An unqualified name the server accepts stands for the column any qualified one does. -/
theorem NameScope.resolve_unqualified {κ : Type} {scope : NameScope κ} {column : ColumnRef}
    {key key' : κ} (h : scope.resolve column = some key)
    (h' : scope.resolve ⟨none, column.field⟩ = some key') : key = key' := by
  obtain ⟨relation, field⟩ := column
  cases relation with
  | none =>
    rw [h] at h'
    cases h'
    rfl
  | some relation =>
    unfold resolve at h h'
    simp only at h h'
    split at h
    next hmem =>
      have hkey : key ∈ scope.relations.filterMap (scope.column · field) :=
        List.mem_filterMap.2 ⟨relation, hmem, h⟩
      split at h'
      next key'' heq =>
        cases h'
        rw [heq] at hkey
        exact List.mem_singleton.1 hkey
      next => cases h'
    next => cases h

theorem confirmDeclaredCrs_eq_ok {checks : List MysqlCrsCheck} {row : List Value}
    {product : String} {rowCount : Nat} (h : confirmDeclaredCrs product row rowCount checks = .ok ())
    {check : MysqlCrsCheck} (hmem : check ∈ checks) : ∃ value, row[check.resultIndex]? = some value ∧
      (value = .null ∨ sridOf value = some check.expected) := by
  induction checks with
  | nil => cases hmem
  | cons first checks ih =>
    rw [confirmDeclaredCrs] at h
    obtain ⟨_, hfirst, hrest⟩ := bind_eq_ok.1 h
    rcases List.mem_cons.1 hmem with rfl | hmem
    · obtain ⟨value, hvalue, hfirst⟩ := bind_eq_ok.1 hfirst
      refine ⟨value, okOr_eq_ok.1 hvalue, ?_⟩
      split at hfirst
      next hnull => exact .inl hnull
      next =>
        obtain ⟨observed, hobserved, hfirst⟩ := bind_eq_ok.1 hfirst
        rw [failIf_eq_ok, not_not] at hfirst
        rw [okOr_eq_ok, hfirst] at hobserved
        exact .inr hobserved
    · exact ih hrest hmem

/-! ## The rows of a stream -/

section Stream

open BatchStream Lib.Call

variable {stream : BatchStream.Plan} {env : Environment}

/-- The row passed the checks of the stream. -/
def Confirmed (stream : BatchStream.Plan) (row : List Value) : Prop :=
  ∃ rowCount, confirmDeclaredCrs stream.profile.product row rowCount stream.crsChecks = .ok ()

theorem confirmed_of_appendRow {row : List Value} {rowCount : Nat}
    (h : appendRow stream row rowCount = .ok ()) : Confirmed stream row := by
  obtain ⟨_, hconfirm, -⟩ := bind_eq_ok.1 h
  exact ⟨rowCount, hconfirm⟩

/-- What follows a step does not depend on it. -/
theorem meets_after {α β : Type} {x : Call Stop World α} {f : α → Call Stop World β}
    {Q : Except Stop β → World → Prop} (hf : ∀ a, Meets (fun _ => True) (f a) Q)
    (herror : ∀ e s, Q (.error e) s) : Meets (fun _ => True) (x >>= f) Q :=
  .bind (R := fun _ _ => True) (fun _ _ => trivial) hf fun e s _ => herror e s

/-- Every row of a batch that is filled passed the checks. -/
theorem fillBatch_confirmed (byteLimit slots : Nat) (carried : Option MeasuredRow)
    (taken : List (List Value)) (estimated : Nat) (h : ∀ row ∈ taken, Confirmed stream row) :
    Meets (fun _ => True) (fillBatch stream env byteLimit slots carried taken estimated)
      fun r _ => ∀ fill, r = .ok fill → ∀ row ∈ fill.1, Confirmed stream row := by
  induction slots generalizing carried taken estimated with
  | zero =>
    rintro w - fill hfill
    cases hfill
    exact h
  | succ slots ih =>
    refine meets_after (fun next => ?_) fun e s fill hfill => (by cases hfill)
    cases next with
    | none =>
      rintro w - fill hfill
      cases hfill
      exact h
    | some measured =>
      dsimp only
      split_ifs
      · exact fun w _ fill hfill => (by cases hfill)
      · exact fun w _ fill hfill => (by cases hfill)
      · rintro w - fill hfill
        cases hfill
        exact h
      · refine .bind (R := fun r _ => r = .ok () → Confirmed stream measured.row) ?_ (fun _ => ?_)
          fun e s _ fill hfill => (by cases hfill)
        · rintro w - hok
          cases happend : appendRow stream measured.row taken.length with
          | ok _ => exact confirmed_of_appendRow happend
          | error e => simp [conversion, happend, Except.mapError] at hok
        · intro w hrow
          refine ih none _ _ ?_ w trivial
          intro row hmem
          rcases List.mem_append.1 hmem with hmem | hmem
          · exact h row hmem
          · rw [List.mem_singleton.1 hmem]
            exact hrow rfl

theorem nextActiveBatch_confirmed (state : MysqlBatchStream) :
    Meets (fun _ => True) (nextActiveBatch stream env state)
      fun r _ => ∀ rows pending, r = .ok (some rows, pending) →
        ∀ row ∈ rows, Confirmed stream row := by
  have herror : ∀ (e : Stop) (s : World) rows (pending : Option MeasuredRow),
      (Except.error e : Except Stop (Option (List (List Value)) × Option MeasuredRow)) =
        .ok (some rows, pending) → ∀ row ∈ rows, Confirmed stream row :=
    fun e s rows pending hrows => (by cases hrows)
  refine meets_after (fun _ => meets_after (fun _ => meets_after (fun reservation =>
    meets_after (fun _ => ?_) herror) herror) herror) herror
  refine .bind (fillBatch_confirmed _ _ _ _ _ fun row hrow => absurd hrow List.not_mem_nil) ?_
    fun e s _ => herror e s
  intro fill
  by_cases hfill : ∀ row ∈ fill.1, Confirmed stream row
  swap
  · exact fun w h => absurd (h fill rfl) hfill
  refine Meets.conseq (P := fun _ => True) ?_ (fun _ _ => trivial) fun _ _ h => h
  split_ifs
  · exact meets_after (fun _ w _ rows pending hrows => (by cases hrows)) herror
  · refine meets_after (fun _ => meets_after (fun _ => meets_after (fun _ => meets_after (fun _ =>
      meets_after (fun _ => ?_) herror) herror) herror) herror) herror
    rintro w - rows pending hrows
    cases hrows
    exact hfill

/-- **Every row that a run delivers passed the checks.** -/
theorem confirmed_of_delivered (calls : List (Option Interruption)) (state : MysqlBatchStream)
    (w : World) : ∀ row ∈ delivered (run stream env calls state w).1, Confirmed stream row := by
  induction calls generalizing state w with
  | nil => exact fun row hrow => absurd hrow List.not_mem_nil
  | cons cancelled calls ih =>
    have hfirst : ∀ rows, (nextBatch stream env cancelled state w).1 = .ok (some rows) →
        ∀ row ∈ rows, Confirmed stream row := by
      intro rows hrows
      unfold nextBatch at hrows
      split at hrows
      · cases hrows
      · cases hrows
      split at hrows
      · cases hrows
      split at hrows
      next hbatch =>
        cases hrows
        have hmeets := @nextActiveBatch_confirmed stream env state w trivial
        rw [hbatch] at hmeets
        exact hmeets _ _ rfl
      · cases hrows
      · cases hrows
    rw [run]
    dsimp only
    rcases hr : (nextBatch stream env cancelled state w).1 with e | (_ | rows)
    · exact ih _ _
    · exact ih _ _
    · intro row hrow
      rcases List.mem_append.1 hrow with hrow | hrow
      · exact hfirst rows hr row hrow
      · exact ih _ _ row hrow

end Stream

section Rows

variable {profile : QueryProfile} {operation : QueryOperation} {plan : MysqlRenderedQuery}
variable {parts : List (List Column)} (hplan : PlanOf operation plan)
variable (hdescribes : Describes plan.statement.projection parts)

include hplan

/-- Where a check is made, the two countings agree from there on. -/
theorem PlanOf.whole_of_check (haligned : Aligned operation parts) {check : MysqlCrsCheck}
    (hcheck : check ∈ plan.crsChecks) :
    offset parts operation.projection.length = operation.projection.length := by
  rcases haligned with ⟨hnone, -⟩ | ⟨hwhole, -⟩
  · rw [hplan.no_checks hnone] at hcheck
    cases hcheck
  · exact hwhole

include hdescribes

theorem PlanOf.checks_of_aligned (haligned : Aligned operation parts) {check : MysqlCrsCheck}
    (hcheck : check ∈ plan.crsChecks) : ∃ i : Nat,
      plan.statement.projection[i]? = some (sridProjection check.column) ∧
        check.resultIndex = offset parts i := by
  have hwhole := hplan.whole_of_check haligned hcheck
  obtain ⟨k, hk⟩ := List.mem_iff_getElem?.1 hcheck
  refine ⟨operation.projection.length + k, hplan.check_part hk, ?_⟩
  rw [hplan.offset_check hdescribes (by
    have := (List.getElem?_eq_some_iff.1 hk).1
    omega), hwhole, hplan.appended.index k check hk]

theorem PlanOf.confirmed_of_aligned (haligned : Aligned operation parts) {p : QueryProjection}
    (hp : p ∈ operation.projection) {column : ColumnRef} {srid : UInt32}
    (hgeometry : computedGeometry operation p = some (column, srid)) {κ : Type}
    {scope : NameScope κ} {srids : κ → Value} {values : List (List Value)}
    (hanswers : AnswersRow scope srids plan.statement values)
    (hlengths : values.map List.length = parts.map List.length)
    {stream : BatchStream.Plan} (hstream : stream.crsChecks = plan.crsChecks)
    (hconfirm : Confirmed stream values.flatten) {key : κ}
    (hkey : scope.resolve column = some key) :
    srids key = .null ∨ sridOf (srids key) = some srid := by
  obtain ⟨check, hcheck, hcolumn, rfl⟩ := hplan.check hp hgeometry
  obtain ⟨i, hi, hindex⟩ := hplan.checks_of_aligned hdescribes haligned hcheck
  obtain ⟨rowCount, hconfirm⟩ := hconfirm
  rw [hstream] at hconfirm
  obtain ⟨value, hvalue, hsrid⟩ := confirmDeclaredCrs_eq_ok hconfirm hcheck
  obtain ⟨part, hpart, hone⟩ := hanswers.describes.part hi
  obtain ⟨key', hkey', rfl⟩ := hanswers.srids i _ _ part hi rfl hpart
  rw [hcolumn] at hkey'
  obtain rfl := NameScope.resolve_unqualified hkey hkey'
  have hget := getElem?_flatten_offset (t := 0) hpart (by simp)
  rw [Nat.add_zero, offset_congr hlengths, ← hindex, hvalue] at hget
  cases hget
  exact hsrid

end Rows

/-! ## Top theorem -/

/-- **A published plan keeps the caller's columns exactly where the two countings agree.** -/
theorem fromQueryColumns_keeps_iff [DecidableEq QueryExpression] {σ : Type}
    (profile : QueryProfile) (database : String) (render : QueryOperation → Result RenderedSql)
    (schemaOf : List MysqlColumnSpec → Result σ) (operation : QueryOperation)
    (plan : MysqlRenderedQuery) (parts : List (List Column)) (columns : List MysqlColumnSpec)
    (readPlan : MysqlReadPlan σ)
    (hrender : renderQueryPlan profile render operation database = .ok plan)
    (hdescribes : Describes plan.statement.projection parts)
    (hcolumns : queryResultColumns profile parts.flatten = .ok columns)
    (hread : fromQueryColumnsWithGeometry schemaOf profile columns plan = .ok readPlan) :
    Keeps profile operation plan parts readPlan ↔ Aligned operation parts := by
  have hplan := planOf_of_render hrender
  obtain ⟨rfl, hwire⟩ := queryResultColumns_eq_ok hcolumns
  have hpublished := hplan.published_getElem? hread
  have hchecks : readPlan.crsChecks = plan.crsChecks := by
    obtain ⟨_, -, hread⟩ := bind_eq_ok.1 hread
    obtain ⟨_, -, hread⟩ := bind_eq_ok.1 hread
    obtain ⟨_, -, hread⟩ := bind_eq_ok.1 hread
    cases hread
    rfl
  constructor
  · exact fun h => hplan.aligned_of_columns hdescribes hwire hpublished h.columns
  · intro haligned
    refine ⟨List.ext_getElem? fun j => ?_, fun check hcheck => ?_, fun p hp column srid hgeometry κ
      scope srids values hanswers hlengths hdelivered key hkey => ?_⟩
    · rw [hpublished, hplan.columns_of_aligned hdescribes hwire haligned]
    · rw [hchecks] at hcheck
      exact hplan.checks_of_aligned hdescribes haligned hcheck
    · obtain ⟨stream, env, calls, w, hstream, hmem⟩ := hdelivered
      exact hplan.confirmed_of_aligned hdescribes haligned hp hgeometry hanswers hlengths
        (hstream.trans hchecks) (confirmed_of_delivered calls _ w _ hmem) hkey

/-! ## Examples -/

/-- `SELECT * FROM orders` -/
def allOrders : QueryOperation := ordersQuery [⟨.wildcard none, none⟩]

def renderAll (_ : QueryOperation) : Result RenderedSql := .ok ⟨"SELECT * FROM orders", []⟩

def allPlan : MysqlRenderedQuery := ⟨⟨"SELECT * FROM orders", []⟩, [], [], 1, allOrders⟩

def intColumn (name : String) : Column where
  name := name
  columnType := .long
  columnLength := 11
  decimals := 0
  unsigned := false
  notNull := true
  enumFlag := false
  setFlag := false
  binary := true

/-- The two columns of the table. -/
def orderColumns : List (List Column) := [[intColumn "id", intColumn "amount"]]

def intSpec (name : String) : MysqlColumnSpec where
  name := name
  nativeType := "int"
  nativeDeclaration := ""
  nullable := false
  collation := none
  kind := .i32
  spatialSrid := none
  spatialSridDeclared := false

/-- What is published: the first column only. -/
def allReadPlan : MysqlReadPlan Unit := ⟨[intSpec "id"], [], (), "SELECT * FROM orders", []⟩

theorem allOrders_plan [DecidableEq QueryExpression] :
    renderQueryPlan mysqlQueryProfile renderAll allOrders "shop" = .ok allPlan := by
  have hvalid : validateQueryOperation defaultLimits allOrders = .ok () :=
    WorkStack.run_of_runWithin _ (show WorkStack.runWithin _ _ _ 5 _ _ = _ from rfl)
  have haggregate : containsAggregate (.wildcard none) = false := by
    rw [containsAggregate, walkQueryExpression, WorkStack.run_of_runWithin _
      (show WorkStack.runWithin _ _ _ 5 _ _ = _ from rfl)]
    rfl
  have hwindow : containsWindow (.wildcard none) = false := by
    rw [containsWindow, walkQueryExpression, WorkStack.run_of_runWithin _
      (show WorkStack.runWithin _ _ _ 5 _ _ = _ from rfl)]
    rfl
  have hgrouped : isGrouped allOrders = false := by
    show ((containsAggregate (.wildcard none) || false) || false || false || false) = false
    rw [haggregate]
    rfl
  have hwindows : ensureWindowInteractions allOrders false = .ok () := by
    refine if_neg ?_
    show ¬ (containsWindow (.wildcard none) || false) = true
    rw [hwindow]
    exact Bool.false_ne_true
  have hshape : ensureQualifiedShape mysqlQueryProfile "shop" allOrders = .ok () := by
    rw [ensureQualifiedShape, hgrouped]
    refine bind_eq_ok.2 ⟨(), rfl, bind_eq_ok.2 ⟨(), rfl, bind_eq_ok.2 ⟨["orders"], rfl, ?_⟩⟩⟩
    exact bind_eq_ok.2 ⟨(), rfl, bind_eq_ok.2 ⟨(), hwindows, rfl⟩⟩
  rw [renderQueryPlan, hvalid, ok_bind, hshape, ok_bind]
  rfl

theorem allOrders_described :
    queryResultColumns mysqlQueryProfile orderColumns.flatten =
      .ok [intSpec "id", intSpec "amount"] := by
  rfl

theorem allOrders_read :
    fromQueryColumnsWithGeometry (fun _ => .ok ()) mysqlQueryProfile
      [intSpec "id", intSpec "amount"] allPlan = .ok allReadPlan := by
  rfl

theorem allOrders_describes : Describes allPlan.statement.projection orderColumns :=
  .cons (fun h => absurd rfl (h none)) .nil

open Classical in
theorem fromQueryColumns_keeps_iff_allOrders :
    Keeps mysqlQueryProfile allOrders allPlan orderColumns allReadPlan ↔
      Aligned allOrders orderColumns :=
  fromQueryColumns_keeps_iff mysqlQueryProfile "shop" renderAll (fun _ => .ok ()) allOrders allPlan
    orderColumns _ allReadPlan allOrders_plan allOrders_describes allOrders_described allOrders_read

open Classical in
/-- **A wildcard of two columns publishes the first one.** -/
theorem allOrders_loses_column :
    renderQueryPlan mysqlQueryProfile renderAll allOrders "shop" = .ok allPlan ∧
      Describes allPlan.statement.projection orderColumns ∧
      queryResultColumns mysqlQueryProfile orderColumns.flatten =
        .ok [intSpec "id", intSpec "amount"] ∧
      fromQueryColumnsWithGeometry (fun _ => .ok ()) mysqlQueryProfile
        [intSpec "id", intSpec "amount"] allPlan = .ok allReadPlan ∧
      ¬ Keeps mysqlQueryProfile allOrders allPlan orderColumns allReadPlan := by
  refine ⟨allOrders_plan, allOrders_describes, allOrders_described, allOrders_read, fun h => ?_⟩
  have hlength : (callerColumns mysqlQueryProfile allOrders orderColumns).length = 2 := rfl
  rw [← h.columns] at hlength
  cases hlength

end Plenora.Mysql
