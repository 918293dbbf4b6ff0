import Plenora.Mysql.BatchStream
import Plenora.Mysql.QueryShape

/-!
# The plan of a MySQL query

`render_query_plan` finds the geometries a query computes, gives each the CRS
declared for its source column and appends one `ST_SRID` projection for each such
column; `from_query_columns_with_geometry` puts the contracts on the columns the
server describes and cuts the list where the caller's columns should end.
-/

namespace Plenora.Mysql

open Plenora.Lib Plenora.Core
open BatchStream (MysqlCrsCheck)

/-! ## Rendered queries -/

structure RenderedSql where
  sql : String
  binds : List String

/-- A computed geometry: its projection, and the CRS it is published in. -/
structure MysqlQueryGeometry where
  resultIndex : Nat
  srid : UInt32
  deriving DecidableEq, Repr

structure MysqlRenderedQuery where
  rendered : RenderedSql
  geometries : List MysqlQueryGeometry
  crsChecks : List MysqlCrsCheck
  visibleColumns : Nat
  /-- The operation `rendered` is the text of (ghost). -/
  statement : QueryOperation

structure ResolvedGeometry where
  resultIndex : Nat
  sourceColumn : String
  srid : UInt32
  deriving DecidableEq, Repr

/-- The CRS declared by column. -/
abbrev DeclaredMap := List (String × UInt32)

def declareCrs (profile : QueryProfile) (declared : DeclaredMap) (entry : DeclaredCrs) :
    Result DeclaredMap := do
  ensureIdentifier entry.column
  failIf (entry.srid = 0) (prepareError .crs
    s!"CRS dichiarato {profile.product} pari a zero: e l'indefinito OGC, non un sistema")
  failIf (declared.lookup entry.column ≠ none) (prepareError .crs
    s!"colonna {profile.product} con due CRS dichiarati: la fonte sarebbe ambigua")
  .ok ((entry.column, entry.srid) :: declared)

def declaredQueryCrs (profile : QueryProfile) (operation : QueryOperation) : Result DeclaredMap :=
  operation.declaredCrs.foldlM (declareCrs profile) []

/-- The arguments a frame can come from. -/
def geometryArguments (function : SpatialFunction) (arguments : List QueryExpression) :
    List QueryExpression :=
  (arguments.zipIdx.filter fun argument => function.takesGeometryAt argument.2).map (·.1)

/-- The column of a single geometry argument. -/
def sourceColumn : List QueryExpression → Option ColumnRef
  | [.column column] => some column
  | _ => none

/-- The geometry of one projection, if it computes one. -/
def resolveGeometry (profile : QueryProfile) (operation : QueryOperation) (declared : DeclaredMap)
    (index : Nat) (projection : QueryProjection) : Result (Option ResolvedGeometry) :=
  match projection.expression with
  | .spatial function arguments =>
    if function.returnsGeometry then do
      failIf (operation.groupBy ≠ [] ∨ operation.distinct = true) (prepareError .unsupported
        (s!"geometria calcolata {profile.product} in una query raggruppata o DISTINCT: la " ++
          "conferma del CRS non e esprimibile in questa forma"))
      failIf (function.crsRule ≠ some .preserves) (prepareError .unsupported
        (s!"geometria calcolata {profile.product}: la regola di CRS di questa funzione non e " ++
          "«preserves», e nessuna misura ha ancora attraversato le altre"))
      let column ← okOr (sourceColumn (geometryArguments function arguments)) (prepareError .crs
        (s!"geometria calcolata {profile.product} su un argomento che non e una colonna: non " ++
          "c'e un CRS dichiarato da ereditare"))
      let srid ← okOr (declared.lookup column.field) (prepareError .crs
        (s!"geometria calcolata {profile.product} senza CRS dichiarato per la colonna " ++
          "d'ingresso: il contratto GeoArrow ne pubblica uno, e inventarlo sarebbe " ++
          "l'unico esito peggiore del rifiuto"))
      .ok (some ⟨index, column.field, srid⟩)
    else .ok none
  | _ => .ok none

def resolveQueryGeometries (profile : QueryProfile) (operation : QueryOperation)
    (declared : DeclaredMap) : Result (List ResolvedGeometry) := do
  let resolved ← operation.projection.zipIdx.mapM fun projection =>
    resolveGeometry profile operation declared projection.2 projection.1
  .ok (resolved.filterMap id)

/-- The unqualified `ST_SRID` of a column, without a name. -/
def sridProjection (column : String) : QueryProjection where
  expression := .spatial .srid [.column ⟨none, column⟩]
  aliasName := none

/-- One turn: a check for a source column not seen before. -/
def appendCrsCheck (checked : QueryOperation × List MysqlCrsCheck) (geometry : ResolvedGeometry) :
    QueryOperation × List MysqlCrsCheck :=
  if checked.2.any (·.column == geometry.sourceColumn) then checked
  else
    ({ checked.1 with projection := checked.1.projection ++ [sridProjection geometry.sourceColumn] },
      checked.2 ++ [⟨checked.1.projection.length, geometry.sourceColumn, geometry.srid⟩])

section Plan

variable [DecidableEq QueryExpression] (profile : QueryProfile)

def appendCrsChecks (operation : QueryOperation) (geometries : List ResolvedGeometry) :
    Result (QueryOperation × List MysqlCrsCheck) := do
  failIf (.srid ∉ profile.verifiedSpatialFunctions) (unsupported
    s!"conferma del CRS {profile.product} impossibile: ST_SRID non e fra le funzioni qualificate")
  let checked := geometries.foldl appendCrsCheck (operation, [])
  validateQueryOperation defaultLimits checked.1
  .ok checked

/-- **The plan**; `render` writes the text of an operation. -/
def renderQueryPlan (render : QueryOperation → Result RenderedSql) (operation : QueryOperation)
    (database : String) : Result MysqlRenderedQuery := do
  validateQueryOperation defaultLimits operation
  ensureQualifiedShape profile database operation
  let declared ← declaredQueryCrs profile operation
  let geometries ← resolveQueryGeometries profile operation declared
  if geometries = [] then do
    let rendered ← render operation
    .ok ⟨rendered, [], [], operation.projection.length, operation⟩
  else do
    let checked ← appendCrsChecks profile operation geometries
    let rendered ← render checked.1
    .ok ⟨rendered, geometries.map fun geometry => ⟨geometry.resultIndex, geometry.srid⟩, checked.2,
      operation.projection.length, checked.1⟩

end Plan

/-! ## The columns the server describes -/

inductive ColumnType where
  | tiny | short | year | int24 | long | longLong | float | double | decimal | newDecimal | date
  | newDate | time | time2 | dateTime | dateTime2 | timestamp | timestamp2 | json | bit | enum | set
  | string | varChar | varString | tinyBlob | mediumBlob | longBlob | blob | geometry
  | other (name : String)
  deriving DecidableEq, Repr

/-- A column of a prepared statement. -/
structure Column where
  name : String
  columnType : ColumnType
  columnLength : UInt32
  decimals : UInt8
  unsigned : Bool
  notNull : Bool
  enumFlag : Bool
  setFlag : Bool
  /-- The character set is the binary one. -/
  binary : Bool
  deriving DecidableEq, Repr

inductive MysqlColumnKind where
  | bool | i8 | u8 | i16 | u16 | i32 | u32 | i64 | u64 | f32 | f64 | utf8 | binary | date | time
  | timestamp | decimal (precision scale : Nat) | geometry
  deriving DecidableEq, Repr

structure MysqlColumnSpec where
  name : String
  nativeType : String
  nativeDeclaration : String
  nullable : Bool
  collation : Option String
  kind : MysqlColumnKind
  spatialSrid : Option UInt32
  spatialSridDeclared : Bool
  deriving DecidableEq, Repr

def tinyKind (column : Column) : MysqlColumnKind :=
  if column.unsigned then .u8 else if column.columnLength = 1 then .bool else .i8

def textKind (column : Column) (text blob : String) : MysqlColumnKind × String :=
  if column.binary then (.binary, blob)
  else if column.enumFlag then (.utf8, "enum")
  else if column.setFlag then (.utf8, "set")
  else (.utf8, text)

def decimalKind (product : String) (column : Column) : Result MysqlColumnKind := do
  failIf (127 < column.decimals.toNat)
    (prepareError .unsupported s!"scala decimal {product} non rappresentabile")
  let scale := column.decimals.toNat
  let separators := (if column.unsigned then 0 else 1) + if 0 < scale then 1 else 0
  failIf (column.columnLength.toNat < separators ∨ 255 < column.columnLength.toNat - separators)
    (prepareError .unsupported s!"precisione decimal {product} non ricostruibile dai metadati")
  let precision := column.columnLength.toNat - separators
  failIf (precision = 0 ∨ 38 < precision ∨ precision < scale)
    (prepareError .unsupported s!"decimal {product} oltre Decimal128 Arrow")
  .ok (.decimal precision scale)

def wireKind (product : String) (column : Column) : Result (MysqlColumnKind × String) :=
  match column.columnType with
  | .tiny => .ok (tinyKind column, "tinyint")
  | .short => .ok (if column.unsigned then .u16 else .i16, "smallint")
  | .year => .ok (.i16, "year")
  | .int24 => .ok (if column.unsigned then .u32 else .i32, "mediumint")
  | .long => .ok (if column.unsigned then .u32 else .i32, "int")
  | .longLong => .ok (if column.unsigned then .u64 else .i64, "bigint")
  | .float => .ok (.f32, "float")
  | .double => .ok (.f64, "double")
  | .decimal | .newDecimal => do
    let kind ← decimalKind product column
    .ok (kind, "decimal")
  | .date | .newDate => .ok (.date, "date")
  | .time | .time2 => .ok (.time, "time")
  | .dateTime | .dateTime2 => .ok (.timestamp, "datetime")
  | .timestamp | .timestamp2 => .ok (.timestamp, "timestamp")
  | .json => .ok (.utf8, "json")
  | .bit => .ok (.binary, "bit")
  | .enum => .ok (.utf8, "enum")
  | .set => .ok (.utf8, "set")
  | .string => .ok (textKind column "char" "binary")
  | .varChar | .varString => .ok (textKind column "varchar" "varbinary")
  | .tinyBlob => .ok (textKind column "tinytext" "tinyblob")
  | .mediumBlob => .ok (textKind column "mediumtext" "mediumblob")
  | .longBlob => .ok (textKind column "longtext" "longblob")
  | .blob => .ok (textKind column "text" "blob")
  | .geometry => .error (unsupported (s!"colonna geometrica {product} non incapsulata nel path " ++
      "query: nessun CRS dimostrabile"))
  | .other name =>
    .error (unsupported s!"tipo wire {product} non qualificato nel result set: {name}")

def wireColumnSpec (profile : QueryProfile) (column : Column) : Result MysqlColumnSpec := do
  failIf (column.name = "" ∨ '\x00' ∈ column.name.toList) (prepareError .schema
    s!"colonna di output {profile.product} senza nome utilizzabile")
  let kind ← wireKind profile.product column
  .ok { name := column.name, nativeType := kind.2, nativeDeclaration := "",
        nullable := !column.notNull, collation := none, kind := kind.1, spatialSrid := none,
        spatialSridDeclared := false }

/-- The specification of a column, its name not among those before it. -/
def nextColumn (profile : QueryProfile) (names : List String) (column : Column) :
    Result MysqlColumnSpec := do
  let specification ← wireColumnSpec profile column
  failIf (specification.name ∈ names)
    (prepareError .schema s!"QueryOperation {profile.product} con nomi colonna duplicati")
  .ok specification

def resultColumns (profile : QueryProfile) : List String → List Column →
    Result (List MysqlColumnSpec)
  | _, [] => .ok []
  | names, column :: columns => do
    let specification ← nextColumn profile names column
    let rest ← resultColumns profile (specification.name :: names) columns
    .ok (specification :: rest)

def queryResultColumns (profile : QueryProfile) (columns : List Column) :
    Result (List MysqlColumnSpec) := do
  failIf (columns = [])
    (prepareError .schema s!"QueryOperation {profile.product} senza colonne risultanti")
  resultColumns profile [] columns

/-! ## The read plan -/

structure MysqlReadPlan (σ : Type) where
  columns : List MysqlColumnSpec
  crsChecks : List MysqlCrsCheck
  schema : σ
  sql : String
  bindNames : List String

/-- The column as the geometry contract describes it. -/
def MysqlColumnSpec.asGeometry (column : MysqlColumnSpec) (srid : UInt32) : MysqlColumnSpec :=
  { column with
    kind := .geometry, nativeType := "geometry", spatialSrid := some srid,
    spatialSridDeclared := true }

def setGeometry (profile : QueryProfile) (columns : List MysqlColumnSpec)
    (geometry : MysqlQueryGeometry) : Result (List MysqlColumnSpec) := do
  let column ← okOr columns[geometry.resultIndex]? (prepareError .schema
    s!"result set {profile.product} piu corto della projection del piano")
  failIf (column.kind ≠ .binary) (prepareError .crs
    (s!"geometria calcolata {profile.product} non incapsulata: il piano e il renderer " ++
      "descrivono result set diversi"))
  .ok (columns.set geometry.resultIndex (column.asGeometry geometry.srid))

/-- `contract_schema` of the fields of the columns is `schemaOf`. -/
def fromQueryColumnsWithGeometry {σ : Type} (schemaOf : List MysqlColumnSpec → Result σ)
    (profile : QueryProfile) (columns : List MysqlColumnSpec) (plan : MysqlRenderedQuery) :
    Result (MysqlReadPlan σ) := do
  failIf (columns = []) (prepareError .schema "QueryOperation priva di colonne risultanti")
  let columns ← plan.geometries.foldlM (setGeometry profile) columns
  let columns := if plan.visibleColumns < columns.length then columns.take plan.visibleColumns
    else columns
  let schema ← schemaOf columns
  .ok ⟨columns, plan.crsChecks, schema, plan.rendered.sql, plan.rendered.binds⟩

end Plenora.Mysql
