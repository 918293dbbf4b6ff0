import Plenora.Core.Arrow
import Plenora.Core.GeometryValue

/-!
# The inspection of a batch and of a row

Before a write the cells of a batch are measured: column by column for the whole batch, or a row at
a time where the rows are written one by one.

    inspectRow contract plan limits batch row : Result RowInspection
    inspectBatch contract plan limits batch : Result BatchInspection
-/

namespace Plenora.Sqlserver.Inspection

open Plenora.Lib Plenora.Core Plenora.Core.Arrow Plenora.Core.GeometryValue
open Plenora.Core.Ewkb (EwkbInspection)

/-! ## Data model -/

inductive SqlServerColumnKind where
  | bool | u8 | i16 | i32 | i64 | f32 | f64 | utf8 | binary | date | time | timestamp | timestampTz
  | decimal (precision : UInt8) (scale : Int8)
  | geometry | geography
  deriving DecidableEq

namespace SqlServerColumnKind

/-- The Arrow type `validate_arrow_type` asks of the field. -/
def arrowType : SqlServerColumnKind → DataType
  | .bool => .boolean
  | .u8 => .uint8
  | .i16 => .int16
  | .i32 => .int32
  | .i64 => .int64
  | .f32 => .float32
  | .f64 => .float64
  | .utf8 | .timestampTz => .utf8
  | .binary | .geometry | .geography => .binary
  | .date => .date32
  | .time => .time64 .microsecond
  | .timestamp => .timestamp .microsecond none
  | .decimal precision scale => .decimal128 precision scale

def isSpatial (kind : SqlServerColumnKind) : Bool := kind = .geometry || kind = .geography

/-- The bytes of a cell whose width is that of its kind. -/
def width : SqlServerColumnKind → Option Nat
  | .bool | .u8 => some 1
  | .i16 => some 2
  | .i32 | .f32 | .date => some 4
  | .i64 | .f64 | .time | .timestamp => some 8
  | .decimal _ _ => some 16
  | .utf8 | .binary | .timestampTz | .geometry | .geography => none

end SqlServerColumnKind

structure Field where
  name : String
  dataType : DataType
  nullable : Bool
  metadata : List (String × String)
  deriving DecidableEq

/-- The bytes of a value. -/
abbrev Bytes := {bytes : List UInt8 // bytes.length < 2 ^ 63}

def Bytes.length (value : Bytes) : Nat := value.1.length

/-- An array of a type; a NULL cell is `none`, and of a cell of fixed width the bytes do not
matter. -/
structure ArrayData where
  dataType : DataType
  cells : List (Option Bytes)

namespace ArrayData

def isNull (array : ArrayData) (row : Nat) : Bool := array.cells[row]? = some none

def nullCount (array : ArrayData) : Nat := array.cells.countP Option.isNone

/-- The value of a row, when it is not NULL. -/
def value (array : ArrayData) (row : Nat) : Option Bytes := array.cells[row]?.join

end ArrayData

structure RecordBatch where
  schema : List Field
  columns : List ArrayData
  numRows : Nat
  /-- What `get_array_memory_size` answers for each column. -/
  memory : List Nat
  typed : columns.map (·.dataType) = schema.map (·.dataType)
  lengths : ∀ array ∈ columns, array.cells.length = numRows

structure WriteColumnPlan where
  inputIndex : Nat
  kind : SqlServerColumnKind
  nullable : Bool
  deriving DecidableEq

/-- The columns are typed by the schema, and the keys are among them. -/
structure WritePlan where
  inputSchema : List Field
  columns : List WriteColumnPlan
  keyInputIndices : List Nat
  typed : ∀ column ∈ columns,
    inputSchema[column.inputIndex]?.map (·.dataType) = some column.kind.arrowType
  keys : ∀ index ∈ keyInputIndices, index < columns.length

/-- The limits of a cell, of the components of the geometries and of their nesting. -/
structure Limits where
  cell : Nat
  components : Nat
  depth : Nat
  bounded : components < 2 ^ 64

structure RowInspection where
  bytes : Nat
  geometryComponents : Nat
  deriving DecidableEq

structure BatchInspection where
  rows : Nat
  bytes : Nat
  geometryComponents : Nat
  deriving DecidableEq

def mappingError (message : String) : DatabaseError :=
  .new .dataMapping .write (some .sqlserver) message

/-! ## Cells -/

def downcast (array : ArrayData) (dataType : DataType) : Result (List (Option Bytes)) :=
  if array.dataType = dataType then .ok array.cells
  else .error (mappingError "array Arrow incompatibile col piano SQL Server")

def enforceCell (length limit : Nat) : Result Unit :=
  failIf (length > limit) (.resourceLimit "cella Arrow oltre il limite write SQL Server")

/-- `RecordBatch::column`; past the last column it would panic, and a plan does not ask for one. -/
def RecordBatch.column (batch : RecordBatch) (index : Nat) : Result ArrayData :=
  okOr batch.columns[index]? (mappingError "colonna oltre il batch")

section Inspection

-- what `FieldContract::parse` reads in the metadata of a field
variable (contract : Field → Result ValueContract) (plan : WritePlan) (limits : Limits)

/-- `verify_field_value`, with the field of a column. -/
def verifyFieldValue (column : WriteColumnPlan) (value : Bytes) (maxComponents : Nat) :
    Result EwkbInspection := do
  let field ← okOr plan.inputSchema[column.inputIndex]? (mappingError "campo oltre lo schema")
  let declared ← contract field
  verifyValue declared value.1 maxComponents limits.depth .write

/-! ## A row -/

def keyColumn (index : Nat) : Result WriteColumnPlan :=
  okOr plan.columns[index]? (mappingError "indice chiave SQL Server fuori dal piano compilato")

def inspectKeys (isNull : ArrayData → Bool) (batch : RecordBatch) : List Nat → Result Unit
  | [] => .ok ()
  | index :: indices => do
    let column ← keyColumn plan index
    let array ← batch.column column.inputIndex
    failIf (isNull array) (mappingError "NULL Arrow non ammesso in una chiave write SQL Server")
    inspectKeys isNull batch indices

/-- The value of a geometry column, against the limits. -/
def inspectGeometry (column : WriteColumnPlan) (geometryComponents : Nat) :
    Option Bytes → Result (Option Nat × Nat)
  | none => .ok (none, geometryComponents)
  | some value => do
    enforceCell value.length limits.cell
    let inspection ← verifyFieldValue contract plan limits column value limits.components
    let geometryComponents ← okOr (checkedAdd 64 geometryComponents inspection.stats.components)
      (.resourceLimit "componenti geometriche overflow")
    .ok (some value.length, geometryComponents)

/-- The bytes of a cell, where it is measured, and the components counted so far. -/
def inspectCell (array : ArrayData) (row : Nat) (column : WriteColumnPlan)
    (geometryComponents : Nat) : Result (Option Nat × Nat) :=
  match column.kind with
  | .utf8 | .timestampTz => do
    let _ ← downcast array .utf8
    .ok ((array.value row).map Bytes.length, geometryComponents)
  | .binary => do
    let _ ← downcast array .binary
    .ok ((array.value row).map Bytes.length, geometryComponents)
  | .geometry | .geography => do
    let _ ← downcast array .binary
    inspectGeometry contract plan limits column geometryComponents (array.value row)
  | .bool | .u8 => .ok (some 1, geometryComponents)
  | .i16 => .ok (some 2, geometryComponents)
  | .i32 | .f32 | .date => .ok (some 4, geometryComponents)
  | .i64 | .f64 | .time | .timestamp => .ok (some 8, geometryComponents)
  | .decimal _ _ => .ok (some 16, geometryComponents)

def measure (bytes : Nat) : Option Nat → Result Nat
  | none => .ok bytes
  | some valueBytes => do
    enforceCell valueBytes limits.cell
    okOr (checkedAdd 64 bytes valueBytes) (.resourceLimit "dimensione riga Arrow overflow")

def inspectCells (batch : RecordBatch) (row : Nat) :
    List WriteColumnPlan → RowInspection → Result RowInspection
  | [], inspection => .ok inspection
  | column :: columns, inspection => do
    let array ← batch.column column.inputIndex
    failIf (¬ column.nullable ∧ array.isNull row)
      (mappingError "NULL Arrow destinato a colonna SQL Server NOT NULL")
    let (valueBytes, geometryComponents) ←
      inspectCell contract plan limits array row column inspection.geometryComponents
    let bytes ← measure limits inspection.bytes valueBytes
    inspectCells batch row columns ⟨bytes, geometryComponents⟩

def inspectRow (batch : RecordBatch) (row : Nat) : Result RowInspection := do
  failIf (batch.schema ≠ plan.inputSchema ∨ row ≥ batch.numRows)
    (mappingError "riga Arrow incompatibile col piano preparato SQL Server")
  inspectKeys plan (fun array => array.isNull row) batch plan.keyInputIndices
  inspectCells contract plan limits batch row plan.columns ⟨0, 0⟩

/-! ## A batch -/

def enforceCells : List (Option Bytes) → Result Unit
  | [] => .ok ()
  | none :: cells => enforceCells cells
  | some value :: cells => do
    enforceCell value.length limits.cell
    enforceCells cells

/-- The values of a geometry column, each with the components the ones before leave. -/
def inspectGeometries (column : WriteColumnPlan) : List (Option Bytes) → Nat → Result Nat
  | [], geometryComponents => .ok geometryComponents
  | none :: cells, geometryComponents => inspectGeometries column cells geometryComponents
  | some value :: cells, geometryComponents => do
    enforceCell value.length limits.cell
    failIf (limits.components < geometryComponents)
      (.resourceLimit "budget componenti geometriche esaurito")
    let remaining := limits.components - geometryComponents
    failIf (remaining = 0) (.resourceLimit "budget componenti geometriche esaurito")
    let inspection ← verifyFieldValue contract plan limits column value remaining
    let geometryComponents ← okOr (checkedAdd 64 geometryComponents inspection.stats.components)
      (.resourceLimit "componenti geometriche overflow")
    inspectGeometries column cells geometryComponents

def inspectColumn (array : ArrayData) (column : WriteColumnPlan) (geometryComponents : Nat) :
    Result Nat :=
  match column.kind with
  | .utf8 => do
    let strings ← downcast array .utf8
    enforceCells limits strings
    .ok geometryComponents
  | .binary => do
    let binary ← downcast array .binary
    enforceCells limits binary
    .ok geometryComponents
  | .geometry | .geography => do
    let binary ← downcast array .binary
    inspectGeometries contract plan limits column binary geometryComponents
  | _ => .ok geometryComponents

def inspectColumns (batch : RecordBatch) : List WriteColumnPlan → Nat → Result Nat
  | [], geometryComponents => .ok geometryComponents
  | column :: columns, geometryComponents => do
    let array ← batch.column column.inputIndex
    failIf (¬ column.nullable ∧ array.nullCount > 0)
      (mappingError "NULL Arrow destinato a colonna SQL Server NOT NULL")
    let geometryComponents ← inspectColumn contract plan limits array column geometryComponents
    inspectColumns batch columns geometryComponents

def batchBytes : List Nat → Nat → Result Nat
  | [], total => .ok total
  | bytes :: sizes, total => do
    let total ← okOr (checkedAdd 64 total bytes) (.resourceLimit "dimensione batch Arrow overflow")
    batchBytes sizes total

def inspectBatch (batch : RecordBatch) : Result BatchInspection := do
  failIf (batch.schema ≠ plan.inputSchema)
    (mappingError "schema Arrow cambiato dopo prepare_write SQL Server")
  let bytes ← batchBytes batch.memory 0
  inspectKeys plan (fun array => array.nullCount > 0) batch plan.keyInputIndices
  let geometryComponents ← inspectColumns contract plan limits batch plan.columns 0
  .ok ⟨batch.numRows, bytes, geometryComponents⟩

end Inspection

end Plenora.Sqlserver.Inspection
