import Mathlib
import Plenora.Core.Error

/-!
# Arrow batches

The Arrow types the write guards look into, with the values each holds, and
batches typed by their schema: a cell of another type than its column's cannot
be written down.
-/

namespace Plenora.Core.Arrow

inductive TimeUnit where
  | second | millisecond | microsecond | nanosecond
  deriving DecidableEq, Repr

/-- Arrow types; `other` stands for every type no guard looks into (nested, dictionary, view,
interval types and the like). -/
inductive DataType where
  | boolean
  | int8 | int16 | int32 | int64 | uint8 | uint16 | uint32 | uint64
  | float32 | float64
  | utf8 | largeUtf8 | binary | largeBinary | fixedSizeBinary (size : Nat)
  | date32 | date64 | time32 (unit : TimeUnit) | time64 (unit : TimeUnit)
  | timestamp (unit : TimeUnit) (timezone : Option String)
  | decimal128 (precision : UInt8) (scale : Int8)
  | other (name : String)
  deriving DecidableEq, Repr

/-- The value a cell of a type holds when it is not NULL. -/
abbrev DataType.Native : DataType → Type
  | .boolean => Bool
  | .int8 | .uint8 => BitVec 8
  | .int16 | .uint16 => BitVec 16
  | .int32 | .uint32 | .date32 | .time32 _ => BitVec 32
  | .int64 | .uint64 | .date64 | .time64 _ | .timestamp _ _ => BitVec 64
  | .float32 => UInt32
  | .float64 => UInt64
  | .utf8 | .largeUtf8 => String
  | .binary | .largeBinary => List UInt8
  | .fixedSizeBinary size => { bytes : List UInt8 // bytes.length = size }
  | .decimal128 _ _ => BitVec 128
  | .other _ => Unit

structure Field where
  name : String
  dataType : DataType
  deriving DecidableEq, Repr

abbrev Schema := List Field

/-- A cell of a column; `none` is NULL. -/
abbrev Cell (schema : Schema) (i : Fin schema.length) := Option (schema.get i).dataType.Native

/-- One row of a batch: a cell for each field of the schema. -/
abbrev BatchRow (schema : Schema) := (i : Fin schema.length) → Cell schema i

/-- A batch of a stream with this schema. -/
structure RecordBatch (schema : Schema) where
  rows : List (BatchRow schema)

/-- The first field with this name. -/
def Schema.indexOf (schema : Schema) (name : String) : Option (Fin schema.length) :=
  List.findFinIdx? (·.name == name) schema

/-- The UTF-8 bytes of a text. -/
def utf8Bytes (text : String) : List UInt8 := text.toUTF8.data.toList

theorem utf8Bytes_inj {a b : String} : utf8Bytes a = utf8Bytes b ↔ a = b := by
  refine ⟨fun h => ?_, fun h => h ▸ rfl⟩
  apply String.toByteArray_inj.1
  exact ByteArray.ext (Array.toList_inj.1 h)

end Plenora.Core.Arrow
