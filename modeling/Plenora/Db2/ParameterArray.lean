import Plenora.Db2.Parameter
import Plenora.Lib.Utf8

/-!
# The parameter array of Db2

An append binds its placeholders to columns of values; with row diagnostics each row binds its own
values.

    executeParameterArray dates timestamps rows described catalog : Filling
    bindDescribed dates timestamps values described catalog : Result (List Bound)
-/

namespace Plenora.Db2.ParameterArray

open Plenora.Lib Plenora.Lib.Utf8 Plenora.Core Plenora.Core.CastTable Plenora.Core.OperandAdmission
open Plenora.Db2.Parameter

/-- A column of an array, in the C type it is bound with. -/
inductive ArrayColumn where
  | double (values : List (Option UInt64))
  | binary (values : List (Option (List UInt8)))
  | text (values : List (Option (List Char)))
  deriving DecidableEq

def transactionError (category : ErrorCategory) (phase : ErrorPhase) (message : String) :
    DatabaseError :=
  .new category phase (some .db2) message

def arrayError (message : String) : DatabaseError := transactionError .dataMapping .write message

/-! ## Columns -/

def arrayText : ParameterValue → Result (Option (List Char))
  | .null _ => .ok none
  | .bool flag => .ok (some (boolText flag))
  | .i32 number => .ok (some (intText number.toInt))
  | .i64 number => .ok (some (intText number.toInt))
  | .string text | .date text | .timestamp text | .decimal text | .uuid text | .enum _ text =>
    .ok (some text.toList)
  | .f64 _ | .bytes _ | .timestampTz _ | .json _ | .wkb _ _ _ _ =>
    .error (arrayError "valore senza forma testuale esatta nel parameter-array Db2")

def mixed : DatabaseError := arrayError "colonna parameter-array Db2 con tipi misti"

def arrayDouble : ParameterValue → Result (Option UInt64)
  | .f64 bits => .ok (some bits)
  | .null _ => .ok none
  | _ => .error mixed

def arrayBinary : ParameterValue → Result (Option (List UInt8))
  | .bytes bytes => .ok (some bytes)
  | .null _ => .ok none
  | _ => .error mixed

def isDouble : ParameterValue → Bool
  | .f64 _ => true
  | _ => false

def isBytes : ParameterValue → Bool
  | .bytes _ => true
  | _ => false

/-- The values of a column: doubles as soon as one is, else bytes as soon as one is, else texts. -/
def encodeColumn (values : List ParameterValue) : Result ArrayColumn :=
  if values.any isDouble then (values.mapM arrayDouble).map .double
  else if values.any isBytes then (values.mapM arrayBinary).map .binary
  else (values.mapM arrayText).map .text

def validateRows (dates : String → Bool) (timestamps : String → Option Moment) :
    List (List ParameterValue) → Result Unit
  | [] => .ok ()
  | row :: rows => do
    validate dates timestamps row
    validateRows dates timestamps rows

/-- The values of a column; a row is as long as the columns are many. -/
def columnOf (rows : List (List ParameterValue)) (column : Nat) : List ParameterValue :=
  rows.filterMap fun row => row[column]?

def encode (dates : String → Bool) (timestamps : String → Option Moment)
    (rows : List (List ParameterValue)) (columns : Nat) : Result (List ArrayColumn) := do
  validateRows dates timestamps rows
  (List.range columns).mapM fun column => encodeColumn (columnOf rows column)

def ArrayColumn.isBinary : ArrayColumn → Bool
  | .binary _ => true
  | _ => false

def isBinaryOperand : OperandType → Bool
  | .binary _ _ => true
  | _ => false

/-! ## Buffers -/

/-- The buffer of a column, with the bytes that a cell of it has room for. -/
inductive BufferDesc where
  | f64
  | binary (maxBytes : Nat)
  | text (maxStrLen : Nat)

structure BindParamDesc where
  bufferDesc : BufferDesc
  dataType : DataType

/-- The longest of the values that are not NULL, and at least one. -/
def room (lengths : List Nat) : Nat := max (lengths.max?.getD 1) 1

def ArrayColumn.bufferDesc : ArrayColumn → BufferDesc
  | .double _ => .f64
  | .binary values => .binary (room ((values.filterMap id).map List.length))
  | .text values => .text (room ((values.filterMap id).map fun text => (utf8 text).length))

/-- The buffers: as many targets, and bytes exactly in the binary ones. -/
def descriptions (columns : List ArrayColumn) (targets : List DataType) :
    Result (List BindParamDesc) := do
  failIf (targets.length ≠ columns.length)
    (arrayError "descrittori parameter-array Db2 incompleti")
  failIf ((columns.zip targets).any fun entry =>
      entry.1.isBinary ≠ isBinaryOperand (operandOf entry.2))
    (arrayError "buffer e target binario discordi nel parameter-array Db2")
  .ok ((columns.zip targets).map fun entry => ⟨entry.1.bufferDesc, entry.2⟩)

/-- What comes of filling the buffers; `set_cell` panics on a value its cell has no room for. -/
inductive Filling where
  | filled (columns : List ArrayColumn)
  | refused (error : DatabaseError)
  | panics

/-- The buffer of one column, if there is one of its kind; whether its cells have the room. -/
def fillColumn (desc : BufferDesc) : ArrayColumn → Result Bool
  | .double _ =>
    match desc with
    | .f64 => .ok true
    | _ => .error (arrayError "buffer double Db2 non disponibile")
  | .binary values =>
    match desc with
    | .binary maxBytes => .ok ((values.filterMap id).all fun value => value.length ≤ maxBytes)
    | _ => .error (arrayError "buffer binario Db2 non disponibile")
  | .text values =>
    match desc with
    | .text maxStrLen => .ok ((values.filterMap id).all fun text => (utf8 text).length ≤ maxStrLen)
    | _ => .error (arrayError "buffer testo Db2 non disponibile")

/-- One more column is filled, if those behind it are. -/
def Filling.cons (column : ArrayColumn) : Filling → Filling
  | .filled columns => .filled (column :: columns)
  | filling => filling

/-- `fill`, column by column, into buffers made from the descriptions. -/
def fill : List (BindParamDesc × ArrayColumn) → Filling
  | [] => .filled []
  | (desc, column) :: rest =>
    match fillColumn desc.bufferDesc column with
    | .error e => .refused e
    | .ok true => (fill rest).cons column
    | .ok false => .panics

/-! ## Statements -/

section Statements

variable (dates : String → Bool) (timestamps : String → Option Moment)

/-- `text_operands`: an answer for each placeholder. -/
def textOperands (catalog : Nat → Option OperandType) (count : Nat) : List (Option OperandType) :=
  (List.range count).map catalog

def arity : DatabaseError := transactionError .invalidPlan .prepare
  "numero di parametri Db2 diverso dai segnaposto"

def admitRow (described : List DataType) (catalog : List (Option OperandType))
    (row : List ParameterValue) : Result (List ParameterValue) := do
  failIf (row.length ≠ described.length) arity
  ((row.zip described).zip catalog).mapM fun entry =>
    admitWithCatalog dates timestamps entry.1.1 entry.1.2 entry.2

/-- The columns and their buffers, with the types the server describes and what the catalog
answers; none for no row. -/
def describedArray (rows : List (List ParameterValue)) (described : List DataType)
    (catalog : Nat → Option OperandType) : Result (List ArrayColumn × List BindParamDesc) :=
  match rows with
  | [] => .ok ([], [])
  | first :: _ => do
    let columns := first.length
    failIf (columns = 0 ∨ ¬ rows.all fun row => row.length = columns)
      (transactionError .invalidPlan .write "parameter-array Db2 con arita incoerente")
    let _ ← encode dates timestamps rows columns
    let admitted ← rows.mapM (admitRow dates timestamps described (textOperands catalog columns))
    let encoded ← encode dates timestamps admitted columns
    let descs ← descriptions encoded (described.take columns)
    .ok (encoded, descs)

/-- The buffers that are sent. -/
def executeParameterArray (rows : List (List ParameterValue)) (described : List DataType)
    (catalog : Nat → Option OperandType) : Filling :=
  match describedArray dates timestamps rows described catalog with
  | .ok (columns, descs) => fill (descs.zip columns)
  | .error e => .refused e

/-- The values of one row, bound by themselves. -/
def bindDescribed (values : List ParameterValue) (described : List DataType)
    (catalog : Nat → Option OperandType) : Result (List Bound) := do
  failIf (described.length ≠ values.length) arity
  let catalog := if described.any fun kind => isText (operandOf kind) then
    textOperands catalog values.length else List.replicate values.length none
  ((values.zip described).zip catalog).mapM fun entry =>
    bindWithCatalog dates timestamps entry.1.1 entry.1.2 entry.2

end Statements

end Plenora.Db2.ParameterArray
