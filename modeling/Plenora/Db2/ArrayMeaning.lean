import Plenora.Core.ExactAdmission
import Plenora.Db2.ParameterArray
import Plenora.Lib.Outcome

/-!
# What a bound value and a cell of an array denote

What an operand admits is of one kind.

    admitValue provider v operand = .ok v' → Fits operand v'        (fits_accept)
-/

namespace Plenora.Db2.ParameterArray

open Plenora.Lib Plenora.Lib.Decimal Plenora.Core Plenora.Core.CastTable
open Plenora.Core.OperandAdmission Plenora.Core.ParameterFidelity Plenora.Db2.Parameter

/-! ## What a bound value stands for -/

/-- What a text stands for in a column of the type. -/
def textDenotes (operand : OperandType) (text : List Char) : Denotation :=
  match operand with
  | .text _ _ _ _ => .text (.ofList text)
  | .boolean => .number (if text = boolText true then 1 else 0)
  | .date | .timestamp _ => .moment (momentOf text)
  | _ =>
    match DecimalLiteral.ofText text with
    | some literal => .number literal.value
    | none => .text (.ofList text)

def boundDenotes (operand : OperandType) : Bound → Denotation
  | .nullBytes | .nullText => .null
  | .text text => textDenotes operand text
  | .i64 number => .number number.toInt
  | .f32 bits => doubleOf (Ieee.widen bits)
  | .f64 bits => doubleOf bits
  | .bytes bytes => .bytes bytes

/-- A cell of the buffers. -/
def cellDenotes (operand : OperandType) (row : Nat) : ArrayColumn → Option Denotation
  | .double values => values[row]?.map fun cell => (cell.map doubleOf).getD .null
  | .binary values => values[row]?.map fun cell => (cell.map Denotation.bytes).getD .null
  | .text values => values[row]?.map fun cell => (cell.map (textDenotes operand)).getD .null

/-! ## Kinds -/

/-- The operands a described type has. -/
def isDescribed : OperandType → Bool
  | .scaledFloat _ _ _ | .roundedDecimal _ _ | .timestampTz _ | .uuid | .json | .enumeration => false
  | _ => true

/-- The kind of value an operand admits. -/
def Fits : OperandType → ParameterValue → Prop
  | _, .null _ => True
  | .boolean, .bool _ => True
  | .integer _ _, .i32 _ => True
  | .integer _ _, .i64 _ => True
  | .decimal _ _, .i32 _ => True
  | .decimal _ _, .i64 _ => True
  | .decimal _ _, .decimal _ => True
  | .unboundedDecimal _, .i32 _ => True
  | .unboundedDecimal _, .i64 _ => True
  | .unboundedDecimal _, .decimal _ => True
  | .float _, .f64 _ => True
  | .text _ _ _ _, .string _ => True
  | .binary _ _, .bytes _ => True
  | .date, .date _ => True
  | .timestamp _, .timestamp _ => True
  | _, _ => False

theorem isDescribed_decimalOf (precision scale : Option UInt32) :
    isDescribed (decimalOf precision scale) = true := by
  unfold decimalOf
  split <;> rfl

theorem isDescribed_timestampOperand (precision : Int) :
    isDescribed (timestampOperand precision) = true := by
  unfold timestampOperand
  generalize toU32 precision = p
  cases p <;> rfl

theorem isDescribed_otherOperand (dataType : Int) (columnSize : Option UInt64) :
    isDescribed (otherOperand dataType columnSize) = true := by
  unfold otherOperand
  generalize (columnSize.bind fun size => toU32 size.toNat).getD 34 = digits
  split_ifs <;> rfl

theorem isDescribed_operandOf (described : DataType) :
    isDescribed (operandOf described) = true := by
  cases described with
  | decimal precision scale =>
    unfold operandOf decimalOperand
    exact isDescribed_decimalOf _ _
  | numeric precision scale =>
    unfold operandOf decimalOperand
    exact isDescribed_decimalOf _ _
  | timestamp precision => exact isDescribed_timestampOperand precision
  | other dataType columnSize => exact isDescribed_otherOperand dataType columnSize
  | _ => rfl

theorem fits_admitText {provider : ProviderKind} {text : String} {length : Option UInt64}
    {padded : Bool} {unit : LengthUnit} {charset : Charset} {v' : ParameterValue}
    (h : admitText provider text length unit charset = .ok v') :
    Fits (.text length padded unit charset) v' := by
  unfold admitText at h
  obtain ⟨-, -, h⟩ := bind_eq_ok.1 h
  obtain ⟨-, -, h⟩ := bind_eq_ok.1 h
  cases h
  trivial

theorem fits_admitInteger {provider : ProviderKind} {v v' : ParameterValue} {n : Int}
    {operand : OperandType} (hd : isDescribed operand = true)
    (hv : (∃ k, v = .i32 k) ∨ ∃ k, v = .i64 k)
    (h : admitInteger provider v n operand = .ok v') : Fits operand v' := by
  unfold admitInteger at h
  split at h
  all_goals first | contradiction | split at h
  all_goals first | contradiction | cases h
  all_goals first | trivial | rcases hv with ⟨k, rfl⟩ | ⟨k, rfl⟩ <;> trivial

theorem fits_admitExact {provider : ProviderKind} {exact : ExactDecimal} {v' : ParameterValue}
    {operand : OperandType} (hd : isDescribed operand = true)
    (h : admitExact provider exact operand = .ok v') : Fits operand v' := by
  unfold admitExact at h
  split at h
  next =>
    rw [okOr_eq_ok] at h
    obtain ⟨n, -, rfl⟩ := Option.map_eq_some_iff.1 h
    trivial
  all_goals first | contradiction | split at h
  all_goals first | contradiction | (cases h; trivial)

theorem fits_admitMidnight {provider : ProviderKind} {text : String} {v' : ParameterValue}
    (h : admitMidnight provider text = .ok v') : Fits .date v' := by
  unfold admitMidnight at h
  generalize temporalParts text.toList = parts at h
  obtain ⟨date, time, fraction⟩ := parts
  dsimp only at h
  split at h
  next =>
    cases h
    trivial
  next => contradiction

theorem fits_admitDouble {provider : ProviderKind} {bits : UInt64} {v' : ParameterValue}
    {operand : OperandType} (hd : isDescribed operand = true)
    (h : admitDouble provider bits operand = .ok v') : Fits operand v' := by
  unfold admitDouble at h
  split at h
  next =>
    split at h
    next => cases h; trivial
    next => contradiction
  next =>
    split at h
    next => contradiction
    next =>
      split at h
      next => cases h; trivial
      next => contradiction
    next =>
      obtain ⟨-, -, h⟩ := bind_eq_ok.1 h
      obtain ⟨exact, -, h⟩ := bind_eq_ok.1 h
      exact fits_admitExact hd h

theorem fits_admitDecimal {provider : ProviderKind} {text : String} {v' : ParameterValue}
    {operand : OperandType} (hd : isDescribed operand = true)
    (h : admitDecimal provider text operand = .ok v') : Fits operand v' := by
  unfold admitDecimal at h
  obtain ⟨exact, -, h⟩ := bind_eq_ok.1 h
  split at h
  next =>
    rw [okOr_eq_ok] at h
    obtain ⟨bits, -, rfl⟩ := Option.map_eq_some_iff.1 h
    trivial
  next => contradiction
  next => exact fits_admitText h
  next => exact fits_admitExact hd h

/-- **An operand admits values of one kind.** -/
theorem fits_accept {provider : ProviderKind} {v v' : ParameterValue} {operand : OperandType}
    (hd : isDescribed operand = true) (h : admitValue provider v operand = .ok v') :
    Fits operand v' := by
  obtain ⟨hform, hc⟩ := admit_eq_ok.1 h
  cases v with
  | null typeName =>
    have hv : v' = .null typeName := by
      cases operand <;> exact (Except.ok.inj hc).symm
    subst hv
    trivial
  | bool flag =>
    cases operand with
    | boolean =>
      cases hc
      trivial
    | integer min max =>
      rw [admitChecked_bool_integer] at hc
      split at hc
      next => cases hc; trivial
      next => contradiction
    | decimal precision scale =>
      rw [admitChecked_bool_decimal] at hc
      split at hc
      next => cases hc; trivial
      next => contradiction
    | _ => contradiction
  | i32 number =>
    refine @fits_admitInteger provider (.i32 number) v' number.toInt operand hd (.inl ⟨_, rfl⟩) ?_
    cases operand <;> first | exact hc | contradiction
  | i64 number =>
    refine @fits_admitInteger provider (.i64 number) v' number.toInt operand hd (.inr ⟨_, rfl⟩) ?_
    cases operand <;> first | exact hc | contradiction
  | f64 bits =>
    refine @fits_admitDouble provider bits v' operand hd ?_
    cases operand <;> first | exact hc | contradiction
  | decimal text =>
    refine @fits_admitDecimal provider text v' operand hd ?_
    cases operand <;> first | exact hc | contradiction
  | date text =>
    cases operand with
    | date =>
      cases hc
      trivial
    | timestamp digits =>
      cases hc
      trivial
    | text length padded unit charset => exact fits_admitText hc
    | _ => contradiction
  | timestamp text =>
    obtain ⟨⟨⟩, hvalid, hmicro⟩ := bind_eq_ok.1 hform
    rw [failIf_eq_ok, not_not] at hvalid
    cases operand with
    | date =>
      exact fits_admitMidnight hc
    | timestamp digits =>
      rw [admitChecked_timestamp] at hc
      obtain ⟨rfl, -⟩ := admitFraction_eq hvalid hmicro hc
      trivial
    | text length padded unit charset => exact fits_admitText hc
    | _ => contradiction
  | timestampTz text =>
    cases operand with
    | timestampTz digits => cases hd
    | text length padded unit charset => exact fits_admitText hc
    | _ => contradiction
  | string text =>
    cases operand with
    | text length padded unit charset => exact fits_admitText hc
    | enumeration => cases hd
    | _ => contradiction
  | uuid text =>
    cases operand with
    | uuid => cases hd
    | text length padded unit charset => exact fits_admitText hc
    | _ => contradiction
  | enum typeName label =>
    cases operand with
    | enumeration => cases hd
    | text length padded unit charset => exact fits_admitText hc
    | _ => contradiction
  | json document =>
    cases operand with
    | json => cases hd
    | text length padded unit charset =>
      cases padded with
      | true => contradiction
      | false => exact fits_admitText hc
    | _ => contradiction
  | bytes bytes =>
    cases operand with
    | binary length padded =>
      obtain ⟨-, -, hc⟩ := bind_eq_ok.1 hc
      obtain ⟨-, -, hc⟩ := bind_eq_ok.1 hc
      cases hc
      trivial
    | _ => contradiction
  | wkb bytes srid dimensions semantics => cases operand <;> contradiction

end Plenora.Db2.ParameterArray
