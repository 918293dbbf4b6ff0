import Plenora.Lib.Outcome
import Plenora.Lib.Ieee
import Plenora.Lib.Padding
import Plenora.Core.Arrow

/-!
# Rule S: values the server rewrites when it stores them

A provider declares, column by column, how the target rewrites values; the guard
of a write looks for such values.  The tests are exact for what the target is
known to do, so nothing is lost in silence:

    rewritesInUnit rewrite cell unit ↔ WouldChange rewrite unit cell     (rewritesInUnit_iff)
    guard.check batch is an error    ↔ a key or a strict column holds a value that would change
    guard.check batch is Ok          → every value that would change has its loss declared
                                                                          (check_admits)
-/

namespace Plenora.Core.RuleS

open Plenora.Lib Plenora.Core.Arrow

/-! ## Data model -/

def rewrittenValue : String :=
  ("il server riscriverebbe al salvataggio il valore in uno diverso (regola S): con Strict e una " ++
      "perdita")

def rewrittenKey : String :=
  ("il server riscriverebbe al salvataggio il valore di una chiave in uno diverso (regola S): la " ++
      "regola K non lo prova, con nessuna politica")

/-- The unit the target measures a text with. -/
inductive TextLengthUnit where
  | characters | utf16 | utf8Bytes | singleByte
  deriving DecidableEq, Repr

def TextLengthUnit.count (unit : TextLengthUnit) (value : String) : Nat :=
  match unit with
  | .characters | .singleByte => value.toList.length
  | .utf16 => (value.toList.map fun c => if c.toNat < 2 ^ 16 then 1 else 2).sum
  | .utf8Bytes => (Arrow.utf8Bytes value).length

/-- A rewrite the target applies when it stores a value; `minAbs` holds the bits of a float. -/
inductive StoreRewrite where
  | emptyToNull
  | padText (chars : UInt64)
  | padBinary (bytes : UInt64)
  | stripTrailing
  | excessSpaces (bytes : UInt64)
  | underflow (minAbs : UInt64)
  | negativeZero
  | fractionalSeconds (digits : UInt8)
  | nonAscii
  | jsonNumbers
  | every
  deriving DecidableEq, Repr

inductive MappingPolicy where
  | strict | compatible | lossy | native
  deriving DecidableEq, Repr

inductive LossSeverity where
  | information | warning | dataLoss
  deriving DecidableEq, Repr

inductive LossCategory where
  | precision | scale | range | timezone | encoding | collation | nativeType | geometryType
  | dimensions | srid | crs | nullability | default | generated
  deriving DecidableEq, Repr

structure MappingLoss where
  fieldId : UInt32
  category : LossCategory
  severity : LossSeverity
  reason : String
  sourceType : Option String
  targetType : Option String
  deriving DecidableEq, Repr

/-- The rewrites of the target's type for a column of the input. -/
structure ColumnRewrites where
  field : Nat
  targetType : String
  rewrites : List StoreRewrite
  deriving DecidableEq, Repr

structure WriteOperation where
  keys : List String
  mappingPolicy : MappingPolicy

/-- A declared column, known to be one of the schema. -/
structure GuardedColumn (schema : Schema) where
  column : ColumnRewrites
  index : Fin schema.length
  index_eq : index.val = column.field
  key : Bool

structure RewriteGuard (schema : Schema) where
  provider : ProviderKind
  columns : List (GuardedColumn schema)
  strict : Bool
  textUnits : List (Nat × TextLengthUnit)

/-! ## The tests on a value -/

namespace StoreRewrite

/-- The reason of the loss. -/
def reason : StoreRewrite → String
  | emptyToNull => "regola S: il server salva come NULL il testo vuoto e il binario vuoto"
  | padText _ => "regola S: il tipo a lunghezza fissa completa con spazi un testo piu corto"
  | padBinary _ => "regola S: il tipo a lunghezza fissa completa con 0x00 un binario piu corto"
  | stripTrailing =>
    "regola S: la colonna toglie gli spazi finali del testo e gli 0x00 finali del binario"
  | excessSpaces _ =>
    "regola S: la colonna tronca gli spazi finali oltre la propria lunghezza"
  | underflow _ => "regola S: il tipo numerico salva come 0 un float sotto il proprio minimo"
  | negativeZero => "regola S: il tipo numerico salva -0.0 come 0"
  | fractionalSeconds _ =>
    ("regola S: il tipo temporale arrotonda o tronca le cifre frazionarie oltre la propria " ++
      "precisione")
  | nonAscii => "regola S: il charset della colonna non conserva ogni carattere fuori da ASCII"
  | jsonNumbers =>
    "regola S: il tipo JSON del target riscrive la forma dei numeri fuori dagli interi brevi"
  | every =>
    "regola S: la misura della coppia di tipi (regola A) ha trovato valori riscritti al salvataggio"

def category : StoreRewrite → LossCategory
  | emptyToNull => .nullability
  | padText _ | padBinary _ | stripTrailing | excessSpaces _ | every => .nativeType
  | underflow _ | negativeZero | fractionalSeconds _ | jsonNumbers => .precision
  | nonAscii => .encoding

def isText : DataType → Bool
  | .utf8 | .largeUtf8 => true
  | _ => false

def isBinary : DataType → Bool
  | .binary | .largeBinary | .fixedSizeBinary _ => true
  | _ => false

def isFloat : DataType → Bool
  | .float32 | .float64 => true
  | _ => false

def isInstant : DataType → Bool
  | .timestamp _ _ => true
  | _ => false

/-- Whether the rewrite applies to an Arrow type. -/
def admits (rewrite : StoreRewrite) (dataType : DataType) : Bool :=
  match rewrite with
  | emptyToNull | stripTrailing => isText dataType || isBinary dataType
  | padText _ | excessSpaces _ | nonAscii | jsonNumbers => isText dataType
  | padBinary _ => isBinary dataType
  | underflow _ | negativeZero => isFloat dataType
  | fractionalSeconds _ => isInstant dataType
  | every => true

end StoreRewrite

/-- A value as the tests read it. -/
inductive Value where
  | text (text : String)
  | bytes (bytes : List UInt8)
  | float (number : UInt64)
  | instant (subsecondNs : Int)
  | other
  deriving DecidableEq

def perSecond : TimeUnit → Int
  | .second => 1
  | .millisecond => 1000
  | .microsecond => 1000000
  | .nanosecond => 1000000000

def value : (dataType : DataType) → dataType.Native → Value
  | .utf8, raw | .largeUtf8, raw => .text raw
  | .binary, raw | .largeBinary, raw => .bytes raw
  | .fixedSizeBinary _, raw => .bytes raw.1
  | .float32, raw => .float (Ieee.widen raw)
  | .float64, raw => .float raw
  | .timestamp unit _, raw =>
    .instant (BitVec.toInt raw % perSecond unit * (1000000000 / perSecond unit))
  | _, _ => .other

def isDigit (byte : UInt8) : Bool := 48 ≤ byte ∧ byte ≤ 57

/-- The bytes a number is scanned over: `-`, `+`, `.`, `e`, `E` and the digits. -/
def numberByte (byte : UInt8) : Bool :=
  byte = 45 ∨ byte = 43 ∨ byte = 46 ∨ byte = 101 ∨ byte = 69 ∨ isDigit byte

/-- What follows a string whose opening quote was read. -/
def skipString : List UInt8 → List UInt8
  | [] => []
  | [_] => []
  | byte :: next :: rest =>
    if byte = 34 then next :: rest
    else if byte = 92 then skipString rest
    else skipString (next :: rest)

def shortInteger (token : List UInt8) : Bool :=
  let digits := if token.head? = some 45 then token.tail else token
  if digits = [] ∨ digits.length > 15 ∨ ¬ digits.all isDigit then false
  else if digits = [48] then token.length = 1
  else digits.head? ≠ some 48

theorem length_skipString_le (bytes : List UInt8) : (skipString bytes).length ≤ bytes.length := by
  fun_induction skipString bytes with
  | case1 => exact Nat.le_refl _
  | case2 => exact Nat.zero_le _
  | case3 => exact Nat.le_succ _
  | case4 => simp only [List.length_cons]; omega
  | case5 => simp_all only [List.length_cons]; omega

/-- Whether a number outside the strings is not a short integer. -/
def hasRewrittenJsonNumber : List UInt8 → Bool
  | [] => false
  | byte :: rest =>
    if byte = 34 then hasRewrittenJsonNumber (skipString rest)
    else if byte = 45 ∨ isDigit byte then
      if ¬ shortInteger ((byte :: rest).takeWhile numberByte) then true
      else hasRewrittenJsonNumber (rest.dropWhile numberByte)
    else hasRewrittenJsonNumber rest
termination_by bytes => bytes.length
decreasing_by
  · have := length_skipString_le rest
    simp only [List.length_cons]
    omega
  · have := (List.dropWhile_suffix numberByte (l := rest)).length_le
    simp only [List.length_cons]
    omega
  · simp

/-- The unit, in nanoseconds, of the last of `digits` fractional digits. -/
def fractionUnit (digits : UInt8) : Int := 10 ^ (9 - min digits.toNat 9)

namespace StoreRewrite

/-- Whether a value that is not NULL would be rewritten. -/
def rewritesInUnit {dataType : DataType} (rewrite : StoreRewrite) (cell : Option dataType.Native)
    (unit : TextLengthUnit) : Bool :=
  match cell with
  | none => false
  | some raw =>
    if rewrite = every then true
    else
      match rewrite, value dataType raw with
      | emptyToNull, .text text => text.isEmpty
      | emptyToNull, .bytes bytes => bytes.isEmpty
      | padText chars, .text text => unit.count text < chars.toNat
      | padBinary length, .bytes bytes => bytes.length < length.toNat
      | stripTrailing, .text text => text.toList.getLast? = some ' '
      | excessSpaces bytes, .text text =>
        text.toList.getLast? = some ' ' ∧ (utf8Bytes text).length > bytes.toNat
      | stripTrailing, .bytes bytes => bytes.getLast? = some 0
      | underflow minAbs, .float number => !Ieee.isZero number && Ieee.lt (Ieee.abs number) minAbs
      | negativeZero, .float number => Ieee.isZero number && Ieee.negative number
      | fractionalSeconds digits, .instant subsecondNs =>
        subsecondNs % fractionUnit digits ≠ 0
      | nonAscii, .text text => !(utf8Bytes text).all (· < 128)
      | jsonNumbers, .text text => hasRewrittenJsonNumber (utf8Bytes text)
      | _, _ => false

end StoreRewrite

/-! ## The guard -/

def rewritten (provider : ProviderKind) (key : Bool) : DatabaseError :=
  .new .dataMapping .write (some provider)
    s!"scrittura rifiutata: {if key then rewrittenKey else rewrittenValue}"

def internal (provider : ProviderKind) (message : String) : DatabaseError :=
  .new .internal .prepare (some provider) message

/-- A field whose name is among the keys of the write. -/
def isKey (operation : WriteOperation) (field : Field) : Bool :=
  operation.keys.any (· == field.name)

namespace RewriteGuard

variable {schema : Schema}

/-- The declared columns that have a rewrite, each with its place in the schema. -/
def guardColumns (provider : ProviderKind) (schema : Schema) (operation : WriteOperation) :
    List ColumnRewrites → Result (List (GuardedColumn schema))
  | [] => .ok []
  | column :: columns =>
    if column.rewrites.isEmpty then guardColumns provider schema operation columns
    else if h : column.field < schema.length then do
      let index : Fin schema.length := ⟨column.field, h⟩
      failIf (¬ column.rewrites.all fun rewrite => rewrite.admits (schema.get index).dataType)
        (internal provider
          "regola S: riscrittura dichiarata su un tipo Arrow a cui non si applica")
      let guarded ← guardColumns provider schema operation columns
      .ok ({ column, index, index_eq := rfl, key := isKey operation (schema.get index) } :: guarded)
    else .error (internal provider "regola S: colonna fuori dallo schema dell'ingresso")

def new (provider : ProviderKind) (schema : Schema) (operation : WriteOperation)
    (columns : List ColumnRewrites) : Result (RewriteGuard schema) := do
  let guarded ← guardColumns provider schema operation columns
  .ok { provider, columns := guarded, strict := operation.mappingPolicy = .strict, textUnits := [] }

/-- The units read from the catalog; the last one given for a column holds. -/
def withTextUnits (guard : RewriteGuard schema) (units : List (Nat × TextLengthUnit)) :
    RewriteGuard schema :=
  { guard with textUnits := units }

def isEmpty (guard : RewriteGuard schema) : Bool := guard.columns.isEmpty

/-- The unit of a column, characters when the catalog gave none. -/
def unitOf (units : List (Nat × TextLengthUnit)) (field : Nat) : TextLengthUnit :=
  (units.reverse.lookup field).getD .characters

/-- The loop over the rows of one column. -/
def checkColumn (guard : RewriteGuard schema) (guarded : GuardedColumn schema) :
    List (BatchRow schema) → Result Unit
  | [] => .ok ()
  | row :: rows =>
    if (row guarded.index).isNone then guard.checkColumn guarded rows
    else if guarded.column.rewrites.any fun rewrite =>
        rewrite.rewritesInUnit (row guarded.index) (unitOf guard.textUnits guarded.column.field) then
      .error (rewritten guard.provider guarded.key)
    else guard.checkColumn guarded rows

def checkColumns (guard : RewriteGuard schema) (batch : RecordBatch schema) :
    List (GuardedColumn schema) → Result Unit
  | [] => .ok ()
  | guarded :: columns =>
    if ¬ guarded.key ∧ ¬ guard.strict then guard.checkColumns batch columns
    else do
      guard.checkColumn guarded batch.rows
      guard.checkColumns batch columns

def check (guard : RewriteGuard schema) (batch : RecordBatch schema) : Result Unit :=
  guard.checkColumns batch guard.columns

/-- The loss of a rewrite of a column. -/
def lossOf (column : ColumnRewrites) (rewrite : StoreRewrite) : MappingLoss :=
  { fieldId := if column.field < 2 ^ 32 then UInt32.ofNat column.field else UInt32.ofNat (2 ^ 32 - 1)
    category := rewrite.category
    severity := .dataLoss
    reason := rewrite.reason
    sourceType := none
    targetType := some column.targetType }

def losses (guard : RewriteGuard schema) : List MappingLoss :=
  if guard.strict then []
  else
    (guard.columns.filter fun guarded => !guarded.key).flatMap fun guarded =>
      guarded.column.rewrites.map (lossOf guarded.column)

/-- The batches a guarded stream delivers, and the error that ends it. -/
def deliver (guard : RewriteGuard schema) :
    List (RecordBatch schema) → List (RecordBatch schema) × Option DatabaseError
  | [] => ([], none)
  | batch :: batches =>
    match guard.check batch with
    | .error e => ([], some e)
    | .ok () => (batch :: (guard.deliver batches).1, (guard.deliver batches).2)

/-- The input with the rule, or the input as it is when no column has a rewrite. -/
def guardInput (guard : RewriteGuard schema) (input : List (RecordBatch schema)) :
    List (RecordBatch schema) × Option DatabaseError :=
  if guard.isEmpty then (input, none) else guard.deliver input

end RewriteGuard

/-! ## What the server stores -/

/-- The trailing spaces of a text dropped, as long as it exceeds `limit` bytes. -/
def dropExcess (limit : Nat) (text : String) : List Char :=
  text.toList.rdrop (min (text.toList.length - (trimEnd ' ' text.toList).length)
    ((utf8Bytes text).length - limit))

/-- What a target with this rewrite stores for a value; `none` is NULL. -/
def stored (unit : TextLengthUnit) : StoreRewrite → Value → Option Value
  | .emptyToNull, .text text => if text = "" then none else some (.text text)
  | .emptyToNull, .bytes bytes => if bytes = [] then none else some (.bytes bytes)
  | .padText chars, .text text =>
    some (.text (String.ofList
      (text.toList ++ List.replicate (chars.toNat - unit.count text) ' ')))
  | .padBinary length, .bytes bytes =>
    some (.bytes (bytes ++ List.replicate (length.toNat - bytes.length) 0))
  | .stripTrailing, .text text => some (.text (String.ofList (trimEnd ' ' text.toList)))
  | .stripTrailing, .bytes bytes => some (.bytes (trimEnd 0 bytes))
  | .excessSpaces bytes, .text text => some (.text (String.ofList (dropExcess bytes.toNat text)))
  | .underflow minAbs, .float number =>
    some (.float (if !Ieee.isZero number && Ieee.lt (Ieee.abs number) minAbs then 0 else number))
  | .negativeZero, .float number => some (.float (if Ieee.isZero number then 0 else number))
  | .fractionalSeconds digits, .instant subsecondNs =>
    some (.instant (subsecondNs - subsecondNs % fractionUnit digits))
  | _, value => some value

/-- The numbers of a document, outside its strings. -/
def numberTokens : List UInt8 → List (List UInt8)
  | [] => []
  | byte :: rest =>
    if byte = 34 then numberTokens (skipString rest)
    else if byte = 45 ∨ isDigit byte then
      (byte :: rest).takeWhile numberByte :: numberTokens (rest.dropWhile numberByte)
    else numberTokens rest
termination_by bytes => bytes.length
decreasing_by
  · have := length_skipString_le rest
    simp only [List.length_cons]
    omega
  · have := (List.dropWhile_suffix numberByte (l := rest)).length_le
    simp only [List.length_cons]
    omega
  · simp

/-- `-?(0|[1-9][0-9]{0,14})`, but not `-0`. -/
def ShortInteger (token : List UInt8) : Prop :=
  token = [48] ∨ ∃ sign ∈ [[], [45]], ∃ first digits, token = sign ++ first :: digits ∧
    isDigit first ∧ first ≠ 48 ∧ digits.all isDigit ∧ digits.length ≤ 14

/-- The value the target stores would differ.  What it does to a character outside ASCII, to a
number of a JSON document or to a value of an unexplained pair of types is not known, and counts
as a change. -/
def WouldChange {dataType : DataType} (rewrite : StoreRewrite) (unit : TextLengthUnit)
    (cell : Option dataType.Native) : Prop :=
  ∃ raw, cell = some raw ∧
    match rewrite with
    | .every => True
    | .nonAscii => ∃ text, value dataType raw = .text text ∧ ∃ c ∈ text.toList, 128 ≤ c.toNat
    | .jsonNumbers => ∃ text, value dataType raw = .text text ∧
        ∃ token ∈ numberTokens (utf8Bytes text), ¬ ShortInteger token
    | rewrite => stored unit rewrite (value dataType raw) ≠ some (value dataType raw)

/-! ## The tests are exact -/

/-- Up to fifteen digits, the first of them not zero. -/
theorem leadingDigits_iff (digits : List UInt8) :
    (∃ first rest, digits = first :: rest ∧ isDigit first ∧ first ≠ 48 ∧ rest.all isDigit ∧
        rest.length ≤ 14) ↔
      ¬ (digits = [] ∨ digits.length > 15 ∨ ¬ digits.all isDigit) ∧ digits.head? ≠ some 48 := by
  cases digits with
  | nil => simp
  | cons first rest =>
    simp only [List.cons.injEq, reduceCtorEq, false_or, not_or, not_not, List.length_cons,
      List.all_cons, Bool.and_eq_true, List.head?_cons, ne_eq, Option.some.injEq]
    constructor
    · rintro ⟨_, _, ⟨rfl, rfl⟩, hfirst, hzero, hrest, hlen⟩
      exact ⟨⟨by omega, hfirst, hrest⟩, hzero⟩
    · rintro ⟨⟨hlen, hfirst, hrest⟩, hzero⟩
      exact ⟨first, rest, ⟨rfl, rfl⟩, hfirst, hzero, hrest, by omega⟩

theorem shortInteger_iff (token : List UInt8) : shortInteger token ↔ ShortInteger token := by
  have hminus : ¬ isDigit 45 := by decide
  unfold shortInteger ShortInteger
  by_cases hneg : token.head? = some 45
  · -- behind a sign: no zero
    obtain ⟨digits, rfl⟩ := List.head?_eq_some_iff.1 hneg
    have hspec : (∃ sign ∈ [[], [45]], ∃ first rest, 45 :: digits = sign ++ first :: rest ∧
          isDigit first ∧ first ≠ 48 ∧ rest.all isDigit ∧ rest.length ≤ 14) ↔
        ∃ first rest, digits = first :: rest ∧ isDigit first ∧ first ≠ 48 ∧ rest.all isDigit ∧
          rest.length ≤ 14 := by
      constructor
      · rintro ⟨sign, hsign, first, rest, heq, hfirst, hrest⟩
        rcases List.mem_pair.1 hsign with rfl | rfl
        · obtain ⟨rfl, -⟩ := List.cons.inj heq
          exact absurd hfirst hminus
        · exact ⟨first, rest, (List.cons.inj heq).2, hfirst, hrest⟩
      · rintro ⟨first, rest, rfl, hrest⟩
        exact ⟨[45], by simp, first, rest, rfl, hrest⟩
    rw [hspec, leadingDigits_iff, if_pos hneg, List.tail_cons]
    have hne : 45 :: digits ≠ [48] := by simp
    dsimp only
    split
    next h => simp only [h, hne, Bool.false_eq_true, not_true, false_and, or_false]
    next h =>
      split
      next h48 => simp [h48]
      next => simp only [h, hne, not_false_eq_true, true_and, false_or, decide_eq_true_eq]
  · -- no sign: zero, or a first digit that is not zero
    have hspec : (∃ sign ∈ [[], [45]], ∃ first rest, token = sign ++ first :: rest ∧
          isDigit first ∧ first ≠ 48 ∧ rest.all isDigit ∧ rest.length ≤ 14) ↔
        ∃ first rest, token = first :: rest ∧ isDigit first ∧ first ≠ 48 ∧ rest.all isDigit ∧
          rest.length ≤ 14 := by
      constructor
      · rintro ⟨sign, hsign, first, rest, rfl, hfirst, hrest⟩
        rcases List.mem_pair.1 hsign with rfl | rfl
        · exact ⟨first, rest, rfl, hfirst, hrest⟩
        · exact absurd rfl hneg
      · rintro ⟨first, rest, rfl, hrest⟩
        exact ⟨[], by simp, first, rest, rfl, hrest⟩
    rw [hspec, leadingDigits_iff, if_neg hneg]
    dsimp only
    split
    next h =>
      have hne : token ≠ [48] := by
        rintro rfl
        revert h
        decide
      simp only [h, hne, Bool.false_eq_true, not_true, false_and, or_false]
    next h =>
      split
      next h48 => simp [h48]
      next h48 => simp only [h, h48, not_false_eq_true, true_and, false_or, decide_eq_true_eq]

theorem hasRewrittenJsonNumber_iff (bytes : List UInt8) :
    hasRewrittenJsonNumber bytes ↔ ∃ token ∈ numberTokens bytes, ¬ ShortInteger token := by
  fun_induction numberTokens bytes with
  | case1 => simp [hasRewrittenJsonNumber]
  | case2 rest ih =>
    rw [hasRewrittenJsonNumber, if_pos rfl]
    exact ih
  | case3 byte rest hquote hnumber ih =>
    rw [hasRewrittenJsonNumber, if_neg hquote, if_pos hnumber]
    simp only [List.mem_cons, exists_eq_or_imp, ← shortInteger_iff] at ih ⊢
    rw [← ih]
    split
    next h => simp [h]
    next h => simp [h]
  | case4 byte rest hquote hnumber ih =>
    rw [hasRewrittenJsonNumber, if_neg hquote, if_neg hnumber]
    exact ih

theorem utf8Bytes_eq (text : String) : utf8Bytes text = text.toList.flatMap String.utf8EncodeChar := by
  unfold utf8Bytes
  rw [String.toUTF8_eq_toByteArray, ← String.utf8Encode_toList, List.utf8Encode]
  simp

/-- The bytes of a character are below 128 exactly when it is. -/
theorem utf8EncodeChar_ascii_iff (c : Char) :
    (∃ byte ∈ String.utf8EncodeChar c, ¬ byte < 128) ↔ 128 ≤ c.toNat := by
  have hbyte (n : Nat) : UInt8.ofNat n < 128 ↔ n % 256 < 128 := by
    rw [UInt8.lt_iff_toNat_lt, UInt8.toNat_ofNat']
    rfl
  have hval : c.val.toNat = c.toNat := rfl
  unfold String.utf8EncodeChar
  dsimp only
  rw [hval]
  split
  next h =>
    simp only [List.mem_singleton, exists_eq_left, hbyte]
    omega
  next h =>
  split
  next =>
    simp only [List.mem_cons, exists_eq_or_imp, hbyte]
    exact iff_of_true (.inl (by omega)) (by omega)
  next =>
  split
  next =>
    simp only [List.mem_cons, exists_eq_or_imp, hbyte]
    exact iff_of_true (.inl (by omega)) (by omega)
  next =>
    simp only [List.mem_cons, exists_eq_or_imp, hbyte]
    exact iff_of_true (.inl (by omega)) (by omega)

theorem not_ascii_iff (text : String) :
    (!(utf8Bytes text).all (· < 128)) = true ↔ ∃ c ∈ text.toList, 128 ≤ c.toNat := by
  simp only [← utf8EncodeChar_ascii_iff, utf8Bytes_eq, Bool.not_eq_true', List.all_eq_false,
    List.mem_flatMap, decide_eq_true_eq]
  constructor
  · rintro ⟨byte, ⟨c, hc, hbyte⟩, hge⟩
    exact ⟨c, hc, byte, hbyte, hge⟩
  · rintro ⟨c, hc, byte, hbyte, hge⟩
    exact ⟨byte, ⟨c, hc, hbyte⟩, hge⟩

theorem append_replicate_ne_iff {α : Type} (l : List α) (a : α) (n : Nat) :
    l ++ List.replicate n a ≠ l ↔ 0 < n := by
  rw [ne_eq, List.append_right_eq_self, List.replicate_eq_nil_iff]
  omega

theorem dropExcess_ne_iff (limit : Nat) (text : String) :
    dropExcess limit text ≠ text.toList ↔
      text.toList.getLast? = some ' ' ∧ (utf8Bytes text).length > limit := by
  have hle := length_trimEnd_le ' ' text.toList
  have htrim : (trimEnd ' ' text.toList).length = text.toList.length ↔
      trimEnd ' ' text.toList = text.toList :=
    ⟨fun h => (List.rdropWhile_prefix _ _).eq_of_length h, fun h => by rw [h]⟩
  rw [← trimEnd_ne_self_iff, ne_eq, ne_eq, ← htrim]
  unfold dropExcess List.rdrop
  rw [List.take_eq_self_iff]
  omega

theorem ofList_ne_iff (l : List Char) (text : String) :
    String.ofList l ≠ text ↔ l ≠ text.toList := by
  rw [ne_eq, ne_eq, ← String.toList_inj, String.toList_ofList]

theorem eq_zero_or_negative {number : UInt64} (h : Ieee.isZero number) :
    number ≠ 0 ↔ Ieee.negative number := by
  have hlt : number.toNat < 2 ^ 64 := number.toNat_lt
  unfold Ieee.isZero at h
  unfold Ieee.negative
  rw [decide_eq_true_eq] at h ⊢
  rw [ne_eq, ← UInt64.toNat_inj, UInt64.toNat_zero]
  omega

/-- **A test answers exactly whether the stored value would differ.** -/
theorem rewritesInUnit_iff {dataType : DataType} (rewrite : StoreRewrite) (unit : TextLengthUnit)
    (cell : Option dataType.Native) :
    rewrite.rewritesInUnit cell unit ↔ WouldChange rewrite unit cell := by
  cases cell with
  | none => simp [StoreRewrite.rewritesInUnit, WouldChange]
  | some raw =>
    simp only [StoreRewrite.rewritesInUnit, WouldChange, Option.some.injEq, exists_eq_left']
    generalize value dataType raw = v
    cases rewrite with
    | every => simp
    | emptyToNull =>
      cases v with
      | text text => by_cases h : text = "" <;> simp [stored, h]
      | bytes bytes => by_cases h : bytes = [] <;> simp [stored, h]
      | _ => simp [stored]
    | padText chars =>
      cases v with
      | text text =>
        simp only [stored, ne_eq, Option.some.injEq, Value.text.injEq]
        rw [← ne_eq, ofList_ne_iff, append_replicate_ne_iff]
        simp
      | _ => simp [stored]
    | padBinary length =>
      cases v with
      | bytes bytes =>
        simp only [stored, ne_eq, Option.some.injEq, Value.bytes.injEq]
        rw [← ne_eq, append_replicate_ne_iff]
        simp
      | _ => simp [stored]
    | stripTrailing =>
      cases v with
      | text text =>
        simp only [stored, ne_eq, Option.some.injEq, Value.text.injEq]
        rw [← ne_eq, ofList_ne_iff, trimEnd_ne_self_iff]
        simp
      | bytes bytes =>
        simp only [stored, ne_eq, Option.some.injEq, Value.bytes.injEq]
        rw [← ne_eq, trimEnd_ne_self_iff]
        simp
      | _ => simp [stored]
    | excessSpaces bytes =>
      cases v with
      | text text =>
        simp only [stored, ne_eq, Option.some.injEq, Value.text.injEq]
        rw [← ne_eq, ofList_ne_iff, dropExcess_ne_iff]
        simp
      | _ => simp [stored]
    | underflow minAbs =>
      cases v with
      | float number =>
        simp only [stored, ne_eq, Option.some.injEq, Value.float.injEq]
        have hzero : Ieee.isZero 0 := by decide
        by_cases h : (!Ieee.isZero number && Ieee.lt (Ieee.abs number) minAbs) = true
        · have hne : ¬ 0 = number := by
            rintro rfl
            rw [hzero] at h
            cases h
          simp [h, hne]
        · simp [h]
      | _ => simp [stored]
    | negativeZero =>
      cases v with
      | float number =>
        simp only [stored, ne_eq, Option.some.injEq, Value.float.injEq]
        by_cases h : Ieee.isZero number
        · simp [h, ← eq_zero_or_negative h, eq_comm]
        · simp [h]
      | _ => simp [stored]
    | fractionalSeconds digits =>
      cases v with
      | instant subsecondNs =>
        simp only [stored, ne_eq, Option.some.injEq, Value.instant.injEq]
        simp
      | _ => simp [stored]
    | nonAscii =>
      cases v with
      | text text => simpa using not_ascii_iff text
      | _ => simp
    | jsonNumbers =>
      cases v with
      | text text => simpa using hasRewrittenJsonNumber_iff (utf8Bytes text)
      | _ => simp

/-! ## The guard over a batch -/

section Guard

variable {schema : Schema}

/-- The guarded columns are the declared ones that have a rewrite, each known to be a key or not. -/
structure Declares (operation : WriteOperation) (columns : List ColumnRewrites)
    (guarded : List (GuardedColumn schema)) : Prop where
  complete : ∀ column ∈ columns, column.rewrites ≠ [] → ∃ g ∈ guarded, g.column = column
  sound : ∀ g ∈ guarded, g.column ∈ columns
  key : ∀ g ∈ guarded, g.key = isKey operation (schema.get g.index)

theorem guardColumns_declares {provider : ProviderKind} {operation : WriteOperation}
    {columns : List ColumnRewrites} {guarded : List (GuardedColumn schema)}
    (h : RewriteGuard.guardColumns provider schema operation columns = .ok guarded) :
    Declares operation columns guarded := by
  induction columns generalizing guarded with
  | nil =>
    cases h
    exact ⟨nofun, nofun, nofun⟩
  | cons column columns ih =>
    unfold RewriteGuard.guardColumns at h
    split at h
    next hempty =>
      obtain ⟨hcomplete, hsound, hkey⟩ := ih h
      refine ⟨fun c hc hne => ?_, fun g hg => List.mem_cons_of_mem _ (hsound g hg), hkey⟩
      rcases List.mem_cons.1 hc with rfl | hc
      · exact absurd (List.isEmpty_iff.1 hempty) hne
      · exact hcomplete c hc hne
    next =>
      split at h
      next hfield =>
        simp only [bind_eq_ok, failIf_eq_ok, exists_const, Except.ok.injEq] at h
        obtain ⟨-, rest, hrest, rfl⟩ := h
        obtain ⟨hcomplete, hsound, hkey⟩ := ih hrest
        refine ⟨fun c hc hne => ?_, fun g hg => ?_, fun g hg => ?_⟩
        · rcases List.mem_cons.1 hc with rfl | hc
          · exact ⟨_, List.mem_cons_self, rfl⟩
          · obtain ⟨g, hg, hgc⟩ := hcomplete c hc hne
            exact ⟨g, List.mem_cons_of_mem _ hg, hgc⟩
        · rcases List.mem_cons.1 hg with rfl | hg
          · exact List.mem_cons_self
          · exact List.mem_cons_of_mem _ (hsound g hg)
        · rcases List.mem_cons.1 hg with rfl | hg
          · rfl
          · exact hkey g hg
      next => cases h

/-- A column of the batch holds a value one of its declared rewrites would change. -/
def HoldsRewritten (guard : RewriteGuard schema) (batch : RecordBatch schema)
    (g : GuardedColumn schema) : Prop :=
  ∃ row ∈ batch.rows, ∃ rewrite ∈ g.column.rewrites,
    WouldChange rewrite (RewriteGuard.unitOf guard.textUnits g.column.field) (row g.index)

theorem checkColumn_error_iff (guard : RewriteGuard schema) (g : GuardedColumn schema)
    (rows : List (BatchRow schema)) :
    guard.checkColumn g rows ≠ .ok () ↔ HoldsRewritten guard ⟨rows⟩ g := by
  unfold HoldsRewritten
  induction rows with
  | nil => simp [RewriteGuard.checkColumn]
  | cons row rows ih =>
    simp only [List.mem_cons, exists_eq_or_imp]
    unfold RewriteGuard.checkColumn
    split
    next hnull =>
      have hrow : ¬ ∃ rewrite ∈ g.column.rewrites, WouldChange rewrite
          (RewriteGuard.unitOf guard.textUnits g.column.field) (row g.index) := by
        rintro ⟨rewrite, -, raw, hraw, -⟩
        rw [hraw] at hnull
        cases hnull
      rw [ih]
      exact (or_iff_right hrow).symm
    next =>
      split
      next hany =>
        obtain ⟨rewrite, hmem, hchange⟩ := List.any_eq_true.1 hany
        exact iff_of_true nofun (.inl ⟨rewrite, hmem, (rewritesInUnit_iff _ _ _).1 hchange⟩)
      next hnone =>
        have hrow : ¬ ∃ rewrite ∈ g.column.rewrites, WouldChange rewrite
            (RewriteGuard.unitOf guard.textUnits g.column.field) (row g.index) := by
          rintro ⟨rewrite, hmem, hchange⟩
          exact hnone (List.any_eq_true.2 ⟨rewrite, hmem, (rewritesInUnit_iff _ _ _).2 hchange⟩)
        rw [ih]
        exact (or_iff_right hrow).symm

theorem checkColumns_error_iff (guard : RewriteGuard schema) (batch : RecordBatch schema)
    (columns : List (GuardedColumn schema)) :
    guard.checkColumns batch columns ≠ .ok () ↔
      ∃ g ∈ columns, (g.key ∨ guard.strict) ∧ HoldsRewritten guard batch g := by
  induction columns with
  | nil => simp [RewriteGuard.checkColumns]
  | cons g columns ih =>
    simp only [List.mem_cons, exists_eq_or_imp]
    unfold RewriteGuard.checkColumns
    split
    next hskip =>
      rw [ih]
      refine (or_iff_right fun h => ?_).symm
      exact h.1.elim hskip.1 hskip.2
    next hchecked =>
      rw [← checkColumn_error_iff]
      have hrole : g.key ∨ guard.strict := by
        by_contra h
        exact hchecked (not_or.1 h)
      cases hcolumn : guard.checkColumn g batch.rows with
      | ok u =>
        have hstep : (do (Except.ok u : Result Unit); guard.checkColumns batch columns) =
          guard.checkColumns batch columns := rfl
        rw [hstep, ih]
        simp
      | error e => exact iff_of_true nofun (.inl ⟨hrole, nofun⟩)

/-- **Every value that would change is refused in a key or under `Strict`, and declared among the
losses elsewhere; nothing else is refused.** -/
theorem check_admits (provider : ProviderKind) (operation : WriteOperation)
    (columns : List ColumnRewrites) (declared : RewriteGuard schema)
    (hnew : RewriteGuard.new provider schema operation columns = .ok declared)
    (units : List (Nat × TextLengthUnit)) (batch : RecordBatch schema) :
    let guard := declared.withTextUnits units
    (guard.check batch = .ok () →
      ∀ row ∈ batch.rows, ∀ column ∈ columns, ∀ rewrite ∈ column.rewrites, ∀ i : Fin schema.length,
        i.val = column.field →
        WouldChange rewrite (RewriteGuard.unitOf units column.field) (row i) →
          ¬ isKey operation (schema.get i) ∧ operation.mappingPolicy ≠ .strict ∧
            RewriteGuard.lossOf column rewrite ∈ guard.losses) ∧
    (guard.check batch ≠ .ok () ↔
      ∃ row ∈ batch.rows, ∃ column ∈ columns, ∃ rewrite ∈ column.rewrites,
        ∃ i : Fin schema.length, i.val = column.field ∧
          (isKey operation (schema.get i) ∨ operation.mappingPolicy = .strict) ∧
          WouldChange rewrite (RewriteGuard.unitOf units column.field) (row i)) := by
  intro guard
  unfold RewriteGuard.new at hnew
  simp only [bind_eq_ok, Except.ok.injEq] at hnew
  obtain ⟨guarded, hguarded, rfl⟩ := hnew
  obtain ⟨hcomplete, hsound, hkey⟩ := guardColumns_declares hguarded
  have hfind {column : ColumnRewrites} {rewrite : StoreRewrite} {i : Fin schema.length}
      (hcolumn : column ∈ columns) (hrewrite : rewrite ∈ column.rewrites)
      (hi : i.val = column.field) : ∃ g ∈ guarded, g.column = column ∧ g.index = i := by
    obtain ⟨g, hg, rfl⟩ := hcomplete column hcolumn (List.ne_nil_of_mem hrewrite)
    exact ⟨g, hg, rfl, Fin.ext (g.index_eq.trans hi.symm)⟩
  have herror : guard.check batch ≠ .ok () ↔
      ∃ row ∈ batch.rows, ∃ column ∈ columns, ∃ rewrite ∈ column.rewrites,
        ∃ i : Fin schema.length, i.val = column.field ∧
          (isKey operation (schema.get i) ∨ operation.mappingPolicy = .strict) ∧
          WouldChange rewrite (RewriteGuard.unitOf units column.field) (row i) := by
    unfold RewriteGuard.check
    rw [checkColumns_error_iff]
    constructor
    · rintro ⟨g, hg, hrole, row, hrow, rewrite, hrewrite, hchange⟩
      rw [hkey g hg] at hrole
      refine ⟨row, hrow, g.column, hsound g hg, rewrite, hrewrite, g.index, g.index_eq, ?_, hchange⟩
      exact hrole.imp id of_decide_eq_true
    · rintro ⟨row, hrow, column, hcolumn, rewrite, hrewrite, i, hi, hrole, hchange⟩
      obtain ⟨g, hg, rfl, rfl⟩ := hfind hcolumn hrewrite hi
      refine ⟨g, hg, ?_, row, hrow, rewrite, hrewrite, hchange⟩
      rw [hkey g hg]
      exact hrole.imp id decide_eq_true
  refine ⟨fun hok row hrow column hcolumn rewrite hrewrite i hi hchange => ?_, herror⟩
  have hrole : ¬ (isKey operation (schema.get i) ∨ operation.mappingPolicy = .strict) := fun h =>
    herror.2 ⟨row, hrow, column, hcolumn, rewrite, hrewrite, i, hi, h, hchange⟩ hok
  obtain ⟨hnokey, hnostrict⟩ := not_or.1 hrole
  refine ⟨hnokey, hnostrict, ?_⟩
  obtain ⟨g, hg, rfl, rfl⟩ := hfind hcolumn hrewrite hi
  have hstrict : guard.strict = false := decide_eq_false hnostrict
  unfold RewriteGuard.losses
  rw [hstrict, if_neg Bool.false_ne_true, List.mem_flatMap]
  refine ⟨g, List.mem_filter.2 ⟨hg, ?_⟩, List.mem_map.2 ⟨rewrite, hrewrite, rfl⟩⟩
  rw [hkey g hg]
  simpa using hnokey

/-! An Oracle target with a key `VARCHAR2(10)` and a column `CHAR(3)`. -/

def codes : Schema := [⟨"id", .utf8⟩, ⟨"codice", .utf8⟩]

def codeRow (id codice : Option String) : BatchRow codes
  | ⟨0, _⟩ => id
  | ⟨1, _⟩ => codice

def codeRewrites : List ColumnRewrites :=
  [⟨0, "VARCHAR2(10)", [.emptyToNull]⟩, ⟨1, "CHAR(3)", [.emptyToNull, .padText 3]⟩]

def codeGuard : RewriteGuard codes where
  provider := .oracle
  columns :=
    [{ column := ⟨0, "VARCHAR2(10)", [.emptyToNull]⟩, index := ⟨0, by decide⟩, index_eq := rfl
       key := true },
      { column := ⟨1, "CHAR(3)", [.emptyToNull, .padText 3]⟩, index := ⟨1, by decide⟩
        index_eq := rfl, key := false }]
  strict := false
  textUnits := []

/-- The padding of a short code is declared, outside the key and without `Strict`. -/
theorem check_admits_codes :
    ¬ isKey ⟨["id"], .compatible⟩ ⟨"codice", .utf8⟩ ∧ MappingPolicy.compatible ≠ .strict ∧
      RewriteGuard.lossOf ⟨1, "CHAR(3)", [.emptyToNull, .padText 3]⟩ (.padText 3) ∈
        (codeGuard.withTextUnits [(1, .utf8Bytes)]).losses :=
  (check_admits .oracle ⟨["id"], .compatible⟩ codeRewrites codeGuard rfl [(1, .utf8Bytes)]
    ⟨[codeRow (some "a") (some "xy"), codeRow (some "b") none]⟩).1 (by decide +kernel)
    (codeRow (some "a") (some "xy")) (by simp) ⟨1, "CHAR(3)", [.emptyToNull, .padText 3]⟩
    (by simp [codeRewrites]) (.padText 3) (by simp) ⟨1, by decide⟩ rfl
    ((rewritesInUnit_iff _ _ _).1 (by decide +kernel))

/-! ## The guarded input -/

/-- Without a declared rewrite every batch passes. -/
theorem check_of_isEmpty {guard : RewriteGuard schema} (h : guard.isEmpty)
    (batch : RecordBatch schema) : guard.check batch = .ok () := by
  unfold RewriteGuard.check
  rw [List.isEmpty_iff.1 h]
  rfl

/-- What reaches the write is a prefix of the input whose batches all passed, and it is the whole
input unless a batch was refused. -/
theorem deliver_spec (guard : RewriteGuard schema) (input : List (RecordBatch schema)) :
    (guard.deliver input).1 <+: input ∧
      (∀ batch ∈ (guard.deliver input).1, guard.check batch = .ok ()) ∧
      ((guard.deliver input).2 = none ↔ (guard.deliver input).1 = input) := by
  induction input with
  | nil => simp [RewriteGuard.deliver]
  | cons batch batches ih =>
    obtain ⟨hbefore, hall, hnone⟩ := ih
    unfold RewriteGuard.deliver
    split
    next e _ => simp
    next hbatch =>
      refine ⟨List.cons_prefix_cons.2 ⟨rfl, hbefore⟩, ?_, ?_⟩
      · exact List.forall_mem_cons.2 ⟨hbatch, hall⟩
      · rw [hnone, List.cons.injEq]
        simp

/-- **No batch reaches the write without having passed the rule.** -/
theorem guardInput_checked (guard : RewriteGuard schema) (input : List (RecordBatch schema)) :
    ∀ batch ∈ (guard.guardInput input).1, guard.check batch = .ok () := by
  unfold RewriteGuard.guardInput
  split
  next h => exact fun batch _ => check_of_isEmpty h batch
  next => exact (deliver_spec guard input).2.1

end Guard

end Plenora.Core.RuleS
