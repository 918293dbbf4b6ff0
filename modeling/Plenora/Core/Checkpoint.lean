import Plenora.Lib.Outcome
import Plenora.Lib.Ieee
import Plenora.Core.Plan

/-!
# Keyset checkpoints

A checkpoint carries the ordering of a read and the values of the last row
delivered; `resume` conjoins the original filter with the lexicographic predicate
that asks for the rows strictly after it.  Serialisation and SHA-256 of the scope
are parameters (`Digest`).
-/

namespace Plenora.Core

open Plenora.Lib

/-! ## Data model -/

def readCheckpointSchemaVersion : Nat := 2

/-- `serde_json` over the scope of a read, and SHA-256. -/
structure Digest where
  toVec : ProviderKind → ObjectRef → List String → List OrderBy → Option FilterExpression →
    List DeclaredCrs → ParameterBag → Option (List UInt8)
  sha256 : List UInt8 → List UInt8

structure ReadCheckpoint where
  schemaVersion : Nat
  provider : ProviderKind
  source : ObjectRef
  orderBy : List OrderBy
  scopeFingerprint : String
  values : List ParameterValue

/-! ## Algorithm -/

def hexDigits : List Char := "0123456789abcdef".toList

def hexByte (byte : UInt8) : List Char :=
  [hexDigits.getD (byte >>> 4).toNat '0', hexDigits.getD (byte &&& 0x0f).toNat '0']

/-- The scope of a read is everything but its window. -/
def scopeFingerprint (digest : Digest) (provider : ProviderKind) (operation : ReadOperation)
    (parameters : ParameterBag) : Result String := do
  let canonical ← okOr
    (digest.toVec provider operation.source operation.projection operation.orderBy
      operation.filter operation.declaredCrs parameters)
    (.invalidPlan "scope checkpoint non serializzabile")
  .ok (String.ofList ("sha256:".toList ++ (digest.sha256 canonical).flatMap hexByte))

def parameterName (index : Nat) : String := "__plenora_resume_" ++ toString index

/-- `And`/`Or` of a list, the list's own element when it has exactly one. -/
def unwrapSingle (wrap : List FilterExpression → FilterExpression) :
    List FilterExpression → FilterExpression
  | [only] => only
  | terms => wrap terms

/-- Past the checkpoint's value in the direction of the column. -/
def pastValue (index : Nat) (ordering : OrderBy) : FilterExpression :=
  match ordering.direction with
  | .asc => .gt ordering.field (parameterName index)
  | .desc => .lt ordering.field (parameterName index)

/-- One alternative: equality on the columns before `index`, and past the value at `index`. -/
def keysetTerms (orderBy : List OrderBy) (index : Nat) (ordering : OrderBy) :
    List FilterExpression :=
  (orderBy.take index).mapIdx (fun i prior => .eq prior.field (parameterName i)) ++
    [pastValue index ordering]

def lexicographicFilter (orderBy : List OrderBy) : FilterExpression :=
  unwrapSingle .or
    (orderBy.mapIdx fun index ordering => unwrapSingle .and (keysetTerms orderBy index ordering))

/-- The original filter, if any, and the rows after the checkpoint. -/
def resumedFilter (original : Option FilterExpression) (keyset : FilterExpression) :
    FilterExpression :=
  match original with
  | some original => .and [original, keyset]
  | none => keyset

/-- A value with an ordering every product shares. -/
def hasPortableOrder : ParameterValue → Bool
  | .null _ => false
  | .json _ => false
  | .wkb .. => false
  | .f64 bits => Ieee.isFinite bits
  | _ => true

/-- The loop over the checkpoint's values: each is bound under its reserved name, which must
be free. -/
def bindValues : Nat → List ParameterValue → ParameterBag → Result ParameterBag
  | _, [], bag => .ok bag
  | index, value :: values, bag => do
    failIf ((bag.get (parameterName index)).isSome)
      (.invalidPlan "collisione con un parametro riservato al checkpoint")
    bindValues (index + 1) values (AList.insert (parameterName index) value bag)

namespace ReadCheckpoint

def validate (checkpoint : ReadCheckpoint) : Result Unit := do
  failIf (checkpoint.schemaVersion ≠ readCheckpointSchemaVersion)
    (.invalidPlan "versione del checkpoint di lettura non supportata")
  failIf (checkpoint.orderBy.isEmpty ∨ checkpoint.orderBy.length > 256)
    (.invalidPlan "un checkpoint richiede da una a 256 colonne ordinate")
  failIf (checkpoint.values.length ≠ checkpoint.orderBy.length)
    (.invalidPlan "numero di valori del checkpoint diverso dall'ordinamento")
  let text := checkpoint.scopeFingerprint.toList
  failIf (checkpoint.scopeFingerprint.utf8ByteSize ≠ 71 ∨ ¬ "sha256:".toList <+: text ∨
      ¬ (text.drop 7).all (fun c => ('0' ≤ c ∧ c ≤ '9') ∨ ('a' ≤ c ∧ c ≤ 'f')))
    (.invalidPlan "fingerprint dello scope checkpoint non valido")
  failIf ((checkpoint.orderBy.any (·.field.isEmpty)) ∨
      ¬ (checkpoint.orderBy.map (·.field)).Nodup)
    (.invalidPlan "ordinamento del checkpoint vuoto o duplicato")
  failIf (¬ checkpoint.values.all hasPortableOrder)
    (.invalidPlan "checkpoint con valore privo di ordinamento SQL portabile")

/-- The checkpoint of explicit ordering values. -/
def new (digest : Digest) (provider : ProviderKind) (operation : ReadOperation)
    (parameters : ParameterBag) (values : List ParameterValue) : Result ReadCheckpoint := do
  let fingerprint ← Core.scopeFingerprint digest provider operation parameters
  let checkpoint : ReadCheckpoint :=
    { schemaVersion := readCheckpointSchemaVersion
      provider
      source := operation.source
      orderBy := operation.orderBy
      scopeFingerprint := fingerprint
      values }
  checkpoint.validate
  .ok checkpoint

/-- The values of the ordering columns in a delivered row. -/
def orderingValues (row : Row) : List OrderBy → Result (List ParameterValue)
  | [] => .ok []
  | ordering :: orderBy => do
    let found ← row.tryGet ordering.field
    let value ← okOr found
      (.invalidPlan "la riga del checkpoint non contiene tutte le colonne ordinate")
    let values ← orderingValues row orderBy
    .ok (value :: values)

/-- The checkpoint of the last row delivered. -/
def fromRow (digest : Digest) (provider : ProviderKind) (operation : ReadOperation)
    (parameters : ParameterBag) (row : Row) : Result ReadCheckpoint := do
  let values ← orderingValues row operation.orderBy
  new digest provider operation parameters values

/-- A new read that starts after the checkpoint, and the values bound for it. -/
def resume (digest : Digest) (checkpoint : ReadCheckpoint) (provider : ProviderKind)
    (operation : ReadOperation) (parameters : ParameterBag) :
    Result (ReadOperation × ParameterBag) := do
  checkpoint.validate
  let fingerprint ← Core.scopeFingerprint digest provider operation parameters
  failIf (checkpoint.provider ≠ provider ∨ checkpoint.source ≠ operation.source ∨
      checkpoint.orderBy ≠ operation.orderBy ∨ checkpoint.scopeFingerprint ≠ fingerprint)
    (.invalidPlan "checkpoint non qualificato per provider, sorgente o ordinamento richiesti")
  failIf operation.rowOffset.isSome
    (.invalidPlan "checkpoint keyset e row_offset non sono componibili")
  let values ← bindValues 0 checkpoint.values parameters
  let keyset := lexicographicFilter checkpoint.orderBy
  .ok ({ operation with filter := some (resumedFilter operation.filter keyset) }, values)

end ReadCheckpoint

end Plenora.Core
