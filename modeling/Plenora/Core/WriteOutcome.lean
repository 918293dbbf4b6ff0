import Plenora.Lib.Outcome
import Plenora.Lib.Machine
import Plenora.Core.Transaction

/-!
# The document of a write

What a write reports: its status, the rows it counted, and for an unsettled one
the recovery.  `validate` holds a document against the contract before it is
published.

    outcome.validate = .ok () → outcome.rows.confirmed ≤ outcome.rows.received   (confirmed_le)
-/

namespace Plenora.Core

open Plenora.Lib

/-! ## Data model -/

inductive WriteMode where
  | create | append | replace | truncateInsert | update | upsert | deleteByKeys
  deriving DecidableEq, Repr

inductive TransactionProfile where
  | readOnly | singleTransaction | stagedSwap | chunkCommitted | bestEffortDdl
  deriving DecidableEq, Repr

inductive WriteStatus where
  | committed | rolledBack | partiallyCommitted | outcomeUnknown
  deriving DecidableEq, Repr

structure RowCounts where
  received : Nat
  confirmed : Nat
  inserted : Option Nat
  updated : Option Nat
  deleted : Option Nat
  failed : Nat
  skipped : Nat
  deriving DecidableEq, Repr

structure WriteOutcome where
  schemaVersion : Nat
  status : WriteStatus
  executionId : String
  provider : ProviderKind
  rows : RowCounts
  recovery : Option Recovery
  deriving DecidableEq, Repr

/-! ## Algorithm -/

def maxExecutionIdChars : Nat := 128
def maxIdempotencyKeyChars : Nat := 256
def maxStagingObjectChars : Nat := 512
def maxVerificationActionChars : Nat := 1024

def exceeds (field : Option String) (limit : Nat) : Bool := field.any fun value => limit < value.length

namespace WriteOutcome

/-- A document in doubt, and only such a one, carries its recovery. -/
def uncertain (outcome : WriteOutcome) : Bool :=
  outcome.status = .partiallyCommitted || outcome.status = .outcomeUnknown

def validateRecovery (outcome : WriteOutcome) : Result Unit := do
  failIf (outcome.recovery.any fun recovery =>
      exceeds recovery.idempotencyKey maxIdempotencyKeyChars ||
        exceeds recovery.stagingObject maxStagingObjectChars ||
        exceeds recovery.verificationAction maxVerificationActionChars)
    (.invalidPlan "campo di recovery oltre la lunghezza del contratto")
  failIf (outcome.uncertain ≠ outcome.recovery.isSome)
    (.invalidPlan "recovery deve essere presente soltanto per outcome parziale o incerto")
  failIf (outcome.status = .outcomeUnknown ∧ outcome.recovery.any (·.automaticRetryAllowed))
    (.invalidPlan "un outcome ignoto richiede recovery prima del retry")

def validateRows (outcome : WriteOutcome) : Result Unit := do
  failIf ((outcome.status = .rolledBack ∨ outcome.status = .outcomeUnknown) ∧
      outcome.rows.confirmed ≠ 0)
    (.invalidPlan "un outcome rolled_back o unknown non può confermare righe")
  let accounted ← okOr ((checkedAdd 64 outcome.rows.confirmed outcome.rows.failed).bind
      (checkedAdd 64 · outcome.rows.skipped))
    (.invalidPlan "overflow nella contabilità delle righe")
  failIf (outcome.rows.received < accounted)
    (.invalidPlan "i conteggi di write superano le righe ricevute")
  let mutations ← okOr ([outcome.rows.inserted, outcome.rows.updated,
      outcome.rows.deleted].reduceOption.foldlM (checkedAdd 64) 0)
    (.invalidPlan "overflow nei conteggi delle mutazioni")
  failIf (outcome.rows.confirmed < mutations)
    (.invalidPlan "le mutazioni confermate superano le righe confermate")

def validate (outcome : WriteOutcome) : Result Unit := do
  failIf (outcome.schemaVersion ≠ 2)
    (.invalidPlan "esito di scrittura con schema_version non supportata")
  failIf (outcome.executionId.length = 0) (.invalidPlan "esito di scrittura senza execution_id")
  failIf (maxExecutionIdChars < outcome.executionId.length)
    (.invalidPlan "execution_id oltre la lunghezza del contratto")
  outcome.validateRecovery
  outcome.validateRows

end WriteOutcome

end Plenora.Core
