import Mathlib

/-!
# The public error envelope

`DatabaseError` with the axes every constructor of the core fills in: the
category, the phase, the remote effect and the retry disposition.  Row
diagnostics travel with an error only in the write adapters and are left out.
-/

namespace Plenora.Core

inductive ProviderKind where
  | postgres | mysql | mariadb | sqlserver | oracle | db2 | sqlite | duckdb
  deriving DecidableEq, Repr

inductive ErrorCategory where
  | invalidPlan | invalidConfiguration | schema | dataMapping | crs | unsupported
  | notFound | conflict | concurrentModification | authentication | authorization
  | timeout | cancelled | resourceLimit | io | protocol | transient | execution | internal
  deriving DecidableEq, Repr

inductive ErrorPhase where
  | validate | connect | probe | prepare | read | write | finalize | commit | rollback | cleanup
  deriving DecidableEq, Repr

inductive RemoteEffect where
  | none | rolledBack | partialEffect | committed | unknown
  deriving DecidableEq, Repr

inductive RetryDisposition where
  | never | quarantine | safe | requiresIdempotencyKey | requiresRecovery
  | after (delayMs : Nat)
  deriving DecidableEq, Repr

structure DatabaseError where
  category : ErrorCategory
  phase : ErrorPhase
  remoteEffect : RemoteEffect
  retry : RetryDisposition
  provider : Option ProviderKind
  executionId : Option String
  message : String
  deriving DecidableEq, Repr

abbrev Result (α : Type) := Except DatabaseError α

namespace DatabaseError

/-- A local error: no remote effect, never retried. -/
def new (category : ErrorCategory) (phase : ErrorPhase) (provider : Option ProviderKind)
    (message : String) : DatabaseError :=
  { category, phase, remoteEffect := .none, retry := .never, provider
    executionId := none, message }

def invalidPlan (message : String) : DatabaseError := new .invalidPlan .validate none message

def resourceLimit (message : String) : DatabaseError := new .resourceLimit .validate none message

def unsupported (provider : ProviderKind) (phase : ErrorPhase) (message : String) :
    DatabaseError :=
  new .unsupported phase (some provider) message

end DatabaseError

end Plenora.Core
