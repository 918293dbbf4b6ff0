import Plenora.Core.WriteOutcome
import Plenora.Postgres.Errors

/-!
# The recovery of a PostgreSQL write

Before the COMMIT every failure rolls the transaction back, and its error says
what the rollback came to; after it the outcome is known from an acknowledgement
or from a code that proves the rollback, and else unknown.

    Settles (afterError id rollback e)                                     (settles_afterError)
-/

namespace Plenora.Postgres.Write

open Plenora.Core Plenora.Core.Cancellation

/-! ## Algorithm -/

/-- How a transaction ended that never sent its COMMIT. -/
inductive Rollback where
  | confirmed | sessionClosed | unconfirmed
  deriving DecidableEq, Repr

def Rollback.of : Except DriverError Unit → Rollback
  | .ok () => .confirmed
  | .error error => if error.closed then .sessionClosed else .unconfirmed

/-- No effect of the transaction will ever be visible. -/
def neverCommitted (e : DatabaseError) : DatabaseError :=
  { e with
    remoteEffect := .none
    retry := if e.retry = .requiresRecovery then .never else e.retry }

def interruptionMessage (reason : CancellationReason) : String :=
  if reason = .deadline then "durata massima write PostgreSQL esaurita"
  else "write PostgreSQL cancellata sul server"

/-- The error of a write that a rollback followed, confirmed or not. -/
def afterRollback (category : ErrorCategory) (confirmed : Bool) (message : String) :
    DatabaseError :=
  if confirmed then publicErrorEnvelope category .write .rolledBack .never message
  else (publicErrorEnvelope category .write .unknown .requiresRecovery message).afterUnconfirmedRollback

def cancelledWriteError (reason : CancellationReason) (rollbackConfirmed : Bool) : DatabaseError :=
  afterRollback (interruptionCategory reason) rollbackConfirmed (interruptionMessage reason)

def resourceWriteError (cause : DatabaseError) (rollbackConfirmed : Bool) : DatabaseError :=
  afterRollback cause.category rollbackConfirmed cause.message

def commitInterruptionError (reason : CancellationReason) (executionId : String) : DatabaseError :=
  { publicErrorEnvelope (interruptionCategory reason) .commit .unknown .requiresRecovery
      "deadline o cancellazione durante commit PostgreSQL: verificare lo stato remoto" with
    executionId := some executionId }

/-- The error of a COMMIT that a code proves rolled back. -/
def provenCommitRollback (error : DriverError) (executionId : String) : DatabaseError :=
  { afterCommitSent (classifyError .commit error) true with executionId := some executionId }

/-- `rollback_cancellation` and `rollback_resource_error`: a session that closed took the
transaction with it. -/
def afterInterruption (executionId : String) (rollback : Rollback) (e : Bool → DatabaseError) :
    DatabaseError :=
  let e := e (rollback = .confirmed)
  { (if rollback = .sessionClosed then { neverCommitted e with phase := .write } else e) with
    executionId := some executionId }

def attributed (executionId : String) (e : DatabaseError) : DatabaseError :=
  { e with provider := some .postgres, executionId := some executionId }

/-- `rollback_aborted`: the server refused a statement, and the transaction with it. -/
def afterAbort (executionId : String) (rollback : Rollback) (e : DatabaseError) : DatabaseError :=
  let e := attributed executionId e
  if rollback = .confirmed then { e with remoteEffect := .rolledBack } else neverCommitted e

/-- `rollback_error`. -/
def afterError (executionId : String) (rollback : Rollback) (e : DatabaseError) : DatabaseError :=
  let e := attributed executionId e
  match rollback with
  | .confirmed => { e with remoteEffect := .rolledBack }
  | .sessionClosed => neverCommitted e
  | .unconfirmed => e.afterUnconfirmedRollback

/-- `rollback_error` of the row-scoped path. -/
def afterRowError (executionId : String) (rollback : Rollback) (e : DatabaseError) :
    DatabaseError :=
  let e := attributed executionId e
  match rollback with
  | .confirmed => { e with remoteEffect := .rolledBack, retry := .never }
  | .sessionClosed => { neverCommitted e with retry := .never }
  | .unconfirmed => { e with phase := .rollback, remoteEffect := .unknown, retry := .quarantine }

def unknownWriteOutcome (executionId : String) (received : Nat) (verificationAction : String)
    (cause : Option ErrorCategory) : WriteOutcome where
  schemaVersion := 2
  status := .outcomeUnknown
  executionId := executionId
  provider := .postgres
  rows := ⟨received, 0, none, none, none, 0, 0⟩
  recovery := some
    { cause
      lastCertainPhase := .commitRequested
      automaticRetryAllowed := false
      idempotencyKey := none
      stagingObject := none
      verificationAction := some verificationAction }

/-! ## What the errors say -/

/-- The effect is in doubt, and nothing retries on its own. -/
def InDoubt (e : DatabaseError) : Prop := e.remoteEffect = .unknown ∧ e.isRetryable = false

/-- An error that says what was done, or that it does not know. -/
def Settles (e : DatabaseError) : Prop := SaysUndone e ∨ InDoubt e

instance (e : DatabaseError) : Decidable (Settles e) :=
  inferInstanceAs (Decidable ((_ ∨ _) ∨ (_ ∧ _)))

theorem inDoubt_afterUnconfirmedRollback (e : DatabaseError) : InDoubt e.afterUnconfirmedRollback :=
  ⟨rfl, e.isRetryable_recoveryRetry⟩

theorem settles_neverCommitted (e : DatabaseError) : Settles (neverCommitted e) := .inl (.inl rfl)

theorem settles_afterRollback (category : ErrorCategory) (confirmed : Bool) (message : String) :
    Settles (afterRollback category confirmed message) := by
  unfold afterRollback
  cases confirmed with
  | true => exact .inl (.inr rfl)
  | false => exact .inr (inDoubt_afterUnconfirmedRollback _)

theorem settles_afterInterruption (executionId : String) (rollback : Rollback)
    {e : Bool → DatabaseError} (h : ∀ confirmed, Settles (e confirmed)) :
    Settles (afterInterruption executionId rollback e) := by
  cases rollback with
  | confirmed => exact h true
  | sessionClosed => exact settles_neverCommitted _
  | unconfirmed => exact h false

theorem settles_afterAbort (executionId : String) (rollback : Rollback) (e : DatabaseError) :
    Settles (afterAbort executionId rollback e) := by
  unfold afterAbort
  by_cases hconfirmed : rollback = .confirmed
  · rw [if_pos hconfirmed]
    exact .inl (.inr rfl)
  · rw [if_neg hconfirmed]
    exact settles_neverCommitted _

theorem settles_afterError (executionId : String) (rollback : Rollback) (e : DatabaseError) :
    Settles (afterError executionId rollback e) := by
  cases rollback with
  | confirmed => exact .inl (.inr rfl)
  | sessionClosed => exact settles_neverCommitted _
  | unconfirmed => exact .inr (inDoubt_afterUnconfirmedRollback _)

theorem settles_afterRowError (executionId : String) (rollback : Rollback) (e : DatabaseError) :
    Settles (afterRowError executionId rollback e) := by
  cases rollback with
  | confirmed => exact .inl (.inr rfl)
  | sessionClosed => exact .inl (.inl rfl)
  | unconfirmed => exact .inr ⟨rfl, rfl⟩

/-! ## What the driver's errors say -/

/-- The one answer whose effect is in doubt and that asks to be retried: `out_of_memory`. -/
def OutOfMemory (phase : ErrorPhase) (error : DriverError) : Prop :=
  error.code = some "53200" ∧ (error.closed && phaseIsStateMutating phase) = false

theorem sqlstates_settle :
    ∀ entry ∈ sqlstates, entry.1 = ["53200"] ∨ Settles (entry.2.toError .write) := by
  decide

theorem settles_mapping {code : String} {mapping : Mapping} (hcode : code ≠ "53200")
    (h : mappingForSqlstate code = some mapping) (phase : ErrorPhase) :
    Settles (mapping.toError phase) := by
  obtain ⟨entry, hfound, rfl⟩ := Option.map_eq_some_iff.1 h
  rcases sqlstates_settle entry (List.mem_of_find?_eq_some hfound) with hmemory | hsettles
  · have hlisted := List.find?_some hfound
    rw [hmemory, List.contains_iff_mem, List.mem_singleton] at hlisted
    exact absurd hlisted hcode
  · exact hsettles

/-- **The error of an answer settles the write, unless the server ran out of memory.** -/
theorem settles_classifyError_iff (phase : ErrorPhase) (error : DriverError) :
    Settles (classifyError phase error) ↔ ¬ OutOfMemory phase error := by
  have hsrid : ∀ code, error.code = some code → code ≠ "53200" →
      (Settles (mixedSridError phase) ↔ ¬ OutOfMemory phase error) := by
    intro code hcode hne
    refine ⟨fun _ hmemory => hne ?_, fun _ => ?_⟩
    · exact Option.some.inj (hcode.symm.trans hmemory.1)
    · unfold mixedSridError
      by_cases hphase : phaseIsStateMutating phase = true
      · rw [if_pos hphase]
        exact .inl (.inr rfl)
      · rw [if_neg hphase]
        exact .inl (.inl rfl)
  unfold classifyError
  by_cases hmixed : error.code = some "XX000" ∧ mixedSridMessage error.message
  · rw [if_pos hmixed]
    exact hsrid _ hmixed.1 (by decide)
  rw [if_neg hmixed]
  by_cases hcolumn : error.code = some "22023" ∧ columnSridMessage error.message
  · rw [if_pos hcolumn]
    exact hsrid _ hcolumn.1 (by decide)
  rw [if_neg hcolumn]
  unfold resolveMapping
  cases hmapping : error.code.bind mappingForSqlstate with
  | none =>
    have hcode : ¬ OutOfMemory phase error := by
      intro hmemory
      rw [hmemory.1] at hmapping
      cases hmapping
    refine ⟨fun _ => hcode, fun _ => ?_⟩
    show Settles (Mapping.toError (if error.closed then _ else if _ then _ else _) phase)
    split
    next =>
      cases hphase : phaseIsStateMutating phase with
      | true => exact .inr ⟨rfl, rfl⟩
      | false => exact .inl (.inl rfl)
    next =>
      split
      next => exact .inr ⟨rfl, rfl⟩
      next => exact .inl (.inl rfl)
  | some mapping =>
    obtain ⟨code, hcode, hlisted⟩ := Option.bind_eq_some_iff.1 hmapping
    show Settles (Mapping.toError (if _ then _ else mapping) phase) ↔ _
    by_cases hlost : (error.closed && phaseIsStateMutating phase) = true
    · rw [if_pos hlost]
      refine ⟨fun _ hmemory => ?_, fun _ => .inr ⟨rfl, rfl⟩⟩
      exact absurd (hlost.symm.trans hmemory.2) (by decide)
    · rw [if_neg hlost]
      by_cases hmemory : code = "53200"
      · subst hmemory
        cases hlisted
        refine ⟨fun hsettles => ?_, fun hkept => absurd ⟨hcode, by simpa using hlost⟩ hkept⟩
        rcases hsettles with (hnone | hrolled) | hdoubt
        · cases hnone
        · cases hrolled
        · cases hdoubt.2
      · refine ⟨fun _ hout => hmemory (Option.some.inj (hcode.symm.trans hout.1)), fun _ => ?_⟩
        exact settles_mapping hmemory hlisted phase

end Plenora.Postgres.Write
