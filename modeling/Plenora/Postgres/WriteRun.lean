import Plenora.Core.RowDiagnostics
import Plenora.Postgres.WriteRecovery

/-!
# A run of `write::execute`

One transaction writes the batches of a stream, the whole input or nothing.  What
the stream delivers, what the server answers and where the token fires are the
environment's; every statement of the transaction but its COMMIT and ROLLBACK is
a step that may end in any result.

    execute env : Call DatabaseError State WriteOutcome
-/

namespace Plenora.Postgres.Write

open Plenora.Lib Plenora.Lib.Call Plenora.Core Plenora.Core.Cancellation

/-! ## The environment -/

/-- What becomes of an awaited operation: it ends, or the token fires first. -/
inductive Awaited (β : Type) where
  | ended (result : β)
  | cancelled (reason : CancellationReason)

/-- Why a batch was not written: the server refused a statement, and with it the transaction, or
anything else. -/
inductive BatchFailure where
  | serverAborted (e : DatabaseError)
  | other (e : DatabaseError)

/-- A batch of the stream: its rows, the token when it arrives, what the checks on it say and what
its writing comes to. -/
structure Batch where
  rows : Nat
  schemaMatches : Bool
  token : Option CancellationReason
  reserved : Result Unit
  stamped : Result Unit
  written : Awaited (Except BatchFailure Nat)
  accounted : Result Unit

/-- How the stream ends.  Where the token fires, a stream that nobody races against it returns an
error of its own. -/
inductive InputEnd where
  | exhausted
  | failed (e : DatabaseError)
  | interrupted (reason : CancellationReason) (e : DatabaseError)

/-- A source row on the row-scoped path: the encoding of its values, then its INSERT. -/
structure RowAttempt where
  encoded : Result Unit
  executed : Awaited (Except DriverError Nat)

inductive FaultPoint where
  | beforeCommit | afterCommitAcknowledgement | rollbackAcknowledgementLost
  deriving DecidableEq, Repr

/-- The catalog and target statements of the transaction, and `restore` before its COMMIT. -/
inductive Step where
  | closePath | pinSession | qualifier | assignSessionRules | enforceVisibility
  | registerFieldIdentity | evolveTargetSchema | prepareTarget | keyFacts | createSpatialIndexes
  | restorePath | enforceRowVisibility | restoreRowPath
  deriving DecidableEq, Repr

/-- Why the pool gave no client: a check of its own, or an answer to the connection. -/
inductive CheckoutFailure where
  | invalidPlan (message : String)
  | refused (category : ErrorCategory) (retryable : Bool) (message : String)
  | driver (error : DriverError)

structure Env where
  token : Option CancellationReason
  schemaMatches : Bool
  driverState : Bool
  mode : WriteMode
  transactionProfile : TransactionProfile
  createSpatialIndex : Bool
  spatial : Bool
  declaredInputRows : Option UInt64
  policy : RowDiagnostics.Policy
  hasField : String → Bool
  process : Nat
  sequence : Nat
  faultPoint : Option FaultPoint
  checkout : Awaited (Except CheckoutFailure Bool)
  discarded : Awaited (Except DriverError Unit)
  begun : Awaited (Except DriverError Unit)
  steps : Step → Awaited (Result Unit)
  keysGuarded : Result Unit
  rowStatement : Result Unit
  rowPrepared : Awaited (Except DriverError Unit)
  rowParameters : Result Unit
  batches : List Batch
  inputEnd : InputEnd
  rows : Nat → RowAttempt
  rolledBack : Except DriverError Unit
  committed : Awaited (Except DriverError Unit)

def Env.executionId (env : Env) : String := s!"pg-{env.process}-{env.sequence}"

/-! ## The run -/

inductive Command where
  | commit | rollback
  deriving DecidableEq, Repr

/-- Where the row-scoped path stands in its input: the batches to come, the current one and the
index of its first row. -/
structure Cursor where
  pending : List Batch
  batch : Option Batch
  batchStart : Nat

/-- `reusable`: the pooled client goes back to the pool.  `commands`: the ends of the transaction
that were sent, with their answers.  The rest is the row writer. -/
structure State where
  reusable : Bool
  commands : List (Command × Awaited (Except DriverError Unit))
  transaction : Bool
  cursor : Cursor
  applied : Nat
  processed : Nat

abbrev Run (β : Type) := Call DatabaseError State β

def State.init (env : Env) : State := ⟨false, [], true, ⟨env.batches, none, 0⟩, 0, 0⟩

def setReusable (reusable : Bool) : Run Unit := update fun s => { s with reusable }

def send (command : Command) (answer : Awaited (Except DriverError Unit)) : Run Unit :=
  update fun s => { s with commands := s.commands ++ [(command, answer)] }

section Algorithm

variable (env : Env)

/-- `Rollback::of`. -/
def rollbackNow : Run Rollback := do
  send .rollback (.ended env.rolledBack)
  pure (Rollback.of env.rolledBack)

def abandonError {β : Type} (e : DatabaseError) : Run β := do
  let rollback ← rollbackNow env
  throw (afterError env.executionId rollback e)

def abandonCancelled {β : Type} (reason : CancellationReason) : Run β := do
  let rollback ← rollbackNow env
  throw (afterInterruption env.executionId rollback (cancelledWriteError reason))

def abandonResource {β : Type} (e : DatabaseError) : Run β := do
  let rollback ← rollbackNow env
  throw (afterInterruption env.executionId rollback (resourceWriteError e))

def abandonAborted {β : Type} (e : DatabaseError) : Run β := do
  let rollback ← rollbackNow env
  throw (afterAbort env.executionId rollback e)

/-- A step of the transaction: an error or the token rolls it back. -/
def step (which : Step) : Run Unit :=
  match env.steps which with
  | .ended (.ok ()) => pure ()
  | .ended (.error e) => abandonError env e
  | .cancelled reason => abandonCancelled env reason

def stepIf (c : Bool) (which : Step) : Run Unit := if c then step env which else pure ()

def orAbandon (r : Result Unit) : Run Unit :=
  match r with
  | .ok () => pure ()
  | .error e => abandonError env e

/-! ### Before the transaction -/

def interruptedBefore {β : Type} (reason : CancellationReason) (phase : ErrorPhase) : Run β :=
  throw (publicError (interruptionCategory reason) phase false (interruptionMessage reason))

/-- `row_diagnostics::validate_input`, on the path that writes row by row; the rows it declares. -/
def diagnosticInput : Result (Option Nat) :=
  if env.mode = .append ∧ env.transactionProfile = .singleTransaction then
    match env.declaredInputRows with
    | none => .ok none
    | some declared => do
      let _ ← RowDiagnostics.Tracker.new declared.toNat env.policy
      failIf ([env.policy.keyField, env.policy.constraintColumn].any (·.any (!env.hasField ·)))
        (.invalidPlan "policy row-scoped riferita a un campo assente dallo schema preparato")
      .ok (some declared.toNat)
  else .ok none

def checkoutError : CheckoutFailure → DatabaseError
  | .invalidPlan message => .invalidPlan message
  | .refused category retryable message => publicError category .connect retryable message
  | .driver error => classifyError .connect error

/-- A client of the pool, and whether it was used before. -/
def checkout : Run Bool :=
  match env.checkout with
  | .ended (.ok reused) => do
    setReusable true
    pure reused
  | .ended (.error failure) => throw (checkoutError failure)
  | .cancelled reason => interruptedBefore reason .connect

/-- DISCARD ALL; from here on the client goes back only after an acknowledged COMMIT. -/
def discardAll : Run Unit := do
  setReusable false
  match env.discarded with
  | .ended (.ok ()) => pure ()
  | .ended (.error error) => throw (classifyError .connect error)
  | .cancelled reason => interruptedBefore reason .connect

def begin_ : Run Unit := do
  setReusable false
  match env.begun with
  | .ended (.ok ()) => pure ()
  | .ended (.error error) => throw (classifyError .write error)
  | .cancelled reason => interruptedBefore reason .write

def checkStart : Run Unit :=
  match env.token with
  | some reason => interruptedBefore reason .write
  | none => do
    ofResult (failIf (env.schemaMatches = false)
      (.invalidPlan "schema stream diverso dallo schema preparato"))
    ofResult (failIf (env.driverState = false)
      (.invalidPlan "stato prepared write PostgreSQL assente o incompatibile"))

/-- Up to the open transaction; the rows the input declares, on the row-scoped path. -/
def openTransaction : Run (Option Nat) := do
  checkStart env
  let diagnostic ← ofResult (diagnosticInput env)
  let reused ← checkout env
  if reused then discardAll env else pure ()
  begin_ env
  pure diagnostic

/-! ### The batches -/

def batchSchemaError : DatabaseError :=
  .invalidPlan "lo schema del batch write diverge dallo schema dichiarato dallo stream"

/-- What is checked on a batch before it is written. -/
def admitBatch (batch : Batch) : Run Unit := do
  orAbandon env (failIf (batch.schemaMatches = false) batchSchemaError)
  match batch.token with
  | some reason => abandonCancelled env reason
  | none =>
    match batch.reserved with
    | .error e => abandonResource env e
    | .ok () => orAbandon env batch.stamped

/-- The rows the server confirms for a batch. -/
def writtenRows (batch : Batch) : Run Nat :=
  match batch.written with
  | .ended (.ok written) => pure written
  | .ended (.error (.serverAborted e)) => abandonAborted env e
  | .ended (.error (.other e)) => abandonError env e
  | .cancelled reason => abandonCancelled env reason

def account (batch : Batch) (counts : Nat × Nat) (written : Nat) : Result (Nat × Nat) := do
  batch.accounted
  let received ← okOr (checkedAdd 64 counts.1 batch.rows)
    (.resourceLimit "overflow nel conteggio righe ricevute")
  let confirmed ← okOr (checkedAdd 64 counts.2 written)
    (.resourceLimit "overflow nel conteggio righe confermate")
  .ok (received, confirmed)

/-- A batch without rows is passed over. -/
def writeBatch (batch : Batch) (counts : Nat × Nat) : Run (Nat × Nat) := do
  admitBatch env batch
  if batch.rows = 0 then pure counts
  else do
    let written ← writtenRows env batch
    match account batch counts written with
    | .ok counts => pure counts
    | .error e => abandonResource env e

/-- The rows received and the rows confirmed, batch after batch. -/
def writeBatches : List Batch → Nat × Nat → Run (Nat × Nat)
  | [], counts =>
    match env.inputEnd with
    | .exhausted => pure counts
    | .failed e => abandonError env e
    | .interrupted reason _ => abandonCancelled env reason
  | batch :: batches, counts => do
    let counts ← writeBatch env batch counts
    writeBatches batches counts

/-! ### The COMMIT -/

/-- `committed_outcome`. -/
def committedOutcome (mode : WriteMode) (executionId : String) (received confirmed : Nat) :
    WriteOutcome :=
  let (inserted, updated, deleted) := match mode with
    | .create | .append => (some confirmed, some 0, some 0)
    | .replace | .truncateInsert => (some confirmed, some 0, none)
    | .update => (some 0, some confirmed, some 0)
    | .upsert => (none, none, some 0)
    | .deleteByKeys => (some 0, some 0, some confirmed)
  { schemaVersion := 2
    status := .committed
    executionId
    provider := .postgres
    rows := ⟨received, confirmed, inserted, updated, deleted, 0, received - confirmed⟩
    recovery := none }

/-- A document outside the contract, found while the rollback is still possible. -/
def contractViolation (e : DatabaseError) (executionId : String) : DatabaseError :=
  { e with
    category := .internal
    phase := .write
    provider := some .postgres
    executionId := some executionId }

def validateDocument (document : WriteOutcome) : Run Unit :=
  match document.validate with
  | .ok () => pure ()
  | .error e => abandonError env (contractViolation e env.executionId)

def faultBeforeCommit : Run Unit :=
  orAbandon env (failIf (env.faultPoint = some .beforeCommit)
    (publicError .transient .commit true "fault injection prima del commit PostgreSQL"))

/-- The COMMIT, and what its answer proves. -/
def settleCommit (document : WriteOutcome) : Run WriteOutcome := do
  send .commit env.committed
  match env.committed with
  | .cancelled reason => throw (commitInterruptionError reason env.executionId)
  | .ended (.error error) =>
    if commitRejectionProvesRollback error then
      throw (provenCommitRollback error env.executionId)
    else pure (unknownWriteOutcome env.executionId document.rows.received
      "verificare lo stato remoto prima di un retry" (some (classifyError .commit error).category))
  | .ended (.ok ()) =>
    if env.faultPoint = some .afterCommitAcknowledgement then
      pure (unknownWriteOutcome env.executionId document.rows.received
        "fault injection: verificare lo stato remoto già committed" none)
    else do
      setReusable true
      pure document

def writeInput : Run WriteOutcome := do
  step env .evolveTargetSchema
  step env .prepareTarget
  step env .keyFacts
  orAbandon env env.keysGuarded
  let counts ← writeBatches env env.batches (0, 0)
  stepIf env (env.createSpatialIndex && env.mode = .create) .createSpatialIndexes
  let document ← pure (committedOutcome env.mode env.executionId counts.1 counts.2)
  validateDocument env document
  faultBeforeCommit env
  step env .restorePath
  settleCommit env document

/-! ### Row by row -/

def diagnosticError (category : ErrorCategory) (message : String) : DatabaseError :=
  publicErrorEnvelope category .write .unknown .requiresRecovery message

def providerWriteError (e : DatabaseError) : DatabaseError :=
  { e with phase := .write, provider := some .postgres }

def shortInputError : DatabaseError :=
  diagnosticError .invalidPlan "input PostgreSQL esaurito prima delle righe dichiarate"

def inputBeyondDeclaredError : DatabaseError :=
  diagnosticError .invalidPlan "input PostgreSQL oltre il totale dichiarato"

def checkedBatchEnd (batchStart rows : Nat) : Result Nat :=
  okOr (checkedAdd 64 batchStart rows)
    (diagnosticError .resourceLimit "overflow nell'offset sorgente PostgreSQL")

/-- What the stream answers after its last batch. -/
def inputAfter {β : Type} (onEnd : Result β) : Result β :=
  match env.inputEnd with
  | .exhausted => onEnd
  | .failed e | .interrupted _ e => .error (providerWriteError e)

/-- The offset of a row that a batch covers. -/
def offsetIn (source batchStart : Nat) : Result Nat :=
  if batchStart ≤ source then .ok (source - batchStart)
  else .error (diagnosticError .invalidPlan "indice sorgente PostgreSQL gia superato")

/-- The batches to come, to the one that holds the row. -/
def seek (source : Nat) : List Batch → Nat → Result (Nat × Cursor)
  | [], _ => inputAfter env (.error shortInputError)
  | batch :: batches, batchStart => do
    failIf (batch.schemaMatches = false) batchSchemaError
    if batch.rows = 0 then seek source batches batchStart
    else do
      batch.reserved
      batch.accounted
      batch.stamped
      let batchEnd ← checkedBatchEnd batchStart batch.rows
      if source < batchEnd then do
        let offset ← offsetIn source batchStart
        .ok (offset, ⟨batches, some batch, batchStart⟩)
      else seek source batches batchEnd

def locate (source : Nat) (cursor : Cursor) : Result (Nat × Cursor) :=
  match cursor.batch with
  | none => seek env source cursor.pending cursor.batchStart
  | some batch => do
    let batchEnd ← checkedBatchEnd cursor.batchStart batch.rows
    if source < batchEnd then do
      let offset ← offsetIn source cursor.batchStart
      .ok (offset, cursor)
    else seek env source cursor.pending batchEnd

/-- The SQLSTATEs that refuse a row, and not the write. -/
def rowRejectionCause (error : DriverError) : Option String :=
  if error.code.any ["23502", "23503", "23505", "23514", "23P01"].contains then
    some RowDiagnostics.causeConstraintViolation
  else none

def overflowError : DatabaseError :=
  diagnosticError .resourceLimit "overflow nelle righe applicate PostgreSQL"

/-- The row is in the target, or a trigger suppressed it. -/
def countRow (affected : Nat) : Run RowDiagnostics.RowApplication := do
  let (applied, processed) ← read fun s => (s.applied, s.processed)
  let processed ← ofResult (okOr (checkedAdd 64 processed 1) overflowError)
  let applied ← ofResult (okOr (checkedAdd 64 applied affected) overflowError)
  update fun s => { s with applied, processed }
  pure .applied

def transactionUnavailable : DatabaseError :=
  diagnosticError .protocol "transazione diagnostica PostgreSQL non disponibile"

/-- `PostgresRowWriter::apply_row`. -/
def applyRow (source : Nat) : Run RowDiagnostics.RowApplication := do
  let cursor ← read State.cursor
  let (_, cursor) ← ofResult (locate env source cursor)
  update fun s => { s with cursor }
  ofResult (env.rows source).encoded
  refuseIf (fun s => !s.transaction) fun _ => transactionUnavailable
  match (env.rows source).executed with
  | .ended (.ok affected) =>
    if affected ≤ 1 then countRow affected
    else throw (diagnosticError .protocol
      "INSERT diagnostico PostgreSQL deve interessare al piu una riga")
  | .ended (.error error) =>
    match rowRejectionCause error with
    | some cause => pure (.rejected ⟨cause, env.policy.constraintColumn⟩)
    | none => throw (classifyError .write error)
  | .cancelled reason => throw (diagnosticError (interruptionCategory reason)
      "INSERT diagnostico PostgreSQL interrotto")

/-- The rest of the stream holds no row. -/
def drain : List Batch → Result Unit
  | [] => inputAfter env (.ok ())
  | batch :: batches =>
    if batch.rows = 0 then drain batches else .error inputBeyondDeclaredError

/-- The current batch is consumed to its end. -/
def consumed (cursor : Cursor) (processed : Nat) : Result Unit :=
  match cursor.batch with
  | none => .ok ()
  | some batch => do
    let batchEnd ← checkedBatchEnd cursor.batchStart batch.rows
    failIf (batchEnd ≠ processed) inputBeyondDeclaredError

def finishDeclaredInput : Run Unit := do
  let (cursor, processed) ← read fun s => (s.cursor, s.processed)
  ofResult (consumed cursor processed)
  ofResult (drain env cursor.pending)

/-- The ROLLBACK of a refused row; its acknowledgement may be lost. -/
def rollbackRows (s : State) : RowDiagnostics.RollbackEvidence × State :=
  if !s.transaction then (.lost, s)
  else
    (if Rollback.of env.rolledBack = .confirmed ∧
        env.faultPoint ≠ some .rollbackAcknowledgementLost then .confirmed else .lost,
      { s with
        transaction := false
        commands := s.commands ++ [(.rollback, .ended env.rolledBack)] })

def rowWriter : RowDiagnostics.RowScopedWriter State where
  applyRow := applyRow env
  finishDeclaredInput := finishDeclaredInput env
  rollback := rollbackRows env

def rowStep (answer : Awaited (Result Unit)) (message : String) : Result Unit :=
  match answer with
  | .ended result => result
  | .cancelled reason => .error (diagnosticError (interruptionCategory reason) message)

/-- `PostgresRowWriter::new`. -/
def openWriter : Result Unit := do
  env.rowStatement
  match env.rowPrepared with
  | .ended (.ok ()) => .ok ()
  | .ended (.error error) => .error (classifyError .prepare error)
  | .cancelled reason => .error (diagnosticError (interruptionCategory reason)
      "preparazione INSERT diagnostico PostgreSQL interrotta")
  env.rowParameters
  rowStep (env.steps .enforceRowVisibility) "lettura del catalogo PostgreSQL interrotta"
  rowStep (env.steps .restoreRowPath) "impostazione del search_path PostgreSQL interrotta"

/-- `rollback_error` of the row-scoped path. -/
def abandonRows {β : Type} (e : DatabaseError) : Run β := do
  let rollback ← rollbackNow env
  throw (afterRowError env.executionId rollback e)

def takeTransaction : Run Unit := do
  refuseIf (fun s => !s.transaction) fun _ => transactionUnavailable
  update fun s => { s with transaction := false }

/-- The report of a COMMIT that no answer settled. -/
def commitUnknownReport (inputTotal : Nat) : RowDiagnostics.Report where
  contract := RowDiagnostics.contractName
  scope := .write
  indexBasis := RowDiagnostics.indexBasisName
  completeness := .unknown
  knowledgeLimits := ["remote.commit_ack_unobserved"]
  observedTotal := 0
  total := none
  inputTotal := some inputTotal
  counts := []
  examplesLimit := RowDiagnostics.defaultExamplesLimit
  examplesTruncated := false
  examples := []
  diagnosticStateCounts := some ⟨0, 0, 0, 0⟩
  writeOutcome := some ⟨.known 0, .known 0, .known 0, .known inputTotal⟩

def commitUnknownError (category : ErrorCategory) (inputTotal : Nat) (message : String) :
    Result DatabaseError := do
  (commitUnknownReport inputTotal).validate
  .ok
    { publicErrorEnvelope category .commit .unknown .quarantine message with
      executionId := some env.executionId }

def throwResult {β : Type} (e : Result DatabaseError) : Run β := do
  let e ← ofResult e
  throw e

/-- `committed_outcome` of the row-scoped path. -/
def rowsOutcome (inputTotal applied : Nat) : WriteOutcome where
  schemaVersion := 2
  status := .committed
  executionId := env.executionId
  provider := .postgres
  rows := ⟨inputTotal, applied, some applied, some 0, some 0, 0, inputTotal - applied⟩
  recovery := none

def settleRows (inputTotal : Nat) (document : WriteOutcome) : Run WriteOutcome := do
  send .commit env.committed
  match env.committed with
  | .cancelled reason => throwResult (commitUnknownError env (interruptionCategory reason) inputTotal
      "commit diagnostico PostgreSQL interrotto; stato remoto ignoto")
  | .ended (.error error) =>
    if commitRejectionProvesRollback error then
      throw (provenCommitRollback error env.executionId)
    else throwResult (commitUnknownError env (classifyError .commit error).category inputTotal
      "commit diagnostico PostgreSQL senza esito osservabile")
  | .ended (.ok ()) =>
    if env.faultPoint = some .afterCommitAcknowledgement then
      throwResult (commitUnknownError env .protocol inputTotal
        "fault injection: acknowledgement commit PostgreSQL non osservabile")
    else pure document

/-- What follows the diagnosis of the rows. -/
def settleDiagnosis (inputTotal : Nat) (diagnosed : Result (Option RowDiagnostics.RowRejectionOutcome)) :
    Run WriteOutcome :=
  match diagnosed with
  | .ok (some outcome) => throwResult (outcome.intoError (some .postgres) (some env.executionId))
  | .error e => do
    takeTransaction
    abandonRows env e
  | .ok none => do
    takeTransaction
    let applied ← read State.applied
    let document ← pure (rowsOutcome env inputTotal applied)
    match document.validate with
    | .error e => abandonRows env e
    | .ok () => settleRows env inputTotal document

/-- `row_diagnostics::execute`. -/
def executeRows (inputTotal : Nat) : Run WriteOutcome := do
  let tracker ← ofResult (RowDiagnostics.Tracker.new inputTotal env.policy)
  match openWriter env with
  | .error e => abandonRows env e
  | .ok () => do
    let diagnosed ← attempt (RowDiagnostics.diagnoseRowScopedWrite (rowWriter env) tracker)
    settleDiagnosis env inputTotal diagnosed

/-- The client goes back to the pool only after a committed write. -/
def markCommitted (document : WriteOutcome) : Run Unit :=
  if document.status = .committed then setReusable true else pure ()

def writeRows (inputTotal : Nat) : Run WriteOutcome := do
  step env .assignSessionRules
  step env .enforceVisibility
  step env .registerFieldIdentity
  let document ← executeRows env inputTotal
  markCommitted document
  pure document

/-- `write::execute`. -/
def execute : Run WriteOutcome := do
  let diagnostic ← openTransaction env
  step env .closePath
  step env .pinSession
  stepIf env env.spatial .qualifier
  match diagnostic with
  | some inputTotal => writeRows env inputTotal
  | none => writeInput env

end Algorithm

end Plenora.Postgres.Write
