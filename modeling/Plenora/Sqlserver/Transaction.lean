import Plenora.Lib.Calls
import Plenora.Lib.TransactionServer
import Plenora.Core.Plan
import Plenora.Sqlserver.Errors

/-!
# A transaction scope on SQL Server

The calls of a `SqlServerTransaction`, the session it took from the pool and the
session on the server, which runs with XACT_ABORT ON: an error of a statement may
end the whole transaction there, and a statement outside a transaction commits on
its own.  Each call comes with what becomes of its commands.

    perform client request x : Call DatabaseError (State α) (Value Row)   one call of the scope
    finish ending x          : Call DatabaseError (State α) (Value Row)   commit, rollback or drop
-/

namespace Plenora.Sqlserver.Transaction

open Plenora.Lib Plenora.Lib.Call Plenora.Core Plenora.Core.Cancellation

/-! ## The session states -/

inductive SessionState where
  | ready | transaction | uncommittable | quarantined | closed
  deriving DecidableEq, Repr

inductive TransactionEvent where
  | beginSucceeded | statementFailed | serverReportsCommittable | serverReportsUncommittable
  | commitSucceeded | rollbackSucceeded | transportLost | cancelled
  deriving DecidableEq, Repr

inductive RecoveryAction where
  | none | rollback | quarantine | reconcileCommit
  deriving DecidableEq, Repr

structure RecoveryDecision where
  state : SessionState
  action : RecoveryAction
  deriving DecidableEq, Repr

def SessionState.apply (state : SessionState) (event : TransactionEvent) : RecoveryDecision :=
  match state, event with
  | .ready, .beginSucceeded => ⟨.transaction, .none⟩
  | .transaction, .serverReportsCommittable => ⟨.transaction, .none⟩
  | .transaction, .statementFailed | .transaction, .serverReportsUncommittable =>
    ⟨.uncommittable, .rollback⟩
  | .transaction, .rollbackSucceeded | .uncommittable, .rollbackSucceeded
  | .transaction, .commitSucceeded => ⟨.ready, .none⟩
  | .transaction, .transportLost => ⟨.quarantined, .reconcileCommit⟩
  | _, _ => ⟨.quarantined, .quarantine⟩

@[simp] theorem apply_cancelled (state : SessionState) :
    (state.apply .cancelled).state = .quarantined := by
  cases state <;> rfl

/-! ## The server -/

inductive Command where
  | statement | rowCount | commit | rollback
  | saveTransaction (name : String) | rollbackTransaction (name : String)
  deriving DecidableEq, Repr

structure Answer (R : Type) where
  affected : Nat
  sets : List (List R)

/-- What becomes of one command.  The connection may break before it arrives or before the answer
does.  The server may refuse it: `ends` says that this ended the transaction, `committed` that a
refused COMMIT was carried out.  The refusal of a stream may come after its rows (`late`).  The
client may give up before the answer, or the driver panic while it decodes it. -/
structure Exchange (α R : Type) where
  arrives : Bool
  refusal : Option DriverError
  ends : Bool
  committed : Bool
  changes : List α
  answer : Answer R
  late : Bool
  breaks : Bool
  interruption : Option Interruption
  panics : Bool

def connectionLost : DriverError := .io false

/-- SAVE TRANSACTION without a transaction. -/
def noTransactionToSave : DriverError := .server 628

/-- COMMIT TRANSACTION without a transaction. -/
def noTransactionToCommit : DriverError := .server 3902

/-- ROLLBACK TRANSACTION to a name that is no savepoint. -/
def noSuchSavepoint : DriverError := .server 6401

section Algorithm

variable {α R Row : Type}

def hasSavepoint (server : Server α) (name : String) : Bool :=
  server.tx.any fun tx => tx.savepoints.any fun point => point.1 = name

/-- The refusal the state of the session forces on a command, or else the server's own. -/
def refusalOf (command : Command) (x : Exchange α R) (server : Server α) : Option DriverError :=
  match command with
  | .saveTransaction _ => if server.tx.isSome then x.refusal else some noTransactionToSave
  | .rollbackTransaction name =>
    if hasSavepoint server name then x.refusal else some noSuchSavepoint
  | .commit => if server.tx.isSome then x.refusal else some noTransactionToCommit
  | .statement | .rowCount | .rollback => x.refusal

def carryOut (command : Command) (x : Exchange α R) (server : Server α) : Server α :=
  match command with
  | .statement => server.run x.changes
  | .rowCount => server
  | .saveTransaction name => server.savepoint name
  | .rollbackTransaction name => server.rollbackTo name
  | .commit => server.commit
  | .rollback => server.rollback

/-- A command the server refuses.  The victim of a deadlock lost its transaction. -/
def turnDown (command : Command) (x : Exchange α R) (error : DriverError) (server : Server α) :
    Server α :=
  match command with
  | .commit =>
    if error.code = some 1205 then server.rollback
    else if x.committed then server.commit
    else if x.ends then server.rollback else server
  | .statement => if x.ends then server.rollback else server.run x.changes
  | _ => if x.ends then server.rollback else server

def serve (command : Command) (x : Exchange α R) (server : Server α) :
    Except DriverError (Answer R) × Server α :=
  match refusalOf command x server with
  | some error => (.error error, turnDown command x error server)
  | none => (.ok x.answer, carryOut command x server)

/-! ## The scope -/

/-- The transaction, its pooled session and the server.  `client`: the session still has its TDS
client; `received`: the commands that reached the server, and whether a transaction was open
there; `idle`: the session went back to the pool. -/
structure State (α : Type) where
  isOpen : Bool
  reusable : Bool
  session : SessionState
  client : Bool
  connected : Bool
  server : Server α
  received : List (Command × Bool)
  idle : Bool

structure Statement where
  sql : String
  params : List ParameterValue

structure ConditionalUpdate where
  update : Statement
  keyProbe : Option Statement
  expectedAffectedRows : Nat

/-- The checks of the client that look at no state: the policy on the caller's SQL, the binding of
the parameters, the decoder of a row under the columns of the first one. -/
structure Client (R Row : Type) where
  enforcePolicy : String → Result Unit
  bindParameters : List ParameterValue → Result Unit
  columnNames : R → List String
  decodeRow : R → List String → Result Row

abbrev Scope (α β : Type) := Call DatabaseError (State α) β

/-- The connection ends, and with it the session's transaction. -/
def State.disconnect (s : State α) : State α :=
  { s with connected := false, server := s.server.rollback }

/-- A command is sent; the answer the driver would give. -/
def State.exchange (command : Command) (x : Exchange α R) (s : State α) :
    Except DriverError (Answer R) × State α :=
  if !s.connected then (.error connectionLost, s)
  else if !x.arrives then (.error connectionLost, s.disconnect)
  else
    let (answer, server) := serve command x s.server
    let s := { s with
      server
      received := s.received ++ [(command, s.server.tx.isSome)] }
    if x.breaks then (.error connectionLost, s.disconnect) else (answer, s)

def send (command : Command) (x : Exchange α R) : Scope α (Except DriverError (Answer R)) :=
  Call.exchange (State.exchange command x)

def apply (event : TransactionEvent) : Scope α Unit :=
  update fun s => { s with session := (s.session.apply event).state }

/-- The TDS client is destroyed. -/
def State.quarantine (s : State α) : State α :=
  { s.disconnect with session := (s.session.apply .cancelled).state, client := false }

def quarantine : Scope α Unit := update State.quarantine

def stateError (phase : ErrorPhase) : DatabaseError :=
  publicError .invalidPlan phase "stato sessione SQL Server incompatibile con l'operazione"

def requireState (expected : SessionState) (phase : ErrorPhase) : Scope α Unit :=
  refuseIf (fun s => s.session ≠ expected || !s.client) fun _ => stateError phase

def requireClient (phase : ErrorPhase) : Scope α Unit :=
  refuseIf (fun s => !s.client) fun _ => stateError phase

/-- Any failure of a control batch destroys the client. -/
def runControl (command : Command) (phase : ErrorPhase) (remoteEffect : RemoteEffect)
    (x : Exchange α R) : Scope α Unit := do
  requireClient phase
  let answer ← send command x
  match x.interruption, answer with
  | some interruption, _ => do
    quarantine
    throw (interruptionError interruption phase remoteEffect)
  | none, .ok _ => pure ()
  | none, .error error => do
    quarantine
    throw (driverError error phase remoteEffect)

/-- A failed command: a server's own error leaves a transaction to roll back, any other destroys the
client. -/
def afterFailure (statementFailed : Bool) : Scope α Unit :=
  if statementFailed then apply .statementFailed else quarantine

/-- The answer of a write. -/
def settleWrite (x : Exchange α R) (answer : Except DriverError (Answer R)) :
    Scope α (Answer R) :=
  match x.interruption, answer with
  | some interruption, _ => do
    quarantine
    throw (interruptionError interruption .write .unknown)
  | none, .ok answer => pure answer
  | none, .error error => do
    afterFailure error.code.isSome
    throw (driverError error .write (if error.code.isNone then .unknown else .none))

/-- The write, then the reading of its row count. -/
def executeWriteQueryTracked (x count : Exchange α R) : Scope α Nat := do
  requireState .transaction .write
  let result ← send .statement x
  let _ ← settleWrite x result
  let result ← send .rowCount count
  let answer ← settleWrite count result
  pure answer.affected

/-- The answer of a query in the transaction. -/
def settleQuery (inTransaction : Bool) (phase : ErrorPhase) (x : Exchange α R)
    (answer : Except DriverError (Answer R)) : Scope α (List (List R)) :=
  match x.interruption with
  | some interruption => do
    quarantine
    throw (interruptionError interruption phase .none)
  | none =>
    if x.panics then do
      quarantine
      throw (.unsupported .sqlserver phase
        "decodifica SQL Server interrotta: sessione non riutilizzabile")
    else match answer with
      | .ok answer => pure answer.sets
      | .error error => do
        afterFailure (inTransaction && error.code.isSome)
        throw (driverError error phase
          (if inTransaction && error.code.isNone then .unknown else .none))

def executeQueryTracked (command : Command) (phase : ErrorPhase) (x : Exchange α R) :
    Scope α (List (List R)) := do
  let inTransaction ← read fun s => decide (s.session = .transaction)
  refuseIf (fun s => !inTransaction && (s.session ≠ .ready || !s.client)) fun _ => stateError phase
  requireClient phase
  let result ← send command x
  settleQuery inTransaction phase x result

def ensureOpen (phase : ErrorPhase) : Scope α Unit :=
  refuseIf (fun s => !s.isOpen) fun _ =>
    publicError .invalidPlan phase "transazione SQL Server gia conclusa"

def close : Scope α Unit := update fun s => { s with isOpen := false }

def execute (client : Client R Row) (statement : Statement) (x count : Exchange α R) :
    Scope α Nat := do
  ensureOpen .write
  ofResult (client.enforcePolicy statement.sql)
  ofResult (client.bindParameters statement.params)
  executeWriteQueryTracked x count

/-- The names of the columns are taken once, from the first row. -/
def decodeRows (client : Client R Row) : Option (List String) → List R → Result (List Row)
  | _, [] => .ok []
  | columns, row :: rows => do
    let names := columns.getD (client.columnNames row)
    let decoded ← client.decodeRow row names
    let rest ← decodeRows client (some names) rows
    .ok (decoded :: rest)

def query (client : Client R Row) (statement : Statement) (x : Exchange α R) :
    Scope α (List Row) := do
  ensureOpen .read
  ofResult (client.enforcePolicy statement.sql)
  ofResult (client.bindParameters statement.params)
  let sets ← executeQueryTracked .statement .read x
  ofResult (decodeRows client none sets.flatten)

/-! ### Streams -/

/-- The rows still to come, and the error after them. -/
structure RowStream (R : Type) where
  pending : List R
  failure : Option DriverError
  columns : Option (List String)
  finished : Bool

def interrupted (reason : CancellationReason) (message : String) : DatabaseError :=
  publicError (interruptionCategory reason) .read message

/-- `client_mut`, then the opening of the stream: an error is mapped, and changes nothing. -/
def openStream (client : Client R Row) (statement : Statement) (batchSize : Nat)
    (token : Option CancellationReason) (x : Exchange α R) : Scope α (RowStream R) := do
  ensureOpen .read
  ofResult (client.enforcePolicy statement.sql)
  ofResult (if batchSize = 0 then
    .error (.invalidPlan "batch_size dello stream deve essere > 0") else .ok ())
  ofResult (match token with
    | some reason => .error (interrupted reason "apertura dello stream SQL Server interrotta")
    | none => .ok ())
  ofResult (client.bindParameters statement.params)
  requireState .transaction .read
  let result ← send .statement x
  match result with
  | .ok answer => pure ⟨answer.sets.flatten, none, none, false⟩
  | .error error =>
    if x.late then pure ⟨x.answer.sets.flatten, some error, none, false⟩
    else throw (driverError error .read .none)

/-- The rows of a batch; the token is read before each of them. -/
def fillBatch (client : Client R Row) (token : Nat → Option CancellationReason) :
    Nat → List Row → RowStream R → Result (Option (List Row)) × RowStream R
  | 0, batch, stream => (.ok (some batch), stream)
  | room + 1, batch, stream =>
    match token batch.length with
    | some reason =>
      (.error (interrupted reason "stream della transazione SQL Server interrotto"),
        { stream with finished := true })
    | none =>
      match stream.pending, stream.failure with
      | row :: pending, _ =>
        let names := stream.columns.getD (client.columnNames row)
        let stream := { stream with pending, columns := some names }
        match client.decodeRow row names with
        | .error error => (.error error, stream)
        | .ok decoded => fillBatch client token room (batch ++ [decoded]) stream
      | [], some error =>
        (.error (driverError error .read .none), { stream with failure := none })
      | [], none =>
        (.ok (if batch.isEmpty then none else some batch), { stream with finished := true })

/-- `SqlServerRowStream::next_batch`. -/
def nextBatch (client : Client R Row) (batchSize : Nat) (token : Nat → Option CancellationReason)
    (stream : RowStream R) : Result (Option (List Row)) × RowStream R :=
  if stream.finished then (.ok none, stream) else fillBatch client token batchSize [] stream

/-- The batches a caller asks for before it drops the stream. -/
def readBatches (client : Client R Row) (batchSize : Nat) :
    List (Nat → Option CancellationReason) → RowStream R → List (Result (Option (List Row)))
  | [], _ => []
  | token :: tokens, stream =>
    let (batch, stream) := nextBatch client batchSize token stream
    batch :: readBatches client batchSize tokens stream

def queryStream (client : Client R Row) (statement : Statement) (batchSize : Nat)
    (token : Option CancellationReason) (batches : List (Nat → Option CancellationReason))
    (x : Exchange α R) : Scope α (List (Result (Option (List Row)))) := do
  let stream ← openStream client statement batchSize token x
  pure (readBatches client batchSize batches stream)

/-! ### Savepoints and conditional updates -/

def quotedSavepoint (name : String) : Result Unit := do
  validateSavepointName name
  if name.utf8ByteSize > 32 then
    .error (.invalidPlan "il nome di savepoint su SQL Server non puo superare 32 caratteri")
  else .ok ()

def control (command : Command) (x : Exchange α R) : Scope α Unit := do
  let _ ← executeQueryTracked command .write x
  pure ()

def savepoint (name : String) (x : Exchange α R) : Scope α Unit := do
  ensureOpen .write
  ofResult (quotedSavepoint name)
  control (.saveTransaction name) x

/-- Sent, a rollback to a savepoint that fails is not confirmed. -/
def rollbackToSavepoint (name : String) (x : Exchange α R) : Scope α Unit := do
  ensureOpen .write
  ofResult (quotedSavepoint name)
  mapResult (Except.mapError DatabaseError.afterUnconfirmedRollback)
    (control (.rollbackTransaction name) x)

/-- T-SQL has no RELEASE SAVEPOINT. -/
def releaseSavepoint : Scope α Unit :=
  throw (.unsupported .sqlserver .write
    "T-SQL non ha RELEASE SAVEPOINT: un savepoint si libera al commit")

/-- The probe of a conditional update that found other rows than expected. -/
def probeKey (client : Client R Row) (probe : Statement) (x : Exchange α R) : Scope α Unit := do
  ofResult (client.bindParameters probe.params)
  let sets ← executeQueryTracked .statement .write x
  if sets.any fun set => !set.isEmpty then
    throw (concurrentModificationError
      "update condizionato SQL Server: la chiave esiste con un'altra versione")
  else throw (publicError .notFound .write "update condizionato SQL Server: chiave assente")

def executeConditionalUpdate (client : Client R Row) (request : ConditionalUpdate)
    (x count probed : Exchange α R) : Scope α Unit := do
  ensureOpen .write
  ofResult (client.enforcePolicy request.update.sql)
  ofResult (request.keyProbe.elim (.ok ()) fun probe => client.enforcePolicy probe.sql)
  ofResult (client.bindParameters request.update.params)
  let affected ← executeWriteQueryTracked x count
  if affected = request.expectedAffectedRows then pure ()
  else match request.keyProbe with
    | none => throw (concurrentModificationError
        "update condizionato SQL Server: righe modificate diverse dall'attesa")
    | some probe => probeKey client probe probed

/-! ### The end -/

/-- `SqlServerSession::commit`. -/
def sessionCommit (x : Exchange α R) : Scope α Unit := do
  requireState .transaction .commit
  runControl .commit .commit .unknown x
  apply .commitSucceeded

def commit (x : Exchange α R) : Scope α CommitOutcome := do
  ensureOpen .commit
  close
  let result ← attempt (sessionCommit x)
  match result with
  | .ok _ => pure .committed
  | .error error => ofResult (commitFailure error)

/-- `SqlServerSession::rollback`. -/
def sessionRollback (x : Exchange α R) : Scope α Unit := do
  refuseIf (fun s => s.session ≠ .transaction && s.session ≠ .uncommittable)
    fun _ => stateError .rollback
  runControl .rollback .rollback .unknown x
  apply .rollbackSucceeded

def rollback (x : Exchange α R) : Scope α Unit := do
  let isOpen ← read State.isOpen
  if isOpen then do
    close
    mapResult (Except.mapError DatabaseError.afterUnconfirmedRollback) (sessionRollback x)
  else pure ()

/-- `Drop` of the pooled session: only one that is ready goes back to the pool. -/
def State.giveBack (s : State α) : State α :=
  if s.reusable && s.client && s.session = .ready then { s with idle := true } else s.disconnect

/-- `Drop` of the transaction, then of its pooled session: an open transaction quarantines it. -/
def State.drop (s : State α) : State α :=
  if s.isOpen then { s.quarantine with reusable := false, isOpen := false }.giveBack
  else s.giveBack

/-! ## Runs -/

inductive Request where
  | execute (statement : Statement)
  | query (statement : Statement)
  | queryStream (statement : Statement) (batchSize : Nat) (token : Option CancellationReason)
      (batches : List (Nat → Option CancellationReason))
  | savepoint (name : String)
  | rollbackToSavepoint (name : String)
  | releaseSavepoint (name : String)
  | conditionalUpdate (request : ConditionalUpdate)

/-- The calls that consume the transaction. -/
inductive Ending where
  | commit | rollback | drop

inductive Value (Row : Type) where
  | affected (rows : Nat)
  | rows (rows : List Row)
  | batches (batches : List (Result (Option (List Row))))
  | done
  | commit (outcome : CommitOutcome)

/-- A call, with what becomes of its first, second and third command. -/
def perform (client : Client R Row) (request : Request) (x : Nat → Exchange α R) :
    Scope α (Value Row) :=
  match request with
  | .execute statement => do
    let rows ← execute client statement (x 0) (x 1)
    pure (.affected rows)
  | .query statement => do
    let rows ← query client statement (x 0)
    pure (.rows rows)
  | .queryStream statement batchSize token batches => do
    let batches ← queryStream client statement batchSize token batches (x 0)
    pure (.batches batches)
  | .savepoint name => do
    savepoint name (x 0)
    pure .done
  | .rollbackToSavepoint name => do
    rollbackToSavepoint name (x 0)
    pure .done
  | .releaseSavepoint _ => do
    releaseSavepoint
    pure .done
  | .conditionalUpdate request => do
    executeConditionalUpdate client request (x 0) (x 1) (x 2)
    pure .done

def conclude (ending : Ending) (x : Exchange α R) : Scope α (Value Row) :=
  match ending with
  | .commit => do
    let result ← commit x
    pure (.commit result)
  | .rollback => do
    rollback x
    pure .done
  | .drop => pure .done

/-- The call, and the drop of the transaction it consumed. -/
def finish (ending : Ending) (x : Exchange α R) (s : State α) :
    Except DatabaseError (Value Row) × State α :=
  ((outcome (conclude ending x) s).1, (outcome (conclude ending x : Scope α (Value Row)) s).2.drop)

/-- A transaction that `begin` opened on a session of the pool; only a session that kept READ
COMMITTED may go back to it. -/
def opened (durable : List α) (reusable : Bool) : State α :=
  ⟨true, reusable, .transaction, true, true, (Server.mk durable none).begin_, [], false⟩

/-- The state after these calls. -/
def reach (client : Client R Row) (s : State α) :
    List (Request × (Nat → Exchange α R)) → State α
  | [] => s
  | (request, x) :: steps => reach client (outcome (perform client request x) s).2 steps

end Algorithm

end Plenora.Sqlserver.Transaction
