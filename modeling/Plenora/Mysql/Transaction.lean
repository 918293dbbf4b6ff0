import Plenora.Lib.Calls
import Plenora.Lib.TransactionServer
import Plenora.Core.Plan
import Plenora.Mysql.Errors

/-!
# A transaction scope on MySQL and MariaDB

The calls of a `MysqlTransaction`, its session and the session on the server,
which runs with autocommit on: the victim of a deadlock loses its whole
transaction, any other error only its statement.  Each call comes with what
becomes of its commands.

    perform client request x : Call DatabaseError (State α) (Value Row)     one call of the scope
    finish client ending x   : Call DatabaseError (State α) (Value Row)     commit, rollback or drop
-/

namespace Plenora.Mysql.Transaction

open Plenora.Lib Plenora.Lib.Call Plenora.Core Plenora.Core.Cancellation

export Plenora.Lib.Call (Keeps)

/-! ## The server -/

inductive Command where
  | statement | showWarnings | profile | catalog | commit | rollback
  | savepoint (name : String) | rollbackTo (name : String) | release (name : String)
  deriving DecidableEq, Repr

structure Answer (R : Type) where
  affected : Nat
  columns : List String
  rows : List R
  warnings : Nat
  diagnostics : List Diagnostic
  unexpectedResults : Bool

/-- What becomes of one command.  The connection may break before it arrives or before the answer
does; the driver may fail, or the server refuse it: `done` says that the command was carried out
although it failed.  The failure of a stream may come after its rows (`late`).  The client may give
up before the answer. -/
structure Exchange (α R : Type) where
  arrives : Bool
  failure : Option DriverError
  done : Bool
  changes : List α
  answer : Answer R
  late : Bool
  breaks : Bool
  interruption : Option Interruption

/-- A command, and the SHOW WARNINGS that follows where its answer counts warnings. -/
structure Trip (α R : Type) where
  sent : Exchange α R
  warned : Exchange α R

def connectionLost : DriverError := .transport .io true false

/-- `ER_LOCK_DEADLOCK`. -/
def deadlock : DriverError := .server 1213

/-- `ER_SP_DOES_NOT_EXIST`: no such savepoint. -/
def noSuchSavepoint : DriverError := .server 1305

section Algorithm

variable {α R Row : Type}

def hasSavepoint (server : Server α) (name : String) : Bool :=
  server.tx.any fun tx => tx.savepoints.any fun point => point.1 = name

/-- The failure the state of the session forces on a command, or else the one it meets. -/
def failureOf (command : Command) (x : Exchange α R) (server : Server α) : Option DriverError :=
  match command with
  | .rollbackTo name | .release name =>
    if hasSavepoint server name then x.failure else some noSuchSavepoint
  | _ => x.failure

def carryOut (command : Command) (x : Exchange α R) (server : Server α) : Server α :=
  match command with
  | .statement => server.run x.changes
  | .showWarnings | .profile | .catalog => server
  | .savepoint name => server.savepoint name
  | .rollbackTo name => server.rollbackTo name
  | .release name => server.release name
  | .commit => server.commit
  | .rollback => server.rollback

/-- A command that fails: the victim of a deadlock lost its transaction, and so did a COMMIT refused
with a code that proves it; an error of the driver leaves the command done or not. -/
def turnDown (product : Product) (command : Command) (x : Exchange α R) (error : DriverError)
    (server : Server α) : Server α :=
  match command, error with
  | .commit, .server code =>
    if product.profile.commitRollbackCodes.contains code then server.rollback
    else if x.done then server.commit else server
  | _, .server code => if code = 1213 then server.rollback else server
  | command, .transport .. => if x.done then carryOut command x server else server

def serve (product : Product) (command : Command) (x : Exchange α R) (server : Server α) :
    Except DriverError (Answer R) × Server α :=
  match failureOf command x server with
  | some error => (.error error, turnDown product command x error server)
  | none => (.ok x.answer, carryOut command x server)

/-! ## The session -/

inductive SessionState where
  | ready | quarantined
  deriving DecidableEq, Repr

/-- The transaction, its session and the server.  `connection`: the session still has its
connection; `received`: the commands that reached the server, and whether a transaction was open
there; `idle`: the connection went back to the pool. -/
structure State (α : Type) where
  isOpen : Bool
  recoveryRequired : Bool
  session : SessionState
  connection : Bool
  connected : Bool
  server : Server α
  received : List (Command × Bool)
  idle : Bool

structure Statement where
  sql : String
  params : List ParameterValue

structure ConditionalUpdate where
  update : Statement
  keyProbe : Option Statement
  expectedAffectedRows : Nat

/-- The product, and the checks that look at no state: the policies on the caller's SQL, the binding
of the parameters, the decoder of a row under the names of the columns, what the profile of the
session differs in, and the catalog reads of `conditional_json::verify` (what to read next after
the answers so far, or that the SQL passes). -/
structure Client (R Row : Type) where
  product : Product
  validateCallerSql : String → Result Unit
  enforceSingleStatement : String → Result Unit
  bindParameters : List ParameterValue → Result Unit
  columnNames : R → List String
  decodeRow : List String → R → Result Row
  profileSql : String
  divergence : List R → Option String
  catalogRead : String → Bool → List (List R) → Result (Option String)

def Client.profile (client : Client R Row) : ProductProfile := client.product.profile

abbrev Scope (α β : Type) := Call DatabaseError (State α) β

/-- The connection ends, and with it the session's transaction. -/
def State.disconnect (s : State α) : State α :=
  { s with connected := false, server := s.server.rollback }

/-- A command is sent; the answer the driver would give. -/
def State.exchange (product : Product) (command : Command) (x : Exchange α R) (s : State α) :
    Except DriverError (Answer R) × State α :=
  if !s.connected then (.error connectionLost, s)
  else if !x.arrives then (.error connectionLost, s.disconnect)
  else
    let (answer, server) := serve product command x s.server
    let s := { s with
      server
      received := s.received ++ [(command, s.server.tx.isSome)] }
    if x.breaks then (.error connectionLost, s.disconnect) else (answer, s)

def send (product : Product) (command : Command) (x : Exchange α R) :
    Scope α (Except DriverError (Answer R)) :=
  Call.exchange (State.exchange product command x)

def State.quarantine (s : State α) : State α :=
  { s.disconnect with session := .quarantined, connection := false }

def quarantine : Scope α Unit := update State.quarantine

section Session

variable (client : Client R Row)

def requireReady (phase : ErrorPhase) : Scope α Unit :=
  refuseIf (fun s => s.session ≠ .ready || !s.connection) fun _ => stateError client.profile phase

/-- A connection that the driver calls broken is closed. -/
def quarantineIf (fatal : Bool) : Scope α Unit := if fatal then quarantine else pure ()

/-- The diagnostics are read before any other command. -/
def checkWarningsForSql (phase : ErrorPhase) (sql : String) (count : Nat) (x : Exchange α R) :
    Scope α Unit := do
  refuseIf (fun s => !s.connection) fun _ => stateError client.profile phase
  if count = 0 then pure ()
  else do
    let result ← send client.product .showWarnings x
    match x.interruption, result with
    | some interruption, _ => do
      quarantine
      throw (interruptionError client.profile interruption phase .unknown)
    | none, .ok answer =>
      if warningCountComplete count answer.diagnostics.length &&
          answer.diagnostics.all (informativeWarningForSql sql) then pure ()
      else throw (warningError client.profile phase)
    | none, .error error => do
      quarantine
      throw (driverError client.profile error phase .unknown)

/-- `query_rows`, `exec_rows` and `exec_write_tracked`: one statement and its diagnostics. -/
def exchangeRows (command : Command) (sql : String) (phase : ErrorPhase) (t : Trip α R) :
    Scope α (Answer R) := do
  requireReady client phase
  let result ← send client.product command t.sent
  match t.sent.interruption, result with
  | some interruption, _ => do
    quarantine
    throw (interruptionError client.profile interruption phase .none)
  | none, .ok answer => do
    checkWarningsForSql client phase sql answer.warnings t.warned
    pure answer
  | none, .error error => do
    quarantineIf error.isFatal
    throw (driverError client.profile error phase .none)

/-- `exec_control`: a control statement, whose answer must hold a single result. -/
def execControl (command : Command) (sql : String) (phase : ErrorPhase) (t : Trip α R) :
    Scope α Unit := do
  ofResult (client.enforceSingleStatement sql)
  requireReady client phase
  let result ← send client.product command t.sent
  match t.sent.interruption, result with
  | some interruption, _ => do
    quarantine
    throw (interruptionError client.profile interruption phase .unknown)
  | none, .ok answer =>
    if answer.unexpectedResults then do
      quarantine
      throw (warningError client.profile phase)
    else checkWarningsForSql client phase sql answer.warnings t.warned
  | none, .error error => do
    quarantineIf error.isFatal
    throw (driverError client.profile error phase .none)

/-- The error of a COMMIT or a ROLLBACK that was sent. -/
def afterEndSent (command : Command) (error : DatabaseError) : DatabaseError :=
  match command with
  | .commit => afterCommitSent error false
  | _ => error.afterUnconfirmedRollback

/-- `exec_transaction`. -/
def execTransaction (command : Command) (phase : ErrorPhase) (t : Trip α R) : Scope α Unit := do
  requireReady client phase
  let result ← send client.product command t.sent
  match t.sent.interruption, result with
  | some interruption, _ => do
    quarantine
    throw (interruptionError client.profile interruption phase .unknown)
  | none, .ok answer => do
    let checked ← attempt (if answer.unexpectedResults then throw (warningError client.profile phase)
      else checkWarningsForSql client phase "" answer.warnings t.warned)
    match checked with
    | .ok _ => pure ()
    | .error error => do
      quarantine
      throw (afterEndSent command error)
  | none, .error error => do
    quarantineIf error.isFatal
    throw (match command with
      | .commit => commitFailure client.profile error
      | _ => (driverError client.profile error phase .none).afterUnconfirmedRollback)

/-- `verify_session_profile`: the settings of the session are the expected ones, or it is closed. -/
def verifySessionProfile (phase : ErrorPhase) (t : Trip α R) : Scope α Unit := do
  let result ← attempt (exchangeRows client .profile client.profileSql phase t)
  match result.bind fun answer => (client.divergence answer.rows).elim (.ok ()) fun name =>
      .error (.new .execution phase (some client.profile.kind)
        s!"profilo di sessione diverso da quello configurato: {name}") with
  | .ok _ => pure ()
  | .error error => do
    quarantine
    throw error

/-! ## The scope -/

def close : Scope α Unit := update fun s => { s with isOpen := false }

/-- Closing the socket is no confirmation of the server: a rollback keeps the doubt. -/
def discardAfterFailure (effect : RemoteEffect) : Scope α Unit := do
  update fun s => { s with isOpen := false, recoveryRequired := effect ≠ .rolledBack }
  quarantine

def finishCallerWrite {β : Type} (result : Result β) : Scope α Unit :=
  match result with
  | .ok _ => pure ()
  | .error error =>
    if error.remoteEffect = .rolledBack || error.remoteEffect = .unknown then
      discardAfterFailure error.remoteEffect
    else pure ()

def verifyProfile (phase : ErrorPhase) (t : Trip α R) : Scope α Unit := do
  let result ← attempt (verifySessionProfile client phase t)
  match result with
  | .ok _ => pure ()
  | .error error => do
    discardAfterFailure .unknown
    throw error.afterUnprovenSend

def ensureOpen (phase : ErrorPhase) : Scope α Unit :=
  refuseIf (fun s => !s.isOpen) fun _ => closedError client.profile phase

def verifyWhileOpen (phase : ErrorPhase) (t : Trip α R) : Scope α Unit := do
  let isOpen ← read State.isOpen
  if isOpen then verifyProfile client phase t else pure ()

/-- A write of the caller, closed after a failure that may have ended the transaction. -/
def callerWrite (sql : String) (t profile : Trip α R) : Scope α Nat := do
  let result ← attempt (exchangeRows client .statement sql .write t)
  finishCallerWrite result
  verifyWhileOpen client .write profile
  let answer ← ofResult result
  pure answer.affected

def execute (statement : Statement) (t profile : Trip α R) : Scope α Nat :=
  mapResult (attributed client.profile) do
    ensureOpen client .write
    ofResult (client.validateCallerSql statement.sql)
    ofResult (client.bindParameters statement.params)
    callerWrite client statement.sql t profile

def queryTimeoutError : DatabaseError :=
  .new .timeout .read (some client.profile.kind) s!"query {client.profile.product} timeout"

def requireConnection : Scope α Unit :=
  refuseIf (fun s => !s.connection) fun _ => closedError client.profile .read

def discardIfRolledBack (error : DatabaseError) : Scope α Unit :=
  if error.remoteEffect = .rolledBack then discardAfterFailure error.remoteEffect else pure ()

/-- An error of the server: the victim of a deadlock is closed, else the profile is read again. -/
def failQuery {β : Type} (error : DatabaseError) (profile : Trip α R) : Scope α β := do
  discardIfRolledBack error
  verifyWhileOpen client .read profile
  throw error

/-- The diagnostics and the profile after a collected query. -/
def finishQuery (sql : String) (answer : Answer R) (warned : Exchange α R) (profile : Trip α R) :
    Scope α (List Row) := do
  let checked ← attempt (checkWarningsForSql client .read sql answer.warnings warned)
  match checked with
  | .error error => do
    discardAfterFailure .unknown
    throw error
  | .ok _ => do
    verifyProfile client .read profile
    ofResult (answer.rows.mapM (client.decodeRow (answer.rows.head?.elim [] client.columnNames)))

def query (statement : Statement) (t profile : Trip α R) : Scope α (List Row) :=
  mapResult (attributed client.profile) do
    ensureOpen client .read
    ofResult (client.validateCallerSql statement.sql)
    ofResult (client.bindParameters statement.params)
    requireConnection client
    let result ← send client.product .statement t.sent
    match t.sent.interruption, result with
    | some (.cancelled reason), _ => do
      discardAfterFailure .unknown
      throw (interruptionError client.profile (.cancelled reason) .read .none)
    | some .timeout, _ => do
      discardAfterFailure .unknown
      throw (queryTimeoutError client)
    | none, .error error => failQuery client (driverError client.profile error .read .none) profile
    | none, .ok answer => finishQuery client statement.sql answer t.warned profile

/-! ### Streams -/

/-- What stops a stream after its rows. -/
inductive StreamFailure where
  | driver (error : DriverError)
  | timeout

structure RowStream (R : Type) where
  pending : List R
  failure : Option StreamFailure
  columns : List String
  warnings : Nat
  finished : Bool
  exhausted : Bool

/-- `abandon_stream`: the scope takes no more calls, and its end has to be recovered. -/
def abandonStream : Scope α Unit :=
  update fun s => { s with isOpen := false, recoveryRequired := true }

def openedStream (answer : Answer R) (failure : Option StreamFailure) : RowStream R :=
  ⟨answer.rows, failure, answer.columns, answer.warnings, false, false⟩

/-- The opening of a stream; `late` failures come with its rows. -/
def openStream (statement : Statement) (batchSize : Nat) (x : Exchange α R) :
    Scope α (RowStream R) :=
  mapResult (attributed client.profile) do
    ensureOpen client .read
    ofResult (if batchSize = 0 then
      .error (.invalidPlan "batch_size dello stream deve essere > 0") else .ok ())
    ofResult (client.validateCallerSql statement.sql)
    ofResult (client.bindParameters statement.params)
    let connection ← read State.connection
    if !connection then do
      abandonStream
      throw (closedError client.profile .read)
    else do
      let result ← send client.product .statement x
      match x.interruption, result with
      | some (.cancelled reason), _ => do
        abandonStream
        throw (interruptionError client.profile (.cancelled reason) .read .none)
      | some .timeout, _ =>
        if x.late then pure (openedStream x.answer (some .timeout))
        else do
          abandonStream
          throw (queryTimeoutError client)
      | none, .error error =>
        if x.late then pure (openedStream x.answer (some (.driver error)))
        else do
          abandonStream
          throw (driverError client.profile error .read .none)
      | none, .ok answer => pure (openedStream answer none)

/-- The end of the rows: no failure, no warning, and the profile of the session is the expected
one. -/
def streamEnd (stream : RowStream R) (profile : Trip α R) : Scope α Unit :=
  match stream.failure with
  | some (.driver error) => throw (driverError client.profile error .read .none)
  | some .timeout => throw (queryTimeoutError client)
  | none =>
    if stream.warnings ≠ 0 then throw (warningError client.profile .read)
    else verifySessionProfile client .read profile

/-- A failure of the stream: the scope is closed. -/
def failStream (stream : RowStream R) (error : DatabaseError) :
    Scope α (Result (Option (List Row)) × RowStream R) := do
  abandonStream
  pure (.error error, { stream with exhausted := true })

/-- `MysqlRowStream::next_batch`: the token wins; full batches come as they are, the last rows only
after the end was checked. -/
def nextBatch (batchSize : Nat) (profile : Trip α R) (token : Option CancellationReason)
    (stream : RowStream R) : Scope α (Result (Option (List Row)) × RowStream R) :=
  if stream.exhausted then pure (.ok none, stream)
  else match token with
  | some reason => failStream stream
      (interruptionError client.profile (.cancelled reason) .read .unknown)
  | none =>
    match (stream.pending.take batchSize).mapM (client.decodeRow stream.columns) with
    | .error error => failStream stream error.afterUnprovenSend
    | .ok batch =>
      if batchSize ≤ stream.pending.length then
        pure (.ok (some batch), { stream with pending := stream.pending.drop batchSize })
      else if stream.finished then pure (.ok none, { stream with exhausted := true })
      else do
        let result ← attempt (streamEnd client stream profile)
        match result with
        | .error error => failStream stream error.afterUnprovenSend
        | .ok _ =>
          if batch.isEmpty then pure (.ok none, { stream with exhausted := true })
          else pure (.ok (some batch), { stream with pending := [], finished := true })

/-- `Drop` of the stream: unread rows abandon it. -/
def dropStream (stream : RowStream R) : Scope α Unit :=
  if stream.exhausted then pure () else abandonStream

/-- The batches a caller asks for, and the drop of the stream. -/
def readBatches (batchSize : Nat) (profile : Trip α R) :
    List (Option CancellationReason) → RowStream R → Scope α (List (Result (Option (List Row))))
  | [], stream => do
    dropStream stream
    pure []
  | token :: tokens, stream => do
    let (batch, stream) ← nextBatch client batchSize profile token stream
    let batches ← readBatches batchSize profile tokens stream
    pure (batch :: batches)

def queryStream (statement : Statement) (batchSize : Nat)
    (tokens : List (Option CancellationReason)) (x : Exchange α R) (profile : Trip α R) :
    Scope α (List (Result (Option (List Row)))) := do
  let stream ← openStream client statement batchSize x
  readBatches client batchSize profile tokens stream

/-! ### Savepoints and conditional updates -/

def quoteSavepointName (name : String) : Result String := do
  validateSavepointName name
  .ok s!"`{name}`"

def savepoint (name : String) (t : Trip α R) : Scope α Unit :=
  mapResult (attributed client.profile) do
    ensureOpen client .prepare
    let quoted ← ofResult (quoteSavepointName name)
    execControl client (.savepoint name) s!"SAVEPOINT {quoted}" .prepare t

/-- Sent, a rollback to a savepoint that fails is not confirmed, and closes the scope. -/
def rollbackToSavepoint (name : String) (t : Trip α R) : Scope α Unit :=
  mapResult (attributed client.profile) do
    ensureOpen client .prepare
    let quoted ← ofResult (quoteSavepointName name)
    let result ← attempt
      (execControl client (.rollbackTo name) s!"ROLLBACK TO SAVEPOINT {quoted}" .write t)
    match result with
    | .ok _ => pure ()
    | .error error => do
      discardAfterFailure .unknown
      throw error.afterUnconfirmedRollback

def releaseSavepoint (name : String) (t : Trip α R) : Scope α Unit :=
  mapResult (attributed client.profile) do
    ensureOpen client .prepare
    let quoted ← ofResult (quoteSavepointName name)
    execControl client (.release name) s!"RELEASE SAVEPOINT {quoted}" .prepare t

/-- `conditional_json::verify`: at most these many more catalog reads. -/
def verifyConditional (sql : String) (isUpdate : Bool) (trips : Nat → Trip α R) :
    Nat → List (List R) → Scope α Unit
  | 0, _ => pure ()
  | reads + 1, answers => do
    let next ← ofResult (client.catalogRead sql isUpdate answers)
    match next with
    | none => pure ()
    | some query => do
      let answer ← exchangeRows client .catalog query .prepare (trips answers.length)
      verifyConditional sql isUpdate trips reads (answers ++ [answer.rows])

/-- The database, the columns, whether it is a view, and twice the JSON columns. -/
def catalogReads : Nat := 5

def conditionalUpdateMismatch (expected affected : Nat) : DatabaseError :=
  { concurrentModificationError
      s!"{client.profile.product}: expected {expected} affected rows, got {affected}" with
    provider := some client.profile.kind }

def conditionalSavepoint : String := "__plenora_cu"

/-- The trips of a conditional update: the catalog reads of the update and of the probe, the
savepoint, the update and its profile, the release or else the rollback to the savepoint. -/
def executeConditionalUpdate (request : ConditionalUpdate) (x : Nat → Trip α R) : Scope α Unit :=
  mapResult (attributed client.profile) do
    ensureOpen client .write
    ofResult (client.validateCallerSql request.update.sql)
    ofResult (request.keyProbe.elim (.ok ()) fun probe => client.validateCallerSql probe.sql)
    verifyConditional client request.update.sql true x catalogReads []
    request.keyProbe.elim (pure ()) fun probe =>
      verifyConditional client probe.sql false (fun n => x (5 + n)) catalogReads []
    savepoint client conditionalSavepoint (x 10)
    ofResult (client.bindParameters request.update.params)
    let affected ← callerWrite client request.update.sql (x 11) (x 12)
    if affected = request.expectedAffectedRows then
      releaseSavepoint client conditionalSavepoint (x 13)
    else do
      rollbackToSavepoint client conditionalSavepoint (x 14)
      throw (conditionalUpdateMismatch client request.expectedAffectedRows affected)

/-! ### The end -/

def commitClosed (s : State α) : DatabaseError :=
  if s.recoveryRequired then (closedError client.profile .commit).afterUnprovenSend
  else closedError client.profile .commit

def commit (profile t : Trip α R) : Scope α CommitOutcome :=
  mapResult (attributed client.profile) do
    refuseIf (fun s => !s.isOpen) (commitClosed client)
    verifyProfile client .commit profile
    let result ← attempt (execTransaction client .commit .commit t)
    close
    match result with
    | .ok _ => pure .committed
    | .error error =>
      if error.remoteEffect = .unknown then
        pure (.outcomeUnknown (outcomeUnknownRecoveryFor error.category))
      else throw error

def rollback (t : Trip α R) : Scope α Unit :=
  mapResult (attributed client.profile) do
    let recoveryRequired ← read State.recoveryRequired
    let isOpen ← read State.isOpen
    if recoveryRequired then do
      quarantine
      throw (warningError client.profile .rollback).afterUnconfirmedRollback
    else if !isOpen then pure ()
    else do
      let result ← attempt (execTransaction client .rollback .rollback t)
      close
      ofResult (result.mapError DatabaseError.afterUnconfirmedRollback)

end Session

/-- The connection that the session still holds goes back to the pool, as it is. -/
def State.giveBack (s : State α) : State α :=
  if s.connection then { s with idle := true } else s

/-- `Drop` of the transaction, then of its session. -/
def State.drop (s : State α) : State α :=
  if s.isOpen || s.recoveryRequired then { s.quarantine with isOpen := false }.giveBack
  else s.giveBack

/-! ## Runs -/

inductive Request where
  | execute (statement : Statement)
  | query (statement : Statement)
  | queryStream (statement : Statement) (batchSize : Nat) (tokens : List (Option CancellationReason))
  | savepoint (name : String)
  | rollbackToSavepoint (name : String)
  | releaseSavepoint (name : String)
  | conditionalUpdate (request : ConditionalUpdate)

/-- The calls that consume the transaction. -/
inductive Ending where
  | commit | rollback | drop

inductive Value (Row : Type) where
  | affected (rows : Nat)
  | rows (rows : List Row)
  | batches (batches : List (Result (Option (List Row))))
  | done
  | commit (outcome : CommitOutcome)

/-- A call, with what becomes of its commands in their order. -/
def perform (client : Client R Row) (request : Request) (x : Nat → Trip α R) :
    Scope α (Value Row) :=
  match request with
  | .execute statement => do
    let rows ← execute client statement (x 0) (x 1)
    pure (.affected rows)
  | .query statement => do
    let rows ← query client statement (x 0) (x 1)
    pure (.rows rows)
  | .queryStream statement batchSize tokens => do
    let batches ← queryStream client statement batchSize tokens (x 0).sent (x 1)
    pure (.batches batches)
  | .savepoint name => do
    savepoint client name (x 0)
    pure .done
  | .rollbackToSavepoint name => do
    rollbackToSavepoint client name (x 0)
    pure .done
  | .releaseSavepoint name => do
    releaseSavepoint client name (x 0)
    pure .done
  | .conditionalUpdate request => do
    executeConditionalUpdate client request x
    pure .done

def conclude (client : Client R Row) (ending : Ending) (x : Nat → Trip α R) : Scope α (Value Row) :=
  match ending with
  | .commit => do
    let result ← commit client (x 0) (x 1)
    pure (.commit result)
  | .rollback => do
    rollback client (x 0)
    pure .done
  | .drop => pure .done

/-- The call, and the drop of the transaction it consumed. -/
def finish (client : Client R Row) (ending : Ending) (x : Nat → Trip α R) (s : State α) :
    Except DatabaseError (Value Row) × State α :=
  ((outcome (conclude client ending x) s).1, (outcome (conclude client ending x) s).2.drop)

/-- A transaction that `begin` opened on a session of the pool. -/
def opened (durable : List α) : State α :=
  ⟨true, false, .ready, true, true, (Server.mk durable none).begin_, [], false⟩

/-- The state after these calls. -/
def reach (client : Client R Row) (s : State α) :
    List (Request × (Nat → Trip α R)) → State α
  | [] => s
  | (request, x) :: steps => reach client (outcome (perform client request x) s).2 steps

end Algorithm

end Plenora.Mysql.Transaction
