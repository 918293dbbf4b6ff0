import Plenora.Lib.Calls
import Plenora.Lib.TransactionServer
import Plenora.Core.Plan
import Plenora.Postgres.Errors

/-!
# A transaction scope on PostgreSQL

The calls of a `PostgresTransaction`, the pooled client it holds and the session
on the server.  The script decides what becomes of each command: whether it
arrives, what the server answers and where the cancellation token fires.

    perform client request : Call DatabaseError (State α R) (Value Row)     one call of the scope
    finish ending          : Call DatabaseError (State α R) (Value Row)     commit, rollback or drop
-/

namespace Plenora.Postgres.Transaction

open Plenora.Lib Plenora.Lib.Call Plenora.Core Plenora.Core.Cancellation

/-! ## The server -/

inductive Command where
  | prepare | statement | commit | rollback
  | savepoint (name : String) | rollbackTo (name : String) | release (name : String)
  deriving DecidableEq, Repr

structure Answer (R : Type) where
  parameterTypes : List String
  affected : Nat
  rows : List R

/-- What becomes of one command.  The connection may break before it arrives or before the answer
does; the server may refuse it, and a COMMIT it refuses without a proof of the rollback may have
been done; the token may fire before the answer is read. -/
structure Exchange (α R : Type) where
  arrives : Bool
  refusal : Option DriverError
  committed : Bool
  changes : List α
  answer : Answer R
  breaks : Bool
  cancelled : Option CancellationReason

def closedConnection : DriverError := ⟨none, "", true⟩

/-- `in_failed_sql_transaction`. -/
def inFailedTransaction : DriverError :=
  ⟨some "25P02",
    "current transaction is aborted, commands ignored until end of transaction block", false⟩

/-- `S_E_INVALID_SPECIFICATION`: no such savepoint. -/
def invalidSavepoint : DriverError := ⟨some "3B001", "savepoint does not exist", false⟩

section Algorithm

variable {α R Row : Type}

def failedTx (server : Server α) : Bool := server.tx.any (·.failed)

def hasSavepoint (server : Server α) (name : String) : Bool :=
  server.tx.any fun tx => tx.savepoints.any fun point => point.1 = name

/-- The refusal the state of the transaction forces on a command, or else the server's own. -/
def refusalOf (command : Command) (x : Exchange α R) (server : Server α) : Option DriverError :=
  match command with
  | .prepare | .statement | .savepoint _ =>
    if failedTx server then some inFailedTransaction else x.refusal
  | .release name =>
    if failedTx server then some inFailedTransaction
    else if hasSavepoint server name then x.refusal else some invalidSavepoint
  | .rollbackTo name => if hasSavepoint server name then x.refusal else some invalidSavepoint
  | .commit | .rollback => x.refusal

/-- A command the server carries out.  The COMMIT of a failed transaction is acknowledged, and
rolls back. -/
def carryOut (command : Command) (x : Exchange α R) (server : Server α) : Server α :=
  match command with
  | .prepare => server
  | .statement => server.run x.changes
  | .savepoint name => server.savepoint name
  | .rollbackTo name => server.rollbackTo name
  | .release name => server.release name
  | .commit => server.commit
  | .rollback => server.rollback

/-- A command the server refuses: a statement fails the transaction, a COMMIT refused with a
proving code rolled it back. -/
def turnDown (command : Command) (x : Exchange α R) (error : DriverError) (server : Server α) :
    Server α :=
  match command with
  | .commit =>
    if commitRejectionProvesRollback error then server.rollback
    else if x.committed then server.commit else server.fail
  | .rollback => server
  | _ => server.fail

def serve (command : Command) (x : Exchange α R) (server : Server α) :
    Except DriverError (Answer R) × Server α :=
  match refusalOf command x server with
  | some error => (.error error, turnDown command x error server)
  | none => (.ok x.answer, carryOut command x server)

/-! ## The scope -/

/-- The transaction, its pooled client and the session.  `idle`: the client went back to the
pool. -/
structure State (α R : Type) where
  isOpen : Bool
  reusable : Bool
  connected : Bool
  server : Server α
  script : Nat → Exchange α R
  exchanges : Nat
  idle : Bool

structure Statement where
  sql : String
  params : List ParameterValue

structure ConditionalUpdate where
  update : Statement
  keyProbe : Option Statement
  expectedAffectedRows : Nat

/-- The checks of the client that look at no state: the policy on the caller's SQL, the codec of
the parameters, their targets in the prepared statement, the decoder of the rows. -/
structure Client (R Row : Type) where
  enforcePolicy : String → Result Unit
  encodeParams : List ParameterValue → Result Unit
  validateParameterTargets : List ParameterValue → List String → Result Unit
  decodeRows : List R → Result (List Row)

abbrev Scope (α R β : Type) := Call DatabaseError (State α R) β

/-- The connection ends, and with it the session's transaction. -/
def State.disconnect (s : State α R) : State α R :=
  { s with connected := false, server := s.server.rollback }

/-- A command is sent; the answer the driver would give, and whether the token fires first. -/
def State.exchange (command : Command) (s : State α R) :
    (Option CancellationReason × Except DriverError (Answer R)) × State α R :=
  let x := s.script s.exchanges
  let s := { s with exchanges := s.exchanges + 1 }
  if !s.connected then ((x.cancelled, .error closedConnection), s)
  else if !x.arrives then ((x.cancelled, .error closedConnection), s.disconnect)
  else
    let (answer, server) := serve command x s.server
    let s := { s with server }
    if x.breaks then ((x.cancelled, .error closedConnection), s.disconnect)
    else match answer with
      | .ok answer => ((x.cancelled, .ok answer), s)
      | .error error => ((x.cancelled, .error error), if error.closed then s.disconnect else s)

def invalidate : Scope α R Unit := update fun s => { s with reusable := false }

def close : Scope α R Unit := update fun s => { s with isOpen := false }

def ensureOpen (phase : ErrorPhase) : Scope α R Unit :=
  refuseIf (fun s => !s.isOpen) fun _ => publicError .invalidPlan phase false
    "transazione già chiusa (commit/rollback/cancel): apri una nuova tx"

/-- The token is read before anything is sent. -/
def checkToken (phase : ErrorPhase) : Scope α R Unit := do
  let cancelled ← Call.exchange fun s =>
    ((s.script s.exchanges).cancelled, { s with exchanges := s.exchanges + 1 })
  ofResult (checkCancelled cancelled phase)

/-- The client is lost to the pool and the scope takes no more calls. -/
def abandon : Scope α R Unit := do
  invalidate
  close

/-- `select_with_cancellation`, with the exit of every caller when the token fires. -/
def sending (command : Command) (phase : ErrorPhase) (message : String) :
    Scope α R (Except DriverError (Answer R)) := do
  let (cancelled, answer) ← Call.exchange (State.exchange command)
  match cancelled with
  | some reason => do
    abandon
    throw (interruptionError reason phase message)
  | none => pure answer

/-- The exit on an error of the server: a closed connection closes the scope. -/
def failWith {β : Type} (phase : ErrorPhase) (error : DriverError) : Scope α R β := do
  if error.closed then abandon else pure ()
  throw (classifyError phase error)

def mapError {β : Type} (phase : ErrorPhase) : Except DriverError β → Scope α R β
  | .ok b => pure b
  | .error error => throw (classifyError phase error)

def phaseOf (sql : String) : ErrorPhase :=
  let head := ((sql.toList.dropWhile isWhiteSpace).takeWhile Char.isAlpha).map Char.toUpper
  if ["SELECT", "WITH", "SHOW", "TABLE", "VALUES", "EXPLAIN"].contains (String.ofList head) then
    .read
  else .write

def prepareBind (client : Client R Row) (statement : Statement) (phase : ErrorPhase) :
    Scope α R Unit := do
  let result ← sending .prepare phase "preparazione PostgreSQL cancellata"
  let prepared ← mapError phase result
  ofResult (client.validateParameterTargets statement.params prepared.parameterTypes)

def execute (client : Client R Row) (statement : Statement) : Scope α R Nat := do
  ensureOpen (phaseOf statement.sql)
  ofResult (client.enforcePolicy statement.sql)
  checkToken (phaseOf statement.sql)
  ofResult (client.encodeParams statement.params)
  prepareBind client statement (phaseOf statement.sql)
  let result ← sending .statement (phaseOf statement.sql)
    "operazione cancellata durante l'esecuzione"
  match result with
  | .ok answer => pure answer.affected
  | .error error => failWith (phaseOf statement.sql) error

def query (client : Client R Row) (statement : Statement) : Scope α R (List Row) := do
  ensureOpen .read
  ofResult (client.enforcePolicy statement.sql)
  checkToken .read
  ofResult (client.encodeParams statement.params)
  prepareBind client statement .read
  let result ← sending .statement .read "operazione cancellata durante l'esecuzione"
  let answer ← mapError .read result
  ofResult (client.decodeRows answer.rows)

/-- A savepoint command: sent when the scope is open and the name is sound. -/
def savepointCommand (command : Command) (name : String) (phase : ErrorPhase) (message : String) :
    Scope α R Unit := do
  ensureOpen phase
  checkToken phase
  ofResult (validateSavepointName name)
  let result ← sending command phase message
  let _ ← mapError phase result
  pure ()

def savepoint (name : String) : Scope α R Unit :=
  savepointCommand (.savepoint name) name .write "SAVEPOINT cancellato durante l'esecuzione"

/-- Sent, a rollback to a savepoint that fails is not confirmed; before that an error stays. -/
def rollbackToSavepoint (name : String) : Scope α R Unit := do
  ensureOpen .rollback
  checkToken .rollback
  ofResult (validateSavepointName name)
  let result ← sending (.rollbackTo name) .rollback
    "ROLLBACK TO SAVEPOINT cancellato durante l'esecuzione"
  match result with
  | .ok _ => pure ()
  | .error error => throw (classifyError .rollback error).afterUnconfirmedRollback

def releaseSavepoint (name : String) : Scope α R Unit :=
  savepointCommand (.release name) name .finalize
    "RELEASE SAVEPOINT cancellato durante l'esecuzione"

/-- The probe of a conditional update that found other rows than expected. -/
def probeKey (client : Client R Row) (probe : Statement) : Scope α R Unit := do
  checkToken .read
  ofResult (client.encodeParams probe.params)
  prepareBind client probe .read
  let result ← sending .statement .read "key probe cancellato durante l'esecuzione"
  let answer ← mapError .read result
  if answer.rows.isEmpty then
    throw (publicError .notFound .write false "chiave assente per l'update ottimistico")
  else pure ()

def executeConditionalUpdate (client : Client R Row) (request : ConditionalUpdate) :
    Scope α R Unit := do
  ensureOpen (phaseOf request.update.sql)
  ofResult (client.enforcePolicy request.update.sql)
  ofResult (request.keyProbe.elim (.ok ()) fun probe => client.enforcePolicy probe.sql)
  checkToken (phaseOf request.update.sql)
  ofResult (client.encodeParams request.update.params)
  prepareBind client request.update .write
  let result ← sending .statement (phaseOf request.update.sql)
    "UPDATE condizionale cancellato durante l'esecuzione"
  match result with
  | .error error => failWith (phaseOf request.update.sql) error
  | .ok answer =>
    if answer.affected = request.expectedAffectedRows then pure ()
    else do
      request.keyProbe.elim (pure ()) (probeKey client)
      throw (concurrentModificationError
        "versione attesa non allineata: la riga è stata modificata concorrentemente")

def commit : Scope α R CommitOutcome := do
  ensureOpen .commit
  checkToken .commit
  let (cancelled, answer) ← Call.exchange (State.exchange .commit)
  match cancelled with
  | some reason => do
    abandon
    pure (.outcomeUnknown (outcomeUnknownRecoveryFor (interruptionCategory reason)))
  | none => do
    close
    match answer with
    | .ok _ => pure .committed
    | .error error => do
      if !commitRejectionProvesRollback error || error.closed then invalidate else pure ()
      ofResult (commitFailure error)

/-- `rollback` does not look at the token, nor at `open`. -/
def rollback : Scope α R Unit := do
  let (_, answer) ← Call.exchange (State.exchange .rollback)
  close
  match answer with
  | .ok _ => pure ()
  | .error error => do
    invalidate
    throw (classifyError .rollback error).afterUnconfirmedRollback

/-- `Drop` of the transaction, then of its pooled client: the client goes back to the pool, or the
connection is closed. -/
def State.drop (s : State α R) : State α R :=
  if s.reusable && !s.isOpen && s.connected then { s with idle := true } else s.disconnect

/-! ## Runs -/

inductive Request where
  | execute (statement : Statement)
  | query (statement : Statement)
  | savepoint (name : String)
  | rollbackToSavepoint (name : String)
  | releaseSavepoint (name : String)
  | conditionalUpdate (request : ConditionalUpdate)

/-- The calls that consume the transaction. -/
inductive Ending where
  | commit | rollback | drop

inductive Value (Row : Type) where
  | affected (rows : Nat)
  | rows (rows : List Row)
  | done
  | commit (outcome : CommitOutcome)

def perform (client : Client R Row) : Request → Scope α R (Value Row)
  | .execute statement => do
    let rows ← execute client statement
    pure (.affected rows)
  | .query statement => do
    let rows ← query client statement
    pure (.rows rows)
  | .savepoint name => do
    savepoint name
    pure .done
  | .rollbackToSavepoint name => do
    rollbackToSavepoint name
    pure .done
  | .releaseSavepoint name => do
    releaseSavepoint name
    pure .done
  | .conditionalUpdate request => do
    executeConditionalUpdate client request
    pure .done

def conclude : Ending → Scope α R (Value Row)
  | .commit => do
    let result ← commit
    pure (.commit result)
  | .rollback => do
    rollback
    pure .done
  | .drop => pure .done

/-- The call, and the drop of the transaction it consumed. -/
def finish (ending : Ending) (s : State α R) : Except DatabaseError (Value Row) × State α R :=
  let (result, s) := outcome (conclude ending) s
  (result, s.drop)

/-- A transaction that `begin` opened on a fresh client. -/
def opened (durable : List α) (script : Nat → Exchange α R) : State α R :=
  ⟨true, true, true, (Server.mk durable none).begin_, script, 0, false⟩

/-- The state after these calls. -/
def reach (client : Client R Row) (s : State α R) : List Request → State α R
  | [] => s
  | request :: requests => reach client (outcome (perform client request) s).2 requests

end Algorithm

end Plenora.Postgres.Transaction
