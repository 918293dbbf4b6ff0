import Plenora.Core.Transaction

/-!
# The errors of SQL Server

What an error of the driver becomes, given the phase and the effect its caller
asks for; the interruptions of a command that was sent.

    (driverError e phase .unknown).remoteEffect = if the code is 1205 then .rolledBack else .unknown
                                                               (remoteEffect_driverError_unknown)
-/

namespace Plenora.Sqlserver

open Plenora.Lib Plenora.Core

/-- An error of the driver.  Only the server's own errors have a code. -/
inductive DriverError where
  | server (code : Nat)
  | io (invalidData : Bool)
  | tls | routing | conversion | bulkInput | protocol | other
  deriving DecidableEq, Repr

def DriverError.code : DriverError → Option Nat
  | .server code => some code
  | _ => none

def publicError (category : ErrorCategory) (phase : ErrorPhase) (message : String) :
    DatabaseError :=
  .new category phase (some .sqlserver) message

/-! ## The classification -/

def classifyTransport (error : DriverError) (phase : ErrorPhase) : ErrorCategory × String :=
  match error with
  | .io invalidData =>
    if invalidData && phase = .connect then
      (.authentication, "verifica certificato TLS SQL Server fallita")
    else (.io, "errore I/O TDS SQL Server redatto")
  | .tls => (.authentication, "handshake TLS SQL Server fallito")
  | .routing => (.unsupported, "redirect SQL Server/Azure non ancora verificato")
  | .conversion => (.dataMapping, "conversione TDS SQL Server fallita")
  | .bulkInput => (.dataMapping, "input bulk SQL Server non valido")
  | .protocol => (.protocol, "errore protocollo TDS SQL Server redatto")
  | .server _ => (.protocol, "errore server TDS privo di codice classificabile")
  | .other => (.protocol, "errore TDS SQL Server redatto")

def classifyCode (code : Nat) : ErrorCategory × RetryDisposition × String :=
  if code = 1205 then (.transient, .safe, "deadlock SQL Server; transazione vittima annullata")
  else if code = 1222 then (.timeout, .never, "timeout lock SQL Server")
  else if [2601, 2627, 547].contains code then
    (.conflict, .never, s!"vincolo SQL Server violato (codice {code})")
  else if code = 207 then (.schema, .never, "colonna SQL Server non valida (codice 207)")
  else if code = 208 then (.notFound, .never, "oggetto SQL Server non trovato (codice 208)")
  else if [229, 230].contains code then
    (.authorization, .never, s!"autorizzazione SQL Server negata (codice {code})")
  else if [4060, 18456].contains code then
    (.authentication, .never,
      s!"autenticazione o database SQL Server rifiutati (codice {code})")
  else (.execution, .never, s!"errore server SQL Server redatto (codice {code})")

def classify (error : DriverError) (phase : ErrorPhase) :
    ErrorCategory × RetryDisposition × String :=
  match error.code with
  | some code => classifyCode code
  | none =>
    let (category, message) := classifyTransport error phase
    (category, .never, message)

/-- The effect of an error that came without a code is unknown at a commit. -/
def transportEffectUnknown (error : DriverError) (phase : ErrorPhase)
    (requestedEffect : RemoteEffect) : Bool :=
  error.code.isNone && (phase = .commit || requestedEffect = .unknown)

def driverError (error : DriverError) (phase : ErrorPhase) (requestedEffect : RemoteEffect) :
    DatabaseError where
  category := (classify error phase).1
  phase := phase
  remoteEffect :=
    if transportEffectUnknown error phase requestedEffect then .unknown
    else if error.code = some 1205 then .rolledBack
    else requestedEffect
  retry :=
    if transportEffectUnknown error phase requestedEffect then .requiresRecovery
    else (classify error phase).2.1
  provider := some .sqlserver
  executionId := none
  message := (classify error phase).2.2

/-- **At a commit only the victim of a deadlock is told of a rollback; else the effect is
unknown.** -/
theorem remoteEffect_driverError_unknown (error : DriverError) (phase : ErrorPhase) :
    (driverError error phase .unknown).remoteEffect =
      if error.code = some 1205 then .rolledBack else .unknown := by
  unfold driverError transportEffectUnknown
  cases h : error.code with
  | none => simp
  | some code => simp

/-! ## Interruptions -/

/-- Why a command was given up before its answer: the token, or the operation timeout. -/
inductive Interruption where
  | cancelled (reason : Cancellation.CancellationReason)
  | timeout
  deriving DecidableEq, Repr

def timeoutError (phase : ErrorPhase) (remoteEffect : RemoteEffect) : DatabaseError :=
  { publicError .timeout phase "timeout operazione SQL Server" with
    remoteEffect }.afterInterruptedSend

def cancellationError (phase : ErrorPhase) (remoteEffect : RemoteEffect) : DatabaseError :=
  { publicError .cancelled phase
      "operazione SQL Server cancellata; connessione quarantinata" with
    remoteEffect }.afterInterruptedSend

def interruptionError (interruption : Interruption) (phase : ErrorPhase)
    (remoteEffect : RemoteEffect) : DatabaseError :=
  match interruption with
  | .timeout => timeoutError phase remoteEffect
  | .cancelled reason =>
    if interruptionCategory reason = .timeout then timeoutError phase remoteEffect
    else cancellationError phase remoteEffect

/-- At the end of a transaction an interruption leaves the effect unknown. -/
theorem remoteEffect_interruptionError_unknown (interruption : Interruption) {phase : ErrorPhase}
    (h : phase = .commit ∨ phase = .rollback) :
    (interruptionError interruption phase .unknown).remoteEffect = .unknown := by
  unfold interruptionError
  rcases h with rfl | rfl
  · cases interruption with
    | timeout => rfl
    | cancelled reason => cases reason <;> rfl
  · cases interruption with
    | timeout => rfl
    | cancelled reason => cases reason <;> rfl

/-! ## The end of a transaction -/

/-- An error of the local state comes before the send and has no effect. -/
def commitFailure (error : DatabaseError) : Result CommitOutcome :=
  match error.remoteEffect with
  | .none => .error error
  | effect => commitFailureOutcome error (effect = .rolledBack)

/-- **A failed commit is an error only where its effect is undone; else its outcome is unknown.** -/
theorem commitFailure_cases (error : DatabaseError) :
    (SaysUndone error ∧ ∃ e, commitFailure error = .error e) ∨
      ∃ recovery, commitFailure error = .ok (.outcomeUnknown recovery) := by
  unfold commitFailure SaysUndone
  cases error.remoteEffect with
  | none => exact .inl ⟨.inl rfl, _, rfl⟩
  | rolledBack => exact .inl ⟨.inr rfl, _, rfl⟩
  | partialEffect => exact .inr ⟨_, rfl⟩
  | committed => exact .inr ⟨_, rfl⟩
  | unknown => exact .inr ⟨_, rfl⟩

end Plenora.Sqlserver
