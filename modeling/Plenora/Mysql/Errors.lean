import Plenora.Core.Transaction

/-!
# The errors of MySQL and MariaDB

What an error of the driver becomes under the profile of the product, the
diagnostics of a statement, and the end of a transaction.  Of the codes both
products know only the deadlock says what the server did.

    (driverError profile e phase .none).remoteEffect = .rolledBack ↔ e is a deadlock
                                                                   (driverError_rolledBack_iff)
-/

namespace Plenora.Mysql

open Plenora.Lib Plenora.Core

inductive TransportKind where
  | io | driver | url | other
  deriving DecidableEq, Repr

/-- An error of the driver: one of the server, with its code, or one of the transport; `fatal`: the
driver says that the connection is broken. -/
inductive DriverError where
  | server (code : Nat)
  | transport (kind : TransportKind) (fatal identityRejected : Bool)
  deriving DecidableEq, Repr

def serverCode : DriverError → Option Nat
  | .server code => some code
  | .transport .. => none

def DriverError.isFatal : DriverError → Bool
  | .server _ => false
  | .transport _ fatal _ => fatal

/-- `is_tls_identity_rejection`. -/
def isTlsIdentityRejection : DriverError → Bool
  | .transport .io _ identityRejected | .transport .other _ identityRejected => identityRejected
  | _ => false

/-! ## The table of the codes -/

structure ServerCodeVerdict where
  category : ErrorCategory
  retry : RetryDisposition
  message : String
  remoteEffect : Option RemoteEffect
  deriving DecidableEq, Repr

def genericServerCode (product : String) (code : Nat) : ServerCodeVerdict :=
  ⟨.execution, .never, s!"errore server {product} redatto (codice {code})", none⟩

def classifySharedCode (product : String) (code : Nat) : ServerCodeVerdict :=
  if code = 1045 then
    ⟨.authentication, .never, s!"autenticazione {product} rifiutata (codice 1045)", none⟩
  else if [1044, 1142].contains code then
    ⟨.authorization, .never, s!"autorizzazione {product} negata (codice {code})", none⟩
  else if [1049, 1146].contains code then
    ⟨.notFound, .never, s!"database o oggetto {product} non trovato (codice {code})", none⟩
  else if code = 1054 then
    ⟨.schema, .never, s!"colonna {product} non valida (codice 1054)", none⟩
  else if code = 1062 then
    ⟨.conflict, .never, s!"vincolo univoco {product} violato (codice 1062)", none⟩
  else if code = 1048 then
    ⟨.dataMapping, .never, s!"colonna {product} non nullable senza valore (codice 1048)", none⟩
  else if code = 1406 then
    ⟨.dataMapping, .never, s!"valore oltre la larghezza della colonna {product} (codice 1406)",
      none⟩
  else if [1451, 1452].contains code then
    ⟨.conflict, .never, s!"integrita referenziale {product} violata (codice {code})", none⟩
  else if code = 1213 then
    ⟨.transient, .safe, s!"deadlock {product}; transazione vittima annullata", some .rolledBack⟩
  else if [1205, 3024].contains code then
    ⟨.timeout, .never, s!"timeout {product} (codice {code})", none⟩
  else genericServerCode product code

/-- What the two products answer for themselves. -/
structure ProductProfile where
  product : String
  kind : ProviderKind
  commitRollbackCodes : List Nat
  classifyServerCode : Nat → ServerCodeVerdict

def mysqlProfile : ProductProfile where
  product := "MySQL"
  kind := .mysql
  commitRollbackCodes := [1213, 3101]
  classifyServerCode code :=
    if [3033, 3643].contains code then
      ⟨.crs, .never, "geometrie MySQL in sistemi di riferimento diversi", none⟩
    else classifySharedCode "MySQL" code

def measuredServerCodes : List Nat :=
  [1045, 1048, 1054, 1062, 1142, 1146, 1205, 1213, 1406, 1451, 1452]

def mariadbProfile : ProductProfile where
  product := "MariaDB"
  kind := .mariadb
  commitRollbackCodes := [1213]
  classifyServerCode code :=
    if code = 1969 then ⟨.timeout, .never, "timeout MariaDB (codice 1969)", none⟩
    else if measuredServerCodes.contains code then classifySharedCode "MariaDB" code
    else genericServerCode "MariaDB" code

/-- The two profiles a provider is built with. -/
inductive Product where
  | mysql | mariadb
  deriving DecidableEq, Repr

def Product.profile : Product → ProductProfile
  | .mysql => mysqlProfile
  | .mariadb => mariadbProfile

theorem classifySharedCode_effect (product : String) (code : Nat) :
    (classifySharedCode product code).remoteEffect = if code = 1213 then some .rolledBack else none := by
  by_cases hcode : code = 1213
  · subst hcode
    rfl
  · unfold classifySharedCode
    simp only [hcode, if_false]
    repeat' split
    all_goals rfl

/-- **The deadlock is the only code that says what the server did.** -/
theorem classifyServerCode_effect (product : Product) (code : Nat) :
    (product.profile.classifyServerCode code).remoteEffect =
      if code = 1213 then some .rolledBack else none := by
  cases product with
  | mysql =>
    show (if [3033, 3643].contains code then _ else _ : ServerCodeVerdict).remoteEffect = _
    split
    next hcrs =>
      have hne : code ≠ 1213 := by
        rintro rfl
        revert hcrs
        decide
      rw [if_neg hne]
    next => exact classifySharedCode_effect "MySQL" code
  | mariadb =>
    show (if code = 1969 then _ else _ : ServerCodeVerdict).remoteEffect = _
    split
    next htimeout => rw [if_neg (by omega)]
    next =>
      split
      next => exact classifySharedCode_effect "MariaDB" code
      next hunmeasured =>
        have hne : code ≠ 1213 := by
          rintro rfl
          exact hunmeasured (by decide)
        rw [if_neg hne]
        rfl

/-! ## The classification -/

def transportVerdict (product : String) : TransportKind → ServerCodeVerdict
  | .io => ⟨.io, .never, s!"errore I/O protocollo {product} redatto", none⟩
  | .driver => ⟨.protocol, .never, s!"errore driver {product} redatto", none⟩
  | .url => ⟨.invalidConfiguration, .never, s!"configurazione endpoint {product} non valida", none⟩
  | .other => ⟨.protocol, .never, s!"errore TLS o protocollo {product} redatto", none⟩

def verdict (profile : ProductProfile) (error : DriverError) : ServerCodeVerdict :=
  if isTlsIdentityRejection error then
    ⟨.protocol, .never, s!"verifica identita TLS {profile.product} rifiutata", none⟩
  else match error with
    | .server code => profile.classifyServerCode code
    | .transport kind _ _ => transportVerdict profile.product kind

/-- Without a code, a phase that changes data leaves its effect unknown. -/
def hasAmbiguousEffect (code : Option Nat) (phase : ErrorPhase) : Bool :=
  code.isNone && (phase = .write || phase = .commit || phase = .rollback)

def driverError (profile : ProductProfile) (error : DriverError) (phase : ErrorPhase)
    (requestedEffect : RemoteEffect) : DatabaseError where
  category := (verdict profile error).category
  phase := phase
  remoteEffect := (verdict profile error).remoteEffect.getD
    (if hasAmbiguousEffect (serverCode error) phase then .unknown else requestedEffect)
  retry := if hasAmbiguousEffect (serverCode error) phase then .requiresRecovery
    else (verdict profile error).retry
  provider := some profile.kind
  executionId := none
  message := (verdict profile error).message

/-- **Only the victim of a deadlock is told that it was rolled back.** -/
theorem driverError_rolledBack_iff (product : Product) (error : DriverError) (phase : ErrorPhase) :
    (driverError product.profile error phase .none).remoteEffect = .rolledBack ↔
      error = .server 1213 := by
  cases error with
  | server code =>
    have heffect : (driverError product.profile (.server code) phase .none).remoteEffect =
        (product.profile.classifyServerCode code).remoteEffect.getD .none := rfl
    rw [heffect, classifyServerCode_effect]
    by_cases hcode : code = 1213
    · simp [hcode]
    · simp [hcode]
  | transport kind fatal identityRejected =>
    have hverdict : (verdict product.profile (.transport kind fatal identityRejected)).remoteEffect =
        none := by
      unfold verdict
      split
      next => rfl
      next => cases kind <;> rfl
    simp only [driverError, hverdict, Option.getD_none, reduceCtorEq, iff_false]
    split <;> decide

/-! ## Interruptions -/

/-- Why a command was given up before its answer: the token, or the operation timeout. -/
inductive Interruption where
  | cancelled (reason : Cancellation.CancellationReason)
  | timeout
  deriving DecidableEq, Repr

def timeoutError (profile : ProductProfile) (phase : ErrorPhase) (effect : RemoteEffect) :
    DatabaseError :=
  { DatabaseError.new .timeout phase (some profile.kind)
      (if phase = ErrorPhase.connect then
        s!"timeout connessione {profile.product} prima della creazione della sessione"
      else s!"timeout operazione {profile.product}; connessione quarantinata") with
    remoteEffect := effect }.afterInterruptedSend

def cancellationError (profile : ProductProfile) (phase : ErrorPhase) (effect : RemoteEffect) :
    DatabaseError :=
  { DatabaseError.new .cancelled phase (some profile.kind)
      (if phase = ErrorPhase.connect then
        s!"connessione {profile.product} cancellata prima della creazione della sessione"
      else s!"operazione {profile.product} cancellata; connessione quarantinata") with
    remoteEffect := effect }.afterInterruptedSend

def interruptionError (profile : ProductProfile) (interruption : Interruption) (phase : ErrorPhase)
    (effect : RemoteEffect) : DatabaseError :=
  match interruption with
  | .timeout => timeoutError profile phase effect
  | .cancelled reason =>
    if interruptionCategory reason = .timeout then timeoutError profile phase effect
    else cancellationError profile phase effect

/-- At the end of a transaction an interruption leaves the effect unknown. -/
theorem remoteEffect_interruptionError (profile : ProductProfile) (interruption : Interruption)
    {phase : ErrorPhase} (h : phase = .commit ∨ phase = .rollback) :
    (interruptionError profile interruption phase .unknown).remoteEffect = .unknown := by
  unfold interruptionError
  rcases h with rfl | rfl
  · cases interruption with
    | timeout => rfl
    | cancelled reason => cases reason <;> rfl
  · cases interruption with
    | timeout => rfl
    | cancelled reason => cases reason <;> rfl

def stateError (profile : ProductProfile) (phase : ErrorPhase) : DatabaseError :=
  .new .invalidPlan phase (some profile.kind) s!"sessione {profile.product} non riusabile"

def closedError (profile : ProductProfile) (phase : ErrorPhase) : DatabaseError :=
  .new .invalidPlan phase (some profile.kind) "MysqlTransaction già chiusa"

/-- `warning_error`: a diagnostic that is not known to be harmless. -/
def warningError (profile : ProductProfile) (phase : ErrorPhase) : DatabaseError :=
  { DatabaseError.new .dataMapping phase (some profile.kind)
      "diagnostico server non qualificato come informativo: risultato rifiutato" with
    remoteEffect := .unknown, retry := .requiresRecovery }

/-- `attributed_kind`: the errors of a scope carry its product. -/
def attributed {β : Type} (profile : ProductProfile) : Result β → Result β :=
  Except.mapError fun error => { error with provider := some profile.kind }

/-! ## Diagnostics -/

/-- A row of SHOW WARNINGS, as far as it can be read. -/
structure Diagnostic where
  level : Option String
  code : Option Nat
  deriving DecidableEq, Repr

def informativeWarning (diagnostic : Diagnostic) : Bool :=
  diagnostic.level = some "Warning" &&
    (diagnostic.code = some 1287 || diagnostic.code = some 1681)

/-- `split_whitespace` and `to_ascii_uppercase`, of the first nine words. -/
def leadingWords (sql : String) : List String :=
  (((sql.toList.splitOnP isWhiteSpace).filter (· ≠ [])).take 9).map
    fun word => String.ofList (word.map Char.toUpper)

/-- `prefix` and `alter` of the source. -/
def startsWith (words expected : List String) : Bool := expected.isPrefixOf words

def alters (words clause : List String) : Bool :=
  startsWith words ["ALTER", "TABLE"] && startsWith (words.drop 3) clause

/-- The notes of a conditional DDL whose object is there already, or is not. -/
def noteIsHarmless (code : Nat) (words : List String) : Bool :=
  match code with
  | 1060 => alters words ["ADD", "COLUMN", "IF", "NOT", "EXISTS"] ||
      alters words ["ADD", "IF", "NOT", "EXISTS"]
  | 1061 => alters words ["ADD", "INDEX", "IF", "NOT", "EXISTS"] ||
      alters words ["ADD", "KEY", "IF", "NOT", "EXISTS"] ||
      startsWith words ["CREATE", "INDEX", "IF", "NOT", "EXISTS"]
  | 1091 => alters words ["DROP", "COLUMN", "IF", "EXISTS"] ||
      alters words ["DROP", "INDEX", "IF", "EXISTS"] ||
      alters words ["DROP", "KEY", "IF", "EXISTS"] ||
      startsWith words ["DROP", "INDEX", "IF", "EXISTS"]
  | 1007 => startsWith words ["CREATE", "DATABASE", "IF", "NOT", "EXISTS"] ||
      startsWith words ["CREATE", "SCHEMA", "IF", "NOT", "EXISTS"]
  | 1008 => startsWith words ["DROP", "DATABASE", "IF", "EXISTS"] ||
      startsWith words ["DROP", "SCHEMA", "IF", "EXISTS"]
  | 1050 => startsWith words ["CREATE", "TABLE", "IF", "NOT", "EXISTS"]
  | 1051 => startsWith words ["DROP", "TABLE", "IF", "EXISTS"]
  | 1305 => startsWith words ["DROP", "PROCEDURE", "IF", "EXISTS"] ||
      startsWith words ["DROP", "FUNCTION", "IF", "EXISTS"]
  | 1360 => startsWith words ["DROP", "TRIGGER", "IF", "EXISTS"]
  | 1003 => startsWith words ["EXPLAIN"]
  | _ => false

def informativeWarningForSql (sql : String) (diagnostic : Diagnostic) : Bool :=
  informativeWarning diagnostic ||
    (diagnostic.level = some "Note" &&
      diagnostic.code.any fun code => noteIsHarmless code (leadingWords sql))

/-- The counter of the OK packet saturates: 65535 proves nothing. -/
def warningCountComplete (count rows : Nat) : Bool := count ≠ 65535 && rows = count

/-! ## The end of a transaction -/

/-- `commit_failure`: the closed list of the product proves a rollback. -/
def commitFailure (profile : ProductProfile) (error : DriverError) : DatabaseError :=
  afterCommitSent (driverError profile error .commit .none)
    ((serverCode error).any profile.commitRollbackCodes.contains)

end Plenora.Mysql
