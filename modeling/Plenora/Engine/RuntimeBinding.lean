import Plenora.Core.Error
import Plenora.Lib.Patterns
import Plenora.Lib.Rfc3339

/-!
# The admission of a runtime invocation

The recognisers of the reserved keys, the operations that the runtime surface announces, and the
checks of `admitInvocation`, in their order: the grammar, what is announced, and the deadline.

    admitInvocation parse monotonic now invocation : Result Admitted
-/

namespace Plenora.Engine.RuntimeBinding

open Plenora.Core Plenora.Lib Plenora.Lib.Utf8 Plenora.Lib.Patterns
open Plenora.Lib.Rfc3339 (Text Parsed)

/-! ## Operations -/

inductive PublicSideEffect where
  | none | remote
  deriving DecidableEq

structure PublicPayload where
  contract : Text
  contentTypes : List Text
  deriving DecidableEq

structure PublicControls where
  cancellation : Bool
  deadline : Bool
  idempotencyKey : Bool
  deriving DecidableEq

structure PublicOperation where
  id : Text
  version : Nat
  input : PublicPayload
  output : PublicPayload
  sideEffect : PublicSideEffect
  controls : PublicControls
  deriving DecidableEq

structure OperationSpec where
  id : String
  input : String
  output : String
  inputContentTypes : List String
  outputContentTypes : List String
  sideEffect : PublicSideEffect
  cancellation : Bool
  runtime : Bool

def json : List String := ["application/json"]

def arrowOutput : List String :=
  ["application/vnd.apache.arrow.stream", "application/vnd.apache.arrow.file"]

def writeInput : List String :=
  ["application/json", "application/vnd.apache.arrow.stream", "application/vnd.apache.arrow.file"]

def queryOutput : List String := ["application/json", "application/vnd.apache.arrow.stream"]

def operations : List OperationSpec :=
  [⟨"database.test_connection", "plenora-database-connection-test-input-v1",
      "plenora-database-connection-test-result-v1", json, json, .none, true, true⟩,
    ⟨"database.list_catalogs", "plenora-database-list-catalogs-input-v1",
      "plenora-database-list-catalogs-result-v1", json, json, .none, true, true⟩,
    ⟨"database.list_schemas", "plenora-database-list-schemas-input-v1",
      "plenora-database-list-schemas-result-v1", json, json, .none, true, true⟩,
    ⟨"database.list_objects", "plenora-database-list-objects-input-v1",
      "plenora-database-list-objects-result-v1", json, json, .none, true, true⟩,
    ⟨"database.describe_object", "plenora-database-describe-object-input-v1",
      "plenora-database-describe-object-result-v1", json, json, .none, true, true⟩,
    ⟨"database.read", "plenora-database-read-input-v1",
      "plenora-database-read-result-v1", json, arrowOutput, .none, true, true⟩,
    ⟨"database.write", "plenora-database-write-input-v1",
      "plenora-database-write-result-v1", writeInput, json, .remote, true, true⟩,
    ⟨"database.query", "plenora-database-query-input-v1",
      "plenora-database-query-result-v1", json, queryOutput, .none, true, true⟩,
    ⟨"database.execute", "plenora-database-execute-input-v1",
      "plenora-database-execute-result-v1", json, json, .remote, true, false⟩,
    ⟨"database.transaction.begin", "plenora-database-transaction-begin-input-v1",
      "plenora-database-transaction-handle-v1", json, json, .remote, true, false⟩,
    ⟨"database.transaction.commit", "plenora-database-transaction-handle-v1",
      "plenora-database-transaction-outcome-v1", json, json, .remote, false, false⟩,
    ⟨"database.transaction.rollback", "plenora-database-transaction-handle-v1",
      "plenora-database-transaction-outcome-v1", json, json, .remote, false, false⟩,
    ⟨"database.transaction.savepoint", "plenora-database-savepoint-input-v1",
      "plenora-database-transaction-outcome-v1", json, json, .remote, true, false⟩]

def payload (contract : String) (contentTypes : List String) : PublicPayload :=
  ⟨contract.toList, contentTypes.map String.toList⟩

/-- The operations of `public_capabilities` for the runtime surface. -/
def runtimeCapabilities : List PublicOperation :=
  (operations.filter (·.runtime)).map fun operation =>
    { id := operation.id.toList
      version := 1
      input := payload operation.input operation.inputContentTypes
      output := payload operation.output operation.outputContentTypes
      sideEffect := operation.sideEffect
      controls := ⟨operation.cancellation, true, false⟩ }

/-! ## Invocations -/

def capabilityName : Text := "plenora.database-tools".toList

def runtimeBindingVersion : Nat := 1

def jsonContentType : Text := "application/json".toList

def errorContract : Text := "plenora-error-v1".toList

def messageId : Text := "plenora.message.id".toList
def causationId : Text := "plenora.message.causation_id".toList
def capabilityNameKey : Text := "plenora.capability.name".toList
def capabilityVersion : Text := "plenora.capability.version".toList
def operationKey : Text := "plenora.capability.operation".toList
def operationVersion : Text := "plenora.operation.version".toList
def inputContract : Text := "plenora.input.contract".toList
def deadlineKey : Text := "plenora.execution.deadline".toList
def idempotencyKey : Text := "plenora.execution.idempotency_key".toList
def correlationId : Text := "plenora.trace.correlation_id".toList

/-- A JSON value: a string, or another one as it is written. -/
inductive Value where
  | string (text : Text)
  | other (raw : Text)
  deriving DecidableEq

structure RuntimeInvocation where
  contentType : Text
  metadata : List (Text × Value)
  payload : Value

/-- `BTreeMap::get`. -/
def RuntimeInvocation.lookup (invocation : RuntimeInvocation) (key : Text) : Option Value :=
  (invocation.metadata.find? fun entry => entry.1 = key).map Prod.snd

def routeError (category : ErrorCategory) (message : String) : DatabaseError :=
  { DatabaseError.new category .validate none message with remoteEffect := .none, retry := .never }

def protocol (message : String) : DatabaseError := routeError .protocol message

def unsupported (message : String) : DatabaseError := routeError .unsupported message

def internal (message : String) : DatabaseError := .new .internal .validate none message

namespace RuntimeInvocation

def get (invocation : RuntimeInvocation) (key : Text) : Option Text :=
  match invocation.lookup key with
  | some (.string text) => some text
  | _ => none

def optional (invocation : RuntimeInvocation) (key : Text) (grammar : Text → Bool) :
    Result (Option Text) :=
  match invocation.lookup key with
  | none => .ok none
  | some (.string text) =>
    if grammar text then .ok (some text)
    else .error (protocol "metadato runtime facoltativo malformato")
  | some (.other _) => .error (protocol "metadato runtime facoltativo malformato")

def required (invocation : RuntimeInvocation) (key : Text) (grammar : Text → Bool) :
    Result Text :=
  match (invocation.get key).filter grammar with
  | some text => .ok text
  | none => .error (protocol "metadato runtime obbligatorio assente o malformato")

end RuntimeInvocation

/-! ## Recognisers -/

def isAsciiLowercase (c : Char) : Bool := 'a' ≤ c && c ≤ 'z'

def isAsciiDigit (c : Char) : Bool := '0' ≤ c && c ≤ '9'

def isAsciiAlphanumeric (c : Char) : Bool :=
  isAsciiLowercase c || ('A' ≤ c && c ≤ 'Z') || isAsciiDigit c

def canonicalVersion (value : Text) : Bool :=
  value ≠ [] && (utf8 value).all Utf8.isAsciiDigit && value.head? ≠ some '0'

def identifierSegment : Text → Bool
  | [] => false
  | first :: rest => isAsciiLowercase first &&
    rest.all fun next => isAsciiLowercase next || isAsciiDigit next || next = '_' || next = '-'

def wellFormedOperation (value : Text) : Bool :=
  match value.splitOn '.' with
  | [] => false
  | first :: rest => identifierSegment first && rest.all identifierSegment && 0 < rest.length

/-- A character of a name with hyphens. -/
def isNameCharacter (c : Char) : Bool := isAsciiLowercase c || isAsciiDigit c || c = '-'

def wellFormedCapabilityName (value : Text) : Bool :=
  ((stripPrefix "plenora.".toList value).bind (stripSuffix "-tools".toList)).any fun middle =>
    middle.head?.any isAsciiLowercase && middle.tail.all isNameCharacter

def wellFormedContract (value : Text) : Bool :=
  ((stripPrefix "plenora-".toList value).bind (rsplitOnce "-v".toList)).any fun parts =>
    parts.1 ≠ [] && parts.1.all isNameCharacter && canonicalVersion parts.2

def token (part : Text) : Bool :=
  part ≠ [] && part.all fun next =>
    isAsciiAlphanumeric next || "!#$&^_.+-".toList.contains next

def wellFormedMediaType (value : Text) : Bool :=
  (splitOnce '/' value).any fun parts => token parts.1 && token parts.2

/-- A byte of an identity, by its place. -/
def uuidByte (index : Nat) (byte : UInt8) : Bool :=
  if index ∈ [8, 13, 18, 23] then byte = ascii '-'
  else Utf8.isAsciiDigit byte || (ascii 'a' ≤ byte && byte ≤ ascii 'f')

def canonicalUuid (value : Text) : Bool :=
  (utf8 value).length = 36 && (utf8 value).zipIdx.all fun entry => uuidByte entry.2 entry.1

def maxIdempotencyKeyBytes : Nat := 256

def boundedKey (value : Text) : Bool :=
  value ≠ [] && (utf8 value).length ≤ maxIdempotencyKeyBytes

/-! ## Deadlines -/

section Deadlines

-- `chrono::DateTime::parse_from_rfc3339`
variable (parse : Text → Option Parsed)

def utcDeadline (text : Text) : Bool :=
  ((utf8 text)[10]? = some (ascii 'T') || (utf8 text)[10]? = some (ascii 't')) &&
    ! "-00:00".toList.isSuffixOf text && (parse text).any fun value => value.offset = 0

def deadlineExpired : DatabaseError :=
  routeError .timeout "deadline gia trascorsa prima dell'esecuzione"

/-- A year, in nanoseconds. -/
def maxDeadlineHorizon : Nat := 365 * 24 * 3600 * 10 ^ 9

/-- `SystemTime::checked_add` from the epoch on: the nanoseconds, while the seconds are an `i64`. -/
def sinceEpoch (seconds nanos : Nat) : Option Nat :=
  if seconds + nanos / 10 ^ 9 < 2 ^ 63 then some (seconds * 10 ^ 9 + nanos) else none

/-- The wall clock `now` is in nanoseconds since the epoch; `monotonic` adds to the clock of the
process. -/
def deadlineInstant (now : Nat) (monotonic : Nat → Option Nat) (text : Text) : Result Nat :=
  match parse text with
  | none => .error (protocol "plenora.execution.deadline non e un istante RFC 3339")
  | some parsed =>
    if parsed.timestamp < 0 then .error deadlineExpired
    else
      match sinceEpoch parsed.timestamp.toNat parsed.nanos with
      | none => .error (protocol "deadline fuori intervallo")
      | some deadline =>
        if deadline ≤ now then .error deadlineExpired
        else
          match monotonic (min (deadline - now) maxDeadlineHorizon) with
          | some instant => .ok instant
          | none => .error (internal "orologio monotono fuori intervallo")

/-! ## Admission -/

structure RuntimeRequest where
  messageId : Text
  causationId : Option Text
  correlationId : Text
  operation : Text
  operationVersion : Nat

structure Admitted where
  operation : PublicOperation
  request : RuntimeRequest
  deadline : Option Nat

/-- The values of the reserved keys, once they are well formed. -/
structure Reserved where
  messageId : Text
  correlationId : Text
  causation : Option Text
  capabilityName : Text
  capabilityVersion : Text
  requested : Text
  version : Text
  contract : Text
  deadline : Option Text
  idempotencyKey : Option Text

/-- The first part of `admitInvocation`: the grammar. -/
def grammar (invocation : RuntimeInvocation) : Result Reserved := do
  let message ← invocation.required messageId canonicalUuid
  let correlation ← invocation.required correlationId canonicalUuid
  let causation ← invocation.optional causationId canonicalUuid
  let name ← invocation.required capabilityNameKey wellFormedCapabilityName
  let wire ← invocation.required capabilityVersion canonicalVersion
  let requested ← invocation.required operationKey wellFormedOperation
  let version ← invocation.required operationVersion canonicalVersion
  let contract ← invocation.required inputContract wellFormedContract
  let deadline ← invocation.optional deadlineKey (utcDeadline parse)
  let key ← invocation.optional idempotencyKey boundedKey
  if wellFormedMediaType invocation.contentType then
    .ok ⟨message, correlation, causation, name, wire, requested, version, contract, deadline, key⟩
  else .error (protocol "content type malformato")

def versionText (version : Nat) : Text := Nat.toDigits 10 version

/-- The second part: what is announced. -/
def correspondence (contentType : Text) (r : Reserved) : Result PublicOperation :=
  if r.capabilityName ≠ capabilityName ∨ r.capabilityVersion ≠ versionText runtimeBindingVersion then
    .error (unsupported "capability runtime non servita da questo binding")
  else
    match runtimeCapabilities.find? fun operation =>
      operation.id = r.requested && versionText operation.version = r.version with
    | none => .error (unsupported "operazione o versione runtime non annunciata")
    | some operation =>
      if r.contract ≠ operation.input.contract then
        .error (unsupported "contratto d'ingresso diverso da quello dell'operazione")
      else if contentType ≠ jsonContentType then
        .error (unsupported "content type non accettato dal binding per l'operazione")
      else if r.idempotencyKey.isSome ∧ ¬ operation.controls.idempotencyKey then
        .error (unsupported "l'operazione non accetta chiavi di idempotenza")
      else if r.deadline.isSome ∧ ¬ operation.controls.deadline then
        .error (unsupported "l'operazione non accetta una deadline")
      else .ok operation

/-- The third part: the deadline. -/
def remaining (now : Nat) (monotonic : Nat → Option Nat) : Option Text → Result (Option Nat)
  | none => .ok none
  | some text => (deadlineInstant parse now monotonic text).map some

def admitInvocation (now : Nat) (monotonic : Nat → Option Nat) (invocation : RuntimeInvocation) :
    Result Admitted := do
  let r ← grammar parse invocation
  let operation ← correspondence invocation.contentType r
  let deadline ← remaining parse now monotonic r.deadline
  .ok
    { operation
      request := ⟨r.messageId, r.causation, r.correlationId, operation.id, operation.version⟩
      deadline }

end Deadlines

/-! ## The identity of the result -/

structure RuntimeResultMetadata where
  messageId : Text
  causationId : Option Text
  operation : Option Text
  operationVersion : Option Text
  outputContract : Text
  correlationId : Option Text

/-- A value that passes its test, as it is. -/
def canonical (invocation : RuntimeInvocation) (key : Text) (test : Text → Bool) : Option Text :=
  (invocation.get key).filter test

/-- `derived` is the identity derived from the bytes of the invocation. -/
def resultIdentity (derived : RuntimeInvocation → Text) (invocation : RuntimeInvocation) :
    RuntimeResultMetadata where
  messageId := derived invocation
  causationId := canonical invocation messageId canonicalUuid
  operation := canonical invocation operationKey wellFormedOperation
  operationVersion := canonical invocation operationVersion canonicalVersion
  outputContract := errorContract
  correlationId := canonical invocation correlationId canonicalUuid

end Plenora.Engine.RuntimeBinding
