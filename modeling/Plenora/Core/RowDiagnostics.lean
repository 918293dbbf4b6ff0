import Plenora.Lib.Outcome
import Plenora.Lib.Machine
import Plenora.Lib.Calls
import Plenora.Core.Error

/-!
# Row diagnostics

Which source row a write was refused for, and how the input splits between what
is certain and what is not.  A row-scoped write applies one row a statement, and
closes its diagnosis at the first one refused.

    tracker.rejectRow rejected rollback = .ok report → report.validate = .ok ()    (validate_rejectRow)
-/

namespace Plenora.Core.RowDiagnostics

open Plenora.Lib Plenora.Lib.Call

/-! ## Data model -/

def contractName : String := "plenora-row-diagnostics-v1"
def indexBasisName : String := "source_row_zero_based"
def defaultExamplesLimit : Nat := 10
def causeConstraintViolation : String := "database.constraint_violation"

inductive DiagnosticScope where
  | read | write
  deriving DecidableEq, Repr

inductive Completeness where
  | complete | partialScan | unknown
  deriving DecidableEq, Repr

inductive KeyState where
  | value | redacted | unavailable
  deriving DecidableEq, Repr

inductive KeyValue where
  | text (value : String)
  | integer (value : Int)
  | boolean (value : Bool)
  deriving DecidableEq, Repr

structure RowKey where
  field : String
  state : KeyState
  value : Option KeyValue
  deriving DecidableEq, Repr

def RowKey.redacted (field : String) : RowKey := ⟨field, .redacted, none⟩

inductive WriteState where
  | certainlyRejected | certainlyNotAttempted | certainlyRolledBack | effectUnknown
  deriving DecidableEq, Repr

def writeStates : List WriteState :=
  [.certainlyRejected, .certainlyNotAttempted, .certainlyRolledBack, .effectUnknown]

structure RowExample where
  sourceIndex : Nat
  cause : String
  column : Option String
  key : Option RowKey
  writeState : Option WriteState
  deriving DecidableEq, Repr

/-- A value for each write state. -/
structure ByState (β : Type) where
  certainlyRejected : β
  certainlyNotAttempted : β
  certainlyRolledBack : β
  effectUnknown : β
  deriving DecidableEq, Repr

def ByState.get {β : Type} (values : ByState β) : WriteState → β
  | .certainlyRejected => values.certainlyRejected
  | .certainlyNotAttempted => values.certainlyNotAttempted
  | .certainlyRolledBack => values.certainlyRolledBack
  | .effectUnknown => values.effectUnknown

abbrev DiagnosticStateCounts := ByState Nat

/-- A count that says where it is not known. -/
inductive PartitionCount where
  | known (value : Nat)
  | unknown
  deriving DecidableEq, Repr

abbrev WriteOutcomePartition := ByState PartitionCount

structure Report where
  contract : String
  scope : DiagnosticScope
  indexBasis : String
  completeness : Completeness
  knowledgeLimits : List String
  observedTotal : Nat
  total : Option Nat
  inputTotal : Option Nat
  counts : List (String × Nat)
  examplesLimit : Nat
  examplesTruncated : Bool
  examples : List RowExample
  diagnosticStateCounts : Option DiagnosticStateCounts
  writeOutcome : Option WriteOutcomePartition
  deriving DecidableEq, Repr

def maxExactInteger : Int := 9007199254740991
def maxIdentifierBytes : Nat := 128
def maxFieldChars : Nat := 256
def maxKeyTextChars : Nat := 1024

/-! ## Validation -/

def invalid (message : String) : DatabaseError := .invalidPlan message

/-- The rest of an identifier of the contract: letters and digits, separated one by one. -/
def identifierTail : Bool → List UInt8 → Bool
  | afterSeparator, [] => !afterSeparator
  | afterSeparator, byte :: bytes =>
    if (97 ≤ byte && byte ≤ 122) || (48 ≤ byte && byte ≤ 57) then identifierTail false bytes
    else if (byte = 46 || byte = 95 || byte = 45) && !afterSeparator then identifierTail true bytes
    else false

def isContractIdentifier (value : String) : Bool :=
  match value.toUTF8.toList with
  | [] => false
  | first :: rest =>
    rest.length < maxIdentifierBytes && 97 ≤ first && first ≤ 122 && identifierTail false rest

def validateOptionalField (value : Option String) (what : String) : Result Unit :=
  failIf (value.any fun value => value.length = 0 || maxFieldChars < value.length)
    (invalid (if what = "colonna" then "colonna di un esempio fuori dai limiti del contratto"
      else "campo chiave fuori dai limiti del contratto"))

def representable : KeyValue → Bool
  | .text text => text.length ≤ maxKeyTextChars
  | .integer number => -maxExactInteger ≤ number && number ≤ maxExactInteger
  | .boolean _ => true

def validateKey : Option RowKey → Result Unit
  | none => .ok ()
  | some key => do
    validateOptionalField (some key.field) "chiave"
    match key.state, key.value with
    | .value, some value =>
      failIf (representable value = false) (invalid "valore di chiave fuori dai limiti del contratto")
    | .value, none => .error (invalid "chiave dichiarata in chiaro senza valore")
    | _, none => .ok ()
    | _, some _ => .error (invalid "una chiave redatta o non disponibile non trasporta valore")

namespace Report

def validateCompleteness (report : Report) : Result Unit := do
  match report.completeness with
  | .complete => do
    failIf (report.knowledgeLimits ≠ [])
      (invalid "un documento completo non dichiara limiti di conoscenza")
    failIf (report.total ≠ some report.observedTotal)
      (invalid "un documento completo deve dichiarare total pari a observed_total")
  | completeness => do
    failIf (report.knowledgeLimits = [])
      (invalid "un documento non completo deve dichiarare i limiti di conoscenza")
    failIf (report.knowledgeLimits.any (!isContractIdentifier ·) ∨ ¬ report.knowledgeLimits.Nodup)
      (invalid "limite di conoscenza non valido o ripetuto")
    failIf (completeness = .unknown ∧ report.total.isSome)
      (invalid "un totale non è dichiarabile quando la completezza è ignota")
  failIf (report.total.any fun total => total = 0 || total < report.observedTotal)
    (invalid "total row diagnostics incoerente con observed_total")

/-- The causes, one after the other, with their sum so far. -/
def countRows : Nat → List (String × Nat) → Result Nat
  | sum, [] => .ok sum
  | sum, (cause, count) :: counts => do
    failIf (isContractIdentifier cause = false) (invalid "causa row diagnostics non valida")
    failIf (count = 0) (invalid "una causa osservata non può contare zero righe")
    let sum ← okOr (checkedAdd 64 sum count)
      (invalid "overflow nella somma delle cause osservate")
    countRows sum counts

def validateCounts (report : Report) : Result Unit := do
  let sum ← countRows 0 report.counts
  failIf (sum ≠ report.observedTotal)
    (invalid "la somma delle cause non corrisponde a observed_total")

def countOf (report : Report) (cause : String) : Option Nat :=
  (report.counts.find? fun entry => entry.1 = cause).map (·.2)

def validateExample (report : Report) (seen : List Nat) (row : RowExample) : Result Unit := do
  failIf (row.sourceIndex ∈ seen) (invalid "indice sorgente ripetuto fra gli esempi")
  failIf (report.countOf row.cause = none) (invalid "causa di un esempio assente dai conteggi")
  validateOptionalField row.column "colonna"
  validateKey row.key
  match report.scope, row.writeState with
  | .write, some _ | .read, none => .ok ()
  | .write, none => .error (invalid "un esempio di scrittura deve dichiarare write_state")
  | .read, some _ => .error (invalid "un esempio di lettura non dichiara write_state")

def validateEach (report : Report) : List Nat → List RowExample → Result Unit
  | _, [] => .ok ()
  | seen, row :: rows => do
    report.validateExample seen row
    report.validateEach (row.sourceIndex :: seen) rows

def validateExamples (report : Report) : Result Unit := do
  failIf (report.examplesLimit = 0) (invalid "il limite di esempi deve essere almeno uno")
  let published := report.examples.length
  failIf (report.examplesLimit < published ∨ report.observedTotal < published)
    (invalid "gli esempi superano il limite o le righe osservate")
  failIf (report.completeness = .complete ∧
      published ≠ min report.observedTotal report.examplesLimit)
    (invalid "un documento completo deve pubblicare tutti gli esempi ammessi dal limite")
  failIf (report.examplesTruncated ≠
      (published < report.observedTotal && published = report.examplesLimit))
    (invalid "examples_truncated è vero soltanto quando il limite omette righe osservate")
  report.validateEach [] report.examples
  failIf (report.examples.any fun row =>
      (report.countOf row.cause).all (· < (report.examples.filter (·.cause = row.cause)).length))
    (invalid "gli esempi superano il conteggio della causa")

/-- The known outcomes and the rows diagnosed in the unknown ones, state by state. -/
def partitionSums (report : Report) (states : DiagnosticStateCounts)
    (partition : WriteOutcomePartition) : Nat × Nat → List WriteState → Result (Nat × Nat)
  | sums, [] => .ok sums
  | (knownSum, diagnosedUnknown), state :: rest => do
    let sums ← match partition.get state with
      | .known value => do
        failIf (value < states.get state)
          (invalid "uno stato diagnostico supera il proprio esito certo")
        let knownSum ← okOr (checkedAdd 64 knownSum value)
          (invalid "overflow nella partizione degli esiti certi")
        Except.ok (knownSum, diagnosedUnknown)
      | .unknown => do
        let diagnosedUnknown ← okOr (checkedAdd 64 diagnosedUnknown (states.get state))
          (invalid "overflow nella partizione degli esiti ignoti")
        Except.ok (knownSum, diagnosedUnknown)
    failIf (states.get state < (report.examples.filter (·.writeState = some state)).length)
      (invalid "gli esempi superano il proprio stato diagnostico")
    partitionSums report states partition sums rest

def validatePartition (report : Report) (inputTotal : Nat) (states : DiagnosticStateCounts)
    (partition : WriteOutcomePartition) : Result Unit := do
  failIf (inputTotal = 0 ∨ inputTotal < report.observedTotal)
    (invalid "input_total incoerente con le righe osservate")
  failIf ((writeStates.map states.get).foldlM (checkedAdd 64) 0 ≠ some report.observedTotal)
    (invalid "la somma degli stati diagnostici non corrisponde a observed_total")
  failIf (report.examples.any (·.writeState = none))
    (invalid "un esempio di scrittura deve dichiarare write_state")
  let (knownSum, diagnosedUnknown) ← report.partitionSums states partition (0, 0) writeStates
  failIf (inputTotal < knownSum) (invalid "gli esiti certi superano input_total")
  failIf ((checkedAdd 64 knownSum diagnosedUnknown).all (inputTotal < ·))
    (invalid "esiti certi e righe diagnosticate ignote superano input_total")
  failIf ((∀ state ∈ writeStates, partition.get state ≠ .unknown) ∧ knownSum ≠ inputTotal)
    (invalid "una partizione interamente certa deve coprire input_total")

def validateWritePartition (report : Report) : Result Unit :=
  match report.scope with
  | .read => failIf (report.inputTotal.isSome ∨ report.diagnosticStateCounts.isSome ∨
      report.writeOutcome.isSome) (invalid "un documento di lettura non dichiara campi di scrittura")
  | .write => do
    let inputTotal ← okOr report.inputTotal
      (invalid "un documento di scrittura dichiara input_total")
    let states ← okOr report.diagnosticStateCounts
      (invalid "un documento di scrittura dichiara diagnostic_state_counts")
    let partition ← okOr report.writeOutcome
      (invalid "un documento di scrittura dichiara write_outcome")
    report.validatePartition inputTotal states partition

def validate (report : Report) : Result Unit := do
  failIf (report.contract ≠ contractName) (invalid "contratto row diagnostics diverso da v1")
  failIf (report.indexBasis ≠ indexBasisName)
    (invalid "base di indicizzazione row diagnostics non valida")
  report.validateCompleteness
  report.validateCounts
  report.validateExamples
  report.validateWritePartition

end Report

/-! ## The tracker -/

structure Policy where
  keyField : Option String
  constraintColumn : Option String
  examplesLimit : Nat
  deriving DecidableEq, Repr

inductive RollbackEvidence where
  | confirmed | lost
  deriving DecidableEq, Repr

structure RejectedRow where
  sourceIndex : Nat
  cause : String
  column : Option String
  deriving DecidableEq, Repr

/-- How many source rows the open transaction holds. -/
structure Tracker where
  inputTotal : Nat
  policy : Policy
  stagedRows : Nat
  deriving DecidableEq, Repr

namespace Tracker

def new (inputTotal : Nat) (policy : Policy) : Result Tracker := do
  failIf (inputTotal = 0)
    (invalid "la diagnostica di scrittura richiede un input dichiarato non vuoto")
  failIf (policy.examplesLimit = 0) (invalid "il limite di esempi deve essere almeno uno")
  validateOptionalField policy.keyField "chiave"
  validateOptionalField policy.constraintColumn "colonna"
  .ok ⟨inputTotal, policy, 0⟩

def stageRows (tracker : Tracker) (rows : Nat) : Result Tracker := do
  let staged ← okOr (checkedAdd 64 tracker.stagedRows rows)
    (invalid "overflow nel conteggio delle righe messe in scena")
  failIf (tracker.inputTotal < staged)
    (invalid "le righe messe in scena superano l'input dichiarato")
  .ok { tracker with stagedRows := staged }

theorem new_eq_ok {inputTotal : Nat} {policy : Policy} {tracker : Tracker}
    (h : new inputTotal policy = .ok tracker) : 0 < inputTotal ∧ tracker = ⟨inputTotal, policy, 0⟩ := by
  unfold new at h
  simp only [bind_eq_ok, failIf_eq_ok] at h
  obtain ⟨-, hpositive, -, -, -, -, -, -, htracker⟩ := h
  cases htracker
  exact ⟨Nat.pos_of_ne_zero hpositive, rfl⟩

theorem stagedRows_stageRows {tracker staged : Tracker} {rows : Nat}
    (h : tracker.stageRows rows = .ok staged) : staged.stagedRows = tracker.stagedRows + rows := by
  unfold stageRows at h
  simp only [bind_eq_ok, okOr_eq_ok, failIf_eq_ok, checkedAdd_eq_some] at h
  obtain ⟨sum, ⟨-, rfl⟩, -, -, hstaged⟩ := h
  cases hstaged
  rfl

/-- The report of the first row that was refused. -/
def rejectRow (tracker : Tracker) (rejected : RejectedRow) (rollback : RollbackEvidence) :
    Result Report := do
  failIf (rejected.sourceIndex ≠ tracker.stagedRows)
    (invalid "l'indice rifiutato non è la prima riga non ancora applicata")
  failIf (isContractIdentifier rejected.cause = false)
    (invalid "causa row diagnostics non valida")
  failIf (tracker.inputTotal < tracker.stagedRows + 1)
    (invalid "la riga rifiutata è fuori dall'input dichiarato")
  let report : Report :=
    { contract := contractName
      scope := .write
      indexBasis := indexBasisName
      completeness := .complete
      knowledgeLimits := []
      observedTotal := 1
      total := some 1
      inputTotal := some tracker.inputTotal
      counts := [(rejected.cause, 1)]
      examplesLimit := tracker.policy.examplesLimit
      examplesTruncated := false
      examples := [⟨rejected.sourceIndex, rejected.cause, rejected.column,
        tracker.policy.keyField.map RowKey.redacted, some .certainlyRejected⟩]
      diagnosticStateCounts := some ⟨1, 0, 0, 0⟩
      writeOutcome := some
        { certainlyRejected := .known 1
          certainlyNotAttempted := .known (tracker.inputTotal - tracker.stagedRows - 1)
          certainlyRolledBack := match rollback with
            | .confirmed => .known tracker.stagedRows
            | .lost => .unknown
          effectUnknown := match rollback with
            | .confirmed => .known 0
            | .lost => .unknown } }
  report.validate
  .ok report

theorem validate_rejectRow {tracker : Tracker} {rejected : RejectedRow}
    {rollback : RollbackEvidence} {report : Report}
    (h : tracker.rejectRow rejected rollback = .ok report) : report.validate = .ok () := by
  unfold rejectRow at h
  simp only [bind_eq_ok, failIf_eq_ok] at h
  obtain ⟨-, -, -, -, -, -, ⟨⟩, hvalid, hreport⟩ := h
  cases hreport
  exact hvalid

end Tracker

/-! ## The row-scoped write -/

structure RowRejection where
  cause : String
  column : Option String
  deriving DecidableEq, Repr

inductive RowApplication where
  | applied
  | rejected (rejection : RowRejection)
  deriving DecidableEq, Repr

/-- The seam of the diagnostic path: one source row a statement. -/
structure RowScopedWriter (σ : Type) where
  applyRow : Nat → Call DatabaseError σ RowApplication
  finishDeclaredInput : Call DatabaseError σ Unit
  rollback : σ → RollbackEvidence × σ

structure RowRejectionOutcome where
  diagnostics : Report
  rollback : RollbackEvidence

def RowRejectionOutcome.axes (outcome : RowRejectionOutcome) :
    ErrorPhase × RemoteEffect × RetryDisposition :=
  match outcome.rollback with
  | .confirmed => (.write, .rolledBack, .never)
  | .lost => (.rollback, .unknown, .quarantine)

/-- The error that carries the report. -/
def RowRejectionOutcome.intoError (outcome : RowRejectionOutcome) (provider : Option ProviderKind)
    (executionId : Option String) : Result DatabaseError := do
  outcome.diagnostics.validate
  let (phase, remoteEffect, retry) := outcome.axes
  .ok
    { category := .dataMapping, phase, remoteEffect, retry, provider, executionId
      message := "riga sorgente rifiutata dal database" }

section Diagnose

variable {σ : Type} (writer : RowScopedWriter σ)

/-- The rows still to apply, to the first one refused. -/
def diagnoseRows : Nat → Tracker → Call DatabaseError σ (Option RowRejectionOutcome)
  | 0, _ => do
    writer.finishDeclaredInput
    pure none
  | remaining + 1, tracker => do
    let application ← writer.applyRow tracker.stagedRows
    match application with
    | .applied => do
      let tracker ← ofResult (tracker.stageRows 1)
      diagnoseRows remaining tracker
    | .rejected rejection => do
      let rollback ← Call.exchange writer.rollback
      let diagnostics ← ofResult
        (tracker.rejectRow ⟨tracker.stagedRows, rejection.cause, rejection.column⟩ rollback)
      pure (some ⟨diagnostics, rollback⟩)

/-- `diagnose_row_scoped_write`. -/
def diagnoseRowScopedWrite (tracker : Tracker) :
    Call DatabaseError σ (Option RowRejectionOutcome) :=
  diagnoseRows writer (tracker.inputTotal - tracker.stagedRows) tracker

/-- What a diagnosis comes to: `I` at every row, `F` at the end of an input whose rows are all
applied, and a valid report of a row that was refused. -/
structure Diagnosed (I F : σ → Prop) (r : Result (Option RowRejectionOutcome)) (s : σ) : Prop where
  kept : I s
  applied : r = .ok none → F s
  rejected : ∀ outcome, r = .ok (some outcome) → outcome.diagnostics.validate = .ok ()

theorem meets_reject {I F : σ → Prop} {tracker : Tracker} (rejection : RowRejection)
    (rollback : RollbackEvidence) :
    Meets I (do
      let diagnostics ← ofResult
        (tracker.rejectRow ⟨tracker.stagedRows, rejection.cause, rejection.column⟩ rollback)
      pure (some ⟨diagnostics, rollback⟩)) (Diagnosed I F) := by
  intro s hs
  rw [outcome_bind, outcome_ofResult]
  cases hrejected : tracker.rejectRow _ rollback with
  | error e => exact ⟨hs, fun hr => (by cases hr), fun _ hr => (by cases hr)⟩
  | ok diagnostics =>
    refine ⟨hs, fun hr => (by cases hr), fun outcome hr => ?_⟩
    cases hr
    exact Tracker.validate_rejectRow hrejected

/-- **A diagnosis applies the declared rows one by one, or reports the first one refused.** -/
theorem meets_diagnoseRows {I F : σ → Prop} {At : Nat → σ → Prop} {inputTotal : Nat}
    (happly : ∀ n, Meets (At n) (writer.applyRow n) fun r s =>
      I s ∧ (r = .ok .applied → At (n + 1) s))
    (hfinish : Meets (At inputTotal) writer.finishDeclaredInput fun r s =>
      I s ∧ (r = .ok () → F s))
    (hrollback : ∀ s, I s → I (writer.rollback s).2) :
    ∀ remaining (tracker : Tracker), tracker.stagedRows + remaining = inputTotal →
      Meets (At tracker.stagedRows) (diagnoseRows writer remaining tracker) (Diagnosed I F) := by
  intro remaining
  induction remaining with
  | zero =>
    intro tracker htotal
    cases htotal
    refine hfinish.bind (fun _ s hs => ?_) fun _ _ hs => ?_
    · exact ⟨hs.1, fun _ => hs.2 rfl, fun _ hr => (by cases hr)⟩
    · exact ⟨hs.1, fun hr => (by cases hr), fun _ hr => (by cases hr)⟩
  | succ remaining ih =>
    intro tracker htotal
    refine (happly tracker.stagedRows).bind (fun application => ?_) fun _ _ hs => ?_
    · cases application with
      | applied =>
        intro s hs
        let rest := ofResult (tracker.stageRows 1) >>= diagnoseRows writer remaining
        show Diagnosed I F (outcome rest s).1 (outcome rest s).2
        rw [outcome_bind, outcome_ofResult]
        cases hstaged : tracker.stageRows 1 with
        | error e => exact ⟨hs.1, fun hr => (by cases hr), fun _ hr => (by cases hr)⟩
        | ok staged =>
          have hnext : staged.stagedRows = tracker.stagedRows + 1 :=
            Tracker.stagedRows_stageRows hstaged
          refine ih staged (by omega) s ?_
          rw [hnext]
          exact hs.2 rfl
      | rejected rejection =>
        refine Meets.bind (R := fun _ s => I s) (fun s hs => hrollback s hs.1)
          (fun rollback => meets_reject rejection rollback) ?_
        exact fun _ _ hs => ⟨hs, fun hr => (by cases hr), fun _ hr => (by cases hr)⟩
    · exact ⟨hs.1, fun hr => (by cases hr), fun _ hr => (by cases hr)⟩

end Diagnose

end Plenora.Core.RowDiagnostics
