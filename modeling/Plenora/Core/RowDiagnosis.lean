import Plenora.Core.RowDiagnostics

/-!
# The run of a row-scoped diagnosis

What `diagnose_row_scoped_write` asks of its writer and what it answers, for any writer
and any tracker.  The calls are recorded as they are made:

    tracker.Made →
      (Truthful tracker (run writer tracker s).1 (run writer tracker s).2 ↔
        PublishableWhenLost writer tracker s)                                  (truthful_iff)
-/

namespace Plenora.Core.RowDiagnostics

open Plenora.Lib Plenora.Lib.Call

/-! ## Trackers -/

/-- The trackers that `new` and `stage_rows` make. -/
inductive Tracker.Made : Tracker → Prop where
  | new {inputTotal : Nat} {policy : Policy} {tracker : Tracker} (hword : inputTotal < 2 ^ 64)
    (h : Tracker.new inputTotal policy = .ok tracker) : Made tracker
  | stage {tracker staged : Tracker} {rows : Nat} (made : Made tracker)
    (h : tracker.stageRows rows = .ok staged) : Made staged

structure Tracker.Sound (tracker : Tracker) : Prop where
  positive : 0 < tracker.inputTotal
  word : tracker.inputTotal < 2 ^ 64
  staged : tracker.stagedRows ≤ tracker.inputTotal
  limit : tracker.policy.examplesLimit ≠ 0
  key : validateOptionalField tracker.policy.keyField "chiave" = .ok ()

theorem Tracker.Made.sound {tracker : Tracker} (h : tracker.Made) : tracker.Sound := by
  induction h with
  | new hword h =>
    unfold Tracker.new at h
    simp only [bind_eq_ok, failIf_eq_ok] at h
    obtain ⟨-, hpositive, -, hlimit, ⟨⟩, hkey, -, -, htracker⟩ := h
    cases htracker
    exact ⟨Nat.pos_of_ne_zero hpositive, hword, Nat.zero_le _, hlimit, hkey⟩
  | stage made h ih =>
    unfold Tracker.stageRows at h
    simp only [bind_eq_ok, okOr_eq_ok, failIf_eq_ok, checkedAdd_eq_some] at h
    obtain ⟨sum, -, -, hle, hstaged⟩ := h
    cases hstaged
    exact ⟨ih.positive, ih.word, Nat.le_of_not_lt hle, ih.limit, ih.key⟩

/-- One more row of the declared input is staged. -/
theorem Tracker.Sound.stageRows {tracker : Tracker} (h : tracker.Sound)
    (hopen : tracker.stagedRows < tracker.inputTotal) :
    tracker.stageRows 1 = .ok { tracker with stagedRows := tracker.stagedRows + 1 } := by
  have hword : tracker.stagedRows + 1 < 2 ^ 64 := by
    have := h.word
    omega
  have hadd : checkedAdd 64 tracker.stagedRows 1 = some (tracker.stagedRows + 1) :=
    checkedAdd_eq_some.2 ⟨hword, rfl⟩
  unfold Tracker.stageRows
  rw [hadd, okOr_some, ok_bind, failIf_neg (by omega), ok_bind]

/-! ## The report of a rejection -/

/-- A rejection that the contract of the report admits. -/
structure Publishable (rejection : RowRejection) : Prop where
  cause : isContractIdentifier rejection.cause = true
  column : validateOptionalField rejection.column "colonna" = .ok ()

/-- An error of a validation says that there was no remote effect. -/
def Local {α : Type} (x : Result α) : Prop := ∀ e, x = .error e → e.remoteEffect = .none

theorem local_ok {α : Type} (a : α) : Local (.ok a : Result α) := by
  intro e he
  cases he

theorem local_error {α : Type} (message : String) : Local (.error (invalid message) : Result α) := by
  rintro e ⟨⟩
  rfl

theorem local_failIf {c : Prop} [Decidable c] (message : String) :
    Local (failIf c (invalid message)) := by
  intro e he
  obtain ⟨-, rfl⟩ := failIf_eq_error.1 he
  rfl

theorem local_okOr {α : Type} (o : Option α) (message : String) :
    Local (okOr o (invalid message)) := by
  cases o with
  | none => exact local_error message
  | some a => exact local_ok a

theorem Local.bind {α β : Type} {x : Result α} {f : α → Result β} (hx : Local x)
    (hf : ∀ a, Local (f a)) : Local (x >>= f) := by
  intro e he
  rcases bind_eq_error.1 he with hfirst | ⟨a, -, hrest⟩
  · exact hx e hfirst
  · exact hf a e hrest

theorem local_validateOptionalField (value : Option String) (what : String) :
    Local (validateOptionalField value what) := local_failIf _

theorem local_validateKey (key : Option RowKey) : Local (validateKey key) := by
  cases key with
  | none => exact local_ok ()
  | some key =>
    refine Local.bind (local_validateOptionalField _ _) fun _ => ?_
    split
    · exact local_failIf _
    · exact local_error _
    · exact local_ok ()
    · exact local_error _

namespace Report

variable (report : Report)

theorem local_validateCompleteness : Local report.validateCompleteness := by
  unfold validateCompleteness
  split
  · refine Local.bind (local_failIf _) fun _ => Local.bind (local_failIf _) fun _ => ?_
    exact local_failIf _
  · refine Local.bind (local_failIf _) fun _ => Local.bind (local_failIf _) fun _ => ?_
    exact Local.bind (local_failIf _) fun _ => local_failIf _

theorem local_countRows (counts : List (String × Nat)) (sum : Nat) :
    Local (countRows sum counts) := by
  induction counts generalizing sum with
  | nil => exact local_ok sum
  | cons entry counts ih =>
    rw [countRows]
    refine Local.bind (local_failIf _) fun _ => Local.bind (local_failIf _) fun _ => ?_
    exact Local.bind (local_okOr _ _) ih

theorem local_validateCounts : Local report.validateCounts := by
  unfold validateCounts
  exact Local.bind (local_countRows _ _) fun _ => local_failIf _

theorem local_validateExample (seen : List Nat) (row : RowExample) :
    Local (report.validateExample seen row) := by
  unfold validateExample
  refine Local.bind (local_failIf _) fun _ => Local.bind (local_failIf _) fun _ => ?_
  refine Local.bind (local_validateOptionalField _ _) fun _ => ?_
  refine Local.bind (local_validateKey _) fun _ => ?_
  split
  · exact local_ok ()
  · exact local_ok ()
  · exact local_error _
  · exact local_error _

theorem local_validateEach (rows : List RowExample) (seen : List Nat) :
    Local (report.validateEach seen rows) := by
  induction rows generalizing seen with
  | nil => exact local_ok ()
  | cons row rows ih => exact Local.bind (report.local_validateExample seen row) fun _ => ih _

theorem local_validateExamples : Local report.validateExamples := by
  unfold validateExamples
  refine Local.bind (local_failIf _) fun _ => Local.bind (local_failIf _) fun _ => ?_
  refine Local.bind (local_failIf _) fun _ => Local.bind (local_failIf _) fun _ => ?_
  exact Local.bind (report.local_validateEach _ _) fun _ => local_failIf _

theorem local_partitionSums (states : DiagnosticStateCounts) (partition : WriteOutcomePartition)
    (slots : List WriteState) (sums : Nat × Nat) :
    Local (report.partitionSums states partition sums slots) := by
  induction slots generalizing sums with
  | nil => exact local_ok sums
  | cons state slots ih =>
    rw [partitionSums]
    split
    · refine Local.bind (local_failIf _) fun _ => Local.bind (local_okOr _ _) fun _ => ?_
      exact Local.bind (local_ok _) fun _ => Local.bind (local_failIf _) fun _ => ih _
    · refine Local.bind (local_okOr _ _) fun _ => Local.bind (local_ok _) fun _ => ?_
      exact Local.bind (local_failIf _) fun _ => ih _

theorem local_validatePartition (inputTotal : Nat) (states : DiagnosticStateCounts)
    (partition : WriteOutcomePartition) :
    Local (report.validatePartition inputTotal states partition) := by
  unfold validatePartition
  refine Local.bind (local_failIf _) fun _ => Local.bind (local_failIf _) fun _ => ?_
  refine Local.bind (local_failIf _) fun _ => ?_
  refine Local.bind (report.local_partitionSums states partition writeStates _) fun _ => ?_
  refine Local.bind (local_failIf _) fun _ => Local.bind (local_failIf _) fun _ => ?_
  exact local_failIf _

theorem local_validateWritePartition : Local report.validateWritePartition := by
  unfold validateWritePartition
  split
  · exact local_failIf _
  · refine Local.bind (local_okOr _ _) fun inputTotal => Local.bind (local_okOr _ _) fun states => ?_
    exact Local.bind (local_okOr _ _) fun partition => report.local_validatePartition _ _ _

theorem local_validate : Local report.validate := by
  unfold validate
  refine Local.bind (local_failIf _) fun _ => Local.bind (local_failIf _) fun _ => ?_
  refine Local.bind report.local_validateCompleteness fun _ => ?_
  refine Local.bind report.local_validateCounts fun _ => ?_
  exact Local.bind report.local_validateExamples fun _ => report.local_validateWritePartition

end Report

theorem Tracker.local_rejectRow (tracker : Tracker) (rejected : RejectedRow)
    (rollback : RollbackEvidence) : Local (tracker.rejectRow rejected rollback) := by
  unfold rejectRow
  refine Local.bind (local_failIf _) fun _ => Local.bind (local_failIf _) fun _ => ?_
  refine Local.bind (local_failIf _) fun _ => ?_
  exact Local.bind (Report.local_validate _) fun _ => local_ok _

/-- The report that `reject_row` builds. -/
def Tracker.report (tracker : Tracker) (rejection : RowRejection) (rollback : RollbackEvidence) :
    Report :=
  { contract := contractName
    scope := .write
    indexBasis := indexBasisName
    completeness := .complete
    knowledgeLimits := []
    observedTotal := 1
    total := some 1
    inputTotal := some tracker.inputTotal
    counts := [(rejection.cause, 1)]
    examplesLimit := tracker.policy.examplesLimit
    examplesTruncated := false
    examples := [⟨tracker.stagedRows, rejection.cause, rejection.column,
      tracker.policy.keyField.map RowKey.redacted, some .certainlyRejected⟩]
    diagnosticStateCounts := some ⟨1, 0, 0, 0⟩
    writeOutcome := some
      { certainlyRejected := .known 1
        certainlyNotAttempted := .known (tracker.inputTotal - tracker.stagedRows - 1)
        certainlyRolledBack := match rollback with
          | .confirmed => .known tracker.stagedRows
          | .lost => .unknown
        effectUnknown := match rollback with
          | .confirmed => .known 0
          | .lost => .unknown } }

/-- The rejection of the next row, as the diagnosis hands it over. -/
def Tracker.reject (tracker : Tracker) (rejection : RowRejection) (rollback : RollbackEvidence) :
    Result Report :=
  tracker.rejectRow ⟨tracker.stagedRows, rejection.cause, rejection.column⟩ rollback

section Reject

variable {tracker : Tracker} {rejection : RowRejection} {rollback : RollbackEvidence}

theorem reject_eq_ok {report : Report} (h : tracker.reject rejection rollback = .ok report) :
    report = tracker.report rejection rollback ∧ report.validate = .ok () ∧
      isContractIdentifier rejection.cause = true := by
  have hvalid := Tracker.validate_rejectRow h
  unfold Tracker.reject Tracker.rejectRow at h
  simp only [bind_eq_ok, failIf_eq_ok] at h
  obtain ⟨-, -, -, hcause, -, -, ⟨⟩, -, hreport⟩ := h
  cases hreport
  exact ⟨rfl, hvalid, by simpa using hcause⟩

theorem publishable_of_reject {report : Report}
    (h : tracker.reject rejection rollback = .ok report) : Publishable rejection := by
  obtain ⟨rfl, hvalid, hcause⟩ := reject_eq_ok h
  refine ⟨hcause, ?_⟩
  unfold Report.validate Report.validateExamples at hvalid
  simp only [bind_eq_ok] at hvalid
  obtain ⟨-, -, -, -, -, -, -, -, -, ⟨-, -, -, -, -, -, -, -, ⟨⟩, heach, -⟩, -⟩ := hvalid
  obtain ⟨⟨⟩, hexample, -⟩ := bind_eq_ok.1 heach
  unfold Report.validateExample at hexample
  simp only [bind_eq_ok] at hexample
  obtain ⟨-, -, -, -, ⟨⟩, hcolumn, -⟩ := hexample
  exact hcolumn

theorem validateCounts_report (h : isContractIdentifier rejection.cause = true) :
    (tracker.report rejection rollback).validateCounts = .ok () := by
  have hcount : Report.countRows 0 [(rejection.cause, 1)] = .ok 1 := by
    rw [Report.countRows, failIf_neg (by rw [h]; decide), ok_bind, failIf_neg (by decide), ok_bind]
    rfl
  unfold Report.validateCounts
  show (Report.countRows 0 [(rejection.cause, 1)] >>= _) = _
  rw [hcount, ok_bind]
  exact failIf_neg (fun h => h rfl)

theorem validateExamples_report (hsound : tracker.Sound)
    (h : validateOptionalField rejection.column "colonna" = .ok ()) :
    (tracker.report rejection rollback).validateExamples = .ok () := by
  have hlimit := hsound.limit
  have hkey : validateKey (tracker.policy.keyField.map RowKey.redacted) = .ok () := by
    cases hfield : tracker.policy.keyField with
    | none => rfl
    | some field =>
      have hvalid := hsound.key
      rw [hfield] at hvalid
      show (validateOptionalField (some field) "chiave" >>= _) = _
      rw [hvalid]
      rfl
  have hcount : (tracker.report rejection rollback).countOf rejection.cause = some 1 := by
    simp [Report.countOf, Tracker.report]
  have heach : (tracker.report rejection rollback).validateEach []
      (tracker.report rejection rollback).examples = .ok () := by
    show ((tracker.report rejection rollback).validateExample [] ⟨tracker.stagedRows,
      rejection.cause, rejection.column, tracker.policy.keyField.map RowKey.redacted,
      some .certainlyRejected⟩ >>= _) = _
    unfold Report.validateExample
    dsimp only
    rw [failIf_neg List.not_mem_nil, ok_bind, hcount, failIf_neg (by simp), ok_bind, h, ok_bind,
      hkey, ok_bind]
    rfl
  have hshort : ¬ (tracker.policy.examplesLimit < 1 ∨ 1 < 1) := by omega
  have hall : ¬ (Completeness.complete = .complete ∧ 1 ≠ min 1 tracker.policy.examplesLimit) := by
    rintro ⟨-, hne⟩
    omega
  have hcause : ¬ ((tracker.report rejection rollback).examples.any fun row =>
      ((tracker.report rejection rollback).countOf row.cause).all
        (· < ((tracker.report rejection rollback).examples.filter
          (·.cause = row.cause)).length)) := by
    simp [Tracker.report, Report.countOf]
  refine bind_eq_ok.2 ⟨(), failIf_neg hlimit, bind_eq_ok.2 ⟨(), failIf_neg hshort, ?_⟩⟩
  refine bind_eq_ok.2 ⟨(), failIf_neg hall, bind_eq_ok.2 ⟨(), failIf_neg (fun h => h rfl), ?_⟩⟩
  exact bind_eq_ok.2 ⟨(), heach, failIf_neg hcause⟩

/-- The examples of a report in a state. -/
def Report.examplesIn (report : Report) (state : WriteState) : Nat :=
  (report.examples.filter (·.writeState = some state)).length

section PartitionSums

variable {report : Report} {states : DiagnosticStateCounts} {partition : WriteOutcomePartition}
  {state : WriteState} {rest : List WriteState} {known unknown : Nat}

theorem partitionSums_known {value sum : Nat} (h : partition.get state = .known value)
    (hle : ¬ value < states.get state) (hadd : checkedAdd 64 known value = some sum)
    (hexamples : ¬ states.get state < report.examplesIn state) :
    report.partitionSums states partition (known, unknown) (state :: rest) =
      report.partitionSums states partition (sum, unknown) rest := by
  rw [Report.partitionSums, h]
  dsimp only
  rw [failIf_neg hle, ok_bind, hadd, okOr_some, ok_bind, ok_bind]
  unfold Report.examplesIn at hexamples
  rw [failIf_neg hexamples, ok_bind]

theorem partitionSums_unknown {sum : Nat} (h : partition.get state = .unknown)
    (hadd : checkedAdd 64 unknown (states.get state) = some sum)
    (hexamples : ¬ states.get state < report.examplesIn state) :
    report.partitionSums states partition (known, unknown) (state :: rest) =
      report.partitionSums states partition (known, sum) rest := by
  rw [Report.partitionSums, h]
  dsimp only
  rw [hadd, okOr_some, ok_bind, ok_bind]
  unfold Report.examplesIn at hexamples
  rw [failIf_neg hexamples, ok_bind]

end PartitionSums

theorem validateWritePartition_report (hsound : tracker.Sound)
    (hopen : tracker.stagedRows < tracker.inputTotal) :
    (tracker.report rejection rollback).validateWritePartition = .ok () := by
  have hword := hsound.word
  have hpositive := hsound.positive
  have hrest : checkedAdd 64 1 (tracker.inputTotal - tracker.stagedRows - 1) =
      some (tracker.inputTotal - tracker.stagedRows) :=
    checkedAdd_eq_some.2 ⟨by omega, by omega⟩
  have hall : checkedAdd 64 (tracker.inputTotal - tracker.stagedRows) tracker.stagedRows =
      some tracker.inputTotal :=
    checkedAdd_eq_some.2 ⟨by omega, by omega⟩
  have hsame : checkedAdd 64 tracker.inputTotal 0 = some tracker.inputTotal :=
    checkedAdd_eq_some.2 ⟨hword, rfl⟩
  have hshort : checkedAdd 64 (tracker.inputTotal - tracker.stagedRows) 0 =
      some (tracker.inputTotal - tracker.stagedRows) := checkedAdd_eq_some.2 ⟨by omega, rfl⟩
  refine bind_eq_ok.2 ⟨tracker.inputTotal, rfl, bind_eq_ok.2 ⟨_, rfl, bind_eq_ok.2 ⟨_, rfl, ?_⟩⟩⟩
  have hexamples : ∀ state, ¬ ByState.get (⟨1, 0, 0, 0⟩ : DiagnosticStateCounts) state <
      (tracker.report rejection rollback).examplesIn state := by
    intro state
    cases state <;> simp [Report.examplesIn, Tracker.report, ByState.get]
  have hentry : ¬ (tracker.inputTotal = 0 ∨ tracker.inputTotal < 1) := by omega
  refine bind_eq_ok.2 ⟨(), failIf_neg hentry, bind_eq_ok.2 ⟨(), failIf_neg (fun h => h rfl), ?_⟩⟩
  refine bind_eq_ok.2 ⟨(), failIf_neg (by simp [Tracker.report]), ?_⟩
  cases rollback with
  | confirmed =>
    refine bind_eq_ok.2 ⟨(tracker.inputTotal, 0), ?_, ?_⟩
    · unfold writeStates
      rw [partitionSums_known rfl (by decide) (rfl : checkedAdd 64 0 1 = some 1) (hexamples _)]
      rw [partitionSums_known rfl (Nat.not_lt_zero _) hrest (hexamples _)]
      rw [partitionSums_known rfl (Nat.not_lt_zero _) hall (hexamples _)]
      rw [partitionSums_known rfl (Nat.not_lt_zero _) hsame (hexamples _)]
      rfl
    · have hfits : ¬ ((checkedAdd 64 tracker.inputTotal 0).all (tracker.inputTotal < ·)) := by
        rw [hsame]
        simp
      refine bind_eq_ok.2 ⟨(), failIf_neg (Nat.lt_irrefl _), bind_eq_ok.2 ⟨(), failIf_neg hfits, ?_⟩⟩
      exact failIf_neg (fun h => h.2 rfl)
  | lost =>
    refine bind_eq_ok.2 ⟨(tracker.inputTotal - tracker.stagedRows, 0), ?_, ?_⟩
    · unfold writeStates
      rw [partitionSums_known rfl (by decide) (rfl : checkedAdd 64 0 1 = some 1) (hexamples _)]
      rw [partitionSums_known rfl (Nat.not_lt_zero _) hrest (hexamples _)]
      rw [partitionSums_unknown rfl (rfl : checkedAdd 64 0 0 = some 0) (hexamples _)]
      rw [partitionSums_unknown rfl (rfl : checkedAdd 64 0 0 = some 0) (hexamples _)]
      rfl
    · have hfits : ¬ ((checkedAdd 64 (tracker.inputTotal - tracker.stagedRows) 0).all
          (tracker.inputTotal < ·)) := by
        rw [hshort]
        simp
      have hle : ¬ tracker.inputTotal < tracker.inputTotal - tracker.stagedRows := by omega
      refine bind_eq_ok.2 ⟨(), failIf_neg hle, bind_eq_ok.2 ⟨(), failIf_neg hfits, ?_⟩⟩
      exact failIf_neg (fun h => h.1 .effectUnknown (by decide) rfl)

/-- **A rejection is published exactly where the contract admits its cause and its column.** -/
theorem reject_of_publishable (hsound : tracker.Sound)
    (hopen : tracker.stagedRows < tracker.inputTotal) (h : Publishable rejection) :
    tracker.reject rejection rollback = .ok (tracker.report rejection rollback) := by
  have hcause : ¬ isContractIdentifier rejection.cause = false := by
    rw [h.cause]
    decide
  have hrow : ¬ tracker.inputTotal < tracker.stagedRows + 1 := by omega
  have hvalid : (tracker.report rejection rollback).validate = .ok () := by
    refine bind_eq_ok.2 ⟨(), failIf_neg (fun h => h rfl), bind_eq_ok.2 ⟨(),
      failIf_neg (fun h => h rfl), bind_eq_ok.2 ⟨(), rfl, ?_⟩⟩⟩
    refine bind_eq_ok.2 ⟨(), validateCounts_report h.cause, bind_eq_ok.2 ⟨(), ?_, ?_⟩⟩
    · exact validateExamples_report hsound h.column
    · exact validateWritePartition_report hsound hopen
  unfold Tracker.reject Tracker.rejectRow
  rw [failIf_neg (fun h => h rfl), ok_bind, failIf_neg hcause, ok_bind, failIf_neg hrow, ok_bind]
  exact bind_eq_ok.2 ⟨(), hvalid, rfl⟩

end Reject

/-! ## The calls -/

/-- A call of the writer, with its answer. -/
inductive WriterCall where
  | applyRow (sourceIndex : Nat) (answer : Result RowApplication)
  | finishDeclaredInput (answer : Result Unit)
  | rollback (evidence : RollbackEvidence)

/-- A call that is recorded behind those made before it. -/
def record {σ α : Type} (call : Call DatabaseError σ α) (entry : Result α → WriterCall) :
    Call DatabaseError (σ × List WriterCall) α :=
  ExceptT.mk fun s =>
    ((call.outcome s.1).1, ((call.outcome s.1).2, s.2 ++ [entry (call.outcome s.1).1]))

/-- A writer whose calls are recorded. -/
def recorded {σ : Type} (writer : RowScopedWriter σ) : RowScopedWriter (σ × List WriterCall) :=
  { applyRow := fun index => record (writer.applyRow index) (.applyRow index)
    finishDeclaredInput := record writer.finishDeclaredInput .finishDeclaredInput
    rollback := fun s =>
      ((writer.rollback s.1).1, ((writer.rollback s.1).2, s.2 ++ [.rollback (writer.rollback s.1).1])) }

/-- The first row that the writer rejects, and the evidence of the rollback that follows. -/
def firstRejected {σ : Type} (writer : RowScopedWriter σ) :
    Nat → Nat → σ → Option (RowRejection × RollbackEvidence)
  | 0, _, _ => none
  | remaining + 1, index, s =>
    match (writer.applyRow index).outcome s with
    | (.ok .applied, s') => firstRejected writer remaining (index + 1) s'
    | (.ok (.rejected rejection), s') => some (rejection, (writer.rollback s').1)
    | (.error _, _) => none

/-- How a diagnosis goes on at a tracker with rows remaining: the calls it makes, its answer, and
the row that is rejected. -/
inductive Diagnosis : Tracker → Nat → List WriterCall → Result (Option RowRejectionOutcome) →
    Option (RowRejection × RollbackEvidence) → Prop where
  | finished {tracker : Tracker} (answer : Result Unit) :
    Diagnosis tracker 0 [.finishDeclaredInput answer] (answer.map fun _ => none) none
  | applied {tracker : Tracker} {remaining : Nat} {calls : List WriterCall}
    {r : Result (Option RowRejectionOutcome)} {first : Option (RowRejection × RollbackEvidence)}
    (rest : Diagnosis { tracker with stagedRows := tracker.stagedRows + 1 } remaining calls r first) :
    Diagnosis tracker (remaining + 1) (.applyRow tracker.stagedRows (.ok .applied) :: calls) r first
  | failed {tracker : Tracker} {remaining : Nat} (e : DatabaseError) :
    Diagnosis tracker (remaining + 1) [.applyRow tracker.stagedRows (.error e)] (.error e) none
  | rejected {tracker : Tracker} {remaining : Nat} (rejection : RowRejection)
    (rollback : RollbackEvidence) :
    Diagnosis tracker (remaining + 1)
      [.applyRow tracker.stagedRows (.ok (.rejected rejection)), .rollback rollback]
      ((tracker.reject rejection rollback).map fun report => some ⟨report, rollback⟩)
      (some (rejection, rollback))

/-- **Every run of the diagnosis is one of these.** -/
theorem diagnosis_diagnoseRows {σ : Type} (writer : RowScopedWriter σ) :
    ∀ (remaining : Nat) (tracker : Tracker) (s : σ) (log : List WriterCall), tracker.Sound →
      tracker.stagedRows + remaining = tracker.inputTotal → ∃ calls,
        (outcome (diagnoseRows (recorded writer) remaining tracker) (s, log)).2.2 = log ++ calls ∧
          Diagnosis tracker remaining calls
            (outcome (diagnoseRows (recorded writer) remaining tracker) (s, log)).1
            (firstRejected writer remaining tracker.stagedRows s) := by
  intro remaining
  induction remaining with
  | zero =>
    intro tracker s log hsound htotal
    refine ⟨[.finishDeclaredInput (writer.finishDeclaredInput.outcome s).1], ?_⟩
    rw [diagnoseRows, outcome_bind]
    have hfinish : outcome (recorded writer).finishDeclaredInput (s, log) =
        ((writer.finishDeclaredInput.outcome s).1, ((writer.finishDeclaredInput.outcome s).2,
          log ++ [.finishDeclaredInput (writer.finishDeclaredInput.outcome s).1])) := rfl
    have hfinished := @Diagnosis.finished tracker (writer.finishDeclaredInput.outcome s).1
    rw [hfinish]
    cases hanswer : (writer.finishDeclaredInput.outcome s).1 with
    | ok _ =>
      rw [hanswer] at hfinished
      exact ⟨rfl, hfinished⟩
    | error e =>
      rw [hanswer] at hfinished
      exact ⟨rfl, hfinished⟩
  | succ remaining ih =>
    intro tracker s log hsound htotal
    have hopen : tracker.stagedRows < tracker.inputTotal := by omega
    have happly : outcome ((recorded writer).applyRow tracker.stagedRows) (s, log) =
        (((writer.applyRow tracker.stagedRows).outcome s).1,
          (((writer.applyRow tracker.stagedRows).outcome s).2,
            log ++ [.applyRow tracker.stagedRows ((writer.applyRow tracker.stagedRows).outcome s).1])) :=
      rfl
    rw [diagnoseRows, outcome_bind, happly, firstRejected]
    rcases (writer.applyRow tracker.stagedRows).outcome s with ⟨e | application, s'⟩
    · exact ⟨_, rfl, .failed e⟩
    · cases application with
      | applied =>
        have hnext : ({ tracker with stagedRows := tracker.stagedRows + 1 } : Tracker).Sound :=
          ⟨hsound.positive, hsound.word, hopen, hsound.limit, hsound.key⟩
        obtain ⟨calls, hcalls, hrest⟩ := ih { tracker with stagedRows := tracker.stagedRows + 1 } s'
          (log ++ [.applyRow tracker.stagedRows (.ok .applied)]) hnext (by dsimp only; omega)
        dsimp only
        rw [outcome_bind, outcome_ofResult, hsound.stageRows hopen]
        refine ⟨.applyRow tracker.stagedRows (.ok .applied) :: calls, ?_, hrest.applied⟩
        dsimp only
        rw [hcalls, List.append_assoc]
        rfl
      | rejected rejection =>
        have hrejected := @Diagnosis.rejected tracker remaining rejection
          (writer.rollback s').1
        dsimp only
        rw [outcome_bind, outcome_exchange]
        dsimp only
        rw [outcome_bind, outcome_ofResult]
        refine ⟨[.applyRow tracker.stagedRows (.ok (.rejected rejection)),
          .rollback (writer.rollback s').1], ?_⟩
        unfold Tracker.reject at hrejected
        dsimp only [recorded]
        cases hreport : tracker.rejectRow ⟨tracker.stagedRows, rejection.cause, rejection.column⟩
          (writer.rollback s').1 with
        | ok report =>
          rw [hreport] at hrejected
          exact ⟨List.append_assoc _ _ _, hrejected⟩
        | error e =>
          rw [hreport] at hrejected
          exact ⟨List.append_assoc _ _ _, hrejected⟩

/-! ## What the calls and the answer come to -/

namespace WriterCall

/-- The row a call applies. -/
def row : WriterCall → Option Nat
  | .applyRow sourceIndex _ => some sourceIndex
  | _ => none

def isApplied : WriterCall → Bool
  | .applyRow _ (.ok .applied) => true
  | _ => false

def isRejection : WriterCall → Bool
  | .applyRow _ (.ok (.rejected _)) => true
  | _ => false

def isRollback : WriterCall → Bool
  | .rollback _ => true
  | _ => false

def isFinish : WriterCall → Bool
  | .finishDeclaredInput _ => true
  | _ => false

end WriterCall

/-- The value of a count that is known. -/
def PartitionCount.value : PartitionCount → Option Nat
  | .known value => some value
  | .unknown => none

/-- The sum of the buckets, where all of them are known. -/
def bucketSum (partition : WriteOutcomePartition) : Option Nat :=
  (writeStates.mapM fun state => (partition.get state).value).map List.sum

/-- An effect that says that nothing was left behind. -/
def Denies (effect : RemoteEffect) : Prop := effect = .none ∨ effect = .rolledBack

/-- No row is applied after one that was not. -/
def Stops (calls : List WriterCall) : Prop :=
  ∀ before call after, calls = before ++ call :: after → call.row.isSome → call.isApplied = false →
    after.filterMap WriterCall.row = []

/-- The rows are applied one after the other from the first that is not staged, up to the first
that is not applied; one rollback follows a rejection, and the end of the input is asked for once
all of it is applied. -/
structure Ordered (tracker : Tracker) (calls : List WriterCall) : Prop where
  consecutive : ∃ n, calls.filterMap WriterCall.row = List.range' tracker.stagedRows n
  stops : Stops calls
  rollback : calls.countP WriterCall.isRollback = if calls.any WriterCall.isRejection then 1 else 0
  finish : calls.countP WriterCall.isFinish =
    if calls.countP WriterCall.isApplied = tracker.inputTotal - tracker.stagedRows then 1 else 0

/-- A report that is returned is valid, is about the row that was rejected, and splits the whole
input where the rollback was confirmed. -/
structure Reported (tracker : Tracker) (calls : List WriterCall) (outcome : RowRejectionOutcome) :
    Prop where
  valid : outcome.diagnostics.validate = .ok ()
  named : ∃ index rejection, .applyRow index (.ok (.rejected rejection)) ∈ calls ∧
    outcome.diagnostics.examples.map (·.sourceIndex) = [index]
  whole : outcome.rollback = .confirmed →
    outcome.diagnostics.writeOutcome.bind bucketSum = some tracker.inputTotal

/-- After a rollback that was not confirmed, nothing says that there is no effect. -/
structure Honest (calls : List WriterCall) (r : Result (Option RowRejectionOutcome)) : Prop where
  error : ∀ e, .rollback .lost ∈ calls → r = .error e → ¬ Denies e.remoteEffect
  value : ∀ outcome, .rollback .lost ∈ calls → r = .ok (some outcome) →
    ¬ Denies outcome.axes.2.1 ∧ ∀ partition, outcome.diagnostics.writeOutcome = some partition →
      partition.certainlyRolledBack = .unknown ∧ partition.effectUnknown = .unknown
  silent : .rollback .lost ∈ calls → r ≠ .ok none

/-- What `diagnose_row_scoped_write` promises of its calls and its answer. -/
structure Truthful (tracker : Tracker) (r : Result (Option RowRejectionOutcome))
    (calls : List WriterCall) : Prop where
  ordered : Ordered tracker calls
  reported : ∀ outcome, r = .ok (some outcome) → Reported tracker calls outcome
  honest : Honest calls r

section Diagnosis

variable {tracker : Tracker} {remaining : Nat} {calls : List WriterCall}
  {r : Result (Option RowRejectionOutcome)} {first : Option (RowRejection × RollbackEvidence)}

theorem stops_nil : Stops [] := by
  intro before call after hcalls
  cases before <;> cases hcalls

theorem Stops.cons {call : WriterCall} (hrest : Stops calls)
    (h : call.isApplied = true ∨ calls.filterMap WriterCall.row = []) : Stops (call :: calls) := by
  intro before call' after hcalls hrow hnot
  cases before with
  | nil =>
    cases hcalls
    rcases h with happlied | hnone
    · rw [happlied] at hnot
      contradiction
    · exact hnone
  | cons first before =>
    cases hcalls
    exact hrest before call' after rfl hrow hnot

theorem Diagnosis.ordered (h : Diagnosis tracker remaining calls r first)
    (htotal : tracker.stagedRows + remaining = tracker.inputTotal) : Ordered tracker calls := by
  induction h with
  | @finished tracker answer =>
    have hnone : tracker.inputTotal - tracker.stagedRows = 0 := by omega
    refine ⟨⟨0, rfl⟩, stops_nil.cons (.inr rfl), rfl, ?_⟩
    rw [hnone]
    rfl
  | @applied tracker remaining calls r first rest ih =>
    have hrest := ih (by dsimp only; omega)
    obtain ⟨n, hrows⟩ := hrest.consecutive
    refine ⟨⟨n + 1, ?_⟩, hrest.stops.cons (.inl rfl), ?_, ?_⟩
    · rw [List.range'_succ]
      exact congrArg (tracker.stagedRows :: ·) hrows
    · rw [List.countP_cons_of_neg Bool.false_ne_true, hrest.rollback]
      rfl
    · have hfinish := hrest.finish
      rw [List.countP_cons_of_neg Bool.false_ne_true, List.countP_cons_of_pos rfl, hfinish]
      dsimp only
      have hiff : List.countP WriterCall.isApplied calls = tracker.inputTotal - (tracker.stagedRows + 1) ↔
          List.countP WriterCall.isApplied calls + 1 = tracker.inputTotal - tracker.stagedRows := by
        omega
      simp only [hiff]
  | @failed tracker remaining e =>
    have hsome : ¬ 0 = tracker.inputTotal - tracker.stagedRows := by omega
    refine ⟨⟨1, rfl⟩, stops_nil.cons (.inr rfl), rfl, ?_⟩
    exact (if_neg hsome).symm
  | @rejected tracker remaining rejection rollback =>
    have hsome : ¬ 0 = tracker.inputTotal - tracker.stagedRows := by omega
    refine ⟨⟨1, rfl⟩, (stops_nil.cons (.inr rfl)).cons (.inr rfl), rfl, ?_⟩
    exact (if_neg hsome).symm

theorem map_reject_eq_ok {rejection : RowRejection} {rollback : RollbackEvidence}
    {outcome : RowRejectionOutcome}
    (h : (tracker.reject rejection rollback).map (fun report =>
      some (⟨report, rollback⟩ : RowRejectionOutcome)) = .ok (some outcome)) :
    outcome = ⟨tracker.report rejection rollback, rollback⟩ ∧
      (tracker.report rejection rollback).validate = .ok () := by
  obtain ⟨report, hreport, heq⟩ := map_eq_ok.1 h
  obtain ⟨rfl, hvalid, -⟩ := reject_eq_ok hreport
  cases heq
  exact ⟨rfl, hvalid⟩

/-- Every bucket of a confirmed rollback is known, and together they are the input. -/
theorem bucketSum_report (rejection : RowRejection)
    (hopen : tracker.stagedRows < tracker.inputTotal) :
    (tracker.report rejection .confirmed).writeOutcome.bind bucketSum =
      some tracker.inputTotal := by
  have hsum : bucketSum ⟨.known 1, .known (tracker.inputTotal - tracker.stagedRows - 1),
      .known tracker.stagedRows, .known 0⟩ = some [1,
        tracker.inputTotal - tracker.stagedRows - 1, tracker.stagedRows, 0].sum := rfl
  refine hsum.trans (congrArg some ?_)
  simp only [List.sum_cons, List.sum_nil]
  omega

theorem Diagnosis.reported (h : Diagnosis tracker remaining calls r first)
    (htotal : tracker.stagedRows + remaining = tracker.inputTotal)
    (outcome : RowRejectionOutcome) (hr : r = .ok (some outcome)) :
    Reported tracker calls outcome := by
  induction h with
  | finished answer => cases answer <;> cases hr
  | @applied tracker remaining calls r first rest ih =>
    obtain ⟨hvalid, ⟨index, rejection, hmem, hnamed⟩, hwhole⟩ := ih (by dsimp only; omega) hr
    exact ⟨hvalid, ⟨index, rejection, List.mem_cons_of_mem _ hmem, hnamed⟩, hwhole⟩
  | failed e => cases hr
  | @rejected tracker remaining rejection rollback =>
    obtain ⟨rfl, hvalid⟩ := map_reject_eq_ok hr
    refine ⟨hvalid, ⟨tracker.stagedRows, rejection, List.mem_cons_self, rfl⟩, ?_⟩
    rintro rfl
    exact bucketSum_report rejection (by omega)

/-- **The answer is honest exactly where a rejection whose rollback was lost can be published.** -/
theorem Diagnosis.honest_iff (h : Diagnosis tracker remaining calls r first)
    (hsound : tracker.Sound) (htotal : tracker.stagedRows + remaining = tracker.inputTotal) :
    Honest calls r ↔ ∀ rejection, first = some (rejection, .lost) → Publishable rejection := by
  induction h with
  | finished answer =>
    have hnot : WriterCall.rollback .lost ∉ [WriterCall.finishDeclaredInput answer] := by simp
    refine ⟨fun _ rejection hfirst => (by cases hfirst), fun _ => ?_⟩
    exact ⟨fun _ hmem => absurd hmem hnot, fun _ hmem => absurd hmem hnot,
      fun hmem => absurd hmem hnot⟩
  | @applied tracker remaining calls r first rest ih =>
    have hnext : ({ tracker with stagedRows := tracker.stagedRows + 1 } : Tracker).Sound :=
      ⟨hsound.positive, hsound.word, by dsimp only; omega, hsound.limit, hsound.key⟩
    refine Iff.trans ?_ (ih hnext (by dsimp only; omega))
    have hmem : WriterCall.rollback .lost ∈
        WriterCall.applyRow tracker.stagedRows (.ok .applied) :: calls ↔
          WriterCall.rollback .lost ∈ calls := by simp
    constructor
    · rintro ⟨herror, hvalue, hsilent⟩
      rw [hmem] at hsilent
      simp only [hmem] at herror hvalue
      exact ⟨herror, hvalue, hsilent⟩
    · rintro ⟨herror, hvalue, hsilent⟩
      rw [← hmem] at hsilent
      simp only [← hmem] at herror hvalue
      exact ⟨herror, hvalue, hsilent⟩
  | @failed tracker remaining e =>
    have hnot : WriterCall.rollback .lost ∉
        [WriterCall.applyRow tracker.stagedRows (.error e)] := by simp
    refine ⟨fun _ rejection hfirst => (by cases hfirst), fun _ => ?_⟩
    exact ⟨fun _ hmem => absurd hmem hnot, fun _ hmem => absurd hmem hnot,
      fun hmem => absurd hmem hnot⟩
  | @rejected tracker remaining rejection rollback =>
    have hopen : tracker.stagedRows < tracker.inputTotal := by omega
    constructor
    · rintro honest rejection' hfirst
      cases hfirst
      cases hreport : tracker.reject rejection .lost with
      | ok report => exact publishable_of_reject hreport
      | error e =>
        have hlocal := Tracker.local_rejectRow _ _ _ e hreport
        refine absurd (.inl hlocal) (honest.error e (by simp) ?_)
        rw [hreport]
        rfl
    · intro hpublish
      have hanswer : WriterCall.rollback .lost ∈ [WriterCall.applyRow tracker.stagedRows
          (.ok (.rejected rejection)), WriterCall.rollback rollback] → rollback = .lost ∧
            tracker.reject rejection rollback = .ok (tracker.report rejection rollback) := by
        intro hmem
        have hlost : rollback = .lost := by
          simpa [eq_comm] using hmem
        subst hlost
        exact ⟨rfl, reject_of_publishable hsound hopen (hpublish rejection rfl)⟩
      refine ⟨fun e hmem hr => ?_, fun outcome hmem hr => ?_, fun hmem hr => ?_⟩
      · rw [(hanswer hmem).2] at hr
        cases hr
      · obtain ⟨rfl, hok⟩ := hanswer hmem
        rw [hok] at hr
        cases hr
        constructor
        · rintro (h | h) <;> cases h
        · rintro partition ⟨⟩
          exact ⟨rfl, rfl⟩
      · rw [(hanswer hmem).2] at hr
        cases hr

end Diagnosis

/-! ## Every writer and every tracker -/

section Run

variable {σ α β : Type}

/-- A call over the recorded state that is another one, seen without the record. -/
def Mirrors (x : Call DatabaseError (σ × List WriterCall) α) (y : Call DatabaseError σ α) : Prop :=
  ∀ s log, (x.outcome (s, log)).1 = (y.outcome s).1 ∧ (x.outcome (s, log)).2.1 = (y.outcome s).2

theorem Mirrors.bind {x : Call DatabaseError (σ × List WriterCall) α} {y : Call DatabaseError σ α}
    {f : α → Call DatabaseError (σ × List WriterCall) β} {g : α → Call DatabaseError σ β}
    (h : Mirrors x y) (hf : ∀ a, Mirrors (f a) (g a)) : Mirrors (x >>= f) (y >>= g) := by
  intro s log
  have hfirst := h s log
  rw [outcome_bind, outcome_bind]
  rcases hx : x.outcome (s, log) with ⟨r, s', log'⟩
  rcases hy : y.outcome s with ⟨r', s''⟩
  rw [hx, hy] at hfirst
  obtain ⟨rfl, rfl⟩ := hfirst
  cases r with
  | ok a => exact hf a s' log'
  | error e => exact ⟨rfl, rfl⟩

theorem mirrors_record (call : Call DatabaseError σ α) (entry : Result α → WriterCall) :
    Mirrors (record call entry) call := fun _ _ => ⟨rfl, rfl⟩

theorem mirrors_ofResult (r : Result α) : Mirrors (ofResult r) (ofResult r : Call DatabaseError σ α) :=
  fun _ _ => ⟨rfl, rfl⟩

theorem mirrors_diagnoseRows (writer : RowScopedWriter σ) (remaining : Nat) (tracker : Tracker) :
    Mirrors (diagnoseRows (recorded writer) remaining tracker)
      (diagnoseRows writer remaining tracker) := by
  induction remaining generalizing tracker with
  | zero =>
    rw [diagnoseRows, diagnoseRows]
    exact (mirrors_record _ _).bind fun _ _ _ => ⟨rfl, rfl⟩
  | succ remaining ih =>
    rw [diagnoseRows, diagnoseRows]
    refine (mirrors_record _ _).bind fun application => ?_
    cases application with
    | applied => exact (mirrors_ofResult _).bind ih
    | rejected rejection =>
      refine Mirrors.bind (fun _ _ => ⟨rfl, rfl⟩) fun rollback => ?_
      exact (mirrors_ofResult _).bind fun report _ _ => ⟨rfl, rfl⟩

/-- The answer of a diagnosis, and the calls it makes of its writer. -/
def run (writer : RowScopedWriter σ) (tracker : Tracker) (s : σ) :
    Result (Option RowRejectionOutcome) × List WriterCall :=
  ((outcome (diagnoseRowScopedWrite writer tracker) s).1,
    (outcome (diagnoseRowScopedWrite (recorded writer) tracker) (s, [])).2.2)

/-- Where the rollback of the first rejection is lost, the rejection can be published. -/
def PublishableWhenLost (writer : RowScopedWriter σ) (tracker : Tracker) (s : σ) : Prop :=
  ∀ rejection, firstRejected writer (tracker.inputTotal - tracker.stagedRows) tracker.stagedRows s =
    some (rejection, .lost) → Publishable rejection

/-- The run of a diagnosis, and where its answer is honest. -/
theorem diagnosis_run (writer : RowScopedWriter σ) {tracker : Tracker} (h : tracker.Sound) (s : σ) :
    Ordered tracker (run writer tracker s).2 ∧
      (∀ outcome, (run writer tracker s).1 = .ok (some outcome) →
        Reported tracker (run writer tracker s).2 outcome) ∧
      (Honest (run writer tracker s).2 (run writer tracker s).1 ↔
        PublishableWhenLost writer tracker s) := by
  have htotal : tracker.stagedRows + (tracker.inputTotal - tracker.stagedRows) =
      tracker.inputTotal := by
    have := h.staged
    omega
  obtain ⟨calls, hcalls, hdiagnosis⟩ := diagnosis_diagnoseRows writer _ tracker s [] h htotal
  have hanswer := (mirrors_diagnoseRows writer (tracker.inputTotal - tracker.stagedRows) tracker
    s []).1
  rw [hanswer] at hdiagnosis
  have hrun : (run writer tracker s).2 = calls := hcalls
  rw [hrun]
  exact ⟨hdiagnosis.ordered htotal, hdiagnosis.reported htotal, hdiagnosis.honest_iff h htotal⟩

/-- **A diagnosis keeps its promises exactly where a rejection whose rollback was lost can be
published.** -/
theorem truthful_iff (writer : RowScopedWriter σ) {tracker : Tracker} (h : tracker.Made) (s : σ) :
    Truthful tracker (run writer tracker s).1 (run writer tracker s).2 ↔
      PublishableWhenLost writer tracker s := by
  obtain ⟨hordered, hreported, hhonest⟩ := diagnosis_run writer h.sound s
  constructor
  · exact fun htruthful => hhonest.1 htruthful.honest
  · exact fun hpublish => ⟨hordered, hreported, hhonest.2 hpublish⟩

end Run

/-- A declared input of one row. -/
def oneRow : Tracker := ⟨1, ⟨none, none, 10⟩, 0⟩

theorem oneRow_made : oneRow.Made := @Tracker.Made.new 1 ⟨none, none, 10⟩ oneRow (by decide) rfl

/-- A writer that rejects every row and loses the acknowledgement of the rollback. -/
def losing (rejection : RowRejection) : RowScopedWriter Unit :=
  { applyRow := fun _ => pure (.rejected rejection)
    finishDeclaredInput := pure ()
    rollback := fun s => (.lost, s) }

theorem constraintViolation_truthful :
    Truthful oneRow (run (losing ⟨causeConstraintViolation, none⟩) oneRow ()).1
      (run (losing ⟨causeConstraintViolation, none⟩) oneRow ()).2 := by
  refine (truthful_iff (losing ⟨causeConstraintViolation, none⟩) oneRow_made ()).2 ?_
  rintro rejection ⟨⟩
  exact ⟨by decide +kernel, rfl⟩

/-- A rejection without a cause, and a lost rollback: the error says that there was no effect. -/
theorem emptyCause_not_truthful :
    ¬ Truthful oneRow (run (losing ⟨"", none⟩) oneRow ()).1 (run (losing ⟨"", none⟩) oneRow ()).2 := by
  intro h
  obtain ⟨-, -, hhonest⟩ := diagnosis_run (losing ⟨"", none⟩) oneRow_made.sound ()
  have hpublish := hhonest.1 h.honest ⟨"", none⟩ rfl
  have hcause : isContractIdentifier "" = false := by decide +kernel
  exact absurd (hcause.symm.trans hpublish.cause) (by decide)

end Plenora.Core.RowDiagnostics
