import Plenora.Core.WriteOutcome

/-!
# The settlement of a write

`settle` turns a write outcome into the success a public surface reports or into an
`UnsettledWrite`, whose public document carries the outcome beside the error.  The document
tells the truth about the retry, unless a partial commit authorizes an automatic one:

    outcome.Truthful ↔ ¬ (outcome.validate = .ok () ∧ outcome.status = .partiallyCommitted ∧
      outcome.recovery.any (·.automaticRetryAllowed))                       (settled_iff)
-/

namespace Plenora.Core

open Plenora.Lib

/-! ## Public errors -/

def publicMessageMaxChars : Nat := 2048
def publicRetryDelayMaxMs : Nat := 86400000

/-- `PublicDatabaseError`, whose details hold row diagnostics only. -/
structure PublicDatabaseError where
  category : ErrorCategory
  phase : ErrorPhase
  remoteEffect : RemoteEffect
  retry : RetryDisposition
  provider : Option ProviderKind
  executionId : Option String
  message : String
  deriving DecidableEq, Repr

def boundedMessage (message : String) : String :=
  let bounded := String.ofList (message.toList.take publicMessageMaxChars)
  if bounded = "" then "errore database" else bounded

def publicRetry : RemoteEffect → RetryDisposition → RetryDisposition
  | .unknown, .safe => .requiresRecovery
  | .unknown, .after _ => .requiresRecovery
  | .unknown, .requiresIdempotencyKey => .requiresRecovery
  | _, .after delay => if publicRetryDelayMaxMs < delay then .never else .after delay
  | _, retry => retry

def DatabaseError.publicProjection (error : DatabaseError) : PublicDatabaseError where
  category := error.category
  phase := error.phase
  remoteEffect := error.remoteEffect
  retry := publicRetry error.remoteEffect error.retry
  provider := error.provider
  executionId := error.executionId
  message := boundedMessage error.message

/-- May a caller try again without asking anyone. -/
def RetryDisposition.permitsRetry : RetryDisposition → Bool
  | .safe | .after _ | .requiresIdempotencyKey => true
  | .never | .quarantine | .requiresRecovery => false

/-! ## Settlement -/

/-- A write that did not end in a certain and complete commit. -/
structure UnsettledWrite where
  error : DatabaseError
  outcome : Option WriteOutcome
  deriving DecidableEq, Repr

/-- A recovery as it is serialized: the cause does not travel. -/
structure PublicRecovery where
  lastCertainPhase : CertainPhase
  automaticRetryAllowed : Bool
  idempotencyKey : Option String
  stagingObject : Option String
  verificationAction : Option String
  deriving DecidableEq, Repr

structure PublicOutcome where
  schemaVersion : Nat
  status : WriteStatus
  executionId : String
  provider : ProviderKind
  rows : RowCounts
  recovery : Option PublicRecovery
  deriving DecidableEq, Repr

/-- The public error with the outcome in `details.write_outcome`. -/
structure PublicDocument where
  error : PublicDatabaseError
  writeOutcome : Option PublicOutcome
  deriving DecidableEq, Repr

def Recovery.toPublic (recovery : Recovery) : PublicRecovery where
  lastCertainPhase := recovery.lastCertainPhase
  automaticRetryAllowed := recovery.automaticRetryAllowed
  idempotencyKey := recovery.idempotencyKey
  stagingObject := recovery.stagingObject
  verificationAction := recovery.verificationAction

def UnsettledWrite.publicDocument (unsettled : UnsettledWrite) : PublicDocument where
  error := unsettled.error.publicProjection
  writeOutcome := unsettled.outcome.map fun outcome =>
    { schemaVersion := outcome.schemaVersion, status := outcome.status
      executionId := outcome.executionId, provider := outcome.provider, rows := outcome.rows
      recovery := outcome.recovery.map Recovery.toPublic }

namespace WriteOutcome

def remoteEffect (outcome : WriteOutcome) : RemoteEffect :=
  match outcome.status with
  | .committed => .committed
  | .rolledBack => .rolledBack
  | .partiallyCommitted => .partialEffect
  | .outcomeUnknown => .unknown

def lastPhase (outcome : WriteOutcome) : ErrorPhase :=
  match outcome.recovery with
  | some recovery =>
    match recovery.lastCertainPhase with
    | .sessionReady => .connect
    | .transactionBegun | .writing => .write
    | .stagingPrepared => .prepare
    | .finalizing => .finalize
    | .commitRequested => .commit
  | none =>
    match outcome.status with
    | .committed | .outcomeUnknown => .commit
    | .rolledBack => .rollback
    | .partiallyCommitted => .write

/-- The error of a document outside its contract. -/
def outOfContract (outcome : WriteOutcome) : UnsettledWrite where
  error :=
    { category := .internal, phase := outcome.lastPhase, remoteEffect := .unknown
      retry := .requiresRecovery, provider := some outcome.provider, executionId := none
      message := "esito di scrittura fuori contratto: verificare lo stato remoto prima di ogni " ++
        "nuovo tentativo" }
  outcome := none

/-- The error that forwards the document. -/
def unsettled (outcome : WriteOutcome) (category : ErrorCategory) (phase : ErrorPhase)
    (retry : RetryDisposition) (message : String) : UnsettledWrite where
  error :=
    { category, phase, remoteEffect := outcome.remoteEffect, retry
      provider := some outcome.provider, executionId := some outcome.executionId, message }
  outcome := some outcome

def settle (outcome : WriteOutcome) : Except UnsettledWrite WriteOutcome :=
  match outcome.validate with
  | .error _ => .error outcome.outOfContract
  | .ok () =>
    match outcome.status with
    | .committed => .ok outcome
    | .outcomeUnknown =>
      .error (outcome.unsettled ((outcome.recovery.bind (·.cause)).getD .internal) .commit
        .requiresRecovery
        ("esito del commit ignoto: verificare lo stato remoto per execution_id prima di ogni " ++
          "nuovo tentativo"))
    | .partiallyCommitted =>
      .error (outcome.unsettled .execution .write .requiresRecovery
        ("scrittura confermata solo in parte: recovery richiesto prima di ogni " ++
          "nuovo tentativo"))
    | .rolledBack =>
      .error (outcome.unsettled .execution .write .never
        "scrittura annullata: nessuna riga confermata")

/-! ## Truth -/

/-- The rows of a status: none is counted twice, the mutated ones are confirmed, and what was
undone or is in doubt confirms none. -/
structure Counted (status : WriteStatus) (rows : RowCounts) : Prop where
  accounted : rows.confirmed + rows.failed + rows.skipped ≤ rows.received
  mutated : (rows.inserted.getD 0) + (rows.updated.getD 0) + (rows.deleted.getD 0) ≤ rows.confirmed
  confirmed : status = .rolledBack ∨ status = .outcomeUnknown → rows.confirmed = 0

/-- Something was left on the server, or may have been. -/
def leavesEffects (effect : RemoteEffect) : Bool := effect ≠ .none ∧ effect ≠ .rolledBack

/-- The outcome is settled as it is. -/
structure Truthful (outcome : WriteOutcome) : Prop where
  settles : ∀ settled, outcome.settle = .ok settled ↔
    settled = outcome ∧ outcome.status = .committed ∧ outcome.validate = .ok ()
  /-- The effect reported is that of the status, or unknown for an invalid document. -/
  effect : ∀ unsettled, outcome.settle = .error unsettled →
    (outcome.validate = .ok () → unsettled.error.remoteEffect = outcome.remoteEffect) ∧
      (outcome.validate ≠ .ok () → unsettled.error.remoteEffect = .unknown)
  /-- Neither the error nor the document permits a retry that could repeat an effect. -/
  retry : ∀ unsettled, outcome.settle = .error unsettled →
    leavesEffects unsettled.publicDocument.error.remoteEffect →
      unsettled.publicDocument.error.retry.permitsRetry = false ∧
        ∀ document ∈ unsettled.publicDocument.writeOutcome,
          ∀ recovery ∈ document.recovery, recovery.automaticRetryAllowed = false
  /-- A settled write has no recovery to permit one. -/
  certain : ∀ settled, outcome.settle = .ok settled → settled.recovery = none
  countsSettled : ∀ settled, outcome.settle = .ok settled → Counted settled.status settled.rows
  countsForwarded : ∀ unsettled, outcome.settle = .error unsettled →
    ∀ document ∈ unsettled.publicDocument.writeOutcome, Counted document.status document.rows

theorem foldlM_checkedAdd {counts : List Nat} {start total : Nat}
    (h : counts.foldlM (checkedAdd 64) start = some total) : total = start + counts.sum := by
  induction counts generalizing start with
  | nil =>
    cases h
    rfl
  | cons count counts ih =>
    rw [List.foldlM_cons] at h
    obtain ⟨next, hnext, h⟩ := Option.bind_eq_some_iff.1 h
    have hsum := (checkedAdd_eq_some.1 hnext).2
    have := ih h
    rw [List.sum_cons]
    omega

theorem sum_reduceOption (counts : List (Option Nat)) :
    counts.reduceOption.sum = (counts.map (·.getD 0)).sum := by
  induction counts with
  | nil => rfl
  | cons count counts ih =>
    cases count with
    | none =>
      rw [List.reduceOption_cons_of_none, ih, List.map_cons, List.sum_cons]
      exact (Nat.zero_add _).symm
    | some n =>
      rw [List.reduceOption_cons_of_some, List.sum_cons, ih, List.map_cons, List.sum_cons]
      rfl

/-- What a valid document has: its rows agree with its status, a recovery exactly when it is in
doubt, and no automatic retry when it is unknown. -/
theorem validate_spec {outcome : WriteOutcome} (h : outcome.validate = .ok ()) :
    Counted outcome.status outcome.rows ∧ outcome.uncertain = outcome.recovery.isSome ∧
      (outcome.status = .outcomeUnknown →
        outcome.recovery.any (·.automaticRetryAllowed) = false) := by
  unfold validate validateRecovery validateRows at h
  simp only [bind_eq_ok, okOr_eq_ok, failIf_eq_ok, Option.bind_eq_some_iff, checkedAdd_eq_some]
    at h
  obtain ⟨-, -, -, -, -, -, -, ⟨-, -, -, hdoubt, hretry⟩, -, hconfirmed, accounted,
    ⟨c, ⟨-, hc⟩, -, haccounted⟩, -, hle, mutations, hmutations, hmutated⟩ := h
  refine ⟨⟨by omega, ?_, ?_⟩, not_not.1 hdoubt, ?_⟩
  · have hsum := foldlM_checkedAdd hmutations
    rw [sum_reduceOption] at hsum
    simp only [List.map_cons, List.map_nil, List.sum_cons, List.sum_nil] at hsum
    omega
  · intro hstatus
    by_contra hne
    exact hconfirmed ⟨hstatus, hne⟩
  · intro hstatus
    rw [not_and, Bool.not_eq_true] at hretry
    exact hretry hstatus

/-- How a document settles: refused, as a success, or forwarded with an error that permits no
retry. -/
theorem settle_cases (outcome : WriteOutcome) :
    (outcome.validate ≠ .ok () ∧ outcome.settle = .error outcome.outOfContract) ∨
    (outcome.validate = .ok () ∧ outcome.status = .committed ∧ outcome.settle = .ok outcome) ∨
    (outcome.validate = .ok () ∧ outcome.status ≠ .committed ∧
      ∃ category phase retry message, retry.permitsRetry = false ∧
        (publicRetry outcome.remoteEffect retry).permitsRetry = false ∧
        outcome.settle = .error (outcome.unsettled category phase retry message)) := by
  unfold settle
  cases hvalid : outcome.validate with
  | error e => exact .inl ⟨by rintro ⟨⟩, rfl⟩
  | ok u =>
    have heffect : outcome.remoteEffect = match outcome.status with
        | .committed => .committed
        | .rolledBack => .rolledBack
        | .partiallyCommitted => .partialEffect
        | .outcomeUnknown => .unknown := rfl
    cases hstatus : outcome.status with
    | committed => exact .inr (.inl ⟨rfl, rfl, rfl⟩)
    | rolledBack =>
      rw [hstatus] at heffect
      exact .inr (.inr ⟨rfl, by decide, _, _, _, _, rfl, by rw [heffect]; rfl, rfl⟩)
    | partiallyCommitted =>
      rw [hstatus] at heffect
      exact .inr (.inr ⟨rfl, by decide, _, _, _, _, rfl, by rw [heffect]; rfl, rfl⟩)
    | outcomeUnknown =>
      rw [hstatus] at heffect
      exact .inr (.inr ⟨rfl, by decide, _, _, _, _, rfl, by rw [heffect]; rfl, rfl⟩)

/-- A partial commit that authorizes an automatic retry, in a document that is otherwise valid. -/
def AuthorizesRepeat (outcome : WriteOutcome) : Prop :=
  outcome.validate = .ok () ∧ outcome.status = .partiallyCommitted ∧
    outcome.recovery.any (·.automaticRetryAllowed)

/-- A valid document forwarded with effects permits a retry only after a partial commit. -/
theorem retry_of_valid {outcome : WriteOutcome} (hvalid : outcome.validate = .ok ())
    (hrepeat : ¬ outcome.AuthorizesRepeat) :
    ∀ recovery ∈ outcome.recovery, recovery.automaticRetryAllowed = false := by
  obtain ⟨-, hdoubt, hunknown⟩ := validate_spec hvalid
  intro recovery hrecovery
  rw [Option.mem_def] at hrecovery
  rw [hrecovery, Option.isSome_some] at hdoubt
  rw [hrecovery] at hunknown
  have huncertain : outcome.status = .partiallyCommitted ∨ outcome.status = .outcomeUnknown := by
    simpa [uncertain] using hdoubt
  rcases huncertain with hstatus | hstatus
  · by_contra hallowed
    refine hrepeat ⟨hvalid, hstatus, ?_⟩
    rw [hrecovery]
    simpa using hallowed
  · simpa using hunknown hstatus

/-- **A write settles truthfully unless a partial commit authorizes an automatic retry.** -/
theorem settled_iff (outcome : WriteOutcome) : outcome.Truthful ↔ ¬ outcome.AuthorizesRepeat := by
  constructor
  · rintro htruthful ⟨hvalid, hstatus, hallowed⟩
    rcases settle_cases outcome with ⟨hinvalid, -⟩ | ⟨-, hcommitted, -⟩ |
      ⟨-, -, category, phase, retry, message, -, -, hsettle⟩
    · exact hinvalid hvalid
    · rw [hstatus] at hcommitted
      cases hcommitted
    · cases hrecovery : outcome.recovery with
      | none =>
        rw [hrecovery] at hallowed
        cases hallowed
      | some recovery =>
        have heffect : outcome.remoteEffect = .partialEffect := by
          unfold remoteEffect
          rw [hstatus]
        have hforwarded := (htruthful.retry _ hsettle (by
          show leavesEffects outcome.remoteEffect
          rw [heffect]
          rfl)).2 _ rfl recovery.toPublic (by
            show outcome.recovery.map Recovery.toPublic = some recovery.toPublic
            rw [hrecovery]
            rfl)
        rw [hrecovery] at hallowed
        have hallowed' : recovery.automaticRetryAllowed = true := hallowed
        have hforbidden : recovery.automaticRetryAllowed = false := hforwarded
        rw [hforbidden] at hallowed'
        cases hallowed'
  · intro hrepeat
    rcases settle_cases outcome with ⟨hinvalid, hsettle⟩ | ⟨hvalid, hcommitted, hsettle⟩ |
      ⟨hvalid, hnot, category, phase, retry, message, -, hpublic, hsettle⟩
    · have hnone {settled : WriteOutcome} (h : outcome.settle = .ok settled) : False := by
        rw [hsettle] at h
        cases h
      have hone {unsettled : UnsettledWrite} (h : outcome.settle = .error unsettled) :
          outcome.outOfContract = unsettled := by
        rw [hsettle] at h
        exact Except.error.inj h
      constructor
      · intro settled
        exact ⟨fun h => (hnone h).elim, fun h => absurd h.2.2 hinvalid⟩
      · rintro unsettled h
        rw [← hone h]
        exact ⟨fun hvalid => absurd hvalid hinvalid, fun _ => rfl⟩
      · rintro unsettled h -
        rw [← hone h]
        refine ⟨rfl, ?_⟩
        rintro document ⟨⟩
      · exact fun settled h => (hnone h).elim
      · exact fun settled h => (hnone h).elim
      · rintro unsettled h
        rw [← hone h]
        rintro document ⟨⟩
    · have hone {settled : WriteOutcome} (h : outcome.settle = .ok settled) :
          outcome = settled := by
        rw [hsettle] at h
        exact Except.ok.inj h
      have hnone {unsettled : UnsettledWrite} (h : outcome.settle = .error unsettled) : False := by
        rw [hsettle] at h
        cases h
      obtain ⟨hcounted, hdoubt, -⟩ := validate_spec hvalid
      constructor
      · intro settled
        refine ⟨fun h => ⟨(hone h).symm, hcommitted, hvalid⟩, ?_⟩
        rintro ⟨rfl, -, -⟩
        exact hsettle
      · exact fun unsettled h => (hnone h).elim
      · exact fun unsettled h => (hnone h).elim
      · intro settled h
        rw [← hone h]
        have hcertain : outcome.uncertain = false := by
          unfold uncertain
          rw [hcommitted]
          rfl
        rw [hcertain] at hdoubt
        exact Option.isNone_iff_eq_none.1 (by rw [← Option.not_isSome, ← hdoubt]; rfl)
      · intro settled h
        rw [← hone h]
        exact hcounted
      · exact fun unsettled h => (hnone h).elim
    · have hnone {settled : WriteOutcome} (h : outcome.settle = .ok settled) : False := by
        rw [hsettle] at h
        cases h
      have hone {unsettled : UnsettledWrite} (h : outcome.settle = .error unsettled) :
          outcome.unsettled category phase retry message = unsettled := by
        rw [hsettle] at h
        exact Except.error.inj h
      constructor
      · intro settled
        exact ⟨fun h => (hnone h).elim, fun h => absurd h.2.1 hnot⟩
      · rintro unsettled h
        rw [← hone h]
        exact ⟨fun _ => rfl, fun hinvalid => absurd hvalid hinvalid⟩
      · rintro unsettled h -
        rw [← hone h]
        refine ⟨hpublic, ?_⟩
        intro document hdocument recovery hrecovery
        cases hdocument
        obtain ⟨source, hsource, rfl⟩ := Option.map_eq_some_iff.1 hrecovery
        exact retry_of_valid hvalid hrepeat source hsource
      · exact fun settled h => (hnone h).elim
      · exact fun settled h => (hnone h).elim
      · rintro unsettled h
        rw [← hone h]
        intro document hdocument
        cases hdocument
        exact (validate_spec hvalid).1

/-- Ten rows received, four confirmed, and an automatic retry authorized. -/
def partialCommit : WriteOutcome where
  schemaVersion := 2
  status := .partiallyCommitted
  executionId := "01J3PARTIAL"
  provider := .postgres
  rows := { received := 10, confirmed := 4, inserted := some 4, updated := none, deleted := none
            failed := 6, skipped := 0 }
  recovery := some
    { lastCertainPhase := .writing, automaticRetryAllowed := true, idempotencyKey := none
      stagingObject := none, verificationAction := none, cause := none }

/-- The public document of that write asks for a recovery and authorizes the automatic retry. -/
theorem partialCommit_not_truthful : ¬ partialCommit.Truthful := by
  intro htruthful
  have hretry := (htruthful.retry (partialCommit.unsettled .execution .write .requiresRecovery
    ("scrittura confermata solo in parte: recovery richiesto prima di ogni " ++ "nuovo tentativo"))
    (by decide +kernel) (by decide +kernel)).2 _ rfl _ rfl
  revert hretry
  decide +kernel

end WriteOutcome

end Plenora.Core
