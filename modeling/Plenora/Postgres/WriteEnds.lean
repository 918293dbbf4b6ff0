import Plenora.Postgres.WriteRun

/-!
# How a PostgreSQL write ends

Committed with the rows it counted, in doubt, or undone: the result says which,
from what was sent and what was answered.  Only an answer that opens the session
or the transaction with `out_of_memory` breaks it: the effect is in doubt, and the
error asks to be retried.

    Ends env (execute env) ↔ env.Spared                                    (execute_ends_iff)
-/

namespace Plenora.Postgres.Write

open Plenora.Lib Plenora.Lib.Call Plenora.Core Plenora.Core.Cancellation

/-! ## The property -/

def CommitSent (s : State) : Prop := ∃ answer, (Command.commit, answer) ∈ s.commands

def Acknowledged (s : State) : Prop := (Command.commit, Awaited.ended (.ok ())) ∈ s.commands

def ProvenRolledBack (s : State) : Prop :=
  ∃ error, (Command.commit, Awaited.ended (.error error)) ∈ s.commands ∧
    commitRejectionProvesRollback error = true

inductive Ending where
  | committed | unknown | undone
  deriving DecidableEq, Repr

/-- The result is of this kind. -/
def Ending.Of : Ending → Result WriteOutcome → Prop
  | .committed, r => ∃ document, r = .ok document ∧ document.status = .committed
  | .unknown, r =>
    (∃ document recovery, r = .ok document ∧ document.status = .outcomeUnknown ∧
      document.recovery = some recovery ∧ recovery.automaticRetryAllowed = false) ∨
    ∃ e, r = .error e ∧ InDoubt e
  | .undone, r => ∃ e, r = .error e ∧ SaysUndone e

/-- The rows the server confirms for a batch; one without rows is not sent. -/
def Batch.confirmed (batch : Batch) : Nat :=
  if batch.rows = 0 then 0
  else match batch.written with
    | .ended (.ok written) => written
    | _ => 0

def RowAttempt.confirmed (row : RowAttempt) : Nat :=
  match row.executed with
  | .ended (.ok affected) => affected
  | _ => 0

/-- The rows of the whole stream. -/
def Env.delivered (env : Env) : Nat := (env.batches.map Batch.rows).sum

/-- The rows the server confirms, batch by batch or row by row. -/
def Env.confirmed (env : Env) : Nat :=
  match diagnosticInput env with
  | .ok (some inputTotal) => ((List.range inputTotal).map fun n => (env.rows n).confirmed).sum
  | _ => (env.batches.map Batch.confirmed).sum

/-- How a run may end. -/
structure Ends (env : Env) (ended : Result WriteOutcome × State) : Prop where
  one : ∃! ending : Ending, ending.Of ended.1
  committed : ∀ document, ended.1 = .ok document → document.status = .committed →
    Acknowledged ended.2 ∧ document.validate = .ok () ∧
      document.rows.received = env.delivered ∧ document.rows.confirmed = env.confirmed
  unknown : CommitSent ended.2 → ¬ Acknowledged ended.2 → ¬ ProvenRolledBack ended.2 →
    Ending.unknown.Of ended.1
  undone : Ending.undone.Of ended.1 → ¬ CommitSent ended.2 ∨ ProvenRolledBack ended.2
  reusable : ended.2.reusable = true → Ending.committed.Of ended.1

/-- The answer of the server that ended the run before its transaction was open. -/
def Env.openingAnswer (env : Env) : Option (ErrorPhase × DriverError) :=
  if env.token.isSome ∨ env.schemaMatches = false ∨ env.driverState = false ∨
      ¬ (diagnosticInput env).isOk then none
  else match env.checkout with
    | .ended (.error (.driver error)) => some (.connect, error)
    | .ended (.ok reused) =>
      match (if reused then env.discarded else .ended (.ok ())), env.begun with
      | .ended (.error error), _ => some (.connect, error)
      | .ended (.ok ()), .ended (.error error) => some (.write, error)
      | _, _ => none
    | _ => none

/-- The server did not run out of memory where the session or the transaction opens. -/
def Env.Spared (env : Env) : Prop :=
  ∀ phase error, env.openingAnswer = some (phase, error) → ¬ OutOfMemory phase error

theorem ending_unique {r : Result WriteOutcome} {ending ending' : Ending} (h : ending.Of r)
    (h' : ending'.Of r) : ending' = ending := by
  have hstatus : ∀ {ending : Ending} {document : WriteOutcome}, ending.Of (.ok document) →
      (ending = .committed ∧ document.status = .committed) ∨
        (ending = .unknown ∧ document.status = .outcomeUnknown) := by
    intro ending document hof
    cases ending with
    | committed =>
      obtain ⟨_, ⟨⟩, hstatus⟩ := hof
      exact .inl ⟨rfl, hstatus⟩
    | unknown =>
      rcases hof with ⟨_, _, ⟨⟩, hstatus, _⟩ | ⟨_, ⟨⟩, _⟩
      exact .inr ⟨rfl, hstatus⟩
    | undone => obtain ⟨_, ⟨⟩, _⟩ := hof
  have heffect : ∀ {ending : Ending} {e : DatabaseError}, ending.Of (.error e) →
      (ending = .unknown ∧ e.remoteEffect = .unknown) ∨ (ending = .undone ∧ SaysUndone e) := by
    intro ending e hof
    cases ending with
    | committed => obtain ⟨_, ⟨⟩, _⟩ := hof
    | unknown =>
      rcases hof with ⟨_, _, ⟨⟩, _⟩ | ⟨_, ⟨⟩, hdoubt⟩
      exact .inl ⟨rfl, hdoubt.1⟩
    | undone =>
      obtain ⟨_, ⟨⟩, hundone⟩ := hof
      exact .inr ⟨rfl, hundone⟩
  cases r with
  | ok document =>
    rcases hstatus h with ⟨rfl, hs⟩ | ⟨rfl, hs⟩ <;> rcases hstatus h' with ⟨rfl, hs'⟩ | ⟨rfl, hs'⟩
    · rfl
    · exact absurd (hs.symm.trans hs') (by decide)
    · exact absurd (hs.symm.trans hs') (by decide)
    · rfl
  | error e =>
    rcases heffect h with ⟨rfl, he⟩ | ⟨rfl, he⟩ <;> rcases heffect h' with ⟨rfl, he'⟩ | ⟨rfl, he'⟩
    · rfl
    · exact absurd he' (saysUndone_unknown he)
    · exact absurd he (saysUndone_unknown he')
    · rfl

theorem one_of {r : Result WriteOutcome} {ending : Ending} (h : ending.Of r) :
    ∃! ending : Ending, ending.Of r :=
  ⟨ending, h, fun _ h' => ending_unique h h'⟩

theorem not_of {r : Result WriteOutcome} {ending ending' : Ending} (h : ending.Of r)
    (hne : ending' ≠ ending) : ¬ ending'.Of r :=
  fun h' => hne (ending_unique h h')

section Ends

variable {env : Env} {s : State}

theorem ends_unknown {r : Result WriteOutcome} (h : Ending.unknown.Of r)
    (hkept : s.reusable = false) : Ends env (r, s) where
  one := one_of h
  committed document hr hstatus :=
    absurd ⟨document, hr, hstatus⟩ (@not_of r .unknown .committed h (by decide))
  unknown _ _ _ := h
  undone hundone := absurd hundone (not_of h (by decide))
  reusable hreusable := absurd (hreusable.symm.trans hkept) (by decide)

theorem ends_undone {e : DatabaseError} (h : SaysUndone e) (hkept : s.reusable = false)
    (hproven : ¬ CommitSent s ∨ ProvenRolledBack s) : Ends env (.error e, s) where
  one := @one_of _ .undone ⟨e, rfl, h⟩
  committed _ hr := (by cases hr)
  unknown hsent _ hunproven := by
    rcases hproven with hunsent | hrolled
    · exact absurd hsent hunsent
    · exact absurd hrolled hunproven
  undone _ := hproven
  reusable hreusable := absurd (hreusable.symm.trans hkept) (by decide)

theorem ends_committed {document : WriteOutcome} (hstatus : document.status = .committed)
    (hack : Acknowledged s) (hvalid : document.validate = .ok ())
    (hreceived : document.rows.received = env.delivered)
    (hconfirmed : document.rows.confirmed = env.confirmed) : Ends env (.ok document, s) where
  one := @one_of _ .committed ⟨document, rfl, hstatus⟩
  committed document' hr _ := by
    cases hr
    exact ⟨hack, hvalid, hreceived, hconfirmed⟩
  unknown _ hunacknowledged := absurd hack hunacknowledged
  undone hundone := by
    obtain ⟨_, ⟨⟩, _⟩ := hundone
  reusable _ := ⟨document, rfl, hstatus⟩

end Ends

/-! ## Before the COMMIT -/

/-- The client is not to be used again, and no COMMIT was sent. -/
structure Before (s : State) : Prop where
  reusable : s.reusable = false
  unsent : ¬ CommitSent s

/-- Before the COMMIT an error settles the write. -/
theorem Before.ends {env : Env} {s : State} {e : DatabaseError} (h : Before s) (he : Settles e) :
    Ends env (.error e, s) := by
  rcases he with hundone | hdoubt
  · exact ends_undone hundone h.reusable (.inl h.unsent)
  · exact ends_unknown (.inr ⟨e, rfl, hdoubt⟩) h.reusable

/-- A step before the COMMIT: what it returns is so, and its error settles the write. -/
structure Stepped {β : Type} (P : β → Prop) (r : Result β) (s : State) : Prop where
  before : Before s
  value : ∀ b, r = .ok b → P b
  error : ∀ e, r = .error e → Settles e

section Steps

variable {env : Env} {β γ : Type} {P : β → Prop}

theorem Stepped.bind {x : Run β} {f : β → Run γ} {Q : Result γ → State → Prop}
    (hx : Meets Before x (Stepped P)) (hf : ∀ b, P b → Meets Before (f b) Q)
    (herror : ∀ e s, Before s → Settles e → Q (.error e) s) : Meets Before (x >>= f) Q := by
  intro s hs
  have hfirst := hx s hs
  rw [outcome_bind]
  rcases hr : outcome x s with ⟨e | b, s'⟩
  · rw [hr] at hfirst
    exact herror e s' hfirst.before (hfirst.error e rfl)
  · rw [hr] at hfirst
    exact hf b (hfirst.value b rfl) s' hfirst.before

theorem Stepped.andThen {x : Run β} {f : β → Run γ} {Q : γ → Prop}
    (hx : Meets Before x (Stepped P)) (hf : ∀ b, P b → Meets Before (f b) (Stepped Q)) :
    Meets Before (x >>= f) (Stepped Q) :=
  Stepped.bind hx hf fun _ _ hs he =>
    ⟨hs, fun _ hr => (by cases hr), fun _ hr => (by cases hr; exact he)⟩

theorem Stepped.mono {x : Run β} {Q : β → Prop} (hx : Meets Before x (Stepped P))
    (h : ∀ b, P b → Q b) : Meets Before x (Stepped Q) :=
  hx.conseq (fun _ hs => hs) fun _ _ hs => ⟨hs.before, fun b hb => h b (hs.value b hb), hs.error⟩

theorem Before.rollback {s : State} (h : Before s) (answer : Awaited (Except DriverError Unit)) :
    Before { s with commands := s.commands ++ [(.rollback, answer)] } := by
  refine ⟨h.reusable, ?_⟩
  rintro ⟨commit, hcommit⟩
  rcases List.mem_append.1 hcommit with hold | hnew
  · exact h.unsent ⟨commit, hold⟩
  · cases List.mem_singleton.1 hnew

theorem stepped_pure {b : β} (h : P b) : Meets Before (pure b : Run β) (Stepped P) :=
  fun _ hs => ⟨hs, fun _ hb => (by cases hb; exact h), fun _ he => (by cases he)⟩

/-- The exits of a step: they roll back, and throw an error that settles the write. -/
theorem stepped_abandon {e : Rollback → DatabaseError} (h : ∀ rollback, Settles (e rollback)) :
    Meets Before (do let rollback ← rollbackNow env; throw (e rollback) : Run β) (Stepped P) :=
  fun s hs => ⟨hs.rollback (.ended env.rolledBack), fun _ hb => (by cases hb),
    fun _ he => (by cases he; exact h _)⟩

theorem stepped_abandonError (e : DatabaseError) :
    Meets Before (abandonError env e : Run β) (Stepped P) :=
  stepped_abandon fun rollback => settles_afterError env.executionId rollback e

theorem stepped_abandonCancelled (reason : CancellationReason) :
    Meets Before (abandonCancelled env reason : Run β) (Stepped P) :=
  stepped_abandon fun rollback => settles_afterInterruption env.executionId rollback fun _ =>
    settles_afterRollback _ _ _

theorem stepped_abandonResource (e : DatabaseError) :
    Meets Before (abandonResource env e : Run β) (Stepped P) :=
  stepped_abandon fun rollback => settles_afterInterruption env.executionId rollback fun _ =>
    settles_afterRollback _ _ _

theorem stepped_abandonAborted (e : DatabaseError) :
    Meets Before (abandonAborted env e : Run β) (Stepped P) :=
  stepped_abandon fun rollback => settles_afterAbort env.executionId rollback e

/-- A statement that ends without an error leaves the state as it is. -/
def Quiet (x : Run Unit) : Prop :=
  ∀ s, Before s → outcome x s = (.ok (), s) ∨
    ∃ e s', outcome x s = (.error e, s') ∧ Before s' ∧ Settles e

theorem Quiet.meets {x : Run Unit} (hx : Quiet x) {I : State → Prop} {f : Unit → Run β}
    {Q : Result β → State → Prop} (hI : ∀ s, I s → Before s) (hf : Meets I (f ()) Q)
    (herror : ∀ e s, Before s → Settles e → Q (.error e) s) : Meets I (x >>= f) Q := by
  intro s hs
  rcases hx s (hI s hs) with hok | ⟨e, s', herr, hbefore, he⟩
  · rw [outcome_bind_ok hok]
    exact hf s hs
  · rw [outcome_bind_error herr]
    exact herror e s' hbefore he

theorem quiet_of {x : Run Unit} (h : ∃ e : Rollback → DatabaseError,
    x = (do let rollback ← rollbackNow env; throw (e rollback)) ∧
      ∀ rollback, Settles (e rollback)) : Quiet x := by
  obtain ⟨e, rfl, he⟩ := h
  exact fun s hs => .inr ⟨_, _, rfl, hs.rollback (.ended env.rolledBack), he _⟩

theorem quiet_step (which : Step) : Quiet (step env which) := by
  unfold step
  split
  next => exact fun s _ => .inl rfl
  next e _ => exact quiet_of ⟨_, rfl, fun rollback => settles_afterError env.executionId rollback e⟩
  next reason _ =>
    exact quiet_of ⟨_, rfl, fun rollback => settles_afterInterruption env.executionId rollback
      fun _ => settles_afterRollback _ _ _⟩

theorem quiet_stepIf (c : Bool) (which : Step) : Quiet (stepIf env c which) := by
  unfold stepIf
  split
  next => exact quiet_step which
  next => exact fun s _ => .inl rfl

theorem Quiet.stepped {x : Run Unit} (hx : Quiet x) : Meets Before x (Stepped fun _ => True) := by
  intro s hs
  rcases hx s hs with hok | ⟨e, s', herr, hbefore, he⟩
  · rw [hok]
    exact ⟨hs, fun _ _ => trivial, fun _ hr => (by cases hr)⟩
  · rw [herr]
    exact ⟨hbefore, fun _ hr => (by cases hr), fun _ hr => (by cases hr; exact he)⟩

theorem stepped_orAbandon (r : Result Unit) :
    Meets Before (orAbandon env r) (Stepped fun _ => r = .ok ()) := by
  unfold orAbandon
  split
  next => exact stepped_pure rfl
  next e => exact stepped_abandonError e

/-! ## The batches -/

theorem stepped_admitBatch (batch : Batch) :
    Meets Before (admitBatch env batch) (Stepped fun _ => True) := by
  unfold admitBatch
  refine Stepped.andThen (stepped_orAbandon _) fun _ _ => ?_
  split
  next reason _ => exact stepped_abandonCancelled reason
  next =>
    split
    next e _ => exact stepped_abandonResource e
    next => exact Stepped.mono (stepped_orAbandon _) fun _ _ => trivial

/-- What is written of a batch with rows is what the server confirms. -/
theorem stepped_writtenRows (batch : Batch) (hrows : batch.rows ≠ 0) :
    Meets Before (writtenRows env batch) (Stepped fun written => written = batch.confirmed) := by
  unfold writtenRows
  split
  next written hwritten =>
    refine stepped_pure ?_
    unfold Batch.confirmed
    rw [if_neg hrows, hwritten]
  next e _ => exact stepped_abandonAborted e
  next e _ => exact stepped_abandonError e
  next reason _ => exact stepped_abandonCancelled reason

theorem account_eq_ok {batch : Batch} {counts counts' : Nat × Nat} {written : Nat}
    (h : account batch counts written = .ok counts') :
    counts' = (counts.1 + batch.rows, counts.2 + written) := by
  unfold account at h
  simp only [bind_eq_ok, okOr_eq_ok, checkedAdd_eq_some] at h
  obtain ⟨-, -, received, ⟨-, rfl⟩, confirmed, ⟨-, rfl⟩, hcounts⟩ := h
  cases hcounts
  rfl

theorem stepped_writeBatch (batch : Batch) (counts : Nat × Nat) :
    Meets Before (writeBatch env batch counts) (Stepped fun counts' =>
      counts' = (counts.1 + batch.rows, counts.2 + batch.confirmed)) := by
  refine Stepped.andThen (stepped_admitBatch batch) fun _ _ => ?_
  by_cases hrows : batch.rows = 0
  · rw [if_pos hrows]
    refine stepped_pure ?_
    unfold Batch.confirmed
    rw [if_pos hrows, hrows]
    rfl
  · rw [if_neg hrows]
    refine Stepped.andThen (stepped_writtenRows batch hrows) fun written hwritten => ?_
    cases haccount : account batch counts written with
    | error e => exact stepped_abandonResource e
    | ok counts' =>
      refine stepped_pure ?_
      rw [account_eq_ok haccount, hwritten]

/-- **The counts are those of the whole stream.** -/
theorem stepped_writeBatches (batches : List Batch) (counts : Nat × Nat) :
    Meets Before (writeBatches env batches counts) (Stepped fun counts' =>
      counts' = (counts.1 + (batches.map Batch.rows).sum,
        counts.2 + (batches.map Batch.confirmed).sum)) := by
  induction batches generalizing counts with
  | nil =>
    unfold writeBatches
    split
    next => exact stepped_pure rfl
    next e _ => exact stepped_abandonError e
    next reason _ _ => exact stepped_abandonCancelled reason
  | cons batch batches ih =>
    refine Stepped.andThen (stepped_writeBatch batch counts) fun written hwritten => ?_
    refine Stepped.mono (ih written) fun counts' hcounts => ?_
    rw [hcounts, hwritten, List.map_cons, List.map_cons, List.sum_cons, List.sum_cons,
      Nat.add_assoc, Nat.add_assoc]

/-! ## The COMMIT -/

theorem sent_last (s : State) (answer : Awaited (Except DriverError Unit)) :
    (Command.commit, answer) ∈ (s.commands ++ [(.commit, answer)]) :=
  List.mem_append_right _ (List.mem_singleton.2 rfl)

theorem saysUndone_provenCommitRollback (error : DriverError) (executionId : String) :
    SaysUndone (provenCommitRollback error executionId) :=
  .inr rfl

theorem outcome_send (command : Command) (answer : Awaited (Except DriverError Unit)) (s : State) :
    outcome (send command answer) s =
      (.ok (), { s with commands := s.commands ++ [(command, answer)] }) := rfl

/-- A document that counts the rows of the run. -/
structure Counted (env : Env) (document : WriteOutcome) : Prop where
  status : document.status = .committed
  valid : document.validate = .ok ()
  received : document.rows.received = env.delivered
  confirmed : document.rows.confirmed = env.confirmed

/-- **What the answer to the COMMIT proves is what the write reports.** -/
theorem ends_settleCommit {document : WriteOutcome} (h : Counted env document) :
    Meets Before (settleCommit env document) fun r s => Ends env (r, s) := by
  intro s hs
  have hlast := sent_last s env.committed
  unfold settleCommit
  cases hanswer : env.committed with
  | cancelled reason => exact ends_unknown (.inr ⟨_, rfl, rfl, rfl⟩) hs.reusable
  | ended answer =>
    rw [hanswer] at hlast
    cases answer with
    | error error =>
      by_cases hproves : commitRejectionProvesRollback error = true
      · simp only [hproves, if_true]
        exact ends_undone (saysUndone_provenCommitRollback error env.executionId) hs.reusable
          (.inr ⟨error, hlast, hproves⟩)
      · simp only [hproves]
        exact ends_unknown (.inl ⟨_, _, rfl, rfl, rfl, rfl⟩) hs.reusable
    | ok _ =>
      by_cases hfault : env.faultPoint = some .afterCommitAcknowledgement
      · simp only [hfault, if_true]
        exact ends_unknown (.inl ⟨_, _, rfl, rfl, rfl, rfl⟩) hs.reusable
      · simp only [hfault, if_false]
        exact ends_committed h.status hlast h.valid h.received h.confirmed

theorem stepped_validateDocument (document : WriteOutcome) :
    Meets Before (validateDocument env document) (Stepped fun _ => document.validate = .ok ()) := by
  unfold validateDocument
  split
  next hvalid => exact stepped_pure hvalid
  next e _ => exact stepped_abandonError _

theorem received_committedOutcome (mode : WriteMode) (executionId : String)
    (received confirmed : Nat) :
    (committedOutcome mode executionId received confirmed).rows.received = received := by
  cases mode <;> rfl

theorem confirmed_committedOutcome (mode : WriteMode) (executionId : String)
    (received confirmed : Nat) :
    (committedOutcome mode executionId received confirmed).rows.confirmed = confirmed := by
  cases mode <;> rfl

theorem status_committedOutcome (mode : WriteMode) (executionId : String)
    (received confirmed : Nat) :
    (committedOutcome mode executionId received confirmed).status = .committed := by
  cases mode <;> rfl

/-- The path that writes batch by batch. -/
theorem ends_writeInput (hdiagnostic : diagnosticInput env = .ok none) :
    Meets Before (writeInput env) fun r s => Ends env (r, s) := by
  have herror : ∀ e s, Before s → Settles e → Ends env (.error e, s) := fun _ _ hs he => hs.ends he
  unfold writeInput
  refine Stepped.bind (quiet_step _).stepped (fun _ _ => ?_) herror
  refine Stepped.bind (quiet_step _).stepped (fun _ _ => ?_) herror
  refine Stepped.bind (quiet_step _).stepped (fun _ _ => ?_) herror
  refine Stepped.bind (stepped_orAbandon _) (fun _ _ => ?_) herror
  refine Stepped.bind (stepped_writeBatches _ _) (fun counts hcounts => ?_) herror
  refine Stepped.bind (quiet_stepIf _ _).stepped (fun _ _ => ?_) herror
  let outcome := committedOutcome env.mode env.executionId counts.1 counts.2
  refine Stepped.bind (stepped_pure (P := (· = outcome)) rfl) (fun document hdocument => ?_) herror
  refine Stepped.bind (stepped_validateDocument document) (fun _ hvalid => ?_) herror
  refine Stepped.bind (stepped_orAbandon _) (fun _ _ => ?_) herror
  refine Stepped.bind (quiet_step _).stepped (fun _ _ => ?_) herror
  have hconfirmed : env.confirmed = (env.batches.map Batch.confirmed).sum := by
    unfold Env.confirmed
    rw [hdiagnostic]
  refine ends_settleCommit ⟨?_, hvalid, ?_, ?_⟩
  · rw [hdocument, status_committedOutcome]
  · rw [hdocument, received_committedOutcome, hcounts, Nat.zero_add]
    rfl
  · rw [hdocument, confirmed_committedOutcome, hcounts, hconfirmed]
    exact Nat.zero_add _

/-! ## Row by row -/

/-- The end of the current batch. -/
def Cursor.batchEnd (cursor : Cursor) : Nat :=
  cursor.batchStart + match cursor.batch with
    | none => 0
    | some batch => batch.rows

/-- The rows of the stream that the cursor stands for. -/
def Cursor.total (cursor : Cursor) : Nat :=
  cursor.batchEnd + (cursor.pending.map Batch.rows).sum

/-- The first `n` rows are applied. -/
structure Applied (env : Env) (n : Nat) (s : State) : Prop where
  before : Before s
  processed : s.processed = n
  applied : s.applied = ((List.range n).map fun n => (env.rows n).confirmed).sum
  total : s.cursor.total = env.delivered
  located : 0 < n → s.cursor.batch.isSome = true

/-- A cursor that moved on stands for the same rows. -/
structure Moved (total : Nat) (cursor : Cursor) : Prop where
  located : cursor.batch.isSome = true
  total : cursor.total = total

theorem checkedBatchEnd_eq_ok {batchStart rows batchEnd : Nat}
    (h : checkedBatchEnd batchStart rows = .ok batchEnd) : batchEnd = batchStart + rows := by
  unfold checkedBatchEnd at h
  rw [okOr_eq_ok, checkedAdd_eq_some] at h
  exact h.2

theorem moved_seek {source offset : Nat} {cursor : Cursor} (pending : List Batch)
    (batchStart : Nat) (h : seek env source pending batchStart = .ok (offset, cursor)) :
    Moved (batchStart + (pending.map Batch.rows).sum) cursor := by
  induction pending generalizing batchStart with
  | nil =>
    unfold seek inputAfter at h
    split at h
    all_goals cases h
  | cons batch batches ih =>
    unfold seek at h
    simp only [bind_eq_ok, failIf_eq_ok] at h
    obtain ⟨-, -, h⟩ := h
    by_cases hrows : batch.rows = 0
    · rw [if_pos hrows] at h
      rw [List.map_cons, List.sum_cons, hrows, Nat.zero_add]
      exact ih batchStart h
    rw [if_neg hrows] at h
    simp only [bind_eq_ok] at h
    obtain ⟨-, -, -, -, -, -, batchEnd, hend, h⟩ := h
    have hend := checkedBatchEnd_eq_ok hend
    rw [List.map_cons, List.sum_cons, ← Nat.add_assoc, ← hend]
    by_cases hsource : source < batchEnd
    · rw [if_pos hsource] at h
      simp only [bind_eq_ok] at h
      obtain ⟨_, -, hcursor⟩ := h
      cases hcursor
      refine ⟨rfl, ?_⟩
      unfold Cursor.total Cursor.batchEnd
      rw [hend]
    · rw [if_neg hsource] at h
      exact ih batchEnd h

theorem moved_locate {source offset : Nat} {cursor cursor' : Cursor}
    (h : locate env source cursor = .ok (offset, cursor')) : Moved cursor.total cursor' := by
  unfold locate at h
  unfold Cursor.total Cursor.batchEnd
  cases hbatch : cursor.batch with
  | none =>
    rw [hbatch] at h
    exact moved_seek _ _ h
  | some batch =>
    rw [hbatch] at h
    simp only [bind_eq_ok] at h
    obtain ⟨batchEnd, hend, h⟩ := h
    have hend := checkedBatchEnd_eq_ok hend
    by_cases hsource : source < batchEnd
    · rw [if_pos hsource] at h
      simp only [bind_eq_ok] at h
      obtain ⟨_, -, hcursor⟩ := h
      cases hcursor
      refine ⟨by rw [hbatch]; rfl, ?_⟩
      unfold Cursor.total Cursor.batchEnd
      rw [hbatch]
    · rw [if_neg hsource] at h
      rw [← hend]
      exact moved_seek _ _ h

theorem Applied.moveTo {n : Nat} {s : State} {cursor : Cursor} (h : Applied env n s)
    (hmoved : Moved env.delivered cursor) : Applied env n { s with cursor } :=
  ⟨⟨h.before.reusable, h.before.unsent⟩, h.processed, h.applied, hmoved.total,
    fun _ => hmoved.located⟩

/-- A row that was located and answered is counted. -/
theorem applied_countRow {n affected : Nat} (hexecuted : (env.rows n).executed = .ended (.ok affected))
    (s : State) (h : Applied env n s) (hlocated : s.cursor.batch.isSome = true) :
    Before (outcome (countRow affected) s).2 ∧
      ((outcome (countRow affected) s).1 = .ok .applied →
        Applied env (n + 1) (outcome (countRow affected) s).2) := by
  have hconfirmed : (env.rows n).confirmed = affected := by
    unfold RowAttempt.confirmed
    rw [hexecuted]
  unfold countRow
  rw [outcome_bind, outcome_read]
  dsimp only
  rw [outcome_bind, outcome_ofResult]
  cases hprocessed : okOr (checkedAdd 64 s.processed 1) overflowError with
  | error e => exact ⟨h.before, fun hr => (by cases hr)⟩
  | ok processed =>
    dsimp only
    rw [outcome_bind, outcome_ofResult]
    cases happlied : okOr (checkedAdd 64 s.applied affected) overflowError with
    | error e => exact ⟨h.before, fun hr => (by cases hr)⟩
    | ok applied =>
      rw [okOr_eq_ok, checkedAdd_eq_some] at hprocessed happlied
      have hbefore : Before { s with applied, processed } := ⟨h.before.reusable, h.before.unsent⟩
      refine ⟨hbefore, fun _ => ⟨hbefore, ?_, ?_, h.total, fun _ => hlocated⟩⟩
      · show processed = n + 1
        rw [hprocessed.2, h.processed]
      · show applied = _
        rw [happlied.2, h.applied, List.range_succ, List.map_append, List.sum_append,
          List.map_singleton, List.sum_singleton, hconfirmed]

/-- **The row that follows the applied ones is applied, or the write does not go on.** -/
theorem applied_applyRow (n : Nat) :
    Meets (Applied env n) (applyRow env n) fun r s =>
      Before s ∧ (r = .ok .applied → Applied env (n + 1) s) := by
  intro s hs
  unfold applyRow
  rw [outcome_bind, outcome_read]
  dsimp only
  rw [outcome_bind, outcome_ofResult]
  cases hlocate : locate env n s.cursor with
  | error e => exact ⟨hs.before, fun hr => (by cases hr)⟩
  | ok found =>
    obtain ⟨offset, cursor⟩ := found
    have hmoved := moved_locate hlocate
    rw [hs.total] at hmoved
    have hmove := hs.moveTo hmoved
    dsimp only
    rw [outcome_bind, outcome_update]
    dsimp only
    rw [outcome_bind, outcome_ofResult]
    cases (env.rows n).encoded with
    | error e => exact ⟨hmove.before, fun hr => (by cases hr)⟩
    | ok _ =>
      dsimp only
      rw [outcome_bind, outcome_refuseIf]
      generalize (if (!_) = true then _ else _ : Result Unit) = opened
      cases opened with
      | error e => exact ⟨hmove.before, fun hr => (by cases hr)⟩
      | ok _ =>
        dsimp only
        cases hexecuted : (env.rows n).executed with
        | cancelled reason => exact ⟨hmove.before, fun hr => (by cases hr)⟩
        | ended answer =>
          cases answer with
          | ok affected =>
            by_cases hone : affected ≤ 1
            · simp only [hone, if_true]
              exact applied_countRow hexecuted _ hmove hmoved.located
            · simp only [hone, if_false]
              exact ⟨hmove.before, fun hr => (by cases hr)⟩
          | error error =>
            cases hcause : rowRejectionCause error with
            | some cause =>
              simp only [hcause]
              exact ⟨hmove.before, fun hr => (by cases hr)⟩
            | none =>
              simp only [hcause]
              exact ⟨hmove.before, fun hr => (by cases hr)⟩

/-- The rows of the whole input are applied. -/
structure AllApplied (env : Env) (inputTotal : Nat) (s : State) : Prop where
  applied : s.applied = ((List.range inputTotal).map fun n => (env.rows n).confirmed).sum
  delivered : env.delivered = inputTotal

theorem drain_eq_ok {pending : List Batch} (h : drain env pending = .ok ()) :
    (pending.map Batch.rows).sum = 0 := by
  induction pending with
  | nil => rfl
  | cons batch batches ih =>
    unfold drain at h
    by_cases hrows : batch.rows = 0
    · rw [if_pos hrows] at h
      rw [List.map_cons, List.sum_cons, hrows, ih h]
    · rw [if_neg hrows] at h
      cases h

theorem consumed_eq_ok {cursor : Cursor} {processed : Nat} (h : consumed cursor processed = .ok ())
    (hlocated : cursor.batch.isSome = true) : cursor.batchEnd = processed := by
  unfold consumed at h
  unfold Cursor.batchEnd
  cases hbatch : cursor.batch with
  | none =>
    rw [hbatch] at hlocated
    cases hlocated
  | some batch =>
    rw [hbatch] at h
    simp only [bind_eq_ok, failIf_eq_ok, Decidable.not_not, ne_eq] at h
    obtain ⟨batchEnd, hend, hprocessed⟩ := h
    rw [← hprocessed, checkedBatchEnd_eq_ok hend]

/-- An input that ends where it was declared to is applied whole. -/
theorem applied_finishDeclaredInput {inputTotal : Nat} (hpositive : 0 < inputTotal) :
    Meets (Applied env inputTotal) (finishDeclaredInput env) fun r s =>
      Before s ∧ (r = .ok () → AllApplied env inputTotal s) := by
  intro s hs
  unfold finishDeclaredInput
  rw [outcome_bind, outcome_read]
  dsimp only
  rw [outcome_bind, outcome_ofResult]
  cases hconsumed : consumed s.cursor s.processed with
  | error e => exact ⟨hs.before, fun hr => (by cases hr)⟩
  | ok _ =>
    refine ⟨hs.before, fun hdrain => ⟨hs.applied, ?_⟩⟩
    have hend := consumed_eq_ok hconsumed (hs.located hpositive)
    have htotal := hs.total
    unfold Cursor.total at htotal
    rw [drain_eq_ok hdrain, hend, hs.processed] at htotal
    exact htotal.symm

theorem before_rollbackRows (s : State) (h : Before s) : Before (rollbackRows env s).2 := by
  unfold rollbackRows
  split
  next => exact h
  next => exact ⟨h.reusable, (h.rollback _).unsent⟩

theorem isContractIdentifier_commitAck :
    RowDiagnostics.isContractIdentifier "remote.commit_ack_unobserved" = true := by
  decide +kernel

theorem validate_commitUnknownReport {inputTotal : Nat} (hpositive : 0 < inputTotal)
    (hword : inputTotal < 2 ^ 64) : (commitUnknownReport inputTotal).validate = .ok () := by
  have h := isContractIdentifier_commitAck
  have hsum : checkedAdd 64 0 inputTotal = some inputTotal := by
    rw [checkedAdd_eq_some]; omega
  have hsum' : checkedAdd 64 inputTotal 0 = some inputTotal := by
    rw [checkedAdd_eq_some]; omega
  have hcompleteness : (commitUnknownReport inputTotal).validateCompleteness = .ok () := by
    simp [RowDiagnostics.Report.validateCompleteness, commitUnknownReport, h]
  have hcounts : (commitUnknownReport inputTotal).validateCounts = .ok () := rfl
  have hexamples : (commitUnknownReport inputTotal).validateExamples = .ok () := rfl
  have hzero : checkedAdd 64 0 0 = some 0 := rfl
  have hsums : (commitUnknownReport inputTotal).partitionSums ⟨0, 0, 0, 0⟩
      ⟨.known 0, .known 0, .known 0, .known inputTotal⟩ (0, 0) RowDiagnostics.writeStates =
        .ok (inputTotal, 0) := by
    simp [RowDiagnostics.Report.partitionSums, RowDiagnostics.writeStates,
      RowDiagnostics.ByState.get, commitUnknownReport, hzero, hsum]
  have hpartition : (commitUnknownReport inputTotal).validateWritePartition = .ok () := by
    show RowDiagnostics.Report.validatePartition _ inputTotal _ _ = _
    unfold RowDiagnostics.Report.validatePartition
    simp only [bind_eq_ok, hsums]
    simp [failIf_eq_ok, hsum', hzero, commitUnknownReport, RowDiagnostics.writeStates,
      RowDiagnostics.ByState.get]
    omega
  unfold RowDiagnostics.Report.validate
  rw [hcompleteness, hcounts, hexamples, hpartition]
  rfl

theorem inDoubt_commitUnknownError {inputTotal : Nat} (hpositive : 0 < inputTotal)
    (hword : inputTotal < 2 ^ 64) (category : ErrorCategory) (message : String) :
    ∃ e, commitUnknownError env category inputTotal message = .ok e ∧ InDoubt e := by
  unfold commitUnknownError
  rw [validate_commitUnknownReport hpositive hword]
  exact ⟨_, rfl, rfl, rfl⟩

/-- The rows that the input declares, where the path is row-scoped. -/
structure Declared (env : Env) (inputTotal : Nat) : Prop where
  diagnostic : diagnosticInput env = .ok (some inputTotal)
  positive : 0 < inputTotal
  word : inputTotal < 2 ^ 64
  tracker : RowDiagnostics.Tracker.new inputTotal env.policy = .ok ⟨inputTotal, env.policy, 0⟩

theorem declared_of {inputTotal : Nat} (h : diagnosticInput env = .ok (some inputTotal)) :
    Declared env inputTotal := by
  have hdiagnostic := h
  unfold diagnosticInput at h
  split at h
  next =>
    split at h
    next => cases h
    next declared _ =>
      simp only [bind_eq_ok] at h
      obtain ⟨tracker, htracker, -, -, htotal⟩ := h
      cases htotal
      obtain ⟨hpositive, rfl⟩ := RowDiagnostics.Tracker.new_eq_ok htracker
      exact ⟨hdiagnostic, hpositive, declared.toNat_lt, htracker⟩
  next => cases h

/-- The end of the row-scoped path, before the client is given back. -/
structure RowsEnd (env : Env) (r : Result WriteOutcome) (s : State) : Prop where
  ends : Ends env (r, s)
  kept : s.reusable = false

theorem Before.rowsEnd {s : State} {e : DatabaseError} (h : Before s) (he : Settles e) :
    RowsEnd env (.error e) s :=
  ⟨h.ends he, h.reusable⟩

theorem rowsEnd_commitUnknown {s : State} {inputTotal : Nat} (h : Declared env inputTotal)
    (hkept : s.reusable = false) (category : ErrorCategory) (message : String) :
    RowsEnd env (outcome (throwResult (commitUnknownError env category inputTotal message)) s).1
      (outcome (throwResult (commitUnknownError env category inputTotal message) :
        Run WriteOutcome) s).2 := by
  obtain ⟨e, he, hdoubt⟩ := @inDoubt_commitUnknownError env _ h.positive h.word category message
  rw [he]
  exact ⟨ends_unknown (.inr ⟨e, rfl, hdoubt⟩) hkept, hkept⟩

/-- What the answer to the COMMIT proves, row by row. -/
theorem rowsEnd_settleRows {inputTotal : Nat} {document : WriteOutcome}
    (hdeclared : Declared env inputTotal) (h : Counted env document) :
    Meets Before (settleRows env inputTotal document) (RowsEnd env) := by
  intro s hs
  have hlast := sent_last s env.committed
  unfold settleRows
  rw [outcome_bind_ok (outcome_send _ _ _)]
  cases hanswer : env.committed with
  | cancelled reason => exact rowsEnd_commitUnknown hdeclared (by exact hs.reusable) _ _
  | ended answer =>
    rw [hanswer] at hlast
    cases answer with
    | error error =>
      by_cases hproves : commitRejectionProvesRollback error = true
      · simp only [hproves, if_true]
        exact ⟨ends_undone (saysUndone_provenCommitRollback error env.executionId) hs.reusable
          (.inr ⟨error, hlast, hproves⟩), hs.reusable⟩
      · simp only [hproves, Bool.false_eq_true, if_false]
        exact rowsEnd_commitUnknown hdeclared (by exact hs.reusable) _ _
    | ok _ =>
      by_cases hfault : env.faultPoint = some .afterCommitAcknowledgement
      · simp only [hfault, if_true]
        exact rowsEnd_commitUnknown hdeclared (by exact hs.reusable) _ _
      · simp only [hfault, if_false]
        exact ⟨ends_committed h.status hlast h.valid h.received h.confirmed, hs.reusable⟩

/-- A diagnosis that ends in a refused row settles the write. -/
theorem settles_intoError {outcome : RowDiagnostics.RowRejectionOutcome} {e : DatabaseError}
    {provider : Option ProviderKind} {executionId : Option String}
    (h : outcome.intoError provider executionId = .ok e) : Settles e := by
  unfold RowDiagnostics.RowRejectionOutcome.intoError RowDiagnostics.RowRejectionOutcome.axes at h
  simp only [bind_eq_ok] at h
  obtain ⟨-, -, he⟩ := h
  cases hrollback : outcome.rollback with
  | confirmed =>
    rw [hrollback] at he
    cases he
    exact .inl (.inr rfl)
  | lost =>
    rw [hrollback] at he
    cases he
    exact .inr ⟨rfl, rfl⟩

theorem intoError_ok {outcome : RowDiagnostics.RowRejectionOutcome}
    (h : outcome.diagnostics.validate = .ok ()) (provider : Option ProviderKind)
    (executionId : Option String) : ∃ e, outcome.intoError provider executionId = .ok e := by
  unfold RowDiagnostics.RowRejectionOutcome.intoError
  rw [h]
  exact ⟨_, rfl⟩

/-- What follows the diagnosis: the refused row, the rollback or the COMMIT. -/
theorem rowsEnd_settleDiagnosis {inputTotal : Nat} (hdeclared : Declared env inputTotal)
    (diagnosed : Result (Option RowDiagnostics.RowRejectionOutcome)) :
    Meets (RowDiagnostics.Diagnosed Before (AllApplied env inputTotal) diagnosed)
      (settleDiagnosis env inputTotal diagnosed) (RowsEnd env) := by
  intro s hs
  have hunavailable : Settles transactionUnavailable := .inr ⟨rfl, rfl⟩
  have hclosed : Before { s with transaction := false } := ⟨hs.kept.reusable, hs.kept.unsent⟩
  have habandon : ∀ e, RowsEnd env (outcome (abandonRows env e : Run WriteOutcome)
      { s with transaction := false }).1 (outcome (abandonRows env e : Run WriteOutcome)
        { s with transaction := false }).2 :=
    fun e => (hclosed.rollback (.ended env.rolledBack)).rowsEnd
      (settles_afterRowError env.executionId (Rollback.of env.rolledBack) e)
  have htake : outcome takeTransaction s = (.error transactionUnavailable, s) ∨
      outcome takeTransaction s = (.ok (), { s with transaction := false }) := by
    unfold takeTransaction
    rw [outcome_bind, outcome_refuseIf]
    cases s.transaction with
    | true => exact .inr rfl
    | false => exact .inl rfl
  match diagnosed with
  | .ok (some outcome) =>
    obtain ⟨e, he⟩ := intoError_ok (hs.rejected outcome rfl) (some .postgres) (some env.executionId)
    show RowsEnd env (Call.outcome (throwResult _) s).1 (Call.outcome (throwResult _) s).2
    rw [he]
    exact hs.kept.rowsEnd (settles_intoError he)
  | .error e =>
    rcases htake with htaken | htaken
    · unfold settleDiagnosis
      rw [outcome_bind_error htaken]
      exact hs.kept.rowsEnd hunavailable
    · unfold settleDiagnosis
      rw [outcome_bind_ok htaken]
      exact habandon e
  | .ok none =>
    rcases htake with htaken | htaken
    · unfold settleDiagnosis
      rw [outcome_bind_error htaken]
      exact hs.kept.rowsEnd hunavailable
    · unfold settleDiagnosis
      rw [outcome_bind_ok htaken]
      have hall := hs.applied rfl
      rw [outcome_bind_ok (outcome_read _ _), outcome_bind_ok (outcome_pure _ _)]
      cases hvalid : (rowsOutcome env inputTotal s.applied).validate with
      | error e => exact habandon e
      | ok _ =>
        refine rowsEnd_settleRows hdeclared ⟨rfl, hvalid, hall.delivered.symm, ?_⟩ _ hclosed
        show s.applied = env.confirmed
        unfold Env.confirmed
        rw [hdeclared.diagnostic, hall.applied]

/-- **The row-scoped path ends as its rows, its rollback and its COMMIT say.** -/
theorem rowsEnd_executeRows {inputTotal : Nat} (hdeclared : Declared env inputTotal) :
    Meets (fun s => Before s ∧ Applied env 0 s) (executeRows env inputTotal) (RowsEnd env) := by
  rintro s ⟨hbefore, happlied⟩
  unfold executeRows
  rw [hdeclared.tracker, outcome_bind_ok (outcome_ofResult _ _)]
  cases openWriter env with
  | error e =>
    exact (hbefore.rollback (.ended env.rolledBack)).rowsEnd
      (settles_afterRowError env.executionId (Rollback.of env.rolledBack) e)
  | ok _ =>
    have hdiagnosed := RowDiagnostics.meets_diagnoseRows (rowWriter env) (I := Before)
      (F := AllApplied env inputTotal) applied_applyRow
      (applied_finishDeclaredInput hdeclared.positive) before_rollbackRows inputTotal
      ⟨inputTotal, env.policy, 0⟩ (Nat.zero_add _) s happlied
    exact rowsEnd_settleDiagnosis hdeclared _ _ hdiagnosed

theorem RowsEnd.markCommitted {document : WriteOutcome} {s : State}
    (h : RowsEnd env (.ok document) s) (hstatus : document.status = .committed) :
    Ends env (.ok document, { s with reusable := true }) := by
  obtain ⟨hack, hvalid, hreceived, hconfirmed⟩ := h.ends.committed document rfl hstatus
  exact ends_committed hstatus hack hvalid hreceived hconfirmed

theorem ends_writeRows {inputTotal : Nat} (hdeclared : Declared env inputTotal) :
    Meets (fun s => Before s ∧ Applied env 0 s) (writeRows env inputTotal)
      fun r s => Ends env (r, s) := by
  have herror : ∀ e s, Before s → Settles e → Ends env (.error e, s) := fun _ _ hs he => hs.ends he
  unfold writeRows
  refine (quiet_step _).meets (fun _ hs => hs.1) ?_ herror
  refine (quiet_step _).meets (fun _ hs => hs.1) ?_ herror
  refine (quiet_step _).meets (fun _ hs => hs.1) ?_ herror
  refine (rowsEnd_executeRows hdeclared).bind (fun document s hs => ?_) fun _ _ hs => hs.ends
  show Ends env (outcome (Write.markCommitted document >>= fun _ => pure document) s)
  unfold Write.markCommitted
  by_cases hstatus : document.status = .committed
  · rw [if_pos hstatus]
    exact hs.markCommitted hstatus
  · rw [if_neg hstatus]
    exact hs.ends

end Steps

/-! ## The opening -/

section Opening

variable {env : Env}

theorem undone_trackerNew {inputTotal : Nat} {policy : RowDiagnostics.Policy} {e : DatabaseError}
    (h : RowDiagnostics.Tracker.new inputTotal policy = .error e) : e.remoteEffect = .none := by
  unfold RowDiagnostics.Tracker.new RowDiagnostics.validateOptionalField at h
  simp only [bind_eq_error, failIf_eq_error, failIf_eq_ok] at h
  rcases h with ⟨-, rfl⟩ | ⟨-, -, ⟨-, rfl⟩ | ⟨-, -, ⟨-, rfl⟩ | ⟨-, -, ⟨-, rfl⟩ | ⟨-, -, h⟩⟩⟩⟩
  · rfl
  · rfl
  · rfl
  · rfl
  · cases h

theorem undone_diagnosticInput {e : DatabaseError} (h : diagnosticInput env = .error e) :
    SaysUndone e := by
  unfold diagnosticInput at h
  split at h
  next =>
    split at h
    next => cases h
    next declared _ =>
      simp only [bind_eq_error, failIf_eq_error] at h
      rcases h with htracker | ⟨-, -, ⟨-, rfl⟩ | ⟨-, -, h⟩⟩
      · exact .inl (undone_trackerNew htracker)
      · exact .inl rfl
      · cases h
  next => cases h

/-- What the opening comes to: the path, an answer of the server, or a refusal before it. -/
structure Opened (env : Env) (r : Result (Option Nat)) (s : State) : Prop where
  start : s = State.init env
  value : ∀ diagnostic, r = .ok diagnostic →
    diagnosticInput env = .ok diagnostic ∧ env.openingAnswer = none
  error : ∀ e, r = .error e →
    (∃ phase error, env.openingAnswer = some (phase, error) ∧ e = classifyError phase error) ∨
      (env.openingAnswer = none ∧ SaysUndone e)

theorem opened_refused {e : DatabaseError} (hanswer : env.openingAnswer = none)
    (he : SaysUndone e) : Opened env (.error e) (State.init env) :=
  ⟨rfl, fun _ hr => (by cases hr), fun _ hr => (by cases hr; exact .inr ⟨hanswer, he⟩)⟩

theorem opened_answered {phase : ErrorPhase} {error : DriverError}
    (hanswer : env.openingAnswer = some (phase, error)) :
    Opened env (.error (classifyError phase error)) (State.init env) :=
  ⟨rfl, fun _ hr => (by cases hr), fun _ hr => (by cases hr; exact .inl ⟨phase, error, hanswer, rfl⟩)⟩

/-- Past its own checks the opening is what the pool and the server answer. -/
theorem openingAnswer_eq {diagnostic : Option Nat} (htoken : env.token = none)
    (hschema : env.schemaMatches = true) (hdriver : env.driverState = true)
    (hdiagnostic : diagnosticInput env = .ok diagnostic) :
    env.openingAnswer =
      match env.checkout with
      | .ended (.error (.driver error)) => some (.connect, error)
      | .ended (.ok reused) =>
        match (if reused then env.discarded else .ended (.ok ())), env.begun with
        | .ended (.error error), _ => some (.connect, error)
        | .ended (.ok ()), .ended (.error error) => some (.write, error)
        | _, _ => none
      | _ => none := by
  have hgoes : ¬ (env.token.isSome ∨ env.schemaMatches = false ∨ env.driverState = false ∨
      ¬ (diagnosticInput env).isOk) := by
    rw [htoken, hschema, hdriver, hdiagnostic]
    simp [Except.isOk, Except.toBool]
  unfold Env.openingAnswer
  rw [if_neg hgoes]

theorem opening_begun (begun : Awaited (Except DriverError Unit)) :
    (match (Awaited.ended (.ok ()) : Awaited (Except DriverError Unit)), begun with
      | .ended (.error error), _ => some (ErrorPhase.connect, error)
      | .ended (.ok ()), .ended (.error error) => some (.write, error)
      | _, _ => none) =
    match begun with
      | .ended (.error error) => some (.write, error)
      | _ => none := by
  rcases begun with (_ | _) | _ <;> rfl

/-- BEGIN, once the client is there. -/
theorem opened_begin {diagnostic : Option Nat} (hdiagnostic : diagnosticInput env = .ok diagnostic)
    (hanswer : env.openingAnswer = match env.begun with
      | .ended (.error error) => some (.write, error)
      | _ => none) {s : State} (hs : { s with reusable := false } = State.init env) :
    Opened env (outcome (begin_ env >>= fun _ => pure diagnostic) s).1
      (outcome (begin_ env >>= fun _ => pure diagnostic) s).2 := by
  unfold begin_
  cases hbegun : env.begun with
  | cancelled reason =>
    rw [hbegun] at hanswer
    let e := publicError (interruptionCategory reason) .write false (interruptionMessage reason)
    have hopened := opened_refused hanswer (e := e) (.inl rfl)
    rw [← hs] at hopened
    exact hopened
  | ended answer =>
    rw [hbegun] at hanswer
    cases answer with
    | error error =>
      have hopened := opened_answered hanswer
      rw [← hs] at hopened
      exact hopened
    | ok _ =>
      refine ⟨hs, fun _ hr => ?_, fun _ hr => (by cases hr)⟩
      cases hr
      exact ⟨hdiagnostic, hanswer⟩

/-- **The opening refuses, ends with an answer, or leaves a transaction open.** -/
theorem opened_openTransaction :
    Opened env (outcome (openTransaction env) (State.init env)).1
      (outcome (openTransaction env) (State.init env)).2 := by
  unfold openTransaction checkStart
  cases htoken : env.token with
  | some reason => exact opened_refused (by simp [Env.openingAnswer, htoken]) (.inl rfl)
  | none =>
  cases hschema : env.schemaMatches with
  | false => exact opened_refused (by simp [Env.openingAnswer, hschema]) (.inl rfl)
  | true =>
  cases hdriver : env.driverState with
  | false => exact opened_refused (by simp [Env.openingAnswer, hdriver]) (.inl rfl)
  | true =>
  cases hdiagnostic : diagnosticInput env with
  | error e =>
    have hanswer : env.openingAnswer = none := by
      unfold Env.openingAnswer
      rw [hdiagnostic]
      exact if_pos (.inr (.inr (.inr fun hok => (by cases hok))))
    exact opened_refused hanswer (undone_diagnosticInput hdiagnostic)
  | ok diagnostic =>
  have hanswer := openingAnswer_eq htoken hschema hdriver hdiagnostic
  unfold checkout
  cases hcheckout : env.checkout with
  | cancelled reason =>
    rw [hcheckout] at hanswer
    exact opened_refused hanswer (.inl rfl)
  | ended answer =>
  rw [hcheckout] at hanswer
  cases answer with
  | error failure =>
    cases failure with
    | invalidPlan message => exact opened_refused hanswer (.inl rfl)
    | refused category retryable message => exact opened_refused hanswer (.inl rfl)
    | driver error => exact opened_answered hanswer
  | ok reused =>
  cases reused with
  | false =>
    have hbegun := hanswer.trans (opening_begun env.begun)
    exact opened_begin hdiagnostic hbegun (s := { State.init env with reusable := true }) rfl
  | true =>
  unfold discardAll
  cases hdiscarded : env.discarded with
  | cancelled reason =>
    rw [hdiscarded] at hanswer
    exact opened_refused hanswer (.inl rfl)
  | ended answer =>
  rw [hdiscarded] at hanswer
  cases answer with
  | error error => exact opened_answered hanswer
  | ok _ =>
    have hbegun := hanswer.trans (opening_begun env.begun)
    exact opened_begin hdiagnostic hbegun (s := State.init env) rfl

/-- The statements between the opening and the rows. -/
theorem meets_prepared {rows : Run WriteOutcome}
    (h : Meets (fun s => Before s ∧ Applied env 0 s) rows fun r s => Ends env (r, s)) :
    Meets (fun s => Before s ∧ Applied env 0 s) (do
      step env .closePath
      step env .pinSession
      stepIf env env.spatial .qualifier
      rows) fun r s => Ends env (r, s) := by
  have herror : ∀ e s, Before s → Settles e → Ends env (.error e, s) := fun _ _ hs he => hs.ends he
  refine (quiet_step _).meets (fun _ hs => hs.1) ?_ herror
  refine (quiet_step _).meets (fun _ hs => hs.1) ?_ herror
  exact (quiet_stepIf _ _).meets (fun _ hs => hs.1) h herror

/-- **A write ends as its answers say exactly where the server did not run out of memory on
opening it.** -/
theorem execute_ends_iff (env : Env) :
    Ends env (outcome (execute env) (State.init env)) ↔ env.Spared := by
  have hopened := @opened_openTransaction env
  have hstart : Before (State.init env) ∧ Applied env 0 (State.init env) := by
    have hbefore : Before (State.init env) := ⟨rfl, fun ⟨_, hsent⟩ => (by cases hsent)⟩
    exact ⟨hbefore, hbefore, rfl, rfl, Nat.zero_add _, fun h => absurd h (by decide)⟩
  unfold execute
  rw [outcome_bind]
  rcases hresult : outcome (openTransaction env) (State.init env) with ⟨e | diagnostic, s⟩
  · rw [hresult] at hopened
    cases hopened.start
    dsimp only
    rcases hopened.error e rfl with ⟨phase, error, hanswer, rfl⟩ | ⟨hanswer, hundone⟩
    · have hsettles := settles_classifyError_iff phase error
      refine ⟨fun h phase' error' hanswer' => ?_, fun h => ?_⟩
      · obtain ⟨rfl, rfl⟩ := Prod.mk.inj (Option.some.inj (hanswer.symm.trans hanswer'))
        refine hsettles.1 ?_
        obtain ⟨ending, hending, -⟩ := h.one
        cases ending with
        | committed => obtain ⟨_, ⟨⟩, _⟩ := hending
        | unknown =>
          rcases hending with ⟨_, _, ⟨⟩, _⟩ | ⟨_, ⟨⟩, hdoubt⟩
          exact .inr hdoubt
        | undone =>
          obtain ⟨_, ⟨⟩, hundone⟩ := hending
          exact .inl hundone
      · exact hstart.1.ends (hsettles.2 (h phase error hanswer))
    · refine ⟨fun _ phase error hanswer' => ?_, fun _ => hstart.1.ends (.inl hundone)⟩
      cases hanswer.symm.trans hanswer'
  · rw [hresult] at hopened
    cases hopened.start
    obtain ⟨hdiagnostic, hanswer⟩ := hopened.value diagnostic rfl
    have hspared : env.Spared := by
      intro phase error hanswer'
      cases hanswer.symm.trans hanswer'
    refine ⟨fun _ => hspared, fun _ => ?_⟩
    cases diagnostic with
    | some inputTotal => exact meets_prepared (ends_writeRows (declared_of hdiagnostic)) _ hstart
    | none => exact meets_prepared (fun s hs => ends_writeInput hdiagnostic s hs.1) _ hstart

/-- `out_of_memory`. -/
def outOfMemory : DriverError := ⟨some "53200", "out of memory", false⟩

/-- An empty input for a pooled client whose BEGIN the server has no memory for. -/
def outOfMemoryOnBegin : Env where
  token := none
  schemaMatches := true
  driverState := true
  mode := .replace
  transactionProfile := .singleTransaction
  createSpatialIndex := false
  spatial := false
  declaredInputRows := none
  policy := ⟨none, none, 10⟩
  hasField _ := true
  process := 1
  sequence := 0
  faultPoint := none
  checkout := .ended (.ok true)
  discarded := .ended (.ok ())
  begun := .ended (.error outOfMemory)
  steps _ := .ended (.ok ())
  keysGuarded := .ok ()
  rowStatement := .ok ()
  rowPrepared := .ended (.ok ())
  rowParameters := .ok ()
  batches := []
  inputEnd := .exhausted
  rows _ := ⟨.ok (), .ended (.ok 1)⟩
  rolledBack := .ok ()
  committed := .ended (.ok ())

/-- No COMMIT was sent, and the error neither says so nor forbids the retry. -/
theorem outOfMemoryOnBegin_breaks :
    ¬ Ends outOfMemoryOnBegin (outcome (execute outOfMemoryOnBegin)
      (State.init outOfMemoryOnBegin)) := by
  intro h
  have hasks : ¬ Settles (classifyError .write outOfMemory) := by decide +kernel
  obtain ⟨ending, hending, -⟩ := h.one
  cases ending with
  | committed => obtain ⟨_, ⟨⟩, _⟩ := hending
  | unknown =>
    rcases hending with ⟨_, _, ⟨⟩, _⟩ | ⟨_, ⟨⟩, hdoubt⟩
    exact hasks (.inr hdoubt)
  | undone =>
    obtain ⟨_, ⟨⟩, hundone⟩ := hending
    exact hasks (.inl hundone)

end Opening

end Plenora.Postgres.Write
