import Plenora.Postgres.Transaction

/-!
# What the end of a PostgreSQL transaction says

While the scope is open its work stays inside the server's transaction.  The
COMMIT is acknowledged also where the transaction has failed and is rolled back;
where it has not, what the scope reports is what the server did.

    Sound durable (reach …) (finish ending (reach …))        where no failed work is committed
                                                                           (endings_sound)
-/

namespace Plenora.Postgres.Transaction

open Plenora.Lib Plenora.Lib.Call Plenora.Core Plenora.Core.Cancellation

variable {α R Row : Type}

/-! ## The property -/

/-- What a commit said; the other calls report no commit. -/
def Value.commitOutcome : Value Row → Option CommitOutcome
  | .commit outcome => some outcome
  | _ => none

/-- What a call reports about a scope that found these changes durable. -/
structure Sound (durable : List α) (before : State α R)
    (ended : Except DatabaseError (Value Row) × State α R) : Prop where
  committed : ended.1 = .ok (.commit .committed) →
    ∃ tx, before.server.tx = some tx ∧ ended.2.server.durable = durable ++ tx.work
  uncommitted : ∀ value, ended.1 = .ok value → value.commitOutcome = none →
    ended.2.server.durable = durable
  undone : ∀ e, ended.1 = .error e → SaysUndone e → ended.2.server.durable = durable
  pooled : ended.2.idle = true → ended.2.server.tx = none

/-- The condition on a step: no COMMIT is sent of a failed transaction that has work to lose.  It is
sent by an open scope whose token has not fired. -/
def Commits (before : State α R) (ending : Ending) : Prop :=
  ending = .commit → before.isOpen = true →
    (before.script before.exchanges).cancelled = none →
      ∀ tx, before.server.tx = some tx → tx.failed = true → tx.work = []

/-! ## The invariant of an open scope -/

/-- The work is in the transaction, and a closed scope is lost to the pool. -/
structure Inv (durable : List α) (s : State α R) : Prop where
  durable : s.server.durable = durable
  inside : s.connected = true → s.server.tx.isSome = true
  closed : s.isOpen = false → s.reusable = false
  idle : s.idle = false

theorem turnDown_inside {command : Command} (hcommit : command ≠ .commit)
    (x : Exchange α R) (error : DriverError) (server : Server α) :
    (turnDown command x error server).durable = server.durable ∧
      (turnDown command x error server).tx.isSome = server.tx.isSome := by
  cases command with
  | commit => exact absurd rfl hcommit
  | rollback => exact ⟨rfl, rfl⟩
  | _ => exact ⟨rfl, Server.isSome_tx_fail server⟩

theorem carryOut_inside {command : Command} (hcommit : command ≠ .commit)
    (hrollback : command ≠ .rollback) (x : Exchange α R) {server : Server α}
    (h : server.tx.isSome = true) :
    (carryOut command x server).durable = server.durable ∧
      (carryOut command x server).tx.isSome = true := by
  cases command with
  | commit => exact absurd rfl hcommit
  | rollback => exact absurd rfl hrollback
  | prepare => exact ⟨rfl, h⟩
  | statement => exact ⟨server.durable_run x.changes h, (server.isSome_tx_run x.changes).trans h⟩
  | savepoint name => exact ⟨rfl, (server.isSome_tx_savepoint name).trans h⟩
  | rollbackTo name => exact ⟨rfl, (server.isSome_tx_rollbackTo name).trans h⟩
  | release name => exact ⟨rfl, (server.isSome_tx_release name).trans h⟩

theorem serve_inside {command : Command} (hcommit : command ≠ .commit)
    (hrollback : command ≠ .rollback) (x : Exchange α R) {server : Server α}
    (h : server.tx.isSome = true) :
    (serve command x server).2.durable = server.durable ∧
      (serve command x server).2.tx.isSome = true := by
  unfold serve
  split
  next error _ =>
    obtain ⟨hdurable, hsome⟩ := turnDown_inside hcommit x error server
    exact ⟨hdurable, hsome.trans h⟩
  next => exact carryOut_inside hcommit hrollback x h

theorem Inv.disconnect {durable : List α} {s : State α R} (h : Inv durable s) :
    Inv durable s.disconnect :=
  ⟨h.durable, fun hconnected => (by cases hconnected), h.closed, h.idle⟩

theorem Inv.serving {durable : List α} {s : State α R} {server : Server α} (h : Inv durable s)
    (hdurable : server.durable = s.server.durable) (hsome : server.tx.isSome = true) :
    Inv durable { s with server } :=
  ⟨hdurable.trans h.durable, fun _ => hsome, h.closed, h.idle⟩

theorem Inv.counted {durable : List α} {s : State α R} (h : Inv durable s) :
    Inv durable { s with exchanges := s.exchanges + 1 } :=
  ⟨h.durable, h.inside, h.closed, h.idle⟩

/-- **A command that does not end the transaction leaves it open, or loses the connection.** -/
theorem exchange_inv {durable : List α} {command : Command} (hcommit : command ≠ .commit)
    (hrollback : command ≠ .rollback) (s : State α R) (h : Inv durable s) :
    Inv durable (State.exchange command s).2 := by
  have hcounted := h.counted
  unfold State.exchange
  dsimp only
  split
  next => exact hcounted
  next hconnected =>
    split
    next => exact hcounted.disconnect
    next =>
      have hsome : s.server.tx.isSome = true := h.inside (by simpa using hconnected)
      obtain ⟨hdurable, hinside⟩ :=
        serve_inside hcommit hrollback (s.script s.exchanges) hsome
      have hserved := hcounted.serving hdurable hinside
      split
      next => exact hserved.disconnect
      next =>
        split
        next => exact hserved
        next error _ =>
          show Inv durable (if error.closed = true then _ else _)
          split
          next => exact hserved.disconnect
          next => exact hserved

section Requests

variable {durable : List α}

theorem keeps_checkToken (phase : ErrorPhase) :
    Keeps (Inv durable) (checkToken phase : Scope α R Unit) :=
  .bind (keeps_exchange fun _ h => h.counted) fun _ => keeps_ofResult _

theorem keeps_abandon : Keeps (Inv durable) (abandon : Scope α R Unit) := by
  intro s h
  exact ⟨h.durable, h.inside, fun _ => rfl, h.idle⟩

theorem keeps_sending {command : Command} (hcommit : command ≠ .commit)
    (hrollback : command ≠ .rollback) (phase : ErrorPhase) (message : String) :
    Keeps (Inv durable) (sending command phase message : Scope α R (Except DriverError (Answer R))) := by
  refine .bind (keeps_exchange (exchange_inv hcommit hrollback)) ?_
  rintro ⟨cancelled, answer⟩
  cases cancelled with
  | some reason => exact .bind keeps_abandon fun _ => keeps_throw _
  | none => exact keeps_pure _

theorem keeps_failWith {β : Type} (phase : ErrorPhase) (error : DriverError) :
    Keeps (Inv durable) (failWith phase error : Scope α R β) := by
  unfold failWith
  cases error.closed with
  | true => exact .bind keeps_abandon fun _ => keeps_throw _
  | false => exact .bind (keeps_pure ()) fun _ => keeps_throw _

theorem keeps_mapError {β : Type} (phase : ErrorPhase) (r : Except DriverError β) :
    Keeps (Inv durable) (mapError phase r : Scope α R β) := by
  cases r with
  | ok b => exact keeps_pure b
  | error error => exact keeps_throw _

theorem keeps_ensureOpen (phase : ErrorPhase) :
    Keeps (Inv durable) (ensureOpen phase : Scope α R Unit) :=
  keeps_refuseIf _ _

variable (client : Client R Row)

theorem keeps_prepareBind (statement : Statement) (phase : ErrorPhase) :
    Keeps (Inv durable) (prepareBind client statement phase : Scope α R Unit) := by
  refine .bind (keeps_sending (by decide) (by decide) _ _) fun _ => ?_
  exact .bind (keeps_mapError _ _) fun _ => keeps_ofResult _

theorem keeps_execute (statement : Statement) :
    Keeps (Inv durable) (execute client statement : Scope α R Nat) := by
  refine .bind (keeps_ensureOpen _) fun _ => .bind (keeps_ofResult _) fun _ =>
    .bind (keeps_checkToken _) fun _ => .bind (keeps_ofResult _) fun _ =>
    .bind (keeps_prepareBind client _ _) fun _ =>
    .bind (keeps_sending (by decide) (by decide) _ _) fun result => ?_
  cases result with
  | ok answer => exact keeps_pure _
  | error error => exact keeps_failWith _ _

theorem keeps_query (statement : Statement) :
    Keeps (Inv durable) (query client statement : Scope α R (List Row)) :=
  .bind (keeps_ensureOpen _) fun _ => .bind (keeps_ofResult _) fun _ =>
    .bind (keeps_checkToken _) fun _ => .bind (keeps_ofResult _) fun _ =>
    .bind (keeps_prepareBind client _ _) fun _ =>
    .bind (keeps_sending (by decide) (by decide) _ _) fun _ =>
    .bind (keeps_mapError _ _) fun _ => keeps_ofResult _

theorem keeps_savepointCommand {command : Command} (hcommit : command ≠ .commit)
    (hrollback : command ≠ .rollback) (name : String) (phase : ErrorPhase) (message : String) :
    Keeps (Inv durable) (savepointCommand command name phase message : Scope α R Unit) :=
  .bind (keeps_ensureOpen _) fun _ => .bind (keeps_checkToken _) fun _ =>
    .bind (keeps_ofResult _) fun _ => .bind (keeps_sending hcommit hrollback _ _) fun _ =>
    .bind (keeps_mapError _ _) fun _ => keeps_pure _

theorem keeps_rollbackToSavepoint (name : String) :
    Keeps (Inv durable) (rollbackToSavepoint name : Scope α R Unit) := by
  refine .bind (keeps_ensureOpen _) fun _ => .bind (keeps_checkToken _) fun _ =>
    .bind (keeps_ofResult _) fun _ =>
    .bind (keeps_sending (fun h => (by cases h)) (fun h => (by cases h)) _ _) fun result => ?_
  cases result with
  | ok answer => exact keeps_pure _
  | error error => exact keeps_throw _

theorem keeps_probeKey (probe : Statement) :
    Keeps (Inv durable) (probeKey client probe : Scope α R Unit) := by
  refine .bind (keeps_checkToken _) fun _ => .bind (keeps_ofResult _) fun _ =>
    .bind (keeps_prepareBind client _ _) fun _ =>
    .bind (keeps_sending (by decide) (by decide) _ _) fun _ =>
    .bind (keeps_mapError _ _) fun answer => ?_
  split
  next => exact keeps_throw _
  next => exact keeps_pure _

theorem keeps_executeConditionalUpdate (request : ConditionalUpdate) :
    Keeps (Inv durable) (executeConditionalUpdate client request : Scope α R Unit) := by
  refine .bind (keeps_ensureOpen _) fun _ => .bind (keeps_ofResult _) fun _ =>
    .bind (keeps_ofResult _) fun _ => .bind (keeps_checkToken _) fun _ =>
    .bind (keeps_ofResult _) fun _ => .bind (keeps_prepareBind client _ _) fun _ =>
    .bind (keeps_sending (by decide) (by decide) _ _) fun result => ?_
  cases result with
  | error error => exact keeps_failWith _ _
  | ok answer =>
    dsimp only
    split
    next => exact keeps_pure _
    next =>
      refine .bind ?_ fun _ => keeps_throw _
      cases request.keyProbe with
      | none => exact keeps_pure _
      | some probe => exact keeps_probeKey client probe

/-- **Every call keeps the work of the scope in its transaction.** -/
theorem keeps_perform (request : Request) :
    Keeps (Inv durable) (perform client request : Scope α R (Value Row)) := by
  cases request with
  | execute statement => exact .bind (keeps_execute client statement) fun _ => keeps_pure _
  | query statement => exact .bind (keeps_query client statement) fun _ => keeps_pure _
  | savepoint name =>
    exact .bind (keeps_savepointCommand (fun h => (by cases h)) (fun h => (by cases h)) _ _ _)
      fun _ => keeps_pure _
  | rollbackToSavepoint name =>
    exact .bind (keeps_rollbackToSavepoint name) fun _ => keeps_pure _
  | releaseSavepoint name =>
    exact .bind (keeps_savepointCommand (fun h => (by cases h)) (fun h => (by cases h)) _ _ _)
      fun _ => keeps_pure _
  | conditionalUpdate request =>
    exact .bind (keeps_executeConditionalUpdate client request) fun _ => keeps_pure _

theorem reach_inv {s : State α R} (h : Inv durable s) (requests : List Request) :
    Inv durable (reach client s requests) := by
  induction requests generalizing s with
  | nil => exact h
  | cons request requests ih => exact ih (keeps_perform client request s h)

theorem opened_inv (durable : List α) (script : Nat → Exchange α R) :
    Inv durable (opened durable script) :=
  ⟨rfl, fun _ => rfl, fun h => (by cases h), rfl⟩

end Requests

/-! ## The end of the scope -/

section Endings

variable {durable : List α}

/-- An exchange does not touch the flags of the scope. -/
theorem exchange_flags (command : Command) (s : State α R) :
    (State.exchange command s).2.isOpen = s.isOpen ∧
      (State.exchange command s).2.reusable = s.reusable ∧
      (State.exchange command s).2.idle = s.idle := by
  unfold State.exchange
  dsimp only
  split
  next => exact ⟨rfl, rfl, rfl⟩
  next =>
    split
    next => exact ⟨rfl, rfl, rfl⟩
    next =>
      split
      next => exact ⟨rfl, rfl, rfl⟩
      next =>
        split
        next => exact ⟨rfl, rfl, rfl⟩
        next error _ =>
          dsimp only
          split
          next => exact ⟨rfl, rfl, rfl⟩
          next => exact ⟨rfl, rfl, rfl⟩

/-- What a COMMIT or a ROLLBACK comes to: done and acknowledged, or an error that a code may
prove to be a rollback. -/
inductive Concluded (durable : List α) (before : State α R) (done : Server α) :
    Except DriverError (Answer R) → State α R → Prop where
  | acknowledged (answer : Answer R) (after : State α R) (hserver : after.server = done)
      (hconnected : before.connected = true) : Concluded durable before done (.ok answer) after
  | failed (error : DriverError) (after : State α R)
      (hproved : commitRejectionProvesRollback error = true →
        after.server.durable = durable ∧ after.server.tx = none) :
      Concluded durable before done (.error error) after

theorem concluded_closed {before after : State α R} {done : Server α} :
    Concluded durable before done (.error closedConnection) after :=
  .failed _ _ fun h => (by cases h)

theorem exchange_commit {s : State α R} (h : Inv durable s) :
    Concluded durable s s.server.commit (State.exchange .commit s).1.2
      (State.exchange .commit s).2 := by
  unfold State.exchange
  dsimp only
  split
  next => exact concluded_closed
  next hconnected =>
    have hconnected : s.connected = true := by simpa using hconnected
    split
    next => exact concluded_closed
    next =>
      split
      next => exact concluded_closed
      next =>
        unfold serve refusalOf
        cases (s.script s.exchanges).refusal with
        | none => exact .acknowledged _ _ rfl hconnected
        | some error =>
          refine .failed _ _ fun hproves => ?_
          have hrolled : turnDown .commit (s.script s.exchanges) error s.server =
              s.server.rollback := if_pos hproves
          dsimp only
          rw [hrolled]
          split
          next => exact ⟨h.durable, rfl⟩
          next => exact ⟨h.durable, rfl⟩

theorem exchange_rollback {s : State α R} (h : Inv durable s) :
    (State.exchange .rollback s).2.server.durable = durable ∧
      ∀ answer, (State.exchange .rollback s).1.2 = .ok answer →
        (State.exchange .rollback s).2.server.tx = none := by
  unfold State.exchange
  dsimp only
  split
  next => exact ⟨h.durable, fun _ hok => (by cases hok)⟩
  next =>
    split
    next => exact ⟨h.durable, fun _ hok => (by cases hok)⟩
    next =>
      unfold serve refusalOf
      cases (s.script s.exchanges).refusal with
      | none =>
        dsimp only
        split
        next => exact ⟨h.durable, fun _ hok => (by cases hok)⟩
        next => exact ⟨h.durable, fun _ _ => rfl⟩
      | some error =>
        dsimp only
        split
        next => exact ⟨h.durable, fun _ hok => (by cases hok)⟩
        next =>
          refine ⟨?_, fun _ hok => (by cases hok)⟩
          split
          next => exact h.durable
          next => exact h.durable

/-- The state before the drop, after a call that consumes the scope. -/
structure Closing {β : Type} (durable : List α) (before : State α R)
    (outcomeOf : β → Option CommitOutcome) (result : Except DatabaseError β)
    (after : State α R) : Prop where
  committed : ∀ b, result = .ok b → outcomeOf b = some .committed →
    ∃ tx, before.server.tx = some tx ∧ after.server.durable = durable ++ tx.work
  uncommitted : ∀ b, result = .ok b → outcomeOf b = none → after.server.durable = durable
  undone : ∀ e, result = .error e → SaysUndone e → after.server.durable = durable
  pooled : after.reusable = true → after.isOpen = false → after.connected = true →
    after.server.tx = none
  idle : after.idle = false

theorem Inv.closing_error {β : Type} {outcomeOf : β → Option CommitOutcome} {before s : State α R}
    (h : Inv durable s) (e : DatabaseError) :
    Closing durable before outcomeOf (.error e) s := by
  refine ⟨fun _ hb => (by cases hb), fun _ _ _ => h.durable, fun _ _ _ => h.durable,
    fun hreusable hclosed => ?_, h.idle⟩
  rw [h.closed hclosed] at hreusable
  cases hreusable

theorem meets_commit {s : State α R} (h : Inv durable s) (hguard : Commits s .commit) :
    Meets (· = s) (commit : Scope α R CommitOutcome) (Closing durable s some) := by
  refine .bind (R := fun r s' => s' = s ∧ (r = .ok () → s.isOpen = true)) ?_ ?_
    fun e s' hs => (hs.1 ▸ h : Inv durable s').closing_error e
  · rintro s rfl
    refine ⟨rfl, fun hok => ?_⟩
    cases hopen : s.isOpen with
    | true => rfl
    | false => simp [ensureOpen, hopen] at hok
  intro _
  refine .bind (R := fun r s' => Inv durable s' ∧ (r = .ok () → s'.server = s.server ∧
    s.isOpen = true ∧ (s.script s.exchanges).cancelled = none)) ?_ ?_
    fun e s' hs => hs.1.closing_error e
  · rintro s ⟨rfl, hopen⟩
    refine ⟨keeps_checkToken .commit _ h, fun hok => ⟨rfl, hopen rfl, ?_⟩⟩
    cases htoken : (s.script s.exchanges).cancelled with
    | none => rfl
    | some reason => simp [checkToken, outcome_bind, htoken, checkCancelled] at hok
  intro _ s' ⟨h', hsent⟩
  obtain ⟨hserver, hopen, htoken⟩ := hsent rfl
  rw [outcome_bind, outcome_exchange]
  obtain ⟨-, hreusable, hidle⟩ := exchange_flags .commit s'
  have hconcluded := exchange_commit h'
  generalize State.exchange Command.commit s' = r at hconcluded hreusable hidle ⊢
  obtain ⟨⟨cancelled, answer⟩, after⟩ := r
  dsimp only at hconcluded hreusable hidle ⊢
  cases cancelled with
  | some reason =>
    -- the token fired with the COMMIT on its way: the client is lost to the pool
    exact ⟨fun _ hb hcommitted => (by cases hb; cases hcommitted), fun _ _ hnone => (by cases hnone),
      fun _ he => (by cases he), fun hr => (by cases hr), hidle.trans h'.idle⟩
  | none =>
    cases hconcluded with
    | acknowledged answer after hdone hconnected =>
      obtain ⟨tx, htx⟩ := Option.isSome_iff_exists.1 (h'.inside hconnected)
      have hbefore : s.server.tx = some tx := by rw [← hserver, htx]
      refine ⟨fun _ _ _ => ⟨tx, hbefore, ?_⟩, fun _ _ hnone => (by cases hnone),
        fun _ he => (by cases he), fun _ _ _ => ?_, hidle.trans h'.idle⟩
      · show after.server.durable = durable ++ tx.work
        rw [hdone, Server.durable_commit _ htx (hguard rfl hopen htoken tx hbefore), h'.durable]
      · show after.server.tx = none
        rw [hdone, Server.tx_commit]
    | failed error after hproved =>
      have hidle : after.idle = false := hidle.trans h'.idle
      cases hproves : commitRejectionProvesRollback error with
      | true =>
        obtain ⟨hdurable, htx⟩ := hproved hproves
        have hresult : commitFailure error = .error _ :=
          (congrArg _ hproves).trans (commitFailureOutcome_true _)
        simp only [hproves, outcome_bind, close, outcome_update]
        split
        next =>
          show Closing durable s _ (commitFailure error) _
          rw [hresult]
          exact ⟨fun _ hb => (by cases hb), fun _ hb => (by cases hb), fun _ _ _ => hdurable,
            fun _ _ _ => htx, hidle⟩
        next =>
          show Closing durable s _ (commitFailure error) _
          rw [hresult]
          exact ⟨fun _ hb => (by cases hb), fun _ hb => (by cases hb), fun _ _ _ => hdurable,
            fun _ _ _ => htx, hidle⟩
      | false =>
        -- no code proves the rollback: the outcome is unknown, and the client is lost to the pool
        have hresult : commitFailure error = .ok (.outcomeUnknown _) :=
          (congrArg _ hproves).trans (commitFailureOutcome_false _)
        simp only [hproves, outcome_bind, close, outcome_update]
        show Closing durable s _ (commitFailure error) _
        rw [hresult]
        exact ⟨fun _ hb hcommitted => (by cases hb; cases hcommitted),
          fun _ _ hnone => (by cases hnone), fun _ he => (by cases he), fun hr => (by cases hr),
          hidle⟩

theorem meets_rollback {s : State α R} (h : Inv durable s) :
    Meets (· = s) (rollback : Scope α R Unit) (Closing durable s fun _ => none) := by
  rintro s rfl
  obtain ⟨-, -, hidle⟩ := exchange_flags .rollback s
  obtain ⟨hdurable, htx⟩ := exchange_rollback h
  unfold rollback
  rw [outcome_bind, outcome_exchange]
  generalize State.exchange Command.rollback s = r at hidle hdurable htx ⊢
  obtain ⟨⟨cancelled, answer⟩, after⟩ := r
  dsimp only at hidle hdurable htx ⊢
  have hidle : after.idle = false := hidle.trans h.idle
  cases answer with
  | ok answer =>
    exact ⟨fun _ _ hcommitted => (by cases hcommitted), fun _ _ _ => hdurable,
      fun _ he => (by cases he), fun _ _ _ => htx answer rfl, hidle⟩
  | error error =>
    refine ⟨fun _ hb => (by cases hb), fun _ hb => (by cases hb), fun e he hundone => ?_,
      fun hr => (by cases hr), hidle⟩
    obtain rfl := Except.error.inj he
    exact (saysUndone_unknown rfl hundone).elim

/-- The client goes back to the pool only as the call that ended the scope left it. -/
theorem Closing.drop {β : Type} {outcomeOf : β → Option CommitOutcome}
    {result : Except DatabaseError β} {before after : State α R}
    (h : Closing durable before outcomeOf result after) :
    after.drop.server.durable = after.server.durable ∧
      (after.drop.idle = true → after.drop.server.tx = none) := by
  unfold State.drop
  split
  next hdrop =>
    simp only [Bool.and_eq_true, Bool.not_eq_true'] at hdrop
    exact ⟨rfl, fun _ => h.pooled hdrop.1.1 hdrop.1.2 hdrop.2⟩
  next => exact ⟨rfl, fun _ => rfl⟩

theorem Closing.sound {before after : State α R} {result : Except DatabaseError (Value Row)}
    (h : Closing durable before Value.commitOutcome result after) :
    Sound durable before (result, after.drop) := by
  obtain ⟨hdurable, hpooled⟩ := h.drop
  refine ⟨fun hcommitted => ?_, fun value hvalue hnone => ?_, fun e he hundone => ?_, hpooled⟩
  · obtain ⟨tx, htx, hwork⟩ := h.committed _ hcommitted rfl
    exact ⟨tx, htx, hdurable.trans hwork⟩
  · exact hdurable.trans (h.uncommitted value hvalue hnone)
  · exact hdurable.trans (h.undone e he hundone)

theorem finish_eq (ending : Ending) (s : State α R) :
    (finish ending s : Except DatabaseError (Value Row) × State α R) =
      ((outcome (conclude ending) s).1, (outcome (conclude ending : Scope α R (Value Row)) s).2.drop) :=
  rfl

/-- The value of the call that ended the scope, rewrapped. -/
theorem closing_map {β γ : Type} {P : State α R → Prop} {x : Scope α R β} (f : β → γ)
    {before : State α R} {outcomeOf : γ → Option CommitOutcome}
    (h : Meets P x (Closing durable before fun b => outcomeOf (f b))) :
    Meets P (x >>= fun b => pure (f b)) (Closing durable before outcomeOf) := by
  refine .bind h (fun b s hs => ?_) fun e s hs => ?_
  · refine ⟨fun c hc hcommitted => ?_, fun c hc hnone => ?_, fun _ he => (by cases he), hs.pooled,
      hs.idle⟩
    · obtain rfl := Except.ok.inj hc
      exact hs.committed b rfl hcommitted
    · obtain rfl := Except.ok.inj hc
      exact hs.uncommitted b rfl hnone
  · exact ⟨fun _ hc => (by cases hc), fun _ hc => (by cases hc),
      fun e' he => hs.undone e' (by cases he; rfl), hs.pooled, hs.idle⟩

theorem meets_conclude {s : State α R} (h : Inv durable s) {ending : Ending}
    (hguard : Commits s ending) :
    Closing durable s Value.commitOutcome
      (outcome (conclude ending : Scope α R (Value Row)) s).1
      (outcome (conclude ending : Scope α R (Value Row)) s).2 := by
  cases ending with
  | commit => exact closing_map (P := (· = s)) Value.commit (meets_commit h hguard) s rfl
  | rollback => exact closing_map (P := (· = s)) (fun _ => Value.done) (meets_rollback h) s rfl
  | drop =>
    refine ⟨fun b hb hcommitted => ?_, fun _ _ _ => h.durable, fun _ he => (by cases he),
      fun hreusable hclosed => ?_, h.idle⟩
    · cases hb
      cases hcommitted
    · have hlost : s.reusable = false := h.closed hclosed
      exact absurd (hlost.symm.trans hreusable) (by decide)

/-- **An ending that commits no failed work reports what the server did.** -/
theorem finish_sound {s : State α R} (h : Inv durable s) {ending : Ending}
    (hguard : Commits s ending) :
    Sound durable s (finish ending s : Except DatabaseError (Value Row) × State α R) :=
  (finish_eq ending s : _ = _) ▸ Closing.sound (meets_conclude h hguard)

end Endings

/-! ## Every run -/

section Runs

variable (client : Client R Row)

/-- A call that leaves the scope open reports no commit. -/
theorem perform_commitOutcome (request : Request) (s : State α R) {value : Value Row}
    (h : (outcome (perform client request) s).1 = .ok value) : value.commitOutcome = none := by
  have hmap : ∀ {β : Type} (x : Scope α R β) (f : β → Value Row),
      (∀ b, (f b).commitOutcome = none) →
      (outcome (x >>= fun b => pure (f b)) s).1 = .ok value → value.commitOutcome = none := by
    intro β x f hf hvalue
    rw [outcome_bind] at hvalue
    rcases hx : outcome x s with ⟨_ | b, s'⟩
    · rw [hx] at hvalue
      cases hvalue
    · rw [hx] at hvalue
      obtain rfl := Except.ok.inj hvalue
      exact hf b
  cases request with
  | execute statement => exact hmap (execute client statement) _ (fun _ => rfl) h
  | query statement => exact hmap (query client statement) _ (fun _ => rfl) h
  | savepoint name => exact hmap (savepoint name) _ (fun _ => rfl) h
  | rollbackToSavepoint name => exact hmap (rollbackToSavepoint name) _ (fun _ => rfl) h
  | releaseSavepoint name => exact hmap (releaseSavepoint name) _ (fun _ => rfl) h
  | conditionalUpdate request =>
    exact hmap (executeConditionalUpdate client request) _ (fun _ => rfl) h

theorem perform_sound {durable : List α} {s : State α R} (h : Inv durable s) (request : Request) :
    Sound durable s (outcome (perform client request) s) := by
  have hafter : Inv durable (outcome (perform client request) s).2 := keeps_perform client request s h
  refine ⟨fun hcommitted => ?_, fun _ _ _ => hafter.durable, fun _ _ _ => hafter.durable,
    fun hidle => ?_⟩
  · cases perform_commitOutcome client request s hcommitted
  · exact absurd (hafter.idle.symm.trans hidle) (by decide)

/-- **After any calls, what a call reports is what the server did; and so is what the end of the
scope reports, unless a failed transaction with work to lose is committed.** -/
theorem endings_sound (durable : List α) (script : Nat → Exchange α R) (requests : List Request) :
    let before := reach client (opened durable script) requests
    (∀ request, Sound durable before (outcome (perform client request) before)) ∧
      ∀ ending, Commits before ending →
        Sound durable before (finish ending before : Except DatabaseError (Value Row) × State α R) := by
  intro before
  have h : Inv durable before := reach_inv client (opened_inv durable script) requests
  exact ⟨perform_sound client h, fun ending hguard => finish_sound h hguard⟩

end Runs

/-! ## One statement, then one the server refuses -/

def lenient : Client Unit Unit :=
  ⟨fun _ => .ok (), fun _ => .ok (), fun _ _ => .ok (), fun rows => .ok rows⟩

/-- The exchange at this place is refused with a unique violation; every statement adds a row. -/
def refusedAt (place : Nat) (n : Nat) : Exchange Nat Unit where
  arrives := true
  refusal := if n = place then some ⟨some "23505", "", false⟩ else none
  committed := false
  changes := [n]
  answer := ⟨[], 1, []⟩
  breaks := false
  cancelled := none

def insert : Request := .execute ⟨"INSERT INTO t VALUES (1)", []⟩

theorem endings_sound_insert :
    let before := reach lenient (opened [] (refusedAt 9)) [insert]
    let ended : Except DatabaseError (Value Unit) × State Nat Unit := finish .commit before
    ended.1 = .ok (.commit .committed) ∧ ended.2.server.durable = [2] ∧ Sound [] before ended :=
  ⟨rfl, rfl, (endings_sound lenient [] (refusedAt 9) [insert]).2 .commit
    fun _ _ _ _ htx hfailed => by cases htx; cases hfailed⟩

/-- **The COMMIT of a failed transaction is acknowledged: committed, and nothing is durable.** -/
theorem endings_unsound :
    let before := reach lenient (opened [] (refusedAt 5)) [insert, insert]
    let ended : Except DatabaseError (Value Unit) × State Nat Unit := finish .commit before
    before.server.tx = some ⟨[2], [], true⟩ ∧ ended.1 = .ok (.commit .committed) ∧
      ended.2.server.durable = [] ∧ ¬ Sound [] before ended := by
  refine ⟨rfl, rfl, rfl, fun h => ?_⟩
  obtain ⟨tx, htx, hdurable⟩ := h.committed rfl
  cases htx
  cases hdurable

end Plenora.Postgres.Transaction
