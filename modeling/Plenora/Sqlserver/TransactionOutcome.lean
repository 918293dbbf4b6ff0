import Plenora.Sqlserver.Transaction

/-!
# What the end of a SQL Server transaction says

An error of a write, a query or a control batch leaves a session that sends
nothing more, or no session.  The errors of a stream leave the session as it was,
so that what follows runs outside the transaction the error ended.

    (∀ step ∈ steps, StreamKept step) → Sound durable (reach …) (finish ending x (reach …))
                                                                              (scope_sound)
-/

namespace Plenora.Sqlserver.Transaction

open Plenora.Lib Plenora.Lib.Call Plenora.Core Plenora.Core.Cancellation

variable {α R Row : Type}

/-! ## The property -/

/-- The commands a scope sends for its caller before the end. -/
def Command.ofCaller : Command → Bool
  | .commit | .rollback => false
  | _ => true

def Value.commitOutcome : Value Row → Option CommitOutcome
  | .commit outcome => some outcome
  | _ => none

/-- What a call reports about a scope that found these changes durable. -/
structure Sound (durable : List α) (before : State α)
    (ended : Except DatabaseError (Value Row) × State α) : Prop where
  received : ∀ entry ∈ ended.2.received, entry.1.ofCaller = true → entry.2 = true
  committed : ended.1 = .ok (.commit .committed) →
    ∃ tx, before.server.tx = some tx ∧ ended.2.server.durable = durable ++ tx.work
  uncommitted : ∀ value, ended.1 = .ok value → value.commitOutcome = none →
    ended.2.server.durable = durable
  undone : ∀ e, ended.1 = .error e → SaysUndone e → ended.2.server.durable = durable
  pooled : ended.2.idle = true → ended.2.server.tx = none

/-- An answer that did not end the transaction with an error. -/
def Exchange.Kept (x : Exchange α R) : Prop := ∀ error, x.refusal = some error → x.ends = false

/-- The condition on a step: no stream is answered with an error that ends the transaction. -/
def StreamKept (step : Request × (Nat → Exchange α R)) : Prop :=
  match step.1 with
  | .queryStream .. => (step.2 0).Kept
  | _ => True

/-! ## The invariant of an open scope -/

/-- What holds also where the server ended the transaction and the session does not know yet. -/
structure Base (durable : List α) (s : State α) : Prop where
  durable : s.server.durable = durable
  alive : s.server.Alive
  received : ∀ entry ∈ s.received, entry.1.ofCaller = true → entry.2 = true
  begun : s.session ≠ .ready
  idle : s.idle = false

/-- A session that says it is in a transaction is in one, as long as it is connected. -/
structure Inv (durable : List α) (s : State α) : Prop extends Base durable s where
  inside : s.session = .transaction → s.connected = true → s.server.tx.isSome = true

variable {durable : List α}

theorem Base.quarantine {s : State α} (h : Base durable s) : Inv durable s.quarantine where
  durable := h.durable
  alive := s.server.alive_rollback
  received := h.received
  begun := by
    show (s.session.apply .cancelled).state ≠ .ready
    rw [apply_cancelled]
    decide
  idle := h.idle
  inside := fun _ hconnected => (by cases hconnected)

theorem Base.statementFailed {s : State α} (h : Base durable s)
    (hsession : s.session = .transaction) :
    Inv durable { s with session := (s.session.apply .statementFailed).state } where
  durable := h.durable
  alive := h.alive
  received := h.received
  begun := by
    show (s.session.apply .statementFailed).state ≠ .ready
    rw [hsession]
    decide
  idle := h.idle
  inside := by
    rw [hsession]
    exact fun huncommittable => (by cases huncommittable)

/-! ## Sending a command -/

theorem durable_carryOut {command : Command} (hcommit : command ≠ .commit) (x : Exchange α R)
    {server : Server α} (h : server.tx.isSome = true) :
    (carryOut command x server).durable = server.durable := by
  cases command with
  | commit => exact absurd rfl hcommit
  | statement => exact server.durable_run x.changes h
  | _ => rfl

theorem alive_carryOut {command : Command} (x : Exchange α R) {server : Server α}
    (h : server.Alive) : (carryOut command x server).Alive := by
  cases command with
  | commit => exact fun _ htx => (by rw [carryOut, Server.tx_commit] at htx; cases htx)
  | rollback => exact server.alive_rollback
  | statement => exact h.run x.changes
  | rowCount => exact h
  | saveTransaction name => exact h.savepoint name
  | rollbackTransaction name => exact h.rollbackTo name

theorem isSome_carryOut {command : Command} (hcommit : command ≠ .commit)
    (hrollback : command ≠ .rollback) (x : Exchange α R) {server : Server α}
    (h : server.tx.isSome = true) : (carryOut command x server).tx.isSome = true := by
  cases command with
  | commit => exact absurd rfl hcommit
  | rollback => exact absurd rfl hrollback
  | statement => exact (server.isSome_tx_run x.changes).trans h
  | rowCount => exact h
  | saveTransaction name => exact (server.isSome_tx_savepoint name).trans h
  | rollbackTransaction name => exact (server.isSome_tx_rollbackTo name).trans h

/-- What a refused command leaves: the server as it was, or with its changes, or rolled back. -/
theorem turnDown_cases {command : Command} (hcommit : command ≠ .commit) (x : Exchange α R)
    (error : DriverError) (server : Server α) :
    (x.ends = true ∧ turnDown command x error server = server.rollback) ∨
      turnDown command x error server = server ∨
        turnDown command x error server = server.run x.changes := by
  cases hends : x.ends with
  | true =>
    refine .inl ⟨rfl, ?_⟩
    cases command with
    | commit => exact absurd rfl hcommit
    | _ => exact if_pos hends
  | false =>
    refine .inr ?_
    have hno : ¬ x.ends = true := by rw [hends]; decide
    cases command with
    | commit => exact absurd rfl hcommit
    | statement => exact .inr (if_neg hno)
    | _ => exact .inl (if_neg hno)

/-- What a command other than a COMMIT does in a transaction. -/
structure Served (command : Command) (x : Exchange α R) (server : Server α)
    (r : Except DriverError (Answer R) × Server α) : Prop where
  durable : r.2.durable = server.durable
  alive : r.2.Alive
  done : ∀ answer, r.1 = .ok answer → r.2.tx.isSome = true
  kept : command = .statement → x.Kept → r.2.tx.isSome = true

theorem serve_served {command : Command} (hcommit : command ≠ .commit)
    (hrollback : command ≠ .rollback) (x : Exchange α R) {server : Server α}
    (h : server.tx.isSome = true) (halive : server.Alive) :
    Served command x server (serve command x server) := by
  unfold serve
  split
  next error hrefusal =>
    rcases turnDown_cases hcommit x error server with ⟨hends, heq⟩ | heq | heq
    · rw [heq]
      refine ⟨rfl, server.alive_rollback, fun _ hok => (by cases hok), fun hstatement hkept => ?_⟩
      subst hstatement
      exact absurd (hends.symm.trans (hkept error hrefusal)) (by decide)
    · rw [heq]
      exact ⟨rfl, halive, fun _ hok => (by cases hok), fun _ _ => h⟩
    · rw [heq]
      exact ⟨server.durable_run x.changes h, halive.run x.changes, fun _ hok => (by cases hok),
        fun _ _ => (server.isSome_tx_run x.changes).trans h⟩
  next =>
    have hinside := isSome_carryOut hcommit hrollback x h
    exact ⟨durable_carryOut hcommit x h, alive_carryOut x halive, fun _ _ => hinside,
      fun _ _ => hinside⟩

/-- A command was sent in the transaction: its answer, and what the session may rely on. -/
structure Answered (durable : List α) (command : Command) (x : Exchange α R)
    (answer : Except DriverError (Answer R)) (s : State α) : Prop where
  base : Base durable s
  session : s.session = .transaction
  done : ∀ a, answer = .ok a → s.connected = true → s.server.tx.isSome = true
  kept : command = .statement → x.Kept → s.connected = true → s.server.tx.isSome = true

theorem answered_lost {command : Command} {x : Exchange α R} {s : State α} (h : Base durable s)
    (hsession : s.session = .transaction) (hconnected : s.connected = false) :
    Answered durable command x (.error connectionLost) s :=
  ⟨h, hsession, fun _ hok => (by cases hok), fun _ _ hc => (by rw [hconnected] at hc; cases hc)⟩

theorem Base.disconnect {s : State α} (h : Base durable s) : Base durable s.disconnect :=
  ⟨h.durable, s.server.alive_rollback, h.received, h.begun, h.idle⟩

/-- **A command other than COMMIT and ROLLBACK, sent from a session in its transaction.** -/
theorem exchange_answered {command : Command} (hcommit : command ≠ .commit)
    (hrollback : command ≠ .rollback) (x : Exchange α R) {s : State α} (h : Inv durable s)
    (hsession : s.session = .transaction) :
    Answered durable command x (State.exchange command x s).1 (State.exchange command x s).2 := by
  unfold State.exchange
  split
  next hoff => exact answered_lost h.toBase hsession (by simpa using hoff)
  next hon =>
    split
    next => exact answered_lost h.disconnect hsession rfl
    next =>
      have hsome : s.server.tx.isSome = true := h.inside hsession (by simpa using hon)
      obtain ⟨hdurable, halive, hdone, hkept⟩ := serve_served hcommit hrollback x hsome h.alive
      have hbase : Base durable { s with
          server := (serve command x s.server).2
          received := s.received ++ [(command, s.server.tx.isSome)] } := by
        refine ⟨hdurable.trans h.durable, halive, fun entry hentry => ?_, h.begun, h.idle⟩
        rcases List.mem_append.1 hentry with hold | hnew
        · exact h.received entry hold
        · rw [List.mem_singleton.1 hnew]
          exact fun _ => hsome
      dsimp only
      split
      next => exact answered_lost hbase.disconnect hsession rfl
      next => exact ⟨hbase, hsession, fun a ha _ => hdone a ha, fun hc hk _ => hkept hc hk⟩

/-! ## The calls -/

section Requests

/-- A session in its transaction. -/
def Ready (durable : List α) (s : State α) : Prop :=
  Inv durable s ∧ s.session = .transaction

theorem meets_send {command : Command} (hcommit : command ≠ .commit)
    (hrollback : command ≠ .rollback) (x : Exchange α R) :
    Meets (Ready durable) (send command x : Scope α _)
      fun r s => ∃ answer, r = .ok answer ∧ Answered durable command x answer s :=
  fun _ h => ⟨_, rfl, exchange_answered hcommit hrollback x h.1 h.2⟩

/-- What follows the answer of a command that was sent in the transaction. -/
theorem Meets.send {β : Type} {command : Command} (hcommit : command ≠ .commit)
    (hrollback : command ≠ .rollback) (x : Exchange α R)
    {f : Except DriverError (Answer R) → Scope α β} {Q : Except DatabaseError β → State α → Prop}
    (hf : ∀ answer, Meets (Answered durable command x answer) (f answer) Q) :
    Meets (Ready durable) (Transaction.send command x >>= f) Q := by
  refine .bind (meets_send hcommit hrollback x) (fun answer s hs => ?_) fun e s hs => ?_
  · obtain ⟨_, heq, hanswered⟩ := hs
    cases heq
    exact hf answer s hanswered
  · obtain ⟨_, heq, _⟩ := hs
    cases heq

theorem Answered.ready {command : Command} {x : Exchange α R} {a : Answer R} {s : State α}
    (h : Answered durable command x (.ok a) s) : Ready durable s :=
  ⟨{ h.base with inside := fun _ => h.done a rfl }, h.session⟩

/-- A call that returned a value left its session in the transaction. -/
structure Settled {β : Type} (durable : List α) (result : Except DatabaseError β) (s : State α) :
    Prop where
  inv : Inv durable s
  ready : ∀ b, result = .ok b → s.session = .transaction

theorem settled_error {β : Type} {e : DatabaseError} {s : State α} (h : Inv durable s) :
    Settled (β := β) durable (.error e) s :=
  ⟨h, fun _ hok => (by cases hok)⟩

/-- The failure of a command: the transaction has to be rolled back, or the client is gone. -/
theorem meets_failure {β : Type} {command : Command} {x : Exchange α R} {answer : Except DriverError (Answer R)}
    (statementFailed : Bool) (e : DatabaseError) :
    Meets (Answered durable command x answer)
      (do afterFailure statementFailed; throw e : Scope α β) (Settled durable) := by
  intro s h
  cases statementFailed with
  | true => exact settled_error (h.base.statementFailed h.session)
  | false => exact settled_error h.base.quarantine

theorem meets_giveUp {β : Type} {command : Command} {x : Exchange α R} {answer : Except DriverError (Answer R)}
    (e : DatabaseError) :
    Meets (Answered durable command x answer)
      (do quarantine; throw e : Scope α β) (Settled durable) :=
  fun _ h => settled_error h.base.quarantine

theorem meets_settleWrite {command : Command} (x : Exchange α R) (answer : Except DriverError (Answer R)) :
    Meets (Answered durable command x answer) (settleWrite x answer : Scope α (Answer R))
      (Settled durable) := by
  unfold settleWrite
  split
  next => exact meets_giveUp _
  next => exact fun s h => ⟨h.ready.1, fun _ _ => h.session⟩
  next error _ => exact meets_failure _ _

theorem meets_settleQuery {command : Command} (phase : ErrorPhase) (x : Exchange α R)
    (answer : Except DriverError (Answer R)) :
    Meets (Answered durable command x answer) (settleQuery true phase x answer : Scope α (List (List R)))
      (Settled durable) := by
  unfold settleQuery
  split
  next => exact meets_giveUp _
  next =>
    split
    next => exact meets_giveUp _
    next =>
      cases answer with
      | ok answer => exact fun s h => ⟨h.ready.1, fun _ _ => h.session⟩
      | error error => exact meets_failure _ _

/-- A check passed, or the call stops with the state as it was. -/
theorem Settled.bind {β γ : Type} {P : State α → Prop} {x : Scope α β} {f : β → Scope α γ}
    (hx : Meets P x (Settled durable)) (hf : ∀ b, Meets (Ready durable) (f b) (Settled durable)) :
    Meets P (x >>= f) (Settled durable) :=
  .bind hx (fun b s hs => hf b s ⟨hs.inv, hs.ready b rfl⟩) fun _ _ hs => settled_error hs.inv

theorem settled_pure {β : Type} (b : β) :
    Meets (Ready durable) (pure b : Scope α β) (Settled durable) :=
  fun _ h => ⟨h.1, fun _ _ => h.2⟩

/-- A check that looks at the state: from an open scope it settles it, or stops. -/
theorem meets_requireState (phase : ErrorPhase) :
    Meets (Inv durable) (requireState .transaction phase : Scope α Unit) (Settled durable) := by
  intro s h
  refine ⟨h, fun _ hok => ?_⟩
  simp only [requireState, outcome_refuseIf] at hok
  split at hok
  next => cases hok
  next hstate =>
    simp only [Bool.or_eq_true, decide_eq_true_eq, not_or, ne_eq, not_not] at hstate
    exact hstate.1

theorem settled_refuseIf (c : State α → Bool) (e : State α → DatabaseError) :
    Meets (Ready durable) (refuseIf c e) (Settled durable) :=
  fun _ h => ⟨h.1, fun _ _ => h.2⟩

/-- **A write leaves a session that is in its transaction, or that sends nothing more.** -/
theorem meets_executeWriteQueryTracked (x count : Exchange α R) :
    Meets (Inv durable) (executeWriteQueryTracked x count : Scope α Nat) (Settled durable) := by
  refine Settled.bind (meets_requireState .write) fun _ => ?_
  refine Meets.send (by decide) (by decide) x fun answer => ?_
  refine Settled.bind (meets_settleWrite x answer) fun _ => ?_
  refine Meets.send (by decide) (by decide) count fun answer => ?_
  exact Settled.bind (meets_settleWrite count answer) fun answer => settled_pure answer.affected

/-- Outside its transaction the session of an open scope is not ready, and sends no query. -/
theorem meets_executeQueryTracked {command : Command} (hcommit : command ≠ .commit)
    (hrollback : command ≠ .rollback) (phase : ErrorPhase) (x : Exchange α R) :
    Meets (Inv durable) (executeQueryTracked command phase x : Scope α (List (List R)))
      (Settled durable) := by
  intro s h
  unfold executeQueryTracked
  rw [outcome_bind, outcome_read]
  by_cases hsession : s.session = .transaction
  · simp only [hsession, decide_true]
    refine Settled.bind (settled_refuseIf _ _) (fun _ => ?_) s ⟨h, hsession⟩
    refine Settled.bind (settled_refuseIf _ _) fun _ => ?_
    exact Meets.send hcommit hrollback x fun answer => meets_settleQuery phase x answer
  · simp only [hsession, decide_false, outcome_bind, outcome_refuseIf]
    have hrefused : (s.session ≠ .ready || !s.client) = true := by simp [h.begun]
    simp only [Bool.not_false, Bool.true_and, hrefused]
    exact settled_error h

theorem settled_mapError {β : Type} {x : Scope α β} (f : DatabaseError → DatabaseError)
    (h : Meets (Inv durable) x (Settled durable)) :
    Meets (Inv durable) (mapResult (Except.mapError f) x) (Settled durable) := by
  intro s hs
  obtain ⟨hinv, hready⟩ := h s hs
  rw [outcome_mapResult]
  generalize outcome x s = r at hinv hready ⊢
  obtain ⟨_ | b, s'⟩ := r
  · exact settled_error hinv
  · exact ⟨hinv, fun _ _ => hready b rfl⟩

/-- A check, then a call that keeps the invariant. -/
theorem keeps_check {β γ : Type} (r : Result β) {f : β → Scope α γ}
    (hf : ∀ b, Keeps (Inv durable) (f b)) : Keeps (Inv durable) (ofResult r >>= f) :=
  .bind (keeps_ofResult r) hf

theorem keeps_ensureOpen {γ : Type} (phase : ErrorPhase) {f : Unit → Scope α γ}
    (hf : ∀ b, Keeps (Inv durable) (f b)) :
    Keeps (Inv durable) (ensureOpen phase >>= f) :=
  .bind (keeps_refuseIf _ _) hf

theorem Settled.keeps {β : Type} {x : Scope α β} (h : Meets (Inv durable) x (Settled durable)) :
    Keeps (Inv durable) x :=
  h.conseq (fun _ hs => hs) fun _ _ hs => hs.inv

variable (client : Client R Row)

theorem keeps_execute (statement : Statement) (x count : Exchange α R) :
    Keeps (Inv durable) (execute client statement x count) :=
  keeps_ensureOpen _ fun _ => keeps_check _ fun _ => keeps_check _ fun _ =>
    Settled.keeps (meets_executeWriteQueryTracked x count)

theorem keeps_query (statement : Statement) (x : Exchange α R) :
    Keeps (Inv durable) (query client statement x) :=
  keeps_ensureOpen _ fun _ => keeps_check _ fun _ => keeps_check _ fun _ =>
    .bind (Settled.keeps (meets_executeQueryTracked (by decide) (by decide) .read x)) fun _ =>
      keeps_ofResult _

/-- A stream changes nothing in the session: its answer must not have ended the transaction. -/
theorem keeps_openStream (statement : Statement) (batchSize : Nat)
    (token : Option CancellationReason) {x : Exchange α R} (hx : x.Kept) :
    Keeps (Inv durable) (openStream client statement batchSize token x) := by
  refine keeps_ensureOpen _ fun _ => keeps_check _ fun _ => keeps_check _ fun _ =>
    keeps_check _ fun _ => keeps_check _ fun _ => ?_
  refine Settled.keeps (Settled.bind (meets_requireState .read) fun _ => ?_)
  refine Meets.send (by decide) (by decide) x fun answer s h => ?_
  have hinv : Inv durable s := { h.base with inside := fun _ => h.kept rfl hx }
  cases answer with
  | ok answer => exact ⟨hinv, fun _ _ => h.session⟩
  | error error =>
    dsimp only
    split
    next => exact ⟨hinv, fun _ _ => h.session⟩
    next => exact settled_error hinv

theorem keeps_control {command : Command} (hcommit : command ≠ .commit)
    (hrollback : command ≠ .rollback) (x : Exchange α R) :
    Meets (Inv durable) (control command x : Scope α Unit) (Settled durable) :=
  Settled.bind (meets_executeQueryTracked hcommit hrollback .write x) fun _ => settled_pure ()

theorem keeps_savepoint (name : String) (x : Exchange α R) :
    Keeps (Inv durable) (savepoint name x : Scope α Unit) :=
  keeps_ensureOpen _ fun _ => keeps_check _ fun _ =>
    Settled.keeps (keeps_control (fun h => (by cases h)) (fun h => (by cases h)) x)

theorem keeps_rollbackToSavepoint (name : String) (x : Exchange α R) :
    Keeps (Inv durable) (rollbackToSavepoint name x : Scope α Unit) :=
  keeps_ensureOpen _ fun _ => keeps_check _ fun _ => Settled.keeps (settled_mapError _
    (keeps_control (fun h => (by cases h)) (fun h => (by cases h)) x))

theorem keeps_probeKey (probe : Statement) (x : Exchange α R) :
    Keeps (Inv durable) (probeKey client probe x) := by
  refine keeps_check _ fun _ => .bind (Settled.keeps
    (meets_executeQueryTracked (by decide) (by decide) .write x)) fun sets => ?_
  split
  next => exact keeps_throw _
  next => exact keeps_throw _

theorem keeps_executeConditionalUpdate (request : ConditionalUpdate) (x count probed : Exchange α R) :
    Keeps (Inv durable) (executeConditionalUpdate client request x count probed) := by
  refine keeps_ensureOpen _ fun _ => keeps_check _ fun _ => keeps_check _ fun _ =>
    keeps_check _ fun _ => .bind (Settled.keeps (meets_executeWriteQueryTracked x count))
      fun affected => ?_
  split
  next => exact keeps_pure _
  next =>
    cases request.keyProbe with
    | none => exact keeps_throw _
    | some probe => exact keeps_probeKey client probe probed

/-- **Every call leaves a session that is in its transaction, or that sends nothing more.** -/
theorem keeps_perform (request : Request) (x : Nat → Exchange α R)
    (hstep : StreamKept (request, x)) : Keeps (Inv durable) (perform client request x) := by
  cases request with
  | execute statement => exact .bind (keeps_execute client statement _ _) fun _ => keeps_pure _
  | query statement => exact .bind (keeps_query client statement _) fun _ => keeps_pure _
  | queryStream statement batchSize token batches =>
    exact .bind (.bind (keeps_openStream client statement batchSize token hstep) fun _ =>
      keeps_pure _) fun _ => keeps_pure _
  | savepoint name => exact .bind (keeps_savepoint name _) fun _ => keeps_pure _
  | rollbackToSavepoint name => exact .bind (keeps_rollbackToSavepoint name _) fun _ => keeps_pure _
  | releaseSavepoint name => exact .bind (keeps_throw _) fun _ => keeps_pure _
  | conditionalUpdate request =>
    exact .bind (keeps_executeConditionalUpdate client request _ _ _) fun _ => keeps_pure _

theorem reach_inv {s : State α} (h : Inv durable s)
    (steps : List (Request × (Nat → Exchange α R))) (hsteps : ∀ step ∈ steps, StreamKept step) :
    Inv durable (reach client s steps) := by
  induction steps generalizing s with
  | nil => exact h
  | cons step steps ih =>
    obtain ⟨request, x⟩ := step
    have hkept : StreamKept (request, x) := hsteps _ (List.mem_cons_self ..)
    exact ih (keeps_perform client request x hkept s h)
      fun step hstep => hsteps step (List.mem_cons_of_mem _ hstep)

theorem opened_inv (durable : List α) (reusable : Bool) : Inv durable (opened durable reusable) where
  durable := rfl
  alive := Server.alive_begin _
  received := fun _ hentry => (by cases hentry)
  begun := fun h => (by cases h)
  idle := rfl
  inside := fun _ _ => rfl

end Requests

/-! ## The end of the scope -/

section Endings

/-- The state before the drop, after a call that consumes the scope. -/
structure Closing {β : Type} (durable : List α) (before : State α)
    (outcomeOf : β → Option CommitOutcome) (result : Except DatabaseError β) (after : State α) :
    Prop where
  received : ∀ entry ∈ after.received, entry.1.ofCaller = true → entry.2 = true
  committed : ∀ b, result = .ok b → outcomeOf b = some .committed →
    ∃ tx, before.server.tx = some tx ∧ after.server.durable = durable ++ tx.work
  uncommitted : ∀ b, result = .ok b → outcomeOf b = none → after.server.durable = durable
  undone : ∀ e, result = .error e → SaysUndone e → after.server.durable = durable
  pooled : after.session = .ready → after.server.tx = none
  idle : after.idle = false

variable {before : State α}

theorem Inv.closing_error {β : Type} {outcomeOf : β → Option CommitOutcome} {s : State α}
    (h : Inv durable s) (e : DatabaseError) : Closing durable before outcomeOf (.error e) s :=
  ⟨h.received, fun _ hb => (by cases hb), fun _ hb => (by cases hb), fun _ _ _ => h.durable,
    fun hready => absurd hready h.begun, h.idle⟩

theorem exchange_frame (command : Command) (x : Exchange α R) (s : State α) :
    (State.exchange command x s).2.session = s.session ∧
      (State.exchange command x s).2.idle = s.idle ∧
      ∀ entry ∈ (State.exchange command x s).2.received, entry ∈ s.received ∨ entry.1 = command := by
  unfold State.exchange
  have happend : ∀ entry ∈ s.received ++ [(command, s.server.tx.isSome)],
      entry ∈ s.received ∨ entry.1 = command := by
    intro entry hentry
    rcases List.mem_append.1 hentry with hold | hnew
    · exact .inl hold
    · exact .inr (by rw [List.mem_singleton.1 hnew])
  split
  next => exact ⟨rfl, rfl, fun _ hentry => .inl hentry⟩
  next =>
    split
    next => exact ⟨rfl, rfl, fun _ hentry => .inl hentry⟩
    next =>
      dsimp only
      split
      next => exact ⟨rfl, rfl, happend⟩
      next => exact ⟨rfl, rfl, happend⟩

/-- An error at the end of the scope destroyed the client. -/
theorem closing_quarantine {β : Type} {outcomeOf : β → Option CommitOutcome} {s : State α}
    (hreceived : ∀ entry ∈ s.received, entry.1.ofCaller = true → entry.2 = true)
    (hidle : s.idle = false) {e : DatabaseError} (hundone : SaysUndone e → s.server.durable = durable) :
    Closing durable before outcomeOf (.error e) s.quarantine := by
  refine ⟨hreceived, fun _ hb => (by cases hb), fun _ hb => (by cases hb), fun e' he hsays => ?_,
    fun hready => ?_, hidle⟩
  · cases he
    exact hundone hsays
  · have : (s.session.apply .cancelled).state = .ready := hready
    rw [apply_cancelled] at this
    cases this

/-- **A COMMIT that is acknowledged made the work durable; the victim of a deadlock lost it.** -/
theorem exchange_commit (x : Exchange α R) {s : State α} (h : Inv durable s)
    (hsession : s.session = .transaction) :
    (∀ answer, (State.exchange .commit x s).1 = .ok answer →
      (State.exchange .commit x s).2.server.tx = none ∧
      ∃ tx, s.server.tx = some tx ∧
        (State.exchange .commit x s).2.server.durable = durable ++ tx.work) ∧
    ∀ error, (State.exchange .commit x s).1 = .error error → error.code = some 1205 →
      (State.exchange .commit x s).2.server.durable = durable := by
  unfold State.exchange
  split
  next => exact ⟨fun _ hok => (by cases hok), fun _ he hcode => (by cases he; cases hcode)⟩
  next hon =>
    split
    next => exact ⟨fun _ hok => (by cases hok), fun _ he hcode => (by cases he; cases hcode)⟩
    next =>
      dsimp only
      split
      next => exact ⟨fun _ hok => (by cases hok), fun _ he hcode => (by cases he; cases hcode)⟩
      next =>
        obtain ⟨tx, htx⟩ := Option.isSome_iff_exists.1 (h.inside hsession (by simpa using hon))
        unfold serve
        split
        next error _ =>
          refine ⟨fun _ hok => (by cases hok), fun e he hcode => ?_⟩
          cases he
          have hrolled : turnDown .commit x error s.server = s.server.rollback := if_pos hcode
          dsimp only
          rw [hrolled]
          exact h.durable
        next =>
          refine ⟨fun _ _ => ⟨s.server.tx_commit, tx, htx, ?_⟩, fun _ he => (by cases he)⟩
          exact (h.alive.durable_commit htx).trans (by rw [h.durable])

/-- What a control batch at the end of the scope comes to. -/
inductive Controlled (command : Command) (phase : ErrorPhase) (x : Exchange α R) (s : State α) :
    Except DatabaseError Unit × State α → Prop where
  | notSent : Controlled command phase x s (.error (stateError phase), s)
  | done (answer : Answer R) (hanswer : (State.exchange command x s).1 = .ok answer) :
      Controlled command phase x s (.ok (), (State.exchange command x s).2)
  | failed (e : DatabaseError) (hproved : SaysUndone e → ∃ error,
        (State.exchange command x s).1 = .error error ∧ error.code = some 1205) :
      Controlled command phase x s (.error e, (State.exchange command x s).2.quarantine)

theorem runControl_controlled (command : Command) {phase : ErrorPhase}
    (hphase : phase = .commit ∨ phase = .rollback) (x : Exchange α R) (s : State α) :
    Controlled command phase x s (outcome (runControl command phase .unknown x) s) := by
  unfold runControl requireClient send
  rw [outcome_bind, outcome_refuseIf]
  by_cases hclient : (!s.client) = true
  · rw [if_pos hclient]
    exact .notSent
  · rw [if_neg hclient]
    dsimp only
    rw [outcome_bind, outcome_exchange]
    dsimp only
    cases hinterruption : x.interruption with
    | some interruption =>
      refine .failed _ fun hundone => ?_
      exact absurd hundone (saysUndone_unknown
        (remoteEffect_interruptionError_unknown interruption hphase))
    | none =>
      cases hanswer : (State.exchange command x s).1 with
      | ok answer => exact .done answer hanswer
      | error error =>
        refine .failed _ fun hundone => ⟨error, hanswer, ?_⟩
        by_contra hcode
        refine saysUndone_unknown ?_ hundone
        rw [remoteEffect_driverError_unknown, if_neg hcode]

theorem ofCaller_exchange {command : Command} (hcommand : command.ofCaller = false)
    (x : Exchange α R) {s : State α} (h : Inv durable s) :
    ∀ entry ∈ (State.exchange command x s).2.received, entry.1.ofCaller = true → entry.2 = true := by
  intro entry hentry hcaller
  rcases (exchange_frame command x s).2.2 entry hentry with hold | hnew
  · exact h.received entry hold hcaller
  · rw [hnew, hcommand] at hcaller
    cases hcaller

theorem sessionCommit_closing (x : Exchange α R) {s : State α} (h : Inv durable s) :
    Closing durable s (fun _ => some .committed) (outcome (sessionCommit x) s).1
      (outcome (sessionCommit x) s).2 := by
  obtain ⟨hsame, hidle, -⟩ := exchange_frame .commit x s
  unfold sessionCommit requireState
  rw [outcome_bind, outcome_refuseIf]
  by_cases hstate : (s.session ≠ .transaction || !s.client) = true
  · rw [if_pos hstate]
    exact h.closing_error _
  · rw [if_neg hstate]
    dsimp only
    have hsession : s.session = .transaction := by
      simp only [Bool.or_eq_true, decide_eq_true_eq, not_or, ne_eq, not_not] at hstate
      exact hstate.1
    obtain ⟨hacknowledged, hvictim⟩ := exchange_commit x h hsession
    have hcontrolled := runControl_controlled .commit (.inl rfl) x s
    rw [outcome_bind]
    generalize outcome (runControl .commit .commit .unknown x) s = r at hcontrolled ⊢
    cases hcontrolled with
    | notSent => exact h.closing_error _
    | done answer hanswer =>
      obtain ⟨hnone, hwork⟩ := hacknowledged answer hanswer
      exact ⟨ofCaller_exchange rfl x h, fun _ _ _ => hwork, fun _ _ hno => (by cases hno),
        fun _ he => (by cases he), fun _ => hnone, hidle.trans h.idle⟩
    | failed e hproved =>
      refine closing_quarantine (ofCaller_exchange rfl x h) (hidle.trans h.idle) fun hundone => ?_
      obtain ⟨error, hanswer, hcode⟩ := hproved hundone
      exact hvictim error hanswer hcode

theorem Inv.close {s : State α} (h : Inv durable s) : Inv durable { s with isOpen := false } :=
  { h with }

theorem commit_closing (x : Exchange α R) {s : State α} (h : Inv durable s) :
    Closing durable s some (outcome (commit x) s).1 (outcome (commit x) s).2 := by
  unfold commit ensureOpen close
  rw [outcome_bind, outcome_refuseIf]
  by_cases hopen : (!s.isOpen) = true
  · rw [if_pos hopen]
    exact h.closing_error _
  · rw [if_neg hopen]
    dsimp only
    rw [outcome_bind, outcome_update]
    dsimp only
    rw [outcome_bind, outcome_attempt]
    have hclosing := sessionCommit_closing x h.close
    generalize outcome (sessionCommit x) { s with isOpen := false } = r at hclosing ⊢
    obtain ⟨e | _, after⟩ := r
    · dsimp only at hclosing ⊢
      rw [outcome_ofResult]
      rcases commitFailure_cases e with ⟨hundone, e', he'⟩ | ⟨recovery, hunknown⟩
      · rw [he']
        exact ⟨hclosing.received, fun _ hb => (by cases hb), fun _ hb => (by cases hb),
          fun _ _ _ => hclosing.undone e rfl hundone, hclosing.pooled, hclosing.idle⟩
      · rw [hunknown]
        exact ⟨hclosing.received, fun _ hb hcommitted => (by cases hb; cases hcommitted),
          fun _ _ hno => (by cases hno), fun _ he => (by cases he), hclosing.pooled, hclosing.idle⟩
    · exact ⟨hclosing.received, fun _ _ _ => hclosing.committed () rfl rfl,
        fun _ _ hno => (by cases hno), fun _ he => (by cases he), hclosing.pooled, hclosing.idle⟩

/-- **A ROLLBACK that is acknowledged left no transaction, and nothing durable.** -/
theorem exchange_rollback (x : Exchange α R) {s : State α} (h : Inv durable s) (answer : Answer R)
    (hanswer : (State.exchange .rollback x s).1 = .ok answer) :
    (State.exchange .rollback x s).2.server.tx = none ∧
      (State.exchange .rollback x s).2.server.durable = durable := by
  revert hanswer
  unfold State.exchange
  split
  next => exact fun hok => (by cases hok)
  next =>
    split
    next => exact fun hok => (by cases hok)
    next =>
      dsimp only
      split
      next => exact fun hok => (by cases hok)
      next =>
        unfold serve
        split
        next => exact fun hok => (by cases hok)
        next => exact fun _ => ⟨rfl, h.durable⟩

theorem sessionRollback_closing (x : Exchange α R) {s : State α} (h : Inv durable s) :
    Closing durable before (fun _ => none)
      ((outcome (sessionRollback x) s).1.mapError DatabaseError.afterUnconfirmedRollback)
      (outcome (sessionRollback x) s).2 := by
  obtain ⟨hsame, hidle, -⟩ := exchange_frame .rollback x s
  unfold sessionRollback
  rw [outcome_bind, outcome_refuseIf]
  by_cases hstate : (s.session ≠ .transaction && s.session ≠ .uncommittable) = true
  · rw [if_pos hstate]
    exact h.closing_error _
  · rw [if_neg hstate]
    dsimp only
    have hcontrolled := runControl_controlled .rollback (.inr rfl) x s
    rw [outcome_bind]
    generalize outcome (runControl .rollback .rollback .unknown x) s = r at hcontrolled ⊢
    cases hcontrolled with
    | notSent => exact h.closing_error _
    | done answer hanswer =>
      obtain ⟨hnone, hdurable⟩ := exchange_rollback x h answer hanswer
      exact ⟨ofCaller_exchange rfl x h, fun _ _ hno => (by cases hno), fun _ _ _ => hdurable,
        fun _ he => (by cases he), fun _ => hnone, hidle.trans h.idle⟩
    | failed e hproved =>
      exact closing_quarantine (ofCaller_exchange rfl x h) (hidle.trans h.idle)
        fun hundone => absurd hundone (saysUndone_unknown rfl)

theorem rollback_closing (x : Exchange α R) {s : State α} (h : Inv durable s) :
    Closing durable before (fun _ => none) (outcome (rollback x) s).1 (outcome (rollback x) s).2 := by
  unfold rollback close
  rw [outcome_bind, outcome_read]
  dsimp only
  split
  next =>
    rw [outcome_bind, outcome_update]
    exact sessionRollback_closing x h.close
  next =>
    exact ⟨h.received, fun _ _ hno => (by cases hno), fun _ _ _ => h.durable,
      fun _ he => (by cases he), fun hready => absurd hready h.begun, h.idle⟩

/-- The value of the call that ended the scope, rewrapped. -/
theorem Closing.map {β γ : Type} {x : Scope α β} {f : β → γ} {outcomeOf : γ → Option CommitOutcome}
    {s : State α}
    (h : Closing durable before (fun b => outcomeOf (f b)) (outcome x s).1 (outcome x s).2) :
    Closing durable before outcomeOf (outcome (x >>= fun b => pure (f b)) s).1
      (outcome (x >>= fun b => pure (f b)) s).2 := by
  rw [outcome_bind]
  generalize outcome x s = r at h ⊢
  obtain ⟨e | b, after⟩ := r
  · exact ⟨h.received, fun _ hc => (by cases hc), fun _ hc => (by cases hc),
      fun e' he => h.undone e' (by cases he; rfl), h.pooled, h.idle⟩
  · refine ⟨h.received, fun c hc hcommitted => ?_, fun c hc hno => ?_, fun _ he => (by cases he),
      h.pooled, h.idle⟩
    · obtain rfl := Except.ok.inj hc
      exact h.committed b rfl hcommitted
    · obtain rfl := Except.ok.inj hc
      exact h.uncommitted b rfl hno

theorem conclude_closing (ending : Ending) (x : Exchange α R) {s : State α} (h : Inv durable s) :
    Closing durable s Value.commitOutcome (outcome (conclude ending x : Scope α (Value Row)) s).1
      (outcome (conclude ending x : Scope α (Value Row)) s).2 := by
  cases ending with
  | commit => exact Closing.map (f := Value.commit) (commit_closing x h)
  | rollback => exact Closing.map (f := fun _ => Value.done) (rollback_closing x h)
  | drop =>
    exact ⟨h.received, fun _ hb hcommitted => (by cases hb; cases hcommitted), fun _ _ _ => h.durable,
      fun _ he => (by cases he), fun hready => absurd hready h.begun, h.idle⟩

theorem giveBack_server (s : State α) (hpooled : s.session = .ready → s.server.tx = none)
    (hidle : s.idle = false) :
    s.giveBack.server.durable = s.server.durable ∧ s.giveBack.received = s.received ∧
      (s.giveBack.idle = true → s.giveBack.server.tx = none) := by
  unfold State.giveBack
  split
  next hready =>
    simp only [Bool.and_eq_true, decide_eq_true_eq] at hready
    exact ⟨rfl, rfl, fun _ => hpooled hready.2⟩
  next => exact ⟨rfl, rfl, fun hback => absurd (hidle.symm.trans hback) (by decide)⟩

/-- What the drop of the transaction and of its pooled session leaves. -/
theorem drop_server (s : State α) (hpooled : s.session = .ready → s.server.tx = none)
    (hidle : s.idle = false) :
    s.drop.server.durable = s.server.durable ∧ s.drop.received = s.received ∧
      (s.drop.idle = true → s.drop.server.tx = none) := by
  unfold State.drop
  split
  next =>
    exact giveBack_server { s.quarantine with reusable := false, isOpen := false } (fun _ => rfl) hidle
  next => exact giveBack_server s hpooled hidle

/-- **The end of a scope that knows whether it is in its transaction reports what the server did.** -/
theorem finish_sound (ending : Ending) (x : Exchange α R) {s : State α} (h : Inv durable s) :
    Sound durable s (finish ending x s : Except DatabaseError (Value Row) × State α) := by
  have hclosing := @conclude_closing _ _ Row _ ending x _ h
  obtain ⟨hdurable, hreceived, hpooled⟩ := drop_server _ hclosing.pooled hclosing.idle
  refine ⟨?_, fun hcommitted => ?_, fun value hvalue hno => ?_, fun e he hundone => ?_, hpooled⟩
  · show ∀ entry ∈ (State.drop _).received, _
    rw [hreceived]
    exact hclosing.received
  · obtain ⟨tx, htx, hwork⟩ := hclosing.committed _ hcommitted rfl
    exact ⟨tx, htx, hdurable.trans hwork⟩
  · exact hdurable.trans (hclosing.uncommitted value hvalue hno)
  · exact hdurable.trans (hclosing.undone e he hundone)

end Endings

/-! ## Every run -/

section Runs

variable (client : Client R Row)

/-- A call that leaves the scope open reports no commit. -/
theorem perform_commitOutcome (request : Request) (x : Nat → Exchange α R) (s : State α)
    {value : Value Row} (h : (outcome (perform client request x) s).1 = .ok value) :
    value.commitOutcome = none := by
  have hmap : ∀ {β : Type} (call : Scope α β) (f : β → Value Row),
      (∀ b, (f b).commitOutcome = none) →
      (outcome (call >>= fun b => pure (f b)) s).1 = .ok value → value.commitOutcome = none := by
    intro β call f hf hvalue
    rw [outcome_bind] at hvalue
    rcases hcall : outcome call s with ⟨_ | b, s'⟩
    · rw [hcall] at hvalue
      cases hvalue
    · rw [hcall] at hvalue
      obtain rfl := Except.ok.inj hvalue
      exact hf b
  cases request with
  | execute statement => exact hmap (execute client statement _ _) _ (fun _ => rfl) h
  | query statement => exact hmap (query client statement _) _ (fun _ => rfl) h
  | queryStream statement batchSize token batches =>
    exact hmap (queryStream client statement batchSize token batches _) _ (fun _ => rfl) h
  | savepoint name => exact hmap (savepoint name _) _ (fun _ => rfl) h
  | rollbackToSavepoint name => exact hmap (rollbackToSavepoint name _) _ (fun _ => rfl) h
  | releaseSavepoint name => exact hmap releaseSavepoint _ (fun _ => rfl) h
  | conditionalUpdate request =>
    exact hmap (executeConditionalUpdate client request _ _ _) _ (fun _ => rfl) h

theorem perform_sound {s : State α} (h : Inv durable s) (request : Request)
    (x : Nat → Exchange α R) (hstep : StreamKept (request, x)) :
    Sound durable s (outcome (perform client request x) s) := by
  have hafter : Inv durable (outcome (perform client request x) s).2 :=
    keeps_perform client request x hstep s h
  refine ⟨hafter.received, fun hcommitted => ?_, fun _ _ _ => hafter.durable,
    fun _ _ _ => hafter.durable, fun hidle => ?_⟩
  · cases perform_commitOutcome client request x s hcommitted
  · exact absurd (hafter.idle.symm.trans hidle) (by decide)

/-- **If no stream is answered with an error that ended the transaction, nothing is sent outside
it, and every call and the end of the scope report what the server did.** -/
theorem scope_sound (durable : List α) (reusable : Bool)
    (steps : List (Request × (Nat → Exchange α R))) (hsteps : ∀ step ∈ steps, StreamKept step) :
    let before := reach client (opened durable reusable) steps
    (∀ request x, StreamKept (request, x) →
        Sound durable before (outcome (perform client request x) before)) ∧
      ∀ ending (x : Exchange α R),
        Sound durable before (finish ending x before : Except DatabaseError (Value Row) × State α) := by
  intro before
  have h : Inv durable before := reach_inv client (opened_inv durable reusable) steps hsteps
  exact ⟨fun request x hstep => perform_sound client h request x hstep,
    fun ending x => finish_sound ending x h⟩

end Runs

/-! ## A stream that fails, then a statement -/

def lenient : Client Unit Unit := ⟨fun _ => .ok (), fun _ => .ok (), fun _ => [], fun _ _ => .ok ()⟩

/-- Every command is done, and a statement adds this row. -/
def answered (row : Nat) : Exchange Nat Unit where
  arrives := true
  refusal := none
  ends := false
  committed := false
  changes := [row]
  answer := ⟨1, []⟩
  late := false
  breaks := false
  interruption := none
  panics := false

/-- A division by zero: under XACT_ABORT it ends the transaction. -/
def dividedByZero : Exchange Nat Unit :=
  { answered 0 with refusal := some (.server 8134), ends := true, late := true, changes := [] }

def insertStep (row : Nat) : Request × (Nat → Exchange Nat Unit) :=
  (.execute ⟨"INSERT INTO t VALUES (1)", []⟩, fun _ => answered row)

/-- The stream is read once, and the error comes with its first batch. -/
def failingStream : Request × (Nat → Exchange Nat Unit) :=
  (.queryStream ⟨"SELECT 1 / 0", []⟩ 10 none [fun _ => none], fun _ => dividedByZero)

theorem scope_sound_insert :
    let before := reach lenient (opened [] true) [insertStep 1]
    let ended : Except DatabaseError (Value Unit) × State Nat := finish .commit (answered 0) before
    ended.1 = .ok (.commit .committed) ∧ ended.2.server.durable = [1] ∧ ended.2.idle = true ∧
      Sound [] before ended :=
  ⟨rfl, rfl, rfl, (scope_sound lenient [] true [insertStep 1]
    (fun step hstep => by cases List.mem_singleton.1 hstep; trivial)).2 .commit (answered 0)⟩

/-- **After the failed stream the insert is sent outside the transaction: the rollback succeeds, and
the row stays.** -/
theorem scope_unsound :
    let before := reach lenient (opened [] true) [failingStream, insertStep 1]
    let ended : Except DatabaseError (Value Unit) × State Nat := finish .rollback (answered 0) before
    before.received = [(.statement, true), (.statement, false), (.rowCount, false)] ∧
      ended.1 = .ok .done ∧ ended.2.server.durable = [1] ∧ ¬ Sound [] before ended := by
  refine ⟨rfl, rfl, rfl, fun h => ?_⟩
  cases h.uncommitted .done rfl rfl

end Plenora.Sqlserver.Transaction
