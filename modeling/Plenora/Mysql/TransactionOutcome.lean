import Plenora.Mysql.Transaction

/-!
# What the end of a MySQL transaction says

A failure that may have ended the transaction closes the scope, in a write, a
query or a stream.  A savepoint, its release and the catalog reads of a
conditional update leave it open where they are the victims of a deadlock, so
that what follows runs in autocommit.  A COMMIT or a ROLLBACK refused without
an end of the transaction closes the scope, and its connection is pooled.

    (∀ step ∈ steps, ControlKept step) → EndKept client.product ending x →
      Sound durable (reach …) (finish client ending x (reach …))              (calls_sound)
-/

namespace Plenora.Mysql.Transaction

open Plenora.Lib Plenora.Lib.Call Plenora.Core Plenora.Core.Cancellation

variable {α R Row : Type}

/-! ## The property -/

/-- The commands a scope sends for its caller before the end, and to check on them. -/
def Command.ofCaller : Command → Bool
  | .commit | .rollback | .showWarnings => false
  | _ => true

def Value.commitOutcome : Value Row → Option CommitOutcome
  | .commit outcome => some outcome
  | _ => none

/-- What a call reports about a scope that found these changes durable. -/
structure Sound (durable : List α) (before : State α)
    (ended : Except DatabaseError (Value Row) × State α) : Prop where
  received : ∀ entry ∈ ended.2.received, entry.1.ofCaller = true → entry.2 = true
  committed : ended.1 = .ok (.commit .committed) →
    ∃ tx, before.server.tx = some tx ∧ ended.2.server.durable = durable ++ tx.work
  uncommitted : ∀ value, ended.1 = .ok value → value.commitOutcome = none →
    ended.2.server.durable = durable
  undone : ∀ e, ended.1 = .error e → SaysUndone e → ended.2.server.durable = durable
  pooled : ended.2.idle = true → ended.2.server.tx = none

def Exchange.Deadlocked (x : Exchange α R) : Prop := x.failure = some deadlock

/-- The condition on a step: no savepoint, no release and no catalog read is the victim of a
deadlock. -/
def ControlKept (step : Request × (Nat → Trip α R)) : Prop :=
  match step.1 with
  | .savepoint _ | .releaseSavepoint _ => ¬ (step.2 0).sent.Deadlocked
  | .conditionalUpdate _ => ∀ n, n ≤ 10 ∨ n = 13 → ¬ (step.2 n).sent.Deadlocked
  | _ => True

/-- The server answers the end of the scope with an error that is not fatal to the connection, and
keeps the transaction. -/
structure Exchange.LeavesOpen (product : Product) (command : Command) (x : Exchange α R) : Prop where
  arrives : x.arrives = true
  answered : x.breaks = false
  awaited : x.interruption = none
  kept : match command, x.failure with
    | .commit, some (.server code) =>
      product.profile.commitRollbackCodes.contains code = false ∧ x.done = false
    | _, some (.server code) => code ≠ 1213
    | _, some (.transport _ fatal _) => fatal = false ∧ x.done = false
    | _, none => False

/-- The condition on the end: its COMMIT or ROLLBACK does not leave the transaction open. -/
def EndKept (product : Product) (ending : Ending) (x : Nat → Trip α R) : Prop :=
  match ending with
  | .commit => ¬ (x 1).sent.LeavesOpen product .commit
  | .rollback => ¬ (x 0).sent.LeavesOpen product .rollback
  | .drop => True

/-! ## The invariant of the scope -/

/-- What holds also where the server ended the transaction and the scope does not know yet. -/
structure Base (durable : List α) (s : State α) : Prop where
  durable : s.server.durable = durable
  alive : s.server.Alive
  received : ∀ entry ∈ s.received, entry.1.ofCaller = true → entry.2 = true
  idle : s.idle = false
  ready : s.session = .ready ∨ s.connection = false

/-- An open scope with a connection has its transaction on the server; a closed one has no
connection, or its end has to be recovered. -/
structure Inv (durable : List α) (s : State α) : Prop extends Base durable s where
  inside : s.isOpen = true → s.connection = true → s.connected = true → s.server.tx.isSome = true
  closed : s.isOpen = false → s.recoveryRequired = true ∨ s.connection = false

variable {durable : List α}

theorem Base.recovering {s : State α} (h : Base durable s) (hclosed : s.isOpen = false)
    (hrecovery : s.recoveryRequired = true) : Inv durable s :=
  { h with
    inside := fun hopen => (by rw [hclosed] at hopen; cases hopen)
    closed := fun _ => .inl hrecovery }

theorem Base.quarantine {s : State α} (h : Base durable s) : Inv durable s.quarantine where
  durable := h.durable
  alive := s.server.alive_rollback
  received := h.received
  idle := h.idle
  ready := .inr rfl
  inside := fun _ hconnection => (by cases hconnection)
  closed := fun _ => .inr rfl

theorem Base.disconnect {s : State α} (h : Base durable s) : Base durable s.disconnect :=
  ⟨h.durable, s.server.alive_rollback, h.received, h.idle, h.ready⟩

/-! ## Sending a command -/

theorem durable_carryOut {command : Command} (hcommit : command ≠ .commit) (x : Exchange α R)
    {server : Server α} (h : server.tx.isSome = true) :
    (carryOut command x server).durable = server.durable := by
  cases command with
  | commit => exact absurd rfl hcommit
  | statement => exact server.durable_run x.changes h
  | _ => rfl

theorem alive_carryOut {command : Command} (x : Exchange α R) {server : Server α}
    (h : server.Alive) : (carryOut command x server).Alive := by
  cases command with
  | commit => exact fun _ htx => (by rw [carryOut, Server.tx_commit] at htx; cases htx)
  | rollback => exact server.alive_rollback
  | statement => exact h.run x.changes
  | savepoint name => exact h.savepoint name
  | rollbackTo name => exact h.rollbackTo name
  | release name => exact h.release name
  | _ => exact h

theorem isSome_carryOut {command : Command} (hcommit : command ≠ .commit)
    (hrollback : command ≠ .rollback) (x : Exchange α R) {server : Server α}
    (h : server.tx.isSome = true) : (carryOut command x server).tx.isSome = true := by
  cases command with
  | commit => exact absurd rfl hcommit
  | rollback => exact absurd rfl hrollback
  | statement => exact (server.isSome_tx_run x.changes).trans h
  | savepoint name => exact (server.isSome_tx_savepoint name).trans h
  | rollbackTo name => exact (server.isSome_tx_rollbackTo name).trans h
  | release name => exact (server.isSome_tx_release name).trans h
  | _ => exact h

/-- What a failed command leaves: the server as it was, the command done, or the transaction lost to
a deadlock. -/
theorem turnDown_cases (product : Product) {command : Command} (hcommit : command ≠ .commit)
    (x : Exchange α R) (error : DriverError) (server : Server α) :
    (error = deadlock ∧ turnDown product command x error server = server.rollback) ∨
      turnDown product command x error server = server ∨
        turnDown product command x error server = carryOut command x server := by
  cases error with
  | server code =>
    have hturn : turnDown product command x (.server code) server =
        if code = 1213 then server.rollback else server := by
      cases command with
      | commit => exact absurd rfl hcommit
      | _ => rfl
    rw [hturn]
    by_cases hcode : code = 1213
    · exact .inl ⟨congrArg _ hcode, if_pos hcode⟩
    · exact .inr (.inl (if_neg hcode))
  | transport kind fatal identityRejected =>
    have hturn : turnDown product command x (.transport kind fatal identityRejected) server =
        if x.done then carryOut command x server else server := by
      cases command <;> rfl
    rw [hturn]
    split
    next => exact .inr (.inr rfl)
    next => exact .inr (.inl rfl)

/-- A deadlock comes from the script alone. -/
theorem failureOf_deadlock {command : Command} {x : Exchange α R} {server : Server α}
    (h : failureOf command x server = some deadlock) : x.Deadlocked := by
  have hne : some noSuchSavepoint ≠ some deadlock := by decide
  unfold failureOf at h
  split at h
  next => split at h; exacts [h, absurd h hne]
  next => split at h; exacts [h, absurd h hne]
  next => exact h

/-- What a command other than a COMMIT or a ROLLBACK does in a transaction. -/
structure Served (x : Exchange α R) (server : Server α)
    (r : Except DriverError (Answer R) × Server α) : Prop where
  durable : r.2.durable = server.durable
  alive : r.2.Alive
  inside : (r.1 = .error deadlock ∧ x.Deadlocked) ∨ r.2.tx.isSome = true

theorem serve_served (product : Product) {command : Command} (hcommit : command ≠ .commit)
    (hrollback : command ≠ .rollback) (x : Exchange α R) {server : Server α}
    (h : server.tx.isSome = true) (halive : server.Alive) :
    Served x server (serve product command x server) := by
  have hcarried : (carryOut command x server).tx.isSome = true :=
    isSome_carryOut hcommit hrollback x h
  unfold serve
  split
  next error hfailure =>
    rcases turnDown_cases product hcommit x error server with ⟨rfl, heq⟩ | heq | heq
    · rw [heq]
      exact ⟨rfl, server.alive_rollback, .inl ⟨rfl, failureOf_deadlock hfailure⟩⟩
    · rw [heq]
      exact ⟨rfl, halive, .inr h⟩
    · rw [heq]
      exact ⟨durable_carryOut hcommit x h, alive_carryOut x halive, .inr hcarried⟩
  next => exact ⟨durable_carryOut hcommit x h, alive_carryOut x halive, .inr hcarried⟩

/-- A command was sent in the transaction: what the scope may rely on. -/
structure Answered (durable : List α) (x : Exchange α R) (answer : Except DriverError (Answer R))
    (s : State α) : Prop where
  base : Base durable s
  isOpen : s.isOpen = true
  connection : s.connection = true
  inside : (answer = .error deadlock ∧ x.Deadlocked) ∨
    (s.connected = true → s.server.tx.isSome = true)

theorem answered_lost {x : Exchange α R} {s : State α} (h : Base durable s)
    (hopen : s.isOpen = true) (hconnection : s.connection = true) (hconnected : s.connected = false) :
    Answered durable x (.error connectionLost) s :=
  ⟨h, hopen, hconnection, .inr fun hc => (by rw [hconnected] at hc; cases hc)⟩

/-- **A command other than COMMIT and ROLLBACK, sent from an open scope.** -/
theorem exchange_answered (product : Product) {command : Command} (hcommit : command ≠ .commit)
    (hrollback : command ≠ .rollback) (x : Exchange α R) {s : State α} (h : Inv durable s)
    (hopen : s.isOpen = true) (hconnection : s.connection = true) :
    Answered durable x (State.exchange product command x s).1
      (State.exchange product command x s).2 := by
  unfold State.exchange
  split
  next hoff => exact answered_lost h.toBase hopen hconnection (by simpa using hoff)
  next hon =>
    split
    next => exact answered_lost h.toBase.disconnect hopen hconnection rfl
    next =>
      have hsome : s.server.tx.isSome = true := h.inside hopen hconnection (by simpa using hon)
      obtain ⟨hdurable, halive, hinside⟩ := serve_served product hcommit hrollback x hsome h.alive
      have hbase : Base durable { s with
          server := (serve product command x s.server).2
          received := s.received ++ [(command, s.server.tx.isSome)] } := by
        refine ⟨hdurable.trans h.durable, halive, fun entry hentry => ?_, h.idle, h.ready⟩
        rcases List.mem_append.1 hentry with hold | hnew
        · exact h.received entry hold
        · rw [List.mem_singleton.1 hnew]
          exact fun _ => hsome
      dsimp only
      split
      next => exact answered_lost hbase.disconnect hopen hconnection rfl
      next => exact ⟨hbase, hopen, hconnection, hinside.imp id fun h _ => h⟩

/-! ## The session -/

section Session

/-- An open scope in its transaction. -/
def Open (durable : List α) (s : State α) : Prop := Inv durable s ∧ s.isOpen = true

theorem Base.quarantine_open {s : State α} (h : Base durable s) (hopen : s.isOpen = true) :
    Open durable s.quarantine :=
  ⟨h.quarantine, hopen⟩

theorem Answered.open {x : Exchange α R} {answer : Except DriverError (Answer R)} {s : State α}
    (h : Answered durable x answer s) (hkept : answer ≠ .error deadlock) : Open durable s := by
  have hinside : s.connected = true → s.server.tx.isSome = true :=
    h.inside.resolve_left fun hlost => hkept hlost.1
  exact ⟨{ h.base with
    inside := fun _ _ => hinside
    closed := fun hclosed => (by rw [h.isOpen] at hclosed; cases hclosed) }, h.isOpen⟩

/-- A command of the session: the scope stays open in its transaction, unless the server told the
victim of a deadlock. -/
structure Told {β : Type} (durable : List α) (x : Exchange α R) (result : Except DatabaseError β)
    (s : State α) : Prop where
  base : Base durable s
  isOpen : s.isOpen = true
  inside : (x.Deadlocked ∧ ∃ e, result = .error e ∧ e.remoteEffect = .rolledBack) ∨ Inv durable s

theorem Open.told {β : Type} {x : Exchange α R} {result : Except DatabaseError β} {s : State α}
    (h : Open durable s) : Told durable x result s :=
  ⟨h.1.toBase, h.2, .inr h.1⟩

theorem Told.open {β : Type} {x : Exchange α R} {b : β} {s : State α}
    (h : Told durable x (.ok b) s) : Open durable s :=
  ⟨h.inside.resolve_left fun ⟨_, _, he, _⟩ => (by cases he), h.isOpen⟩

theorem Told.kept {β : Type} {x : Exchange α R} {result : Except DatabaseError β} {s : State α}
    (h : Told durable x result s) (hx : ¬ x.Deadlocked) : Open durable s :=
  ⟨h.inside.resolve_left fun hlost => hx hlost.1, h.isOpen⟩

variable (client : Client R Row)

/-- What follows a check that the session still has its connection. -/
theorem Meets.connected {β : Type} {c : State α → Bool} {e : State α → DatabaseError}
    {f : Unit → Scope α β} {Q : Except DatabaseError β → State α → Prop}
    (hc : ∀ s, c s = false → s.connection = true)
    (hf : Meets (fun s => Open durable s ∧ s.connection = true) (f ()) Q)
    (herror : ∀ e s, Open durable s → Q (.error e) s) :
    Meets (Open durable) (refuseIf c e >>= f) Q := by
  intro s h
  rw [outcome_bind, outcome_refuseIf]
  by_cases hrefused : c s = true
  · rw [if_pos hrefused]
    exact herror _ s h
  · rw [if_neg hrefused]
    exact hf s ⟨h, hc s (by simpa using hrefused)⟩

/-- What follows the answer of a command that was sent in the transaction. -/
theorem Meets.send {β : Type} {command : Command} (hcommit : command ≠ .commit)
    (hrollback : command ≠ .rollback) (x : Exchange α R)
    {f : Except DriverError (Answer R) → Scope α β} {Q : Except DatabaseError β → State α → Prop}
    (hf : ∀ answer, Meets (Answered durable x answer) (f answer) Q) :
    Meets (fun s => Open durable s ∧ s.connection = true)
      (Transaction.send client.product command x >>= f) Q := by
  intro s h
  rw [outcome_bind]
  exact hf _ _ (exchange_answered client.product hcommit hrollback x h.1.1 h.1.2 h.2)

theorem not_requireReady {s : State α}
    (h : (decide (s.session ≠ .ready) || !s.connection) = false) : s.connection = true := by
  simp only [Bool.or_eq_false_iff, Bool.not_eq_false'] at h
  exact h.2

/-- Reading the diagnostics leaves the scope open in its transaction. -/
theorem keeps_checkWarningsForSql (phase : ErrorPhase) (sql : String) (count : Nat)
    (x : Exchange α R) : Keeps (Open durable) (checkWarningsForSql client phase sql count x) := by
  refine Meets.connected (fun _ hc => by simpa using hc) ?_ fun _ _ h => h
  split
  next => exact fun _ h => h.1
  next =>
    refine Meets.send client (by decide) (by decide) x fun answer s h => ?_
    split
    next => exact h.base.quarantine_open h.isOpen
    next =>
      have hopen : Open durable s := h.open (by simp)
      split
      next => exact hopen
      next => exact hopen
    next => exact h.base.quarantine_open h.isOpen

theorem quarantineIf_throw {β : Type} (fatal : Bool) (e : DatabaseError) (s : State α) :
    outcome (do quarantineIf fatal; throw e : Scope α β) s =
      (.error e, if fatal then s.quarantine else s) := by
  cases fatal <;> rfl

/-- An error of the driver: only the victim of a deadlock lost its transaction. -/
theorem told_driverError {β : Type} {x : Exchange α R} (phase : ErrorPhase) (error : DriverError)
    {s : State α} (h : Answered durable x (.error error) s) :
    Told (β := β) durable x
      (outcome (do
        quarantineIf error.isFatal
        throw (driverError client.profile error phase .none) : Scope α β) s).1
      (outcome (do
        quarantineIf error.isFatal
        throw (driverError client.profile error phase .none) : Scope α β) s).2 := by
  rw [quarantineIf_throw]
  by_cases hfatal : error.isFatal = true
  · rw [if_pos hfatal]
    exact (h.base.quarantine_open h.isOpen).told
  · rw [if_neg hfatal]
    refine ⟨h.base, h.isOpen, ?_⟩
    rcases h.inside with ⟨herror, hdeadlocked⟩ | hinside
    · have hcode : error = .server 1213 := Except.error.inj herror
      exact .inl ⟨hdeadlocked, _, rfl, (driverError_rolledBack_iff client.product error phase).2 hcode⟩
    · exact .inr { h.base with
        inside := fun _ _ => hinside
        closed := fun hclosed => (by rw [h.isOpen] at hclosed; cases hclosed) }

theorem meets_exchangeRows {command : Command} (hcommit : command ≠ .commit)
    (hrollback : command ≠ .rollback) (sql : String) (phase : ErrorPhase) (t : Trip α R) :
    Meets (Open durable) (exchangeRows client command sql phase t) (Told durable t.sent) := by
  refine Meets.connected (fun _ => not_requireReady) ?_ fun _ _ h => h.told
  refine Meets.send client hcommit hrollback t.sent fun answer s h => ?_
  split
  next => exact (h.base.quarantine_open h.isOpen).told
  next answer _ =>
    refine Meets.bind (keeps_checkWarningsForSql client phase sql answer.warnings t.warned)
      (fun _ _ h => h.told) (fun _ _ h => h.told) s (h.open (by simp))
  next error _ => exact told_driverError client phase error h

theorem meets_execControl {command : Command} (hcommit : command ≠ .commit)
    (hrollback : command ≠ .rollback) (sql : String) (phase : ErrorPhase) (t : Trip α R) :
    Meets (Open durable) (execControl client command sql phase t) (Told durable t.sent) := by
  refine Meets.bind (R := fun _ s => Open durable s) (fun _ h => h) (fun _ => ?_) fun _ _ h => h.told
  refine Meets.connected (fun _ => not_requireReady) ?_ fun _ _ h => h.told
  refine Meets.send client hcommit hrollback t.sent fun answer s h => ?_
  split
  next => exact (h.base.quarantine_open h.isOpen).told
  next answer _ =>
    split
    next => exact (h.base.quarantine_open h.isOpen).told
    next =>
      exact (keeps_checkWarningsForSql client phase sql answer.warnings t.warned s
        (h.open (by simp))).told
  next error _ => exact told_driverError client phase error h

theorem keeps_verifySessionProfile (phase : ErrorPhase) (t : Trip α R) :
    Keeps (Open durable) (verifySessionProfile client phase t) := by
  intro s h
  have htold := meets_exchangeRows client (show Command.profile ≠ .commit by decide)
    (by decide) client.profileSql phase t s h
  unfold verifySessionProfile
  rw [outcome_bind, outcome_attempt]
  generalize outcome (exchangeRows client .profile client.profileSql phase t) s = r at htold ⊢
  obtain ⟨result, s'⟩ := r
  dsimp only
  split
  next heq =>
    cases result with
    | ok answer => exact htold.open
    | error e => cases heq
  next => exact htold.base.quarantine_open htold.isOpen

end Session

/-! ## The calls -/

section Requests

/-- A call that returned a value left its scope open. -/
structure Settled {β : Type} (durable : List α) (result : Except DatabaseError β) (s : State α) :
    Prop where
  inv : Inv durable s
  isOpen : ∀ b, result = .ok b → s.isOpen = true

theorem settled_error {β : Type} {e : DatabaseError} {s : State α} (h : Inv durable s) :
    Settled (β := β) durable (.error e) s :=
  ⟨h, fun _ hok => (by cases hok)⟩

theorem Open.settled {β : Type} {result : Except DatabaseError β} {s : State α}
    (h : Open durable s) : Settled durable result s :=
  ⟨h.1, fun _ _ => h.2⟩

theorem Settled.bind {β γ : Type} {P : State α → Prop} {x : Scope α β} {f : β → Scope α γ}
    (hx : Meets P x (Settled durable)) (hf : ∀ b, Meets (Open durable) (f b) (Settled durable)) :
    Meets P (x >>= f) (Settled durable) :=
  .bind hx (fun b s hs => hf b s ⟨hs.inv, hs.isOpen b rfl⟩) fun _ _ hs => settled_error hs.inv

theorem settled_ofResult {β : Type} (r : Result β) :
    Meets (Open durable) (ofResult r : Scope α β) (Settled durable) :=
  fun _ h => h.settled

theorem settled_pure {β : Type} (b : β) :
    Meets (Open durable) (pure b : Scope α β) (Settled durable) :=
  fun _ h => h.settled

theorem settled_mapError {β : Type} {P : State α → Prop} {x : Scope α β}
    (f : DatabaseError → DatabaseError) (h : Meets P x (Settled durable)) :
    Meets P (mapResult (Except.mapError f) x) (Settled durable) := by
  intro s hs
  obtain ⟨hinv, hopen⟩ := h s hs
  rw [outcome_mapResult]
  generalize outcome x s = r at hinv hopen ⊢
  obtain ⟨_ | b, s'⟩ := r
  · exact settled_error hinv
  · exact ⟨hinv, fun _ _ => hopen b rfl⟩

theorem discardAfterFailure_inv (effect : RemoteEffect) {s : State α} (h : Base durable s) :
    Inv durable (outcome (discardAfterFailure effect) s).2 :=
  Base.quarantine (s := { s with
    isOpen := false, recoveryRequired := effect ≠ .rolledBack })
    ⟨h.durable, h.alive, h.received, h.idle, h.ready⟩

theorem abandonStream_inv {s : State α} (h : Base durable s) :
    Inv durable { s with isOpen := false, recoveryRequired := true } :=
  Base.recovering ⟨h.durable, h.alive, h.received, h.idle, h.ready⟩ rfl rfl

theorem settled_discard {β : Type} (effect : RemoteEffect) (e : DatabaseError) {s : State α}
    (h : Base durable s) :
    Settled durable (outcome (do discardAfterFailure effect; throw e : Scope α β) s).1
      (outcome (do discardAfterFailure effect; throw e : Scope α β) s).2 :=
  settled_error (discardAfterFailure_inv effect h)

variable (client : Client R Row)

theorem settled_ensureOpen (phase : ErrorPhase) :
    Meets (Inv durable) (ensureOpen client phase : Scope α Unit) (Settled durable) := by
  intro s h
  refine ⟨h, fun _ hok => ?_⟩
  simp only [ensureOpen, outcome_refuseIf] at hok
  split at hok
  next => cases hok
  next hopen =>
    have : s.isOpen = true := by simpa using hopen
    exact this

theorem settled_verifyProfile (phase : ErrorPhase) (t : Trip α R) :
    Meets (Open durable) (verifyProfile client phase t) (Settled durable) := by
  intro s h
  have hverified := keeps_verifySessionProfile client phase t s h
  unfold verifyProfile
  rw [outcome_bind, outcome_attempt]
  dsimp only
  generalize outcome (verifySessionProfile client phase t) s = r at hverified ⊢
  obtain ⟨_ | _, s'⟩ := r
  · exact settled_discard .unknown _ hverified.1.toBase
  · exact hverified.settled

theorem outcome_verifyWhileOpen (phase : ErrorPhase) (t : Trip α R) (s : State α) :
    outcome (verifyWhileOpen client phase t) s =
      if s.isOpen then outcome (verifyProfile client phase t) s else (.ok (), s) := by
  unfold verifyWhileOpen
  rw [outcome_bind, outcome_read]
  dsimp only
  split
  next => rfl
  next => rfl

theorem settled_verifyOpen (phase : ErrorPhase) (t : Trip α R) :
    Meets (Open durable) (verifyWhileOpen client phase t) (Settled durable) := by
  intro s h
  rw [outcome_verifyWhileOpen, if_pos h.2]
  exact settled_verifyProfile client phase t s h

/-- The profile after a failed command: whatever it says, the failure is reported. -/
theorem settled_verifyWhileOpen {β : Type} (phase : ErrorPhase) (t : Trip α R) (e : DatabaseError) :
    Meets (Inv durable) (do verifyWhileOpen client phase t; throw e : Scope α β) (Settled durable) := by
  intro s h
  rw [outcome_bind, outcome_verifyWhileOpen]
  split
  next heq =>
    split at heq
    next hopen =>
      have hsettled := settled_verifyProfile client phase t s ⟨h, hopen⟩
      rw [heq] at hsettled
      exact settled_error hsettled.inv
    next =>
      cases heq
      exact settled_error h
  next heq =>
    split at heq
    next hopen =>
      have hsettled := settled_verifyProfile client phase t s ⟨h, hopen⟩
      rw [heq] at hsettled
      exact settled_error hsettled.inv
    next => cases heq

/-- A failed write closes the scope where its effect is unknown or undone. -/
theorem finishCallerWrite_inv {x : Exchange α R} {e : DatabaseError} {s : State α}
    (h : Told durable x (.error e : Result (Answer R)) s) :
    Inv durable (outcome (finishCallerWrite (.error e : Result (Answer R))) s).2 := by
  unfold finishCallerWrite
  dsimp only
  split
  next => exact discardAfterFailure_inv _ h.base
  next heffect =>
    refine h.inside.resolve_left ?_
    rintro ⟨-, e', he, hrolledBack⟩
    cases he
    exact heffect (by simp [hrolledBack])

theorem outcome_finishCallerWrite (e : DatabaseError) (s : State α) :
    (outcome (finishCallerWrite (.error e : Result (Answer R))) s).1 = .ok () := by
  unfold finishCallerWrite
  dsimp only
  split <;> rfl

/-- **A write leaves a scope in its transaction, or closed.** -/
theorem settled_callerWrite (sql : String) (t profile : Trip α R) :
    Meets (Open durable) (callerWrite client sql t profile) (Settled durable) := by
  intro s h
  have htold := meets_exchangeRows client (show Command.statement ≠ .commit by decide)
    (by decide) sql .write t s h
  unfold callerWrite
  rw [outcome_bind, outcome_attempt]
  dsimp only
  generalize outcome (exchangeRows client .statement sql .write t) s = r at htold ⊢
  obtain ⟨e | answer, s'⟩ := r
  · -- the write failed: what is read afterwards does not change the answer
    have hinv := finishCallerWrite_inv htold
    have hok := outcome_finishCallerWrite (R := R) e s'
    rw [outcome_bind]
    generalize outcome (finishCallerWrite (.error e : Result (Answer R))) s' = r at hinv hok ⊢
    obtain ⟨_ | _, s''⟩ := r
    · cases hok
    · exact settled_verifyWhileOpen client .write profile e s'' hinv
  · have hopen : Open durable s' := htold.open
    have hrest : Meets (Open durable) (do
        verifyWhileOpen client .write profile
        pure answer.affected : Scope α Nat) (Settled durable) :=
      Settled.bind (settled_verifyOpen client .write profile) fun _ => settled_pure _
    exact hrest s' hopen

theorem settled_execute (statement : Statement) (t profile : Trip α R) :
    Meets (Inv durable) (execute client statement t profile) (Settled durable) :=
  settled_mapError _ (Settled.bind (settled_ensureOpen client _) fun _ =>
    Settled.bind (settled_ofResult _) fun _ => Settled.bind (settled_ofResult _) fun _ =>
    settled_callerWrite client statement.sql t profile)

/-- An error of a query: the victim of a deadlock closes the scope. -/
theorem settled_failQuery {β : Type} {x : Exchange α R} (error : DriverError) (profile : Trip α R) :
    Meets (Answered durable x (.error error))
      (failQuery client (driverError client.profile error .read .none) profile : Scope α β)
      (Settled durable) := by
  intro s h
  unfold failQuery discardIfRolledBack
  by_cases hdeadlock : error = .server 1213
  · have heffect := (driverError_rolledBack_iff client.product error .read).2 hdeadlock
    rw [outcome_bind, if_pos (show (driverError client.profile error .read .none).remoteEffect = _
      from heffect)]
    exact settled_verifyWhileOpen client .read profile _ _ (discardAfterFailure_inv _ h.base)
  · have heffect := mt (driverError_rolledBack_iff client.product error .read).1 hdeadlock
    rw [outcome_bind, if_neg (show ¬ (driverError client.profile error .read .none).remoteEffect = _
      from heffect)]
    have hopen : Open durable s := h.open fun herror => hdeadlock (Except.error.inj herror)
    exact settled_verifyWhileOpen client .read profile _ s hopen.1

theorem settled_finishQuery (sql : String) (answer : Answer R) (warned : Exchange α R)
    (profile : Trip α R) :
    Meets (Open durable) (finishQuery client sql answer warned profile) (Settled durable) := by
  intro s h
  have hchecked := keeps_checkWarningsForSql client .read sql answer.warnings warned s h
  unfold finishQuery
  rw [outcome_bind, outcome_attempt]
  dsimp only
  generalize outcome (checkWarningsForSql client .read sql answer.warnings warned) s = r at hchecked ⊢
  obtain ⟨_ | _, s'⟩ := r
  · exact settled_discard .unknown _ hchecked.1.toBase
  · exact Settled.bind (settled_verifyProfile client .read profile)
      (fun _ => settled_ofResult _) s' hchecked

theorem settled_query (statement : Statement) (t profile : Trip α R) :
    Meets (Inv durable) (query client statement t profile) (Settled durable) := by
  refine settled_mapError _ (Settled.bind (settled_ensureOpen client _) fun _ =>
    Settled.bind (settled_ofResult _) fun _ => Settled.bind (settled_ofResult _) fun _ => ?_)
  refine Meets.connected (fun _ hc => by simpa using hc) ?_ fun _ _ h => h.settled
  refine Meets.send client (by decide) (by decide) t.sent fun answer s h => ?_
  split
  next => exact settled_discard .unknown _ h.base
  next => exact settled_discard .unknown _ h.base
  next error _ => exact settled_failQuery client error profile s h
  next answer _ => exact settled_finishQuery client statement.sql answer t.warned profile s (h.open (by simp))

/-! ### Streams -/

/-- While a stream is read the scope is open; where no failure is to come, it is in its
transaction. -/
structure Streaming (durable : List α) (stream : RowStream R) (s : State α) : Prop where
  base : Base durable s
  isOpen : stream.exhausted = false → s.isOpen = true
  inside : stream.failure = none ∨ stream.finished = true ∨ stream.exhausted = true →
    Inv durable s

theorem streaming_exhausted {stream : RowStream R} {s : State α} (h : Inv durable s) :
    Streaming durable { stream with exhausted := true } s :=
  ⟨h.toBase, fun hreading => (by cases hreading), fun _ => h⟩

theorem Open.streaming {stream : RowStream R} {s : State α} (h : Open durable s) :
    Streaming durable stream s :=
  ⟨h.1.toBase, fun _ => h.2, fun _ => h.1⟩

/-- The rows come before a failure: the scope stays open until it is told. -/
theorem Answered.streaming {x : Exchange α R} {answer : Except DriverError (Answer R)}
    {s : State α} (h : Answered durable x answer s) (a : Answer R) (failure : StreamFailure) :
    Streaming durable (openedStream a (some failure)) s :=
  ⟨h.base, fun _ => h.isOpen, fun hnone => (by rcases hnone with h | h | h <;> cases h)⟩

/-- The opening of a stream, or an error that closed the scope. -/
structure StreamOpened (durable : List α) (result : Except DatabaseError (RowStream R))
    (s : State α) : Prop where
  stream : ∀ stream, result = .ok stream → Streaming durable stream s
  error : ∀ e, result = .error e → Inv durable s

theorem streamOpened_error {e : DatabaseError} {s : State α} (h : Inv durable s) :
    StreamOpened (R := R) durable (.error e) s :=
  ⟨fun _ hok => (by cases hok), fun _ _ => h⟩

theorem streamOpened_ok {stream : RowStream R} {s : State α} (h : Streaming durable stream s) :
    StreamOpened durable (.ok stream) s :=
  ⟨fun _ hok => (by cases hok; exact h), fun _ he => (by cases he)⟩

theorem streamOpened_mapError {P : State α → Prop} {x : Scope α (RowStream R)}
    (f : DatabaseError → DatabaseError) (h : Meets P x (StreamOpened durable)) :
    Meets P (mapResult (Except.mapError f) x) (StreamOpened durable) := by
  intro s hs
  obtain ⟨hstream, herror⟩ := h s hs
  rw [outcome_mapResult]
  generalize outcome x s = r at hstream herror ⊢
  obtain ⟨e | stream, s'⟩ := r
  · exact streamOpened_error (herror e rfl)
  · exact streamOpened_ok (hstream stream rfl)

/-- A check before the stream is opened. -/
theorem StreamOpened.bind {β : Type} {P : State α → Prop} {x : Scope α β}
    {f : β → Scope α (RowStream R)} (hx : Meets P x (Settled durable))
    (hf : ∀ b, Meets (Open durable) (f b) (StreamOpened durable)) :
    Meets P (x >>= f) (StreamOpened durable) :=
  .bind hx (fun b s hs => hf b s ⟨hs.inv, hs.isOpen b rfl⟩) fun _ _ hs => streamOpened_error hs.inv

theorem meets_openStream (statement : Statement) (batchSize : Nat) (x : Exchange α R) :
    Meets (Inv durable) (openStream client statement batchSize x) (StreamOpened durable) := by
  refine streamOpened_mapError _ (StreamOpened.bind (settled_ensureOpen client _) fun _ =>
    StreamOpened.bind (settled_ofResult _) fun _ => StreamOpened.bind (settled_ofResult _) fun _ =>
    StreamOpened.bind (settled_ofResult _) fun _ => ?_)
  intro s h
  rw [outcome_bind, outcome_read]
  dsimp only
  cases hconnection : s.connection with
  | false => exact streamOpened_error (abandonStream_inv h.1.toBase)
  | true =>
    refine Meets.send client (by decide) (by decide) x (fun answer s h => ?_) s ⟨h, hconnection⟩
    split
    next => exact streamOpened_error (abandonStream_inv h.base)
    next =>
      split
      next => exact streamOpened_ok (h.streaming x.answer .timeout)
      next => exact streamOpened_error (abandonStream_inv h.base)
    next error _ =>
      split
      next => exact streamOpened_ok (h.streaming x.answer (.driver error))
      next => exact streamOpened_error (abandonStream_inv h.base)
    next answer _ => exact streamOpened_ok (h.open (by simp)).streaming

/-- A batch was answered, and the stream may be read on. -/
structure Batched (durable : List α)
    (result : Except DatabaseError (Result (Option (List Row)) × RowStream R)) (s : State α) :
    Prop where
  answered : ∃ batch stream, result = .ok (batch, stream) ∧ Streaming durable stream s

theorem batched_ok {batch : Result (Option (List Row))} {stream : RowStream R} {s : State α}
    (h : Streaming durable stream s) : Batched durable (.ok (batch, stream)) s :=
  ⟨batch, stream, rfl, h⟩

theorem batched_failStream (stream : RowStream R) (e : DatabaseError) {s : State α}
    (h : Base durable s) :
    Batched durable
      (outcome (failStream stream e : Scope α (Result (Option (List Row)) × RowStream R)) s).1
      (outcome (failStream stream e : Scope α (Result (Option (List Row)) × RowStream R)) s).2 :=
  batched_ok (streaming_exhausted (abandonStream_inv h))

theorem meets_streamEnd {stream : RowStream R} (hreading : stream.exhausted = false)
    (profile : Trip α R) :
    Meets (Streaming durable stream) (streamEnd client stream profile)
      fun r s => Base durable s ∧ (r = .ok () → Open durable s) := by
  intro s h
  unfold streamEnd
  cases hfailure : stream.failure with
  | some failure =>
    cases failure with
    | driver error => exact ⟨h.base, fun hok => (by cases hok)⟩
    | timeout => exact ⟨h.base, fun hok => (by cases hok)⟩
  | none =>
    have hopen : Open durable s := ⟨h.inside (.inl hfailure), h.isOpen hreading⟩
    dsimp only
    split
    next => exact ⟨h.base, fun hok => (by cases hok)⟩
    next =>
      have hverified := keeps_verifySessionProfile client .read profile s hopen
      exact ⟨hverified.1.toBase, fun _ => hverified⟩

theorem meets_nextBatch (batchSize : Nat) (profile : Trip α R) (token : Option CancellationReason)
    (stream : RowStream R) :
    Meets (Streaming durable stream) (nextBatch client batchSize profile token stream)
      (Batched durable) := by
  intro s h
  unfold nextBatch
  split
  next => exact batched_ok h
  next hreading =>
    have hreading : stream.exhausted = false := by simpa using hreading
    split
    next => exact batched_failStream stream _ h.base
    next =>
      split
      next => exact batched_failStream stream _ h.base
      next =>
        split
        next => exact batched_ok ⟨h.base, h.isOpen, h.inside⟩
        next =>
          split
          next hfinished => exact batched_ok (streaming_exhausted (h.inside (.inr (.inl hfinished))))
          next =>
            -- the last rows: the end of the stream is checked first
            have hend := meets_streamEnd client hreading profile s h
            rw [outcome_bind, outcome_attempt]
            dsimp only
            generalize outcome (streamEnd client stream profile) s = r at hend ⊢
            obtain ⟨_ | _, s'⟩ := r
            · exact batched_failStream stream _ hend.1
            · have hopen : Open durable s' := hend.2 rfl
              dsimp only
              split
              next => exact batched_ok (streaming_exhausted hopen.1)
              next => exact batched_ok hopen.streaming

theorem meets_readBatches (batchSize : Nat) (profile : Trip α R)
    (tokens : List (Option CancellationReason)) (stream : RowStream R) :
    Meets (Streaming durable stream) (readBatches client batchSize profile tokens stream)
      fun _ s => Inv durable s := by
  induction tokens generalizing stream with
  | nil =>
    intro s h
    unfold readBatches dropStream
    cases hexhausted : stream.exhausted with
    | true => exact h.inside (.inr (.inr hexhausted))
    | false => exact abandonStream_inv h.base
  | cons token tokens ih =>
    refine Meets.bind (meets_nextBatch client batchSize profile token stream) ?_ ?_
    · rintro ⟨batch, stream'⟩ s ⟨_, _, heq, hstreaming⟩
      cases heq
      exact Meets.bind (Q := fun _ s => Inv durable s) (ih stream') (fun _ => keeps_pure _)
        (fun _ _ hinv => hinv) s hstreaming
    · rintro e s ⟨_, _, heq, _⟩
      cases heq

theorem keeps_queryStream (statement : Statement) (batchSize : Nat)
    (tokens : List (Option CancellationReason)) (x : Exchange α R) (profile : Trip α R) :
    Keeps (Inv durable) (queryStream client statement batchSize tokens x profile) := by
  refine Meets.bind (meets_openStream client statement batchSize x) (fun stream s hs => ?_)
    fun e _ hs => hs.error e rfl
  exact meets_readBatches client batchSize profile tokens stream s (hs.stream stream rfl)

/-! ### Savepoints and conditional updates -/

/-- A control statement that is not the victim of a deadlock leaves the scope in its transaction. -/
theorem settled_execControl {command : Command} (hcommit : command ≠ .commit)
    (hrollback : command ≠ .rollback) (sql : String) (phase : ErrorPhase) {t : Trip α R}
    (ht : ¬ t.sent.Deadlocked) :
    Meets (Open durable) (execControl client command sql phase t) (Settled durable) :=
  fun s h => ((meets_execControl client hcommit hrollback sql phase t s h).kept ht).settled

theorem settled_savepoint (name : String) {t : Trip α R} (ht : ¬ t.sent.Deadlocked) :
    Meets (Inv durable) (savepoint client name t) (Settled durable) :=
  settled_mapError _ (Settled.bind (settled_ensureOpen client _) fun _ =>
    Settled.bind (settled_ofResult _) fun _ =>
    settled_execControl client (fun h => (by cases h)) (fun h => (by cases h)) _ _ ht)

theorem settled_releaseSavepoint (name : String) {t : Trip α R} (ht : ¬ t.sent.Deadlocked) :
    Meets (Inv durable) (releaseSavepoint client name t) (Settled durable) :=
  settled_mapError _ (Settled.bind (settled_ensureOpen client _) fun _ =>
    Settled.bind (settled_ofResult _) fun _ =>
    settled_execControl client (fun h => (by cases h)) (fun h => (by cases h)) _ _ ht)

/-- Whatever a rollback to a savepoint fails with closes the scope. -/
theorem settled_rollbackToSavepoint (name : String) (t : Trip α R) :
    Meets (Inv durable) (rollbackToSavepoint client name t) (Settled durable) := by
  refine settled_mapError _ (Settled.bind (settled_ensureOpen client _) fun _ =>
    Settled.bind (settled_ofResult _) fun quoted => ?_)
  intro s h
  have htold := meets_execControl client (show Command.rollbackTo name ≠ .commit from
    fun h => (by cases h)) (fun h => (by cases h)) s!"ROLLBACK TO SAVEPOINT {quoted}" .write t s h
  rw [outcome_bind, outcome_attempt]
  dsimp only
  generalize outcome (execControl client (.rollbackTo name) s!"ROLLBACK TO SAVEPOINT {quoted}"
    .write t) s = r at htold ⊢
  obtain ⟨_ | _, s'⟩ := r
  · exact settled_discard .unknown _ htold.base
  · exact htold.open.settled

theorem settled_verifyConditional (sql : String) (isUpdate : Bool) {trips : Nat → Trip α R}
    (reads : Nat) (answers : List (List R))
    (htrips : ∀ n, n < answers.length + reads → ¬ (trips n).sent.Deadlocked) :
    Meets (Open durable) (verifyConditional client sql isUpdate trips reads answers)
      (Settled durable) := by
  induction reads generalizing answers with
  | zero => exact settled_pure ()
  | succ reads ih =>
    refine Settled.bind (settled_ofResult _) fun next => ?_
    cases next with
    | none => exact settled_pure ()
    | some query =>
      have hread : Meets (Open durable)
          (exchangeRows client .catalog query .prepare (trips answers.length)) (Settled durable) :=
        fun s h => ((meets_exchangeRows client (by decide) (by decide) query .prepare _ s h).kept
          (htrips _ (by omega))).settled
      refine Settled.bind hread fun answer => ih _ fun n hn => htrips n ?_
      simp only [List.length_append, List.length_singleton] at hn
      omega

theorem settled_throw {β : Type} (e : DatabaseError) :
    Meets (Open durable) (throw e : Scope α β) (Settled durable) :=
  fun _ h => h.settled

theorem Settled.ofInv {β : Type} {x : Scope α β} (h : Meets (Inv durable) x (Settled durable)) :
    Meets (Open durable) x (Settled durable) :=
  h.conseq (fun _ hs => hs.1) fun _ _ hr => hr

theorem settled_executeConditionalUpdate (request : ConditionalUpdate) {x : Nat → Trip α R}
    (hx : ∀ n, n ≤ 10 ∨ n = 13 → ¬ (x n).sent.Deadlocked) :
    Meets (Inv durable) (executeConditionalUpdate client request x) (Settled durable) := by
  refine settled_mapError _ (Settled.bind (settled_ensureOpen client _) fun _ =>
    Settled.bind (settled_ofResult _) fun _ => Settled.bind (settled_ofResult _) fun _ => ?_)
  refine Settled.bind (settled_verifyConditional client _ true catalogReads [] fun n hn =>
    hx n (.inl ?_)) fun _ => ?_
  · simp only [catalogReads, List.length_nil] at hn
    omega
  refine Settled.bind ?_ fun _ => ?_
  · cases request.keyProbe with
    | none => exact settled_pure ()
    | some probe =>
      show Meets (Open durable)
        (verifyConditional client probe.sql false (fun n => x (5 + n)) catalogReads [])
        (Settled durable)
      refine settled_verifyConditional client probe.sql false catalogReads [] fun n hn =>
        hx (5 + n) (.inl ?_)
      simp only [catalogReads, List.length_nil] at hn
      omega
  refine Settled.bind (Settled.ofInv (settled_savepoint client conditionalSavepoint
    (hx 10 (.inl (Nat.le_refl _))))) fun _ => ?_
  refine Settled.bind (settled_ofResult _) fun _ => ?_
  refine Settled.bind (settled_callerWrite client request.update.sql (x 11) (x 12)) fun affected => ?_
  split
  next => exact Settled.ofInv (settled_releaseSavepoint client _ (hx 13 (.inr rfl)))
  next =>
    exact Settled.bind (Settled.ofInv (settled_rollbackToSavepoint client _ (x 14))) fun _ =>
      settled_throw _

theorem Settled.keeps {β : Type} {x : Scope α β} (h : Meets (Inv durable) x (Settled durable)) :
    Keeps (Inv durable) x :=
  h.conseq (fun _ hs => hs) fun _ _ hs => hs.inv

/-- **Every call leaves a scope in its transaction, or closed.** -/
theorem keeps_perform (request : Request) (x : Nat → Trip α R)
    (hstep : ControlKept (request, x)) : Keeps (Inv durable) (perform client request x) := by
  cases request with
  | execute statement =>
    exact .bind (Settled.keeps (settled_execute client statement _ _)) fun _ => keeps_pure _
  | query statement =>
    exact .bind (Settled.keeps (settled_query client statement _ _)) fun _ => keeps_pure _
  | queryStream statement batchSize tokens =>
    exact .bind (keeps_queryStream client statement batchSize tokens _ _) fun _ => keeps_pure _
  | savepoint name =>
    exact .bind (Settled.keeps (settled_savepoint client name hstep)) fun _ => keeps_pure _
  | rollbackToSavepoint name =>
    exact .bind (Settled.keeps (settled_rollbackToSavepoint client name _)) fun _ => keeps_pure _
  | releaseSavepoint name =>
    exact .bind (Settled.keeps (settled_releaseSavepoint client name hstep)) fun _ => keeps_pure _
  | conditionalUpdate request =>
    exact .bind (Settled.keeps (settled_executeConditionalUpdate client request hstep)) fun _ =>
      keeps_pure _

theorem reach_inv {s : State α} (h : Inv durable s) (steps : List (Request × (Nat → Trip α R)))
    (hsteps : ∀ step ∈ steps, ControlKept step) : Inv durable (reach client s steps) := by
  induction steps generalizing s with
  | nil => exact h
  | cons step steps ih =>
    obtain ⟨request, x⟩ := step
    have hkept : ControlKept (request, x) := hsteps _ (List.mem_cons_self ..)
    exact ih (keeps_perform client request x hkept s h)
      fun step hstep => hsteps step (List.mem_cons_of_mem _ hstep)

theorem opened_inv (durable : List α) : Inv durable (opened durable) where
  durable := rfl
  alive := Server.alive_begin _
  received := fun _ hentry => (by cases hentry)
  idle := rfl
  ready := .inl rfl
  inside := fun _ _ _ => rfl
  closed := fun hclosed => (by cases hclosed)

end Requests

/-! ## The end of the scope -/

section Endings

/-- What holds up to the drop once the end was sent: these changes are durable. -/
structure Ended (durable : List α) (s : State α) : Prop where
  durable : s.server.durable = durable
  received : ∀ entry ∈ s.received, entry.1.ofCaller = true → entry.2 = true
  idle : s.idle = false

theorem Base.ended {s : State α} (h : Base durable s) : Ended durable s :=
  ⟨h.durable, h.received, h.idle⟩

theorem Ended.quarantine {s : State α} (h : Ended durable s) : Ended durable s.quarantine :=
  ⟨h.durable, h.received, h.idle⟩

theorem Ended.disconnect {s : State α} (h : Ended durable s) : Ended durable s.disconnect :=
  ⟨h.durable, h.received, h.idle⟩

/-- A command that is not the caller's, whatever the server made durable. -/
theorem Ended.served {s : State α} (h : Ended durable s) {command : Command}
    (hcommand : command.ofCaller = false) {server : Server α} {durable' : List α}
    (hserver : server.durable = durable') (inside : Bool) :
    Ended durable' { s with server, received := s.received ++ [(command, inside)] } := by
  refine ⟨hserver, fun entry hentry => ?_, h.idle⟩
  rcases List.mem_append.1 hentry with hold | hnew
  · exact h.received entry hold
  · rw [List.mem_singleton.1 hnew, hcommand]
    exact fun hcaller => (by cases hcaller)

theorem durable_serve (product : Product) {command : Command}
    (hcommand : command = .showWarnings ∨ command = .rollback) (x : Exchange α R)
    (server : Server α) : (serve product command x server).2.durable = server.durable := by
  have hcommit : command ≠ .commit := by rcases hcommand with rfl | rfl <;> decide
  have hcarried : (carryOut command x server).durable = server.durable := by
    rcases hcommand with rfl | rfl <;> rfl
  unfold serve
  split
  next error _ =>
    rcases turnDown_cases product hcommit x error server with ⟨-, heq⟩ | heq | heq
    · show (turnDown product command x error server).durable = _
      rw [heq]
      rfl
    · show (turnDown product command x error server).durable = _
      rw [heq]
    · show (turnDown product command x error server).durable = _
      rw [heq, hcarried]
  next => exact hcarried

theorem exchange_ended (product : Product) {command : Command}
    (hcommand : command = .showWarnings ∨ command = .rollback) (x : Exchange α R) {s : State α}
    (h : Ended durable s) : Ended durable (State.exchange product command x s).2 := by
  have hcaller : command.ofCaller = false := by rcases hcommand with rfl | rfl <;> rfl
  have hserved := h.served hcaller
    ((durable_serve product hcommand x s.server).trans h.durable) s.server.tx.isSome
  unfold State.exchange
  split
  next => exact h
  next =>
    split
    next => exact h.disconnect
    next =>
      dsimp only
      split
      next => exact hserved.disconnect
      next => exact hserved

variable (client : Client R Row)

theorem keeps_checkWarnings_ended (phase : ErrorPhase) (sql : String) (count : Nat)
    (x : Exchange α R) : Keeps (Ended durable) (checkWarningsForSql client phase sql count x) := by
  refine .bind (keeps_refuseIf _ _) fun _ => ?_
  split
  next => exact keeps_pure ()
  next =>
    refine .bind (keeps_exchange fun s h => exchange_ended client.product (.inl rfl) x h)
      fun answer s h => ?_
    split
    next => exact h.quarantine
    next => split; exacts [h, h]
    next => exact h.quarantine

/-- The answer of a COMMIT or a ROLLBACK, with its diagnostics. -/
theorem keeps_checkEnd (phase : ErrorPhase) (answer : Answer R) (x : Exchange α R) :
    Keeps (Ended durable) (if answer.unexpectedResults then throw (warningError client.profile phase)
      else checkWarningsForSql client phase "" answer.warnings x : Scope α Unit) := by
  split
  next => exact keeps_throw _
  next => exact keeps_checkWarnings_ended client phase "" answer.warnings x

theorem keeps_quarantineIf_throw {β : Type} (fatal : Bool) (e : DatabaseError) :
    Keeps (Ended durable) (do quarantineIf fatal; throw e : Scope α β) := by
  intro s h
  rw [quarantineIf_throw]
  dsimp only
  split
  next => exact h.quarantine
  next => exact h

/-- **A ROLLBACK makes nothing durable, whatever becomes of it.** -/
theorem keeps_execRollback (t : Trip α R) :
    Keeps (Ended durable) (execTransaction client .rollback .rollback t) := by
  refine .bind (keeps_refuseIf _ _) fun _ =>
    .bind (keeps_exchange fun s h => exchange_ended client.product (.inr rfl) t.sent h)
      fun answer s h => ?_
  split
  next => exact h.quarantine
  next answer _ =>
    have hchecked := keeps_checkEnd client .rollback answer t.warned s h
    rw [outcome_bind, outcome_attempt]
    dsimp only
    generalize outcome _ s = r at hchecked ⊢
    obtain ⟨_ | _, s'⟩ := r
    · exact Ended.quarantine hchecked
    · exact hchecked
  next error _ => exact keeps_quarantineIf_throw error.isFatal _ s h

/-- The state before the drop, after a call that consumes the scope. -/
structure Closing {β : Type} (durable : List α) (before : State α)
    (outcomeOf : β → Option CommitOutcome) (result : Except DatabaseError β) (after : State α) :
    Prop where
  received : ∀ entry ∈ after.received, entry.1.ofCaller = true → entry.2 = true
  committed : ∀ b, result = .ok b → outcomeOf b = some .committed →
    ∃ tx, before.server.tx = some tx ∧ after.server.durable = durable ++ tx.work
  uncommitted : ∀ b, result = .ok b → outcomeOf b = none → after.server.durable = durable
  undone : ∀ e, result = .error e → SaysUndone e → after.server.durable = durable
  idle : after.idle = false

theorem Ended.closing_error {β : Type} {outcomeOf : β → Option CommitOutcome} {before s : State α}
    (h : Ended durable s) (e : DatabaseError) : Closing durable before outcomeOf (.error e) s :=
  ⟨h.received, fun _ hb => (by cases hb), fun _ hb => (by cases hb), fun _ _ _ => h.durable, h.idle⟩

/-- An error that leaves the effect unknown, whatever is durable. -/
theorem Ended.closing_unknown {β : Type} {outcomeOf : β → Option CommitOutcome}
    {durable' : List α} {before s : State α} (h : Ended durable' s) {e : DatabaseError}
    (he : e.remoteEffect = .unknown) : Closing durable before outcomeOf (.error e) s :=
  ⟨h.received, fun _ hb => (by cases hb), fun _ hb => (by cases hb),
    fun _ heq hundone => (by cases heq; exact (saysUndone_unknown he hundone).elim), h.idle⟩

/-- What a COMMIT that was sent comes to on the server. -/
structure CommitSent (durable : List α) (product : Product) (before : State α)
    (answer : Except DriverError (Answer R)) (after : State α) : Prop where
  ended : Ended after.server.durable after
  acknowledged : ∀ a, answer = .ok a →
    ∃ tx, before.server.tx = some tx ∧ after.server.durable = durable ++ tx.work
  refused : ∀ error, answer = .error error →
    (serverCode error).any product.profile.commitRollbackCodes.contains = true →
      after.server.durable = durable

theorem commitSent_lost {product : Product} {before after : State α} (h : Ended durable after) :
    CommitSent (R := R) durable product before (.error connectionLost) after := by
  have hended : Ended after.server.durable after := ⟨rfl, h.received, h.idle⟩
  exact ⟨hended, fun _ hok => (by cases hok), fun _ _ _ => h.durable⟩

/-- **A COMMIT that is acknowledged made the work durable; a code that proves it lost the work.** -/
theorem exchange_commit (product : Product) (x : Exchange α R) {s : State α} (h : Inv durable s)
    (hopen : s.isOpen = true) (hconnection : s.connection = true) :
    CommitSent durable product s (State.exchange product .commit x s).1
      (State.exchange product .commit x s).2 := by
  unfold State.exchange
  split
  next => exact commitSent_lost h.toBase.ended
  next hon =>
    split
    next => exact commitSent_lost h.toBase.ended.disconnect
    next =>
      obtain ⟨tx, htx⟩ := Option.isSome_iff_exists.1
        (h.inside hopen hconnection (by simpa using hon))
      have hserved := h.toBase.ended.served (show Command.commit.ofCaller = false from rfl)
        (rfl : (serve product .commit x s.server).2.durable = _) s.server.tx.isSome
      dsimp only
      split
      next =>
        exact ⟨hserved.disconnect, fun _ hok => (by cases hok), fun error he hcode => (by
          cases he
          cases hcode)⟩
      next =>
        refine ⟨hserved, fun a ha => ⟨tx, htx, ?_⟩, fun error he hcode => ?_⟩
        · unfold serve at ha ⊢
          split at ha
          next => cases ha
          next =>
            exact (h.alive.durable_commit htx).trans (by rw [h.durable])
        · unfold serve at he ⊢
          split at he
          next failure _ =>
            cases he
            cases error with
            | transport => cases hcode
            | server code =>
              have hrolled : turnDown product .commit x (.server code) s.server = s.server.rollback :=
                if_pos hcode
              dsimp only
              rw [hrolled]
              exact h.durable
          next => cases he

/-! ### The reads before a COMMIT -/

/-- The transaction is this one, or has ended. -/
def Reading (tx : Option (Tx α)) (s : State α) : Prop := s.server.tx = tx ∨ s.server.tx = none

theorem serve_reading (product : Product) {command : Command}
    (hcommand : command = .showWarnings ∨ command = .profile) (x : Exchange α R)
    (server : Server α) :
    (serve product command x server).2.tx = server.tx ∨ (serve product command x server).2.tx = none := by
  have hcommit : command ≠ .commit := by rcases hcommand with rfl | rfl <;> decide
  have hcarried : carryOut command x server = server := by rcases hcommand with rfl | rfl <;> rfl
  unfold serve
  split
  next error _ =>
    dsimp only
    rcases turnDown_cases product hcommit x error server with ⟨-, heq⟩ | heq | heq
    · exact .inr (by rw [heq]; rfl)
    · exact .inl (by rw [heq])
    · exact .inl (by rw [heq, hcarried])
  next => exact .inl (congrArg Server.tx hcarried)

theorem exchange_reading (product : Product) {command : Command}
    (hcommand : command = .showWarnings ∨ command = .profile) (x : Exchange α R)
    {tx : Option (Tx α)} {s : State α} (h : Reading tx s) :
    Reading tx (State.exchange product command x s).2 := by
  unfold State.exchange
  split
  next => exact h
  next =>
    split
    next => exact .inr rfl
    next =>
      dsimp only
      split
      next => exact .inr rfl
      next =>
        rcases serve_reading product hcommand x s.server with heq | hnone
        · exact h.imp heq.trans heq.trans
        · exact .inr hnone

theorem keeps_reading_checkWarnings {tx : Option (Tx α)} (phase : ErrorPhase) (sql : String)
    (count : Nat) (x : Exchange α R) :
    Keeps (Reading tx) (checkWarningsForSql client phase sql count x) := by
  refine .bind (keeps_refuseIf _ _) fun _ => ?_
  split
  next => exact keeps_pure ()
  next =>
    refine .bind (keeps_exchange fun s h => exchange_reading client.product (.inl rfl) x h)
      fun answer s h => ?_
    split
    next => exact .inr rfl
    next => split; exacts [h, h]
    next => exact .inr rfl

theorem keeps_reading_profile {tx : Option (Tx α)} (phase : ErrorPhase) (t : Trip α R) :
    Keeps (Reading tx) (exchangeRows client .profile client.profileSql phase t) := by
  refine .bind (keeps_refuseIf _ _) fun _ =>
    .bind (keeps_exchange fun s h => exchange_reading client.product (.inr rfl) t.sent h)
      fun answer s h => ?_
  split
  next => exact .inr rfl
  next answer _ =>
    exact Keeps.bind (keeps_reading_checkWarnings client phase client.profileSql answer.warnings
      t.warned) (fun _ => keeps_pure _) s h
  next error _ =>
    rw [quarantineIf_throw]
    dsimp only
    split
    next => exact .inr rfl
    next => exact h

theorem keeps_reading_verifySessionProfile {tx : Option (Tx α)} (phase : ErrorPhase)
    (t : Trip α R) : Keeps (Reading tx) (verifySessionProfile client phase t) := by
  refine .bind (Keeps.attempt (keeps_reading_profile client phase t)) fun result => ?_
  split
  next => exact keeps_pure ()
  next => exact fun _ _ => .inr rfl

theorem keeps_reading_verifyProfile {tx : Option (Tx α)} (phase : ErrorPhase) (t : Trip α R) :
    Keeps (Reading tx) (verifyProfile client phase t) := by
  refine .bind (Keeps.attempt (keeps_reading_verifySessionProfile client phase t)) fun result => ?_
  cases result with
  | ok => exact keeps_pure ()
  | error => exact fun _ _ => .inr rfl

/-! ### Commit and rollback -/

theorem remoteEffect_commitFailure (profile : ProductProfile) (error : DriverError) :
    (commitFailure profile error).remoteEffect =
      if (serverCode error).any profile.commitRollbackCodes.contains then .rolledBack
      else .unknown :=
  remoteEffect_afterCommitSent _ _

theorem execCommit_closing (t : Trip α R) {s : State α} (h : Open durable s) :
    Closing durable s (fun _ => some .committed)
      (outcome (execTransaction client .commit .commit t) s).1
      (outcome (execTransaction client .commit .commit t) s).2 := by
  unfold execTransaction requireReady send
  rw [outcome_bind, outcome_refuseIf]
  by_cases hready : (decide (s.session ≠ .ready) || !s.connection) = true
  · rw [if_pos hready]
    exact h.1.toBase.ended.closing_error _
  · rw [if_neg hready]
    dsimp only
    have hsent := exchange_commit client.product t.sent h.1 h.2 (not_requireReady (by simpa using hready))
    rw [outcome_bind, outcome_exchange]
    generalize State.exchange client.product .commit t.sent s = r at hsent ⊢
    obtain ⟨answer, after⟩ := r
    dsimp only at hsent ⊢
    split
    next =>
      exact hsent.ended.quarantine.closing_unknown
        (remoteEffect_interruptionError client.profile _ (.inl rfl))
    next answer _ =>
      have hchecked := keeps_checkEnd client .commit answer t.warned after hsent.ended
      rw [outcome_bind, outcome_attempt]
      dsimp only
      generalize outcome _ after = r at hchecked ⊢
      obtain ⟨e | _, s'⟩ := r
      · exact (Ended.quarantine hchecked).closing_unknown (remoteEffect_afterCommitSent e false)
      · obtain ⟨tx, htx, hwork⟩ := hsent.acknowledged answer rfl
        exact ⟨hchecked.received, fun _ _ _ => ⟨tx, htx, hchecked.durable.trans hwork⟩,
          fun _ _ hno => (by cases hno), fun _ he => (by cases he), hchecked.idle⟩
    next error _ =>
      have hended := keeps_quarantineIf_throw (β := Unit) error.isFatal
        (commitFailure client.profile error) after hsent.ended
      rw [quarantineIf_throw] at hended ⊢
      dsimp only at hended ⊢
      by_cases hproves :
          (serverCode error).any client.profile.commitRollbackCodes.contains = true
      · have hdurable : after.server.durable = durable := hsent.refused error rfl hproves
        rw [hdurable] at hended
        exact hended.closing_error _
      · refine hended.closing_unknown ?_
        rw [remoteEffect_commitFailure, if_neg hproves]

theorem Closing.attributed {β : Type} {before s : State α} {outcomeOf : β → Option CommitOutcome}
    {result : Except DatabaseError β} (profile : ProductProfile)
    (h : Closing durable before outcomeOf result s) :
    Closing durable before outcomeOf (Mysql.attributed profile result) s := by
  cases result with
  | ok b => exact h
  | error e =>
    exact ⟨h.received, fun _ hb => (by cases hb), fun _ hb => (by cases hb),
      fun e' he hundone => (by cases he; exact h.undone e rfl hundone), h.idle⟩

theorem commit_closing (profile t : Trip α R) {s : State α} (h : Inv durable s) :
    Closing durable s some (outcome (commit client profile t) s).1
      (outcome (commit client profile t) s).2 := by
  unfold commit
  rw [outcome_mapResult]
  refine Closing.attributed client.profile ?_
  rw [outcome_bind, outcome_refuseIf]
  by_cases hclosed : (!s.isOpen) = true
  · rw [if_pos hclosed]
    exact h.toBase.ended.closing_error _
  · rw [if_neg hclosed]
    dsimp only
    rw [outcome_bind]
    have hsettled := settled_verifyProfile client .commit profile s ⟨h, by simpa using hclosed⟩
    have hreading : Reading s.server.tx (outcome (verifyProfile client .commit profile) s).2 :=
      keeps_reading_verifyProfile client .commit profile s (.inl rfl)
    generalize outcome (verifyProfile client .commit profile) s = r at hsettled hreading ⊢
    obtain ⟨e | _, s'⟩ := r
    · exact hsettled.inv.toBase.ended.closing_error e
    · dsimp only at hreading ⊢
      have hclosing := execCommit_closing client t ⟨hsettled.inv, hsettled.isOpen () rfl⟩
      rw [outcome_bind, outcome_attempt]
      dsimp only
      generalize outcome (execTransaction client .commit .commit t) s' = r at hclosing ⊢
      obtain ⟨e | _, after⟩ := r
      · dsimp only [Transaction.close] at hclosing ⊢
        rw [outcome_bind, outcome_update]
        dsimp only
        split
        next =>
          exact ⟨hclosing.received, fun _ hb hcommitted => (by cases hb; cases hcommitted),
            fun _ _ hno => (by cases hno), fun _ he => (by cases he), hclosing.idle⟩
        next =>
          exact ⟨hclosing.received, fun _ hb => (by cases hb), fun _ hb => (by cases hb),
            fun e' he hundone => hclosing.undone e' (by cases he; rfl) hundone, hclosing.idle⟩
      · obtain ⟨tx, htx, hwork⟩ := hclosing.committed () rfl rfl
        have hbefore : s.server.tx = some tx := by
          rcases hreading with hsame | hnone
          · exact hsame.symm.trans htx
          · rw [hnone] at htx
            cases htx
        exact ⟨hclosing.received, fun _ _ _ => ⟨tx, hbefore, hwork⟩, fun _ _ hno => (by cases hno),
          fun _ he => (by cases he), hclosing.idle⟩

theorem keeps_rollback (t : Trip α R) : Keeps (Ended durable) (rollback client t) := by
  refine Keeps.mapResult (.bind (keeps_read _) fun recoveryRequired =>
    .bind (keeps_read _) fun isOpen => ?_) _
  split
  next => exact fun _ h => h.quarantine
  next =>
    split
    next => exact keeps_pure ()
    next =>
      refine .bind (Keeps.attempt (keeps_execRollback client t)) fun result =>
        .bind (keeps_update fun _ h => ⟨h.durable, h.received, h.idle⟩) fun _ => keeps_ofResult _

/-- The value of the call that ended the scope, rewrapped. -/
theorem Closing.map {β γ : Type} {before : State α} {x : Scope α β} {f : β → γ}
    {outcomeOf : γ → Option CommitOutcome} {s : State α}
    (h : Closing durable before (fun b => outcomeOf (f b)) (outcome x s).1 (outcome x s).2) :
    Closing durable before outcomeOf (outcome (x >>= fun b => pure (f b)) s).1
      (outcome (x >>= fun b => pure (f b)) s).2 := by
  rw [outcome_bind]
  generalize outcome x s = r at h ⊢
  obtain ⟨e | b, after⟩ := r
  · exact ⟨h.received, fun _ hc => (by cases hc), fun _ hc => (by cases hc),
      fun e' he => h.undone e' (by cases he; rfl), h.idle⟩
  · refine ⟨h.received, fun c hc hcommitted => ?_, fun c hc hno => ?_, fun _ he => (by cases he),
      h.idle⟩
    · obtain rfl := Except.ok.inj hc
      exact h.committed b rfl hcommitted
    · obtain rfl := Except.ok.inj hc
      exact h.uncommitted b rfl hno

/-- Nothing is durable that was not: no commit was reported. -/
theorem Ended.closing {β : Type} {before s : State α} {result : Except DatabaseError β}
    (h : Ended durable s) : Closing durable before (fun _ => none) result s :=
  ⟨h.received, fun _ _ hno => (by cases hno), fun _ _ _ => h.durable, fun _ _ _ => h.durable, h.idle⟩

theorem conclude_closing (ending : Ending) (x : Nat → Trip α R) {s : State α} (h : Inv durable s) :
    Closing durable s Value.commitOutcome (outcome (conclude client ending x) s).1
      (outcome (conclude client ending x) s).2 := by
  cases ending with
  | commit => exact Closing.map (f := Value.commit) (commit_closing client (x 0) (x 1) h)
  | rollback =>
    exact Closing.map (f := fun _ => Value.done)
      (Ended.closing (keeps_rollback client (x 0) s h.toBase.ended))
  | drop =>
    exact ⟨h.received, fun _ hb hcommitted => (by cases hb; cases hcommitted), fun _ _ _ => h.durable,
      fun _ he => (by cases he), h.idle⟩

/-! ### What is pooled -/

/-- A session that still has its connection has no transaction on it. -/
def Freed (s : State α) : Prop := s.connection = true → s.server.tx = none

theorem freed_quarantine (s : State α) : Freed s.quarantine := fun hconnection => by
  cases hconnection

/-- An end that is answered with an error: the connection is closed, or the transaction is over. -/
theorem tx_serve_end (product : Product) {command : Command}
    (hcommand : command = .commit ∨ command = .rollback) {x : Exchange α R}
    (hkept : ¬ x.LeavesOpen product command) (harrives : x.arrives = true)
    (hanswered : x.breaks = false) (hawaited : x.interruption = none) (server : Server α) :
    (∃ error, (serve product command x server).1 = .error error ∧ error.isFatal = true) ∨
      (serve product command x server).2.tx = none := by
  have hcarried : (carryOut command x server).tx = none := by
    rcases hcommand with rfl | rfl
    · exact server.tx_commit
    · rfl
  have hfailure : failureOf command x server = x.failure := by
    rcases hcommand with rfl | rfl <;> rfl
  have hlost := fun hkept' => hkept ⟨harrives, hanswered, hawaited, hkept'⟩
  unfold serve
  rw [hfailure]
  cases hx : x.failure with
  | none => exact .inr hcarried
  | some error =>
    rw [hx] at hlost
    cases error with
    | transport kind fatal identityRejected =>
      cases hfatal : fatal with
      | true => exact .inl ⟨_, rfl, rfl⟩
      | false =>
        have hdone : x.done = true := by
          rcases hcommand with rfl | rfl <;> simpa [hfatal] using hlost
        right
        rcases hcommand with rfl | rfl <;>
          exact (congrArg Server.tx (if_pos hdone)).trans hcarried
    | server code =>
      right
      rcases hcommand with rfl | rfl
      · show (if _ then server.rollback else if x.done then server.commit else server).tx = none
        split
        next => rfl
        next hcode =>
          have hdone : x.done = true := by
            simpa using fun hnot => hlost ⟨Bool.eq_false_iff.2 hcode, hnot⟩
          rw [if_pos hdone]
          exact server.tx_commit
      · show (if code = 1213 then server.rollback else server).tx = none
        rw [if_pos (not_not.1 hlost)]
        rfl

theorem exchange_end (product : Product) {command : Command}
    (hcommand : command = .commit ∨ command = .rollback) {x : Exchange α R}
    (hkept : ¬ x.LeavesOpen product command) (hawaited : x.interruption = none) (s : State α) :
    (∃ error, (State.exchange product command x s).1 = .error error ∧ error.isFatal = true) ∨
      (State.exchange product command x s).2.server.tx = none := by
  unfold State.exchange
  split
  next => exact .inl ⟨_, rfl, rfl⟩
  next =>
    split
    next => exact .inl ⟨_, rfl, rfl⟩
    next harrives =>
      dsimp only
      split
      next => exact .inl ⟨_, rfl, rfl⟩
      next hanswered =>
        exact tx_serve_end product hcommand hkept (by simpa using harrives)
          (by simpa using hanswered) hawaited s.server

variable {client} in
/-- **A COMMIT or a ROLLBACK that does not leave the transaction open frees the connection.** -/
theorem freed_execTransaction {command : Command}
    (hcommand : command = .commit ∨ command = .rollback) (phase : ErrorPhase) {t : Trip α R}
    (hkept : ¬ t.sent.LeavesOpen client.product command) {s : State α} (h : Base durable s) :
    Freed (outcome (execTransaction client command phase t) s).2 := by
  unfold execTransaction requireReady send
  rw [outcome_bind, outcome_refuseIf]
  by_cases hready : (decide (s.session ≠ .ready) || !s.connection) = true
  · rw [if_pos hready]
    intro hconnection
    have hsession : s.session = .ready :=
      h.ready.resolve_right fun hnone => by rw [hconnection] at hnone; cases hnone
    rw [hconnection, hsession] at hready
    cases hready
  · rw [if_neg hready]
    dsimp only
    have hend := exchange_end client.product hcommand hkept (s := s)
    rw [outcome_bind, outcome_exchange]
    generalize State.exchange client.product command t.sent s = r at hend ⊢
    obtain ⟨answer, after⟩ := r
    dsimp only at hend ⊢
    split
    next => exact freed_quarantine _
    next answer hawaited =>
      have htx : Reading none after := .inl ((hend hawaited).resolve_left nofun)
      have hchecked : Reading none (outcome (if answer.unexpectedResults then
          throw (warningError client.profile phase)
        else checkWarningsForSql client phase "" answer.warnings t.warned : Scope α Unit) after).2 := by
        split
        next => exact htx
        next => exact keeps_reading_checkWarnings client phase "" answer.warnings t.warned after htx
      rw [outcome_bind, outcome_attempt]
      dsimp only
      generalize outcome _ after = r at hchecked ⊢
      obtain ⟨e | _, s'⟩ := r
      · exact freed_quarantine _
      · exact fun _ => hchecked.elim id id
    next error hawaited =>
      rw [quarantineIf_throw]
      dsimp only
      split
      next => exact freed_quarantine _
      next hfatal =>
        refine fun _ => (hend hawaited).resolve_left ?_
        rintro ⟨error', herror, hfatal'⟩
        cases herror
        exact hfatal hfatal'

/-- What the drop pools is free. -/
def Droppable (s : State α) : Prop := s.isOpen = true ∨ s.recoveryRequired = true ∨ Freed s

theorem Inv.droppable {s : State α} (h : Inv durable s) : Droppable s := by
  cases hopen : s.isOpen with
  | true => exact .inl hopen
  | false =>
    refine .inr ((h.closed hopen).imp id fun hnone hconnection => ?_)
    rw [hnone] at hconnection
    cases hconnection

theorem drop_server {s : State α} (hidle : s.idle = false) (h : Droppable s) :
    s.drop.server.durable = s.server.durable ∧ s.drop.received = s.received ∧
      (s.drop.idle = true → s.drop.server.tx = none) := by
  unfold State.drop
  split
  next => exact ⟨rfl, rfl, fun hback => absurd (hidle.symm.trans hback) (by decide)⟩
  next hclosed =>
    have hfreed : Freed s := by
      simp only [Bool.or_eq_true, not_or] at hclosed
      exact (h.resolve_left hclosed.1).resolve_left hclosed.2
    unfold State.giveBack
    split
    next hconnection => exact ⟨rfl, rfl, fun _ => hfreed hconnection⟩
    next => exact ⟨rfl, rfl, fun hback => absurd (hidle.symm.trans hback) (by decide)⟩

/-- The scope is closed whatever the end came to, and the connection is free. -/
theorem droppable_close {s : State α} (h : Freed s) : Droppable { s with isOpen := false } :=
  .inr (.inr h)

theorem droppable_commit (profile : Trip α R) {t : Trip α R}
    (hkept : ¬ t.sent.LeavesOpen client.product .commit) {s : State α} (h : Inv durable s) :
    Droppable (outcome (commit client profile t) s).2 := by
  unfold commit
  rw [outcome_mapResult, outcome_bind, outcome_refuseIf]
  by_cases hclosed : (!s.isOpen) = true
  · rw [if_pos hclosed]
    exact h.droppable
  · rw [if_neg hclosed]
    dsimp only
    rw [outcome_bind]
    have hsettled := settled_verifyProfile client .commit profile s ⟨h, by simpa using hclosed⟩
    generalize outcome (verifyProfile client .commit profile) s = r at hsettled ⊢
    obtain ⟨e | _, s'⟩ := r
    · exact hsettled.inv.droppable
    · have hfreed := freed_execTransaction (.inl rfl) .commit hkept hsettled.inv.toBase
      dsimp only at hfreed ⊢
      rw [outcome_bind, outcome_attempt]
      dsimp only
      generalize outcome (execTransaction client .commit .commit t) s' = r at hfreed ⊢
      obtain ⟨e | _, after⟩ := r
      · dsimp only [Transaction.close] at hfreed ⊢
        rw [outcome_bind, outcome_update]
        dsimp only
        split <;> exact droppable_close hfreed
      · exact droppable_close hfreed

theorem droppable_rollback {t : Trip α R}
    (hkept : ¬ t.sent.LeavesOpen client.product .rollback) {s : State α} (h : Inv durable s) :
    Droppable (outcome (rollback client t) s).2 := by
  unfold rollback
  rw [outcome_mapResult, outcome_bind, outcome_read]
  dsimp only
  rw [outcome_bind, outcome_read]
  dsimp only
  split
  next => exact .inr (.inr (freed_quarantine s))
  next =>
    split
    next => exact h.droppable
    next =>
      have hfreed := freed_execTransaction (.inr rfl) .rollback hkept h.toBase
      rw [outcome_bind, outcome_attempt]
      exact droppable_close hfreed

theorem droppable_conclude (ending : Ending) (x : Nat → Trip α R)
    (hkept : EndKept client.product ending x) {s : State α} (h : Inv durable s) :
    Droppable (outcome (conclude client ending x) s).2 := by
  have hmap {β : Type} (call : Scope α β) (f : β → Value Row)
      (hcall : Droppable (outcome call s).2) :
      Droppable (outcome (call >>= fun b => pure (f b)) s).2 := by
    rw [outcome_bind]
    generalize outcome call s = r at hcall ⊢
    obtain ⟨e | b, after⟩ := r <;> exact hcall
  cases ending with
  | commit => exact hmap _ _ (droppable_commit client (x 0) hkept h)
  | rollback => exact hmap _ (fun _ => .done) (droppable_rollback client hkept h)
  | drop => exact h.droppable

/-- **The end of a scope that is in its transaction, or closed, reports what the server did.** -/
theorem finish_sound (ending : Ending) (x : Nat → Trip α R)
    (hkept : EndKept client.product ending x) {s : State α} (h : Inv durable s) :
    Sound durable s (finish client ending x s) := by
  have hclosing := conclude_closing client ending x h
  obtain ⟨hdurable, hreceived, hpooled⟩ :=
    drop_server hclosing.idle (droppable_conclude client ending x hkept h)
  refine ⟨?_, fun hcommitted => ?_, fun value hvalue hno => ?_, fun e he hundone => ?_, hpooled⟩
  · show ∀ entry ∈ (State.drop _).received, _
    rw [hreceived]
    exact hclosing.received
  · obtain ⟨tx, htx, hwork⟩ := hclosing.committed _ hcommitted rfl
    exact ⟨tx, htx, hdurable.trans hwork⟩
  · exact hdurable.trans (hclosing.uncommitted value hvalue hno)
  · exact hdurable.trans (hclosing.undone e he hundone)

end Endings

/-! ## Every run -/

section Runs

variable (client : Client R Row)

/-- A call that leaves the scope open reports no commit. -/
theorem perform_commitOutcome (request : Request) (x : Nat → Trip α R) (s : State α)
    {value : Value Row} (h : (outcome (perform client request x) s).1 = .ok value) :
    value.commitOutcome = none := by
  have hmap : ∀ {β : Type} (call : Scope α β) (f : β → Value Row),
      (∀ b, (f b).commitOutcome = none) →
      (outcome (call >>= fun b => pure (f b)) s).1 = .ok value → value.commitOutcome = none := by
    intro β call f hf hvalue
    rw [outcome_bind] at hvalue
    rcases hcall : outcome call s with ⟨_ | b, s'⟩
    · rw [hcall] at hvalue
      cases hvalue
    · rw [hcall] at hvalue
      obtain rfl := Except.ok.inj hvalue
      exact hf b
  cases request with
  | execute statement => exact hmap (execute client statement _ _) _ (fun _ => rfl) h
  | query statement => exact hmap (query client statement _ _) _ (fun _ => rfl) h
  | queryStream statement batchSize tokens =>
    exact hmap (queryStream client statement batchSize tokens _ _) _ (fun _ => rfl) h
  | savepoint name => exact hmap (savepoint client name _) _ (fun _ => rfl) h
  | rollbackToSavepoint name => exact hmap (rollbackToSavepoint client name _) _ (fun _ => rfl) h
  | releaseSavepoint name => exact hmap (releaseSavepoint client name _) _ (fun _ => rfl) h
  | conditionalUpdate request =>
    exact hmap (executeConditionalUpdate client request _) _ (fun _ => rfl) h

theorem perform_sound {s : State α} (h : Inv durable s) (request : Request) (x : Nat → Trip α R)
    (hstep : ControlKept (request, x)) :
    Sound durable s (outcome (perform client request x) s) := by
  have hafter : Inv durable (outcome (perform client request x) s).2 :=
    keeps_perform client request x hstep s h
  refine ⟨hafter.received, fun hcommitted => ?_, fun _ _ _ => hafter.durable,
    fun _ _ _ => hafter.durable, fun hidle => ?_⟩
  · cases perform_commitOutcome client request x s hcommitted
  · exact absurd (hafter.idle.symm.trans hidle) (by decide)

/-- **If no savepoint, release or catalog read is the victim of a deadlock, and the end does not
leave the transaction open, nothing is sent outside the transaction, every call and the end of the
scope report what the server did, and no open transaction is pooled.** -/
theorem calls_sound (durable : List α) (steps : List (Request × (Nat → Trip α R)))
    (hsteps : ∀ step ∈ steps, ControlKept step) :
    let before := reach client (opened durable) steps
    (∀ request x, ControlKept (request, x) →
        Sound durable before (outcome (perform client request x) before)) ∧
      ∀ ending (x : Nat → Trip α R), EndKept client.product ending x →
        Sound durable before (finish client ending x before) := by
  intro before
  have h : Inv durable before := reach_inv client (opened_inv durable) steps hsteps
  exact ⟨fun request x hstep => perform_sound client h request x hstep,
    fun ending x hkept => finish_sound client ending x hkept h⟩

end Runs

/-! ## A savepoint lost to a deadlock, then a statement -/

def lenient : Client Unit Unit where
  product := .mysql
  validateCallerSql _ := .ok ()
  enforceSingleStatement _ := .ok ()
  bindParameters _ := .ok ()
  columnNames _ := []
  decodeRow _ _ := .ok ()
  profileSql := "SELECT @@session.autocommit"
  divergence _ := none
  catalogRead _ _ _ := .ok none

/-- The command is done, and a statement adds this row. -/
def answered (row : Nat) : Exchange Nat Unit where
  arrives := true
  failure := none
  done := false
  changes := [row]
  answer := ⟨1, [], [], 0, [], false⟩
  late := false
  breaks := false
  interruption := none

def answeredTrip (row : Nat) : Trip Nat Unit := ⟨answered row, answered row⟩

def deadlockedTrip : Trip Nat Unit := ⟨{ answered 0 with failure := some deadlock }, answered 0⟩

def insertStep (row : Nat) : Request × (Nat → Trip Nat Unit) :=
  (.execute ⟨"INSERT INTO t VALUES (1)", []⟩, fun _ => answeredTrip row)

/-- The server waited for a lock in vain. -/
def timedOutTrip : Trip Nat Unit := ⟨{ answered 0 with failure := some (.server 1205) }, answered 0⟩

/-- A scope that is committed and pooled, and one that is dropped and quarantined. -/
theorem calls_sound_insert :
    let before := reach lenient (opened []) [insertStep 1]
    let ended := finish lenient .commit (fun _ => answeredTrip 0) before
    let dropped := finish lenient .drop (fun _ => answeredTrip 0) before
    (ended.1 = .ok (.commit .committed) ∧ ended.2.server.durable = [1] ∧ ended.2.idle = true ∧
      Sound [] before ended) ∧
      dropped.2.server.durable = [] ∧ dropped.2.idle = false ∧ Sound [] before dropped := by
  have hsteps : ∀ step ∈ [insertStep 1], ControlKept step := fun step hstep => by
    cases List.mem_singleton.1 hstep
    trivial
  exact ⟨⟨rfl, rfl, rfl, (calls_sound lenient [] [insertStep 1] hsteps).2 .commit
    (fun _ => answeredTrip 0) fun h => h.kept⟩, rfl, rfl,
    (calls_sound lenient [] [insertStep 1] hsteps).2 .drop (fun _ => answeredTrip 0) trivial⟩

/-- **After the SAVEPOINT lost to a deadlock the insert is sent in autocommit: the rollback
succeeds, and the row stays.  After the COMMIT that waited for a lock the connection is pooled with
its transaction open.** -/
theorem calls_unsound :
    (let before := reach lenient (opened [])
      [(.savepoint "a", fun _ => deadlockedTrip), insertStep 1]
    let ended := finish lenient .rollback (fun _ => answeredTrip 0) before
    before.received = [(.savepoint "a", true), (.statement, false), (.profile, false)] ∧
      ended.1 = .ok .done ∧ ended.2.server.durable = [1] ∧ ¬ Sound [] before ended) ∧
    let before := reach lenient (opened []) [insertStep 1]
    let ended := finish lenient .commit
      (fun n => if n = 1 then timedOutTrip else answeredTrip 0) before
    ended.2.idle = true ∧ ended.2.server.tx.isSome = true ∧ ¬ Sound [] before ended := by
  refine ⟨⟨rfl, rfl, rfl, fun h => ?_⟩, rfl, rfl, fun h => ?_⟩
  · cases h.uncommitted .done rfl rfl
  · cases h.pooled rfl

end Plenora.Mysql.Transaction
