import Plenora.Core.ConditionalUpdate
import Plenora.Mysql.Transaction

/-!
# Conditional updates on MySQL and MariaDB

A savepoint stands before the update, and one that finds other rows than expected
is rolled back to it; its probe is never sent.

    Contract … (executeConditionalUpdate client request x)
      ↔ affected = expected ∨ found ≠ some false                             (contract_iff)
-/

namespace Plenora.Mysql.Transaction

open Plenora.Lib Plenora.Lib.Call Plenora.Core Plenora.Core.ConditionalUpdate

variable {α R Row : Type}

/-! ## Statements that succeed -/

/-- The command arrives, and its answer comes back. -/
structure Exchange.Succeeds (x : Exchange α R) : Prop where
  arrives : x.arrives = true
  failure : x.failure = none
  breaks : x.breaks = false
  interruption : x.interruption = none

/-- The diagnostics of the answer, where it counts some, are known to be harmless. -/
structure Trip.Succeeds (sql : String) (t : Trip α R) : Prop where
  sent : t.sent.Succeeds
  harmless : t.sent.answer.warnings = 0 ∨ (t.warned.Succeeds ∧
    (warningCountComplete t.sent.answer.warnings t.warned.answer.diagnostics.length &&
      t.warned.answer.diagnostics.all (informativeWarningForSql sql)) = true)

/-- A control statement, with the single result it must have. -/
structure Trip.Controls (client : Client R Row) (sql : String) (t : Trip α R) : Prop
    extends t.Succeeds sql where
  single : client.enforceSingleStatement sql = .ok ()
  expected : t.sent.answer.unexpectedResults = false

/-- The settings of the session are the expected ones. -/
structure Trip.Profiled (client : Client R Row) (t : Trip α R) : Prop
    extends t.Succeeds client.profileSql where
  unchanged : client.divergence t.sent.answer.rows = none

/-- The catalog reads of the SQL succeed, and it passes. -/
def CatalogPasses (client : Client R Row) (sql : String) (isUpdate : Bool) (trips : Nat → Trip α R) :
    Nat → List (List R) → Prop
  | 0, _ => True
  | reads + 1, answers =>
    match client.catalogRead sql isUpdate answers with
    | .error _ => False
    | .ok none => True
    | .ok (some query) => (trips answers.length).Succeeds query ∧
      CatalogPasses client sql isUpdate trips reads
        (answers ++ [(trips answers.length).sent.answer.rows])

/-- The scope is open, on a session that is ready. -/
structure Usable (s : State α) : Prop where
  isOpen : s.isOpen = true
  session : s.session = .ready
  hasConnection : s.connection = true
  connected : s.connected = true

/-- The statements of the update succeed.  Outside a transaction they do not: there is no savepoint
to release or to roll back to. -/
structure Succeeds (client : Client R Row) (request : ConditionalUpdate) (x : Nat → Trip α R)
    (s : State α) : Prop extends Usable s where
  inTransaction : s.server.tx.isSome
  policy : client.validateCallerSql request.update.sql = .ok ()
  probePolicy : ∀ probe, request.keyProbe = some probe →
    client.validateCallerSql probe.sql = .ok ()
  catalog : CatalogPasses client request.update.sql true x catalogReads []
  probeCatalog : ∀ probe, request.keyProbe = some probe →
    CatalogPasses client probe.sql false (fun n => x (5 + n)) catalogReads []
  saved : (x 10).Controls client "SAVEPOINT `__plenora_cu`"
  bound : client.bindParameters request.update.params = .ok ()
  update : (x 11).Succeeds request.update.sql
  profiled : (x 12).Profiled client
  released : (x 11).sent.answer.affected = request.expectedAffectedRows →
    (x 13).Controls client "RELEASE SAVEPOINT `__plenora_cu`"
  rolledBack : (x 11).sent.answer.affected ≠ request.expectedAffectedRows →
    (x 14).Controls client "ROLLBACK TO SAVEPOINT `__plenora_cu`"

/-- Whether the probe of the key, where one is given, would find a row. -/
def probeFound (request : ConditionalUpdate) (rows : List R) : Option Bool :=
  request.keyProbe.map fun _ => !rows.isEmpty

/-- A COMMIT that the server acknowledges makes the work of the transaction durable. -/
def Committable (client : Client R Row) (s : State α) : Prop :=
  ∀ tx, s.server.tx = some tx → ∀ profile t : Trip α R, profile.Profiled client → t.Succeeds "" →
    t.sent.answer.unexpectedResults = false →
    (outcome (commit client profile t) s).1 = .ok .committed ∧
      (outcome (commit client profile t) s).2.server.durable = s.server.durable ++ tx.work

/-- The scope after commands that left the server so. -/
def State.heard (s : State α) (server : Server α) (received : List (Command × Bool)) : State α :=
  { s with server, received }

theorem Usable.heard {s : State α} (h : Usable s) (server : Server α)
    (received : List (Command × Bool)) : Usable (s.heard server received) :=
  ⟨h.isOpen, h.session, h.hasConnection, h.connected⟩

section Session

variable (client : Client R Row)

theorem outcome_send_ok (command : Command) {x : Exchange α R} (hx : x.Succeeds) {s : State α}
    (hconnected : s.connected = true) (hfailure : failureOf command x s.server = none) :
    ∃ received, outcome (send client.product command x) s =
      (.ok (.ok x.answer), s.heard (carryOut command x s.server) received) :=
  ⟨s.received ++ [(command, s.server.tx.isSome)], by
    simp [send, State.exchange, serve, hfailure, hconnected, hx.arrives, hx.breaks, State.heard]⟩

theorem outcome_checkWarnings_ok (phase : ErrorPhase) {sql : String} {t : Trip α R}
    (ht : t.Succeeds sql) {s : State α} (h : Usable s) :
    ∃ received, outcome (checkWarningsForSql client phase sql t.sent.answer.warnings t.warned) s =
      (.ok (), s.heard s.server received) := by
  have hadmitted : outcome (refuseIf (fun s : State α => !s.connection)
      fun _ => stateError client.profile phase) s = (.ok (), s) := by
    rw [outcome_refuseIf, h.hasConnection]
    rfl
  unfold checkWarningsForSql
  rw [outcome_bind_ok hadmitted]
  by_cases hcount : t.sent.answer.warnings = 0
  · rw [if_pos hcount]
    exact ⟨s.received, rfl⟩
  rw [if_neg hcount]
  obtain hnone | ⟨hwarned, hharmless⟩ := ht.harmless
  · exact absurd hnone hcount
  obtain ⟨received, hsent⟩ := outcome_send_ok client .showWarnings hwarned h.connected hwarned.failure
  refine ⟨received, ?_⟩
  rw [outcome_bind_ok hsent, hwarned.interruption]
  show outcome (if _ then _ else _) _ = _
  rw [if_pos hharmless]
  rfl

theorem outcome_requireReady_ok (phase : ErrorPhase) {s : State α} (h : Usable s) :
    outcome (requireReady client phase) s = (.ok (), s) := by
  unfold requireReady
  rw [outcome_refuseIf, h.session, h.hasConnection]
  rfl

/-- **A statement that succeeds does what its command does, and answers.** -/
theorem outcome_exchangeRows_ok (command : Command) (phase : ErrorPhase) {sql : String}
    {t : Trip α R} (ht : t.Succeeds sql) {s : State α} (h : Usable s)
    (hfailure : failureOf command t.sent s.server = none) :
    ∃ received, outcome (exchangeRows client command sql phase t) s =
      (.ok t.sent.answer, s.heard (carryOut command t.sent s.server) received) := by
  obtain ⟨received, hsent⟩ := outcome_send_ok client command ht.sent h.connected hfailure
  obtain ⟨received', hchecked⟩ := outcome_checkWarnings_ok client phase ht (h.heard _ received)
  refine ⟨received', ?_⟩
  unfold exchangeRows
  rw [outcome_bind_ok (outcome_requireReady_ok client phase h), outcome_bind_ok hsent,
    ht.sent.interruption]
  exact outcome_bind_ok hchecked _

theorem outcome_ofResult_ok {β : Type} {r : Result β} {b : β} (h : r = .ok b) (s : State α) :
    outcome (ofResult r : Scope α β) s = (.ok b, s) := by
  rw [outcome_ofResult, h]

theorem outcome_execControl_ok (command : Command) (phase : ErrorPhase) {sql : String}
    {t : Trip α R} (ht : t.Controls client sql) {s : State α} (h : Usable s)
    (hfailure : failureOf command t.sent s.server = none) :
    ∃ received, outcome (execControl client command sql phase t) s =
      (.ok (), s.heard (carryOut command t.sent s.server) received) := by
  obtain ⟨received, hsent⟩ := outcome_send_ok client command ht.sent h.connected hfailure
  obtain ⟨received', hchecked⟩ :=
    outcome_checkWarnings_ok client phase ht.toSucceeds (h.heard _ received)
  refine ⟨received', ?_⟩
  unfold execControl
  rw [outcome_bind_ok (outcome_ofResult_ok ht.single s),
    outcome_bind_ok (outcome_requireReady_ok client phase h), outcome_bind_ok hsent,
    ht.sent.interruption]
  show outcome (if t.sent.answer.unexpectedResults then _ else _) _ = _
  rw [ht.expected]
  exact hchecked

theorem outcome_verifyProfile_ok (phase : ErrorPhase) {t : Trip α R} (ht : t.Profiled client)
    {s : State α} (h : Usable s) :
    ∃ received, outcome (verifyProfile client phase t) s = (.ok (), s.heard s.server received) := by
  obtain ⟨received, hread⟩ :=
    outcome_exchangeRows_ok client .profile phase ht.toSucceeds h ht.sent.failure
  refine ⟨received, ?_⟩
  have hverified : outcome (verifySessionProfile client phase t) s =
      (.ok (), s.heard s.server received) := by
    unfold verifySessionProfile
    rw [outcome_bind_ok (outcome_attempt_of hread)]
    simp only [Except.bind, ht.unchanged]
    rfl
  unfold verifyProfile
  rw [outcome_bind_ok (outcome_attempt_of hverified)]
  rfl

theorem outcome_ensureOpen_ok (phase : ErrorPhase) {s : State α} (h : s.isOpen = true) :
    outcome (ensureOpen client phase) s = (.ok (), s) := by
  unfold ensureOpen
  rw [outcome_refuseIf, h]
  rfl

theorem outcome_attributed_ok {β : Type} {x : Scope α β} {s s' : State α} {b : β}
    (h : outcome x s = (.ok b, s')) :
    outcome (mapResult (attributed client.profile) x) s = (.ok b, s') := by
  rw [outcome_mapResult, h]
  rfl

/-! ## The update -/

/-- **A write that succeeds leaves its changes in the transaction.** -/
theorem outcome_callerWrite_ok {sql : String} {t profile : Trip α R} (ht : t.Succeeds sql)
    (hprofile : profile.Profiled client) {s : State α} (h : Usable s) :
    ∃ received, outcome (callerWrite client sql t profile) s =
      (.ok t.sent.answer.affected, s.heard (s.server.run t.sent.changes) received) := by
  obtain ⟨received, hwritten⟩ :=
    outcome_exchangeRows_ok client .statement .write ht h ht.sent.failure
  obtain ⟨received', hverified⟩ := outcome_verifyProfile_ok client .write hprofile
    (h.heard (s.server.run t.sent.changes) received)
  refine ⟨received', ?_⟩
  unfold callerWrite
  rw [outcome_bind_ok (outcome_attempt_of hwritten)]
  have hwhile : outcome (verifyWhileOpen client .write profile)
      (s.heard (s.server.run t.sent.changes) received) =
      (.ok (), s.heard (s.server.run t.sent.changes) received') := by
    unfold verifyWhileOpen
    rw [outcome_bind_ok (outcome_read _ _)]
    show outcome (if s.isOpen then _ else _) _ = _
    rw [h.isOpen]
    exact hverified
  have hfinished : outcome (finishCallerWrite (.ok t.sent.answer))
      (s.heard (s.server.run t.sent.changes) received) =
      (.ok (), s.heard (s.server.run t.sent.changes) received) := rfl
  exact (outcome_bind_ok hfinished _).trans ((outcome_bind_ok hwhile _).trans rfl)

theorem outcome_savepoint_ok {t : Trip α R}
    (ht : t.Controls client "SAVEPOINT `__plenora_cu`") {s : State α} (h : Usable s) :
    ∃ received, outcome (savepoint client conditionalSavepoint t) s =
      (.ok (), s.heard (s.server.savepoint conditionalSavepoint) received) := by
  obtain ⟨received, hsaved⟩ :=
    outcome_execControl_ok client (.savepoint conditionalSavepoint) .prepare ht h ht.sent.failure
  refine ⟨received, outcome_attributed_ok client ?_⟩
  rw [outcome_bind_ok (outcome_ensureOpen_ok client .prepare h.isOpen)]
  exact hsaved

/-- The savepoint of the update is still there after it. -/
theorem hasSavepoint_run_savepoint {server : Server α} (h : server.tx.isSome) (name : String)
    (changes : List α) : hasSavepoint ((server.savepoint name).run changes) name = true := by
  obtain ⟨tx, htx⟩ := Option.isSome_iff_exists.1 h
  simp [hasSavepoint, Server.savepoint, Server.run, htx]

theorem outcome_releaseSavepoint_ok {t : Trip α R}
    (ht : t.Controls client "RELEASE SAVEPOINT `__plenora_cu`") {s : State α} (h : Usable s)
    (hsaved : hasSavepoint s.server conditionalSavepoint = true) :
    ∃ received, outcome (releaseSavepoint client conditionalSavepoint t) s =
      (.ok (), s.heard (s.server.release conditionalSavepoint) received) := by
  have hfailure : failureOf (.release conditionalSavepoint) t.sent s.server = none := by
    rw [failureOf, hsaved]
    exact ht.sent.failure
  obtain ⟨received, hreleased⟩ :=
    outcome_execControl_ok client (.release conditionalSavepoint) .prepare ht h hfailure
  refine ⟨received, outcome_attributed_ok client ?_⟩
  rw [outcome_bind_ok (outcome_ensureOpen_ok client .prepare h.isOpen)]
  exact hreleased

theorem outcome_rollbackToSavepoint_ok {t : Trip α R}
    (ht : t.Controls client "ROLLBACK TO SAVEPOINT `__plenora_cu`") {s : State α} (h : Usable s)
    (hsaved : hasSavepoint s.server conditionalSavepoint = true) :
    ∃ received, outcome (rollbackToSavepoint client conditionalSavepoint t) s =
      (.ok (), s.heard (s.server.rollbackTo conditionalSavepoint) received) := by
  have hfailure : failureOf (.rollbackTo conditionalSavepoint) t.sent s.server = none := by
    rw [failureOf, hsaved]
    exact ht.sent.failure
  obtain ⟨received, hrolled⟩ :=
    outcome_execControl_ok client (.rollbackTo conditionalSavepoint) .write ht h hfailure
  refine ⟨received, outcome_attributed_ok client ?_⟩
  have hquoted : outcome (ofResult (quoteSavepointName conditionalSavepoint)) s =
      (.ok "`__plenora_cu`", s) := rfl
  rw [outcome_bind_ok (outcome_ensureOpen_ok client .prepare h.isOpen), outcome_bind_ok hquoted]
  exact (outcome_bind_ok (outcome_attempt_of hrolled) _).trans rfl

theorem outcome_verifyConditional_ok {sql : String} {isUpdate : Bool} {trips : Nat → Trip α R}
    {reads : Nat} {answers : List (List R)}
    (hpasses : CatalogPasses client sql isUpdate trips reads answers) {s : State α} (h : Usable s) :
    ∃ received, outcome (verifyConditional client sql isUpdate trips reads answers) s =
      (.ok (), s.heard s.server received) := by
  induction reads generalizing answers s with
  | zero => exact ⟨s.received, rfl⟩
  | succ reads ih =>
    unfold CatalogPasses at hpasses
    unfold verifyConditional
    cases hnext : client.catalogRead sql isUpdate answers with
    | error e => rw [hnext] at hpasses; exact hpasses.elim
    | ok next =>
      rw [hnext] at hpasses
      cases next with
      | none => exact ⟨s.received, rfl⟩
      | some query =>
        obtain ⟨received, hread⟩ := outcome_exchangeRows_ok client .catalog .prepare hpasses.1 h
          hpasses.1.sent.failure
        obtain ⟨received', hrest⟩ := ih hpasses.2 (h.heard s.server received)
        exact ⟨received', (outcome_bind_ok hread _).trans hrest⟩

/-- What the sending of the update leaves: its savepoint, then its changes. -/
theorem outcome_updateSent {request : ConditionalUpdate} {x : Nat → Trip α R} {s : State α}
    (h : Succeeds client request x s) {β : Type} (f : Nat → Scope α β) :
    ∃ received, outcome (do
        ensureOpen client .write
        ofResult (client.validateCallerSql request.update.sql)
        ofResult (request.keyProbe.elim (.ok ()) fun probe => client.validateCallerSql probe.sql)
        verifyConditional client request.update.sql true x catalogReads []
        request.keyProbe.elim (pure ()) fun probe =>
          verifyConditional client probe.sql false (fun n => x (5 + n)) catalogReads []
        savepoint client conditionalSavepoint (x 10)
        ofResult (client.bindParameters request.update.params)
        let affected ← callerWrite client request.update.sql (x 11) (x 12)
        f affected) s =
      outcome (f (x 11).sent.answer.affected)
        (s.heard ((s.server.savepoint conditionalSavepoint).run (x 11).sent.changes) received) := by
  have hpolicy : request.keyProbe.elim (.ok ()) (fun probe => client.validateCallerSql probe.sql) =
      (.ok () : Result Unit) := by
    cases hprobe : request.keyProbe with
    | none => rfl
    | some probe => exact h.probePolicy probe hprobe
  have husable := h.toUsable
  obtain ⟨r₁, hcatalog⟩ := outcome_verifyConditional_ok client h.catalog husable
  have hprobed : ∃ r₂, outcome (request.keyProbe.elim (pure ()) fun probe =>
      verifyConditional client probe.sql false (fun n => x (5 + n)) catalogReads [])
        (s.heard s.server r₁) = (.ok (), s.heard s.server r₂) := by
    cases hprobe : request.keyProbe with
    | none => exact ⟨r₁, rfl⟩
    | some probe =>
      exact outcome_verifyConditional_ok client (h.probeCatalog probe hprobe) (husable.heard _ r₁)
  obtain ⟨r₂, hprobed⟩ := hprobed
  obtain ⟨r₃, hsaved⟩ := outcome_savepoint_ok client h.saved (husable.heard s.server r₂)
  obtain ⟨r₄, hwritten⟩ := outcome_callerWrite_ok client h.update h.profiled
    (husable.heard (s.server.savepoint conditionalSavepoint) r₃)
  refine ⟨r₄, ?_⟩
  rw [outcome_bind_ok (outcome_ensureOpen_ok client .write h.isOpen),
    outcome_bind_ok (outcome_ofResult_ok h.policy _),
    outcome_bind_ok (outcome_ofResult_ok hpolicy _), outcome_bind_ok hcatalog,
    outcome_bind_ok hprobed, outcome_bind_ok hsaved, outcome_bind_ok (outcome_ofResult_ok h.bound _)]
  exact outcome_bind_ok hwritten f

/-- **The update succeeds on the expected count; else it fails, and what it changed is undone.** -/
theorem outcome_executeConditionalUpdate {request : ConditionalUpdate} {x : Nat → Trip α R}
    {s : State α} (h : Succeeds client request x s) :
    if (x 11).sent.answer.affected = request.expectedAffectedRows then
      (outcome (executeConditionalUpdate client request x) s).1 = .ok ()
    else ∃ e s', outcome (executeConditionalUpdate client request x) s = (.error e, s') ∧
      Usable s' ∧ s'.server = ((s.server.savepoint conditionalSavepoint).run
        (x 11).sent.changes).rollbackTo conditionalSavepoint ∧
      e.category = .concurrentModification ∧ e.remoteEffect = .rolledBack := by
  obtain ⟨received, hupdated⟩ := outcome_updateSent client h fun affected =>
    if affected = request.expectedAffectedRows then
      releaseSavepoint client conditionalSavepoint (x 13)
    else do
      rollbackToSavepoint client conditionalSavepoint (x 14)
      throw (conditionalUpdateMismatch client request.expectedAffectedRows affected)
  unfold executeConditionalUpdate
  rw [outcome_mapResult, hupdated]
  have hpoint := hasSavepoint_run_savepoint h.inTransaction conditionalSavepoint
    (x 11).sent.changes
  have husable := h.toUsable.heard ((s.server.savepoint conditionalSavepoint).run
    (x 11).sent.changes) received
  by_cases hcount : (x 11).sent.answer.affected = request.expectedAffectedRows
  · rw [if_pos hcount, if_pos hcount]
    obtain ⟨received', hreleased⟩ := outcome_releaseSavepoint_ok client (h.released hcount)
      husable hpoint
    rw [hreleased]
    rfl
  · rw [if_neg hcount, if_neg hcount]
    obtain ⟨received', hrolled⟩ := outcome_rollbackToSavepoint_ok client (h.rolledBack hcount)
      husable hpoint
    rw [outcome_bind_ok hrolled]
    exact ⟨_, _, rfl, husable.heard _ received', rfl, rfl, rfl⟩

/-! ## The contract -/

theorem outcome_execCommit_ok {t : Trip α R} (ht : t.Succeeds "")
    (hsingle : t.sent.answer.unexpectedResults = false) {s : State α} (h : Usable s) :
    ∃ received, outcome (execTransaction client .commit .commit t) s =
      (.ok (), s.heard s.server.commit received) := by
  obtain ⟨received, hsent⟩ := outcome_send_ok client .commit ht.sent h.connected ht.sent.failure
  obtain ⟨received', hchecked⟩ :=
    outcome_checkWarnings_ok client .commit ht (h.heard s.server.commit received)
  have hended : outcome (if t.sent.answer.unexpectedResults
      then throw (warningError client.profile .commit)
      else checkWarningsForSql client .commit "" t.sent.answer.warnings t.warned)
      (s.heard s.server.commit received) = (.ok (), s.heard s.server.commit received') := by
    rw [hsingle]
    exact hchecked
  refine ⟨received', ?_⟩
  unfold execTransaction
  rw [outcome_bind_ok (outcome_requireReady_ok client .commit h), outcome_bind_ok hsent,
    ht.sent.interruption]
  exact (outcome_bind_ok (outcome_attempt_of hended) _).trans rfl

/-- **An acknowledged COMMIT of a scope that is open makes its work durable.** -/
theorem Usable.committable {s : State α} (h : Usable s) (halive : s.server.Alive) :
    Committable client s := by
  intro tx htx profile t hprofile ht hsingle
  have hopen : outcome (refuseIf (fun s : State α => !s.isOpen) (commitClosed client)) s =
      (.ok (), s) := by
    rw [outcome_refuseIf, h.isOpen]
    rfl
  obtain ⟨received, hverified⟩ := outcome_verifyProfile_ok client .commit hprofile h
  obtain ⟨received', hcommitted⟩ :=
    outcome_execCommit_ok client ht hsingle (h.heard s.server received)
  have hcommit : outcome (commit client profile t) s =
      (.ok .committed, { s.heard s.server.commit received' with isOpen := false }) := by
    refine outcome_attributed_ok client ?_
    rw [outcome_bind_ok hopen, outcome_bind_ok hverified,
      outcome_bind_ok (outcome_attempt_of hcommitted)]
    rfl
  rw [hcommit]
  exact ⟨rfl, halive.durable_commit htx⟩

/-- **The contract holds of an update whose statements succeed, unless the count is another than
expected and the probe would find no row.** -/
theorem contract_iff {request : ConditionalUpdate} {x : Nat → Trip α R} {s : State α}
    (h : Succeeds client request x s) (rows : List R) :
    Contract (x 11).sent.answer.affected request.expectedAffectedRows (probeFound request rows)
        s.server (outcome (executeConditionalUpdate client request x) s).2.server
        (Committable client (outcome (executeConditionalUpdate client request x) s).2)
        (outcome (executeConditionalUpdate client request x) s).1 ↔
      (x 11).sent.answer.affected = request.expectedAffectedRows ∨
        probeFound request rows ≠ some false := by
  have hended := outcome_executeConditionalUpdate client h
  split at hended
  next hcount =>
    rw [hended]
    exact ⟨fun _ => .inl hcount, fun _ => contract_ok hcount⟩
  next hcount =>
    obtain ⟨e, s', hended, husable, hserver, hcategory, heffect⟩ := hended
    obtain ⟨tx, htx⟩ := Option.isSome_iff_exists.1 h.inTransaction
    have hwork := s.server.rollbackTo_run_savepoint conditionalSavepoint (x 11).sent.changes htx
    have hsame : SameWork s.server s'.server := by
      rw [hserver]
      refine ⟨?_, by rw [hwork, htx]; rfl⟩
      rw [Server.durable_rollbackTo, Server.durable_run _ _ (by simpa using h.inTransaction),
        Server.durable_savepoint]
    have halive : s'.server.Alive := by
      intro tx' htx'
      rw [hserver, hwork] at htx'
      cases htx'
      rfl
    rw [hended, contract_error_iff hcount, hcategory]
    unfold mismatch
    constructor
    · rintro ⟨hmismatch, -⟩
      refine .inr fun hfound => ?_
      rw [if_pos hfound] at hmismatch
      cases hmismatch
    · rintro (heq | hfound)
      · exact absurd heq hcount
      · rw [if_neg hfound]
        exact ⟨rfl, fun _ => ⟨hsame, fun _ _ => husable.committable client halive⟩⟩

end Session

end Plenora.Mysql.Transaction
