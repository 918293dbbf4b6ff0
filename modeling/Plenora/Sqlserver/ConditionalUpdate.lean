import Plenora.Core.ConditionalUpdate
import Plenora.Sqlserver.Transaction

/-!
# Conditional updates on SQL Server

No savepoint stands before the update: the changes of one whose statements succeed
stay in the transaction, whatever the count of the rows was.

    Contract … (executeConditionalUpdate client request x count probed)
      ↔ affected = expected ∨ found = some false ∨ changes = []              (contract_iff)
-/

namespace Plenora.Sqlserver.Transaction

open Plenora.Lib Plenora.Lib.Call Plenora.Core Plenora.Core.ConditionalUpdate

variable {α R Row : Type}

/-! ## Statements that succeed -/

/-- The command arrives, and its answer comes back and is decoded. -/
structure Exchange.Succeeds (x : Exchange α R) : Prop where
  arrives : x.arrives = true
  refusal : x.refusal = none
  breaks : x.breaks = false
  interruption : x.interruption = none
  panics : x.panics = false

/-- The scope is open, and its session in a transaction. -/
structure Usable (s : State α) : Prop where
  isOpen : s.isOpen = true
  session : s.session = .transaction
  hasClient : s.client = true
  connected : s.connected = true

/-- The statements of the update succeed: the update, the reading of its count, the probe. -/
structure Succeeds (client : Client R Row) (request : ConditionalUpdate)
    (x count probed : Exchange α R) (s : State α) : Prop extends Usable s where
  policy : client.enforcePolicy request.update.sql = .ok ()
  probePolicy : ∀ probe, request.keyProbe = some probe → client.enforcePolicy probe.sql = .ok ()
  bound : client.bindParameters request.update.params = .ok ()
  probeBound : ∀ probe, request.keyProbe = some probe → client.bindParameters probe.params = .ok ()
  update : x.Succeeds
  counted : count.Succeeds
  probe : request.keyProbe.isSome → probed.Succeeds

/-- Whether the probe of the key, where one is given, finds a row. -/
def probeFound (request : ConditionalUpdate) (probed : Exchange α R) : Option Bool :=
  request.keyProbe.map fun _ => probed.answer.sets.any fun set => !set.isEmpty

/-- What the update and its probe changed. -/
def statementChanges (request : ConditionalUpdate) (x probed : Exchange α R) : List α :=
  x.changes ++ request.keyProbe.elim [] fun _ => probed.changes

/-- A COMMIT that the server acknowledges makes the work of the transaction durable. -/
def Committable (s : State α) : Prop :=
  ∀ tx, s.server.tx = some tx → ∀ (R : Type) (x : Exchange α R), x.Succeeds →
    (outcome (commit x) s).1 = .ok .committed ∧
      (outcome (commit x) s).2.server.durable = s.server.durable ++ tx.work

/-- The scope after a command that left the server so. -/
def State.heard (s : State α) (command : Command) (server : Server α) : State α :=
  { s with server, received := s.received ++ [(command, s.server.tx.isSome)] }

theorem Usable.heard {s : State α} (h : Usable s) (command : Command) (server : Server α) :
    Usable (s.heard command server) :=
  ⟨h.isOpen, h.session, h.hasClient, h.connected⟩

theorem outcome_send_ok (command : Command) {x : Exchange α R} (hx : x.Succeeds) {s : State α}
    (hconnected : s.connected = true) (hrefusal : refusalOf command x s.server = none) :
    outcome (send command x) s =
      (.ok (.ok x.answer), s.heard command (carryOut command x s.server)) := by
  simp [send, State.exchange, serve, hrefusal, hconnected, hx.arrives, hx.breaks, State.heard]

theorem outcome_settleWrite_ok {x : Exchange α R} (hx : x.Succeeds) (answer : Answer R)
    (s : State α) : outcome (settleWrite x (.ok answer)) s = (.ok answer, s) := by
  unfold settleWrite
  rw [hx.interruption]
  rfl

theorem outcome_requireState_ok (phase : ErrorPhase) {s : State α} (h : s.session = .transaction)
    (hclient : s.client = true) : outcome (requireState .transaction phase) s = (.ok (), s) := by
  unfold requireState
  rw [outcome_refuseIf, h, hclient]
  rfl

theorem outcome_requireClient_ok (phase : ErrorPhase) {s : State α} (hclient : s.client = true) :
    outcome (requireClient phase) s = (.ok (), s) := by
  unfold requireClient
  rw [outcome_refuseIf, hclient]
  rfl

/-- **A write that is answered leaves its changes in the transaction.** -/
theorem outcome_executeWriteQueryTracked_ok {x count : Exchange α R} (hx : x.Succeeds)
    (hcount : count.Succeeds) {s : State α} (h : Usable s) :
    outcome (executeWriteQueryTracked x count) s = (.ok count.answer.affected,
      (s.heard .statement (s.server.run x.changes)).heard .rowCount (s.server.run x.changes)) := by
  have hrefusal : refusalOf .statement x s.server = none := hx.refusal
  unfold executeWriteQueryTracked
  rw [outcome_bind_ok (outcome_requireState_ok .write h.session h.hasClient),
    outcome_bind_ok (outcome_send_ok .statement hx h.connected hrefusal),
    outcome_bind_ok (outcome_settleWrite_ok hx x.answer _),
    outcome_bind_ok (outcome_send_ok .rowCount hcount (h.heard _ _).connected hcount.refusal),
    outcome_bind_ok (outcome_settleWrite_ok hcount count.answer _)]
  rfl

theorem outcome_executeQueryTracked_ok (phase : ErrorPhase) {x : Exchange α R} (hx : x.Succeeds)
    {s : State α} (h : Usable s) :
    outcome (executeQueryTracked .statement phase x) s =
      (.ok x.answer.sets, s.heard .statement (s.server.run x.changes)) := by
  have hadmitted : outcome (refuseIf (fun s' => !decide (s.session = .transaction) &&
      (s'.session ≠ .ready || !s'.client)) fun _ => stateError phase) s = (.ok (), s) := by
    rw [outcome_refuseIf, h.session]
    rfl
  unfold executeQueryTracked settleQuery
  rw [outcome_bind_ok (outcome_read _ s), outcome_bind_ok hadmitted,
    outcome_bind_ok (outcome_requireClient_ok phase h.hasClient),
    outcome_bind_ok (outcome_send_ok .statement hx h.connected hx.refusal), hx.interruption,
    hx.panics]
  rfl

theorem outcome_ensureOpen_ok (phase : ErrorPhase) {s : State α} (h : s.isOpen = true) :
    outcome (ensureOpen phase) s = (.ok (), s) := by
  unfold ensureOpen
  rw [outcome_refuseIf, h]
  rfl

theorem outcome_ofResult_ok {r : Result Unit} (h : r = .ok ()) (s : State α) :
    outcome (ofResult r : Scope α Unit) s = (.ok (), s) := by
  rw [outcome_ofResult, h]

/-! ## The update -/

/-- **A probe that is answered fails, whatever it finds.** -/
theorem outcome_probeKey {client : Client R Row} {probe : Statement} {x : Exchange α R}
    (hbound : client.bindParameters probe.params = .ok ()) (hx : x.Succeeds) {s : State α}
    (h : Usable s) :
    ∃ e, outcome (probeKey client probe x) s =
        (.error e, s.heard .statement (s.server.run x.changes)) ∧
      e.category = mismatch (some (x.answer.sets.any fun set => !set.isEmpty)) ∧
      (e.remoteEffect = .rolledBack ↔ (x.answer.sets.any fun set => !set.isEmpty) = true) := by
  unfold probeKey
  rw [outcome_bind_ok (outcome_ofResult_ok hbound s),
    outcome_bind_ok (outcome_executeQueryTracked_ok .write hx h)]
  cases x.answer.sets.any fun set => !set.isEmpty with
  | false => exact ⟨_, rfl, rfl, fun heffect => (by cases heffect), fun hfalse => (by cases hfalse)⟩
  | true => exact ⟨_, rfl, rfl, fun _ => rfl, fun _ => rfl⟩

/-- **The update succeeds on the expected count; else it fails, and keeps what it changed.** -/
theorem outcome_executeConditionalUpdate {client : Client R Row} {request : ConditionalUpdate}
    {x count probed : Exchange α R} {s : State α} (h : Succeeds client request x count probed s) :
    if count.answer.affected = request.expectedAffectedRows then
      (outcome (executeConditionalUpdate client request x count probed) s).1 = .ok ()
    else ∃ e s', outcome (executeConditionalUpdate client request x count probed) s =
        (.error e, s') ∧ Usable s' ∧
      s'.server = s.server.run (statementChanges request x probed) ∧
      e.category = mismatch (probeFound request probed) ∧
      (e.remoteEffect = .rolledBack ↔ probeFound request probed ≠ some false) := by
  have hpolicy : request.keyProbe.elim (.ok ()) (fun probe => client.enforcePolicy probe.sql) =
      (.ok () : Result Unit) := by
    cases hprobe : request.keyProbe with
    | none => rfl
    | some probe => exact h.probePolicy probe hprobe
  unfold executeConditionalUpdate
  rw [outcome_bind_ok (outcome_ensureOpen_ok _ h.isOpen),
    outcome_bind_ok (outcome_ofResult_ok h.policy _),
    outcome_bind_ok (outcome_ofResult_ok hpolicy _),
    outcome_bind_ok (outcome_ofResult_ok h.bound _),
    outcome_bind_ok (outcome_executeWriteQueryTracked_ok h.update h.counted h.toUsable)]
  have hupdated := (h.toUsable.heard .statement (s.server.run x.changes)).heard .rowCount
    (s.server.run x.changes)
  by_cases hcount : count.answer.affected = request.expectedAffectedRows
  · rw [if_pos hcount, if_pos hcount]
    rfl
  rw [if_neg hcount, if_neg hcount]
  unfold probeFound statementChanges
  cases hprobe : request.keyProbe with
  | none =>
    refine ⟨_, _, rfl, hupdated, ?_, rfl, fun _ hnone => (by cases hnone), fun _ => rfl⟩
    exact congrArg s.server.run (List.append_nil x.changes).symm
  | some probe =>
    obtain ⟨e, hasked, hcategory, heffect⟩ := outcome_probeKey (h.probeBound probe hprobe)
      (h.probe (by rw [hprobe]; rfl)) hupdated
    refine ⟨e, _, hasked, hupdated.heard _ _, Server.run_run _ _ _, hcategory, heffect.trans ?_⟩
    simp

/-! ## The contract -/

theorem outcome_sessionCommit_ok {x : Exchange α R} (hx : x.Succeeds) {s : State α}
    (hsession : s.session = .transaction) (hclient : s.client = true)
    (hconnected : s.connected = true) (hrefusal : refusalOf .commit x s.server = none) :
    outcome (sessionCommit x) s =
      (.ok (), { s.heard .commit s.server.commit with session := .ready }) := by
  unfold sessionCommit runControl
  rw [outcome_bind_ok (outcome_requireState_ok .commit hsession hclient), outcome_bind,
    outcome_bind_ok (outcome_requireClient_ok .commit hclient),
    outcome_bind_ok (outcome_send_ok .commit hx hconnected hrefusal), hx.interruption]
  show outcome (apply .commitSucceeded) _ = _
  have hready : (s.session.apply .commitSucceeded).state = .ready := by rw [hsession]; rfl
  exact congrArg (fun session => ((.ok (), { s.heard .commit s.server.commit with session }) :
    Except DatabaseError Unit × State α)) hready

/-- **An acknowledged COMMIT of a scope that is open makes its work durable.** -/
theorem Usable.committable {s : State α} (h : Usable s) (halive : s.server.Alive) :
    Committable s := by
  intro tx htx R x hx
  have hrefusal : refusalOf .commit x s.server = none := by
    simp [refusalOf, htx, hx.refusal]
  have hsession := outcome_sessionCommit_ok hx (s := { s with isOpen := false }) h.session
    h.hasClient h.connected hrefusal
  have hclosed : outcome close s = (.ok (), { s with isOpen := false }) := rfl
  unfold commit
  rw [outcome_bind_ok (outcome_ensureOpen_ok _ h.isOpen), outcome_bind_ok hclosed, outcome_bind,
    outcome_attempt, hsession]
  exact ⟨rfl, halive.durable_commit htx⟩

/-- **The contract holds of an update whose statements succeed if the count is the expected one,
the probe finds no row, or nothing was changed.** -/
theorem contract_iff {client : Client R Row} {request : ConditionalUpdate}
    {x count probed : Exchange α R} {s : State α} (h : Succeeds client request x count probed s) :
    Contract count.answer.affected request.expectedAffectedRows (probeFound request probed) s.server
        (outcome (executeConditionalUpdate client request x count probed) s).2.server
        (Committable (outcome (executeConditionalUpdate client request x count probed) s).2)
        (outcome (executeConditionalUpdate client request x count probed) s).1 ↔
      count.answer.affected = request.expectedAffectedRows ∨
        probeFound request probed = some false ∨ statementChanges request x probed = [] := by
  have hended := outcome_executeConditionalUpdate h
  split at hended
  next hcount =>
    rw [hended]
    exact ⟨fun _ => .inl hcount, fun _ => contract_ok hcount⟩
  next hcount =>
    obtain ⟨e, s', hended, husable, hserver, hcategory, heffect⟩ := hended
    rw [hended, contract_error_iff hcount, heffect, hserver, sameWork_run]
    constructor
    · rintro ⟨-, hundone⟩
      by_cases hfound : probeFound request probed = some false
      · exact .inr (.inl hfound)
      · exact .inr (.inr (hundone hfound).1)
    · rintro (heq | hfound | hchanges)
      · exact absurd heq hcount
      · exact ⟨hcategory, fun hne => absurd hfound hne⟩
      · refine ⟨hcategory, fun _ => ⟨hchanges, fun _ halive => husable.committable ?_⟩⟩
        rw [hserver]
        exact halive.run _

end Plenora.Sqlserver.Transaction
