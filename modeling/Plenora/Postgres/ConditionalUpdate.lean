import Plenora.Core.ConditionalUpdate
import Plenora.Postgres.Transaction

/-!
# Conditional updates on PostgreSQL

The statements of an update that succeed leave the changes of the update in the
transaction, whatever the count of the rows was.

    Contract … (executeConditionalUpdate client request)
      ↔ affected = expected ∨ found = some false ∨ changes = []              (contract_iff)
-/

namespace Plenora.Postgres.Transaction

open Plenora.Lib Plenora.Lib.Call Plenora.Core Plenora.Core.ConditionalUpdate

variable {α R Row : Type}

/-! ## Statements that succeed -/

/-- The command arrives, and its answer comes back before the token fires. -/
structure Exchange.Succeeds (x : Exchange α R) : Prop where
  arrives : x.arrives = true
  refusal : x.refusal = none
  breaks : x.breaks = false
  cancelled : x.cancelled = none

/-- The token does not fire, and the statement is encoded, prepared, bound and answered; its
exchanges begin at `n`. -/
structure Accepted (client : Client R Row) (script : Nat → Exchange α R) (statement : Statement)
    (n : Nat) : Prop where
  uncancelled : (script n).cancelled = none
  encoded : client.encodeParams statement.params = .ok ()
  prepared : (script (n + 1)).Succeeds
  targets : client.validateParameterTargets statement.params
    (script (n + 1)).answer.parameterTypes = .ok ()
  answered : (script (n + 2)).Succeeds

/-- The scope is open and its transaction has not failed. -/
structure Usable (s : State α R) : Prop where
  isOpen : s.isOpen = true
  connected : s.connected = true
  unfailed : failedTx s.server = false

/-- The statements of the update succeed. -/
structure Succeeds (client : Client R Row) (request : ConditionalUpdate) (s : State α R) :
    Prop extends Usable s where
  policy : client.enforcePolicy request.update.sql = .ok ()
  probePolicy : ∀ probe, request.keyProbe = some probe → client.enforcePolicy probe.sql = .ok ()
  update : Accepted client s.script request.update s.exchanges
  probe : ∀ probe, request.keyProbe = some probe →
    Accepted client s.script probe (s.exchanges + 3)

def affectedRows (s : State α R) : Nat := (s.script (s.exchanges + 2)).answer.affected

/-- Whether the probe of the key, where one is given, finds a row. -/
def probeFound (request : ConditionalUpdate) (s : State α R) : Option Bool :=
  request.keyProbe.map fun _ => !(s.script (s.exchanges + 5)).answer.rows.isEmpty

/-- What the update and its probe changed. -/
def statementChanges (request : ConditionalUpdate) (s : State α R) : List α :=
  (s.script (s.exchanges + 2)).changes ++
    request.keyProbe.elim [] fun _ => (s.script (s.exchanges + 5)).changes

/-- A COMMIT that the server acknowledges makes the work of the transaction durable. -/
def Committable (s : State α R) : Prop :=
  ∀ tx, s.server.tx = some tx → (s.script s.exchanges).cancelled = none →
    (s.script (s.exchanges + 1)).Succeeds →
    (outcome commit s).1 = .ok .committed ∧
      (outcome commit s).2.server.durable = s.server.durable ++ tx.work

/-- The scope after some exchanges that left the server so. -/
def State.moved (s : State α R) (n : Nat) (server : Server α) : State α R :=
  { s with exchanges := s.exchanges + n, server }

theorem outcome_exchange_ok (command : Command) {s : State α R} (hconnected : s.connected = true)
    (hx : (s.script s.exchanges).Succeeds)
    (hrefusal : refusalOf command (s.script s.exchanges) s.server = none) :
    State.exchange command s = ((none, .ok (s.script s.exchanges).answer),
      s.moved 1 (carryOut command (s.script s.exchanges) s.server)) := by
  simp [State.exchange, serve, hrefusal, hconnected, hx.arrives, hx.breaks, hx.cancelled,
    State.moved]

theorem outcome_sending_ok (command : Command) (phase : ErrorPhase) (message : String)
    {s : State α R} (hconnected : s.connected = true) (hx : (s.script s.exchanges).Succeeds)
    (hrefusal : refusalOf command (s.script s.exchanges) s.server = none) :
    outcome (sending command phase message) s = (.ok (.ok (s.script s.exchanges).answer),
      s.moved 1 (carryOut command (s.script s.exchanges) s.server)) := by
  unfold sending
  rw [outcome_bind, outcome_exchange, outcome_exchange_ok command hconnected hx hrefusal]
  rfl

theorem failedTx_run {server : Server α} (h : failedTx server = false) (changes : List α) :
    failedTx (server.run changes) = false := by
  unfold Server.run failedTx
  cases htx : server.tx with
  | none => rfl
  | some tx =>
    rw [failedTx, htx] at h
    exact h

theorem Usable.run {s : State α R} (h : Usable s) (n : Nat) (changes : List α) :
    Usable (s.moved n (s.server.run changes)) :=
  ⟨h.isOpen, h.connected, failedTx_run h.unfailed changes⟩

theorem Usable.moved {s : State α R} (h : Usable s) (n : Nat) : Usable (s.moved n s.server) :=
  ⟨h.isOpen, h.connected, h.unfailed⟩

theorem outcome_prepareBind_ok {client : Client R Row} {statement : Statement} (phase : ErrorPhase)
    {s : State α R} (h : Usable s) (hx : (s.script s.exchanges).Succeeds)
    (htargets : client.validateParameterTargets statement.params
      (s.script s.exchanges).answer.parameterTypes = .ok ()) :
    outcome (prepareBind client statement phase) s = (.ok (), s.moved 1 s.server) := by
  unfold prepareBind
  have hrefusal : refusalOf .prepare (s.script s.exchanges) s.server = none := by
    simp [refusalOf, h.unfailed, hx.refusal]
  rw [outcome_bind_ok (outcome_sending_ok .prepare phase _ h.connected hx hrefusal)]
  show outcome (ofResult _) _ = _
  rw [outcome_ofResult, htargets]
  rfl

theorem outcome_statement_ok (phase : ErrorPhase) (message : String) {s : State α R} (h : Usable s)
    (hx : (s.script s.exchanges).Succeeds) :
    outcome (sending .statement phase message) s = (.ok (.ok (s.script s.exchanges).answer),
      s.moved 1 (s.server.run (s.script s.exchanges).changes)) := by
  have hrefusal : refusalOf .statement (s.script s.exchanges) s.server = none := by
    simp [refusalOf, h.unfailed, hx.refusal]
  exact outcome_sending_ok .statement phase message h.connected hx hrefusal

theorem outcome_checkToken_ok (phase : ErrorPhase) {s : State α R}
    (h : (s.script s.exchanges).cancelled = none) :
    outcome (checkToken phase) s = (.ok (), s.moved 1 s.server) := by
  unfold checkToken
  rw [outcome_bind_ok (outcome_exchange _ _), outcome_ofResult, h]
  rfl

theorem outcome_ensureOpen_ok (phase : ErrorPhase) {s : State α R} (h : s.isOpen = true) :
    outcome (ensureOpen phase) s = (.ok (), s) := by
  unfold ensureOpen
  rw [outcome_refuseIf, h]
  rfl

/-! ## The update -/

theorem outcome_ofResult_ok {r : Result Unit} (h : r = .ok ()) (s : State α R) :
    outcome (ofResult r : Scope α R Unit) s = (.ok (), s) := by
  rw [outcome_ofResult, h]

/-- **A probe that is answered fails only where it finds no row.** -/
theorem outcome_probeKey {client : Client R Row} {probe : Statement} {s : State α R} (h : Usable s)
    (hx : Accepted client s.script probe s.exchanges) :
    outcome (probeKey client probe) s =
      (if (s.script (s.exchanges + 2)).answer.rows.isEmpty then
          .error (publicError .notFound .write false "chiave assente per l'update ottimistico")
        else .ok (),
        s.moved 3 (s.server.run (s.script (s.exchanges + 2)).changes)) := by
  unfold probeKey
  rw [outcome_bind_ok (outcome_checkToken_ok _ hx.uncancelled),
    outcome_bind_ok (outcome_ofResult_ok hx.encoded _),
    outcome_bind_ok (outcome_prepareBind_ok _ (h.moved 1) hx.prepared hx.targets),
    outcome_bind_ok (outcome_statement_ok _ _ ((h.moved 1).moved 1) hx.answered)]
  show outcome (if (s.script (s.exchanges + 2)).answer.rows.isEmpty then throw _ else pure ()) _ = _
  split <;> rfl

/-- The error of an update that found other rows than expected. -/
def unexpected (found : Option Bool) : DatabaseError :=
  if found = some false then
    publicError .notFound .write false "chiave assente per l'update ottimistico"
  else concurrentModificationError
    "versione attesa non allineata: la riga è stata modificata concorrentemente"

theorem category_unexpected (found : Option Bool) : (unexpected found).category = mismatch found := by
  unfold unexpected mismatch
  split <;> rfl

theorem remoteEffect_unexpected (found : Option Bool) :
    (unexpected found).remoteEffect = .rolledBack ↔ found ≠ some false := by
  unfold unexpected
  split
  next hfound => exact ⟨fun heffect => (by cases heffect), fun hne => absurd hfound hne⟩
  next hfound => exact ⟨fun _ => hfound, fun _ => rfl⟩

/-- **An update with other rows than expected fails, whatever its probe finds.** -/
theorem outcome_unexpected {client : Client R Row} (keyProbe : Option Statement) {s : State α R}
    (h : Usable s)
    (hprobe : ∀ probe, keyProbe = some probe → Accepted client s.script probe s.exchanges) :
    ∃ n, outcome (do
        keyProbe.elim (pure ()) (probeKey client)
        throw (unexpected none) : Scope α R Unit) s =
      (.error (unexpected (keyProbe.map fun _ => !(s.script (s.exchanges + 2)).answer.rows.isEmpty)),
        s.moved n (s.server.run
          (keyProbe.elim [] fun _ => (s.script (s.exchanges + 2)).changes))) := by
  cases keyProbe with
  | none => exact ⟨0, by rw [Option.elim_none, Option.elim_none, Server.run_nil]; rfl⟩
  | some probe =>
    refine ⟨3, ?_⟩
    rw [Option.elim_some, outcome_bind, outcome_probeKey h (hprobe probe rfl)]
    cases (s.script (s.exchanges + 2)).answer.rows.isEmpty <;> rfl

/-- **The update succeeds on the expected count; else it fails, and keeps what it changed.** -/
theorem outcome_executeConditionalUpdate {client : Client R Row} {request : ConditionalUpdate}
    {s : State α R} (h : Succeeds client request s) :
    if affectedRows s = request.expectedAffectedRows then
      (outcome (executeConditionalUpdate client request) s).1 = .ok ()
    else ∃ e n, outcome (executeConditionalUpdate client request) s =
        (.error e, s.moved n (s.server.run (statementChanges request s))) ∧
      e.category = mismatch (probeFound request s) ∧
      (e.remoteEffect = .rolledBack ↔ probeFound request s ≠ some false) := by
  have hupdate := h.update
  have hpolicy : request.keyProbe.elim (.ok ()) (fun probe => client.enforcePolicy probe.sql) =
      (.ok () : Result Unit) := by
    cases hprobe : request.keyProbe with
    | none => rfl
    | some probe => exact h.probePolicy probe hprobe
  unfold executeConditionalUpdate
  rw [outcome_bind_ok (outcome_ensureOpen_ok _ h.isOpen),
    outcome_bind_ok (outcome_ofResult_ok h.policy _),
    outcome_bind_ok (outcome_ofResult_ok hpolicy _),
    outcome_bind_ok (outcome_checkToken_ok _ hupdate.uncancelled),
    outcome_bind_ok (outcome_ofResult_ok hupdate.encoded _),
    outcome_bind_ok (outcome_prepareBind_ok _ (h.toUsable.moved 1) hupdate.prepared hupdate.targets),
    outcome_bind_ok (outcome_statement_ok _ _ ((h.toUsable.moved 1).moved 1) hupdate.answered)]
  have hupdated := h.toUsable.run 3 (s.script (s.exchanges + 2)).changes
  show if affectedRows s = request.expectedAffectedRows then
      (outcome (if affectedRows s = request.expectedAffectedRows then pure () else _) _).1 = _
    else ∃ e n, outcome (if affectedRows s = request.expectedAffectedRows then pure () else _) _ = _ ∧ _
  split
  next hcount => rfl
  next hcount =>
    obtain ⟨n, hmismatch⟩ := outcome_unexpected request.keyProbe hupdated h.probe
    refine ⟨unexpected (probeFound request s), 3 + n, hmismatch.trans ?_, category_unexpected _,
      remoteEffect_unexpected _⟩
    show (_, (State.moved _ 3 _).moved n ((s.server.run _).run _)) = _
    rw [Server.run_run]
    simp only [State.moved, Nat.add_assoc]
    rfl

/-! ## The contract -/

/-- **An acknowledged COMMIT of a scope that is open makes its work durable.** -/
theorem Usable.committable {s : State α R} (h : Usable s) : Committable s := by
  intro tx htx htoken hx
  have hfailed : tx.failed = false := by
    have := h.unfailed
    rw [failedTx, htx] at this
    exact this
  have hdurable : s.server.commit.durable = s.server.durable ++ tx.work :=
    s.server.durable_commit htx fun hfailed' => by rw [hfailed] at hfailed'; cases hfailed'
  unfold commit
  rw [outcome_bind_ok (outcome_ensureOpen_ok _ h.isOpen),
    outcome_bind_ok (outcome_checkToken_ok _ htoken), outcome_bind, outcome_exchange,
    outcome_exchange_ok (s := s.moved 1 s.server) .commit h.connected hx hx.refusal]
  exact ⟨rfl, hdurable⟩

/-- **The contract holds of an update whose statements succeed if the count is the expected one,
the probe finds no row, or nothing was changed.** -/
theorem contract_iff {client : Client R Row} {request : ConditionalUpdate} {s : State α R}
    (h : Succeeds client request s) :
    Contract (affectedRows s) request.expectedAffectedRows (probeFound request s) s.server
        (outcome (executeConditionalUpdate client request) s).2.server
        (Committable (outcome (executeConditionalUpdate client request) s).2)
        (outcome (executeConditionalUpdate client request) s).1 ↔
      affectedRows s = request.expectedAffectedRows ∨ probeFound request s = some false ∨
        statementChanges request s = [] := by
  have hended := outcome_executeConditionalUpdate h
  split at hended
  next hcount =>
    rw [hended]
    exact ⟨fun _ => .inl hcount, fun _ => contract_ok hcount⟩
  next hcount =>
    obtain ⟨e, n, hended, hcategory, heffect⟩ := hended
    rw [hended, contract_error_iff hcount, heffect]
    have hcommits : Committable (s.moved n (s.server.run (statementChanges request s))) :=
      (h.toUsable.run n _).committable
    show _ ∧ (_ → SameWork s.server (s.server.run _) ∧ _) ↔ _
    rw [sameWork_run]
    constructor
    · rintro ⟨-, hundone⟩
      by_cases hfound : probeFound request s = some false
      · exact .inr (.inl hfound)
      · exact .inr (.inr (hundone hfound).1)
    · rintro (heq | hfound | hchanges)
      · exact absurd heq hcount
      · exact ⟨hcategory, fun hne => absurd hfound hne⟩
      · exact ⟨hcategory, fun _ => ⟨hchanges, fun _ _ => hcommits⟩⟩

end Plenora.Postgres.Transaction
