import Plenora.Lib.Dialogue
import Plenora.Lib.Outcome

/-!
# The migration runner

`apply`, `rollback` and `recover` as programs that send their statements to a
database with transactional DDL.  A migration is the list of effects that its
statements leave in the schema; the history table is there, with the lock row that
every transaction of the runner takes first.

    apply runner : Run E (List String)
    (database : Service …).run (clients runner calls) events = some c
-/

namespace Plenora.Sdk.Migrations

open Plenora.Lib Plenora.Lib.Program

variable {E : Type}

/-! ## Data model -/

inductive RowState where
  | running | applied | failed
  deriving DecidableEq, Repr

/-- A row of `_plenora_orm_migrations`; the row of the lock is not among them. -/
structure Row where
  revision : String
  checksum : String
  state : RowState
  deriving DecidableEq, Repr

inductive Failure where
  | state (message : String)
  | value (message : String)
  | mapping (message : String)
  | database (code : Nat)
  deriving DecidableEq, Repr

/-- The callbacks are the effects that their statements leave or undo, one each. -/
structure Migration (E : Type) where
  revision : String
  /-- `_migration_parents` of `down_revision`. -/
  parents : List String
  upgrade : List E
  downgrade : Option (List E)
  checksum : String
  undoes : ∀ effects, downgrade = some effects → effects.Perm upgrade

inductive Change (E : Type) where
  | insertRow (row : Row)
  | setState (revision : String) (state : RowState)
  | deleteRow (revision : String)
  | add (effect : E)
  | remove (effect : E)
  deriving DecidableEq, Repr

inductive Request (E : Type) where
  | ensureTable
  | history
  | begin_
  | lock (tx : Nat)
  | select (tx : Nat)
  | execute (tx : Nat) (change : Change E)
  | commit (tx : Nat)
  | rollback (tx : Nat)
  deriving DecidableEq, Repr

inductive Answer where
  | done
  | rows (found : List Row)
  | transaction (number : Nat)
  deriving DecidableEq, Repr

def Answer.getRows : Answer → List Row
  | .rows found => found
  | _ => []

def Answer.getTransaction : Answer → Nat
  | .transaction number => number
  | _ => 0

abbrev Run (E α : Type) := Program Failure (Request E) Answer α

/-! ## The graph of revisions -/

/-- `Migration.__post_init__`. -/
def Migration.postInit (migration : Migration E) : Except Failure Unit := do
  failIf (migration.revision = "") (.value "migration revision non valida")
  failIf ("__plenora_".toList.isPrefixOf migration.revision.toList)
    (.value "migration revision usa un namespace riservato")
  failIf ("" ∈ migration.parents) (.value "migration down_revision non valida")
  failIf (¬ migration.parents.Nodup ∨ migration.revision ∈ migration.parents)
    (.value "migration down_revision duplicata o autoriferita")
  failIf (migration.checksum.length ≠ 64 ∨ ¬ migration.checksum.toList.all fun c =>
      c.isDigit || ('a' ≤ c && c ≤ 'f'))
    (.value "migration checksum deve essere SHA-256 esadecimale")

/-- The rounds of `_order_migrations`: `pending` keeps the order of the input, which is the order
that a round is sorted by. -/
def orderRounds : Nat → List (Migration E) → List (Migration E) → Except Failure (List (Migration E))
  | _, [], ordered => .ok ordered
  | 0, _, _ => .error (.mapping "grafo migrazioni ciclico")
  | rounds + 1, pending, ordered => do
    let ready := pending.filter fun item => item.parents ⊆ ordered.map (·.revision)
    failIf (ready = []) (.mapping "grafo migrazioni ciclico")
    orderRounds rounds
      (pending.filter fun item => ¬ item.parents ⊆ ordered.map (·.revision)) (ordered ++ ready)

def orderMigrations (migrations : List (Migration E)) : Except Failure (List (Migration E)) := do
  failIf (¬ (migrations.map (·.revision)).Nodup)
    (.mapping "grafo migrazioni con revisione duplicata")
  failIf (migrations.any fun migration =>
      migration.parents.any fun parent => parent ∉ migrations.map (·.revision))
    (.mapping "grafo migrazioni con revisione genitore assente")
  -- a round emits at least one migration
  orderRounds migrations.length migrations []

/-- `MigrationRunner`, over migrations that it accepted. -/
structure Runner (E : Type) where
  given : List (Migration E)
  migrations : List (Migration E)
  valid : ∀ migration ∈ given, migration.postInit = .ok ()
  accepted : orderMigrations given = .ok migrations

/-! ## History -/

def validateApplied (migrations : List (Migration E)) (applied : List String) :
    Except Failure Unit := do
  failIf (¬ applied ⊆ migrations.map (·.revision))
    (.state "storia migrazioni contiene revisioni non registrate")
  failIf (migrations.any fun migration =>
      decide (migration.revision ∈ applied ∧ ¬ migration.parents ⊆ applied))
    (.state "storia migrazioni non chiusa sugli antenati")

def historyRows (migrations : List (Migration E)) :
    List Row → List String → Except Failure (List String)
  | [], history => .ok history
  | row :: rows, history => do
    failIf (row.revision ∈ history) (.state "storia migrazioni con revisione duplicata")
    let migration ← okOr (migrations.find? (·.revision = row.revision))
      (.state "storia migrazioni contiene revisioni non registrate")
    failIf (row.checksum ≠ migration.checksum) (.state "drift checksum nella storia migrazioni")
    failIf (row.state ≠ .applied) (.state "migrazione incompleta: richiede recover esplicito")
    historyRows migrations rows (history ++ [row.revision])

/-- `_migration_history`: the revisions applied. -/
def migrationHistory (migrations : List (Migration E)) (rows : List Row) :
    Except Failure (List String) := do
  let history ← historyRows migrations rows []
  validateApplied migrations history
  .ok history

/-! ## Programs -/

def request (request : Request E) : Run E Unit := do
  let _ ← send request

def queryHistory : Run E (List Row) := do
  let answer ← send .history
  pure answer.getRows

def begin_ : Run E Nat := do
  let answer ← send .begin_
  pure answer.getTransaction

/-- The history under the lock. -/
def lockHistory (tx : Nat) : Run E (List Row) := do
  request (.lock tx)
  let answer ← send (.select tx)
  pure answer.getRows

def executeAll (tx : Nat) : List (Change E) → Run E Unit
  | [] => pure ()
  | change :: changes => do
    request (.execute tx change)
    executeAll tx changes

/-- What `apply` does before the upgrade; whether it started. -/
def startMigration (runner : Runner E) (migration : Migration E) (tx : Nat) : Run E Bool := do
  let rows ← lockHistory tx
  let history ← ofResult (migrationHistory runner.migrations rows)
  if migration.revision ∈ history then do
    request (.commit tx)
    pure false
  else do
    ofResult (failIf (¬ migration.parents ⊆ history) (.state "dipendenze migrazione non applicate"))
    request (.execute tx (.insertRow ⟨migration.revision, migration.checksum, .running⟩))
    pure true

def upgradeMigration (migration : Migration E) (tx : Nat) : Run E Unit := do
  executeAll tx (migration.upgrade.map .add)
  request (.execute tx (.setState migration.revision .applied))
  request (.commit tx)

/-- The body of `_record_migration_failure` within its transaction. -/
def recordWithin (migration : Migration E) (tx : Nat) : Run E Unit := do
  let rows ← lockHistory tx
  match rows.find? (·.revision = migration.revision) with
  | none => do
    request (.execute tx (.insertRow ⟨migration.revision, migration.checksum, .failed⟩))
    request (.commit tx)
  | some target => do
    ofResult (failIf (target.checksum ≠ migration.checksum)
      (.state "drift checksum nella storia migrazioni"))
    if target.state = .applied then request (.commit tx)
    else do
      request (.execute tx (.setState migration.revision .failed))
      request (.commit tx)

/-- `try` a body in a new transaction, and roll it back where it raises. -/
def transaction {α : Type} (body : Nat → Run E α) : Run E α := do
  let tx ← begin_
  match ← attempt (body tx) with
  | .ok a => pure a
  | .error e => do
    suppress (request (.rollback tx))
    throw e

def recordFailure (migration : Migration E) : Run E Unit := transaction (recordWithin migration)

/-- One migration of `apply`; whether this call applied it. -/
def applyOne (runner : Runner E) (migration : Migration E) : Run E Bool := do
  let tx ← begin_
  match ← attempt (startMigration runner migration tx) with
  | .error e => do
    suppress (request (.rollback tx))
    throw e
  | .ok false => pure false
  | .ok true => do
    match ← attempt (upgradeMigration migration tx) with
    | .ok () => pure true
    | .error e => do
      suppress (request (.rollback tx))
      suppress (recordFailure migration)
      throw e

def applyAll (runner : Runner E) : List (Migration E) → List String → Run E (List String)
  | [], completed => pure completed
  | migration :: migrations, completed => do
    let applied ← applyOne runner migration
    applyAll runner migrations (if applied then completed ++ [migration.revision] else completed)

/-- `MigrationRunner.apply`. -/
def apply (runner : Runner E) : Run E (List String) := do
  request .ensureTable
  let rows ← queryHistory
  let _ ← ofResult (migrationHistory runner.migrations rows)
  applyAll runner runner.migrations []

/-- A revision that a migration of the set has as a parent. -/
def hasChild (runner : Runner E) (revision : String) (applied : List String) : Bool :=
  runner.migrations.any fun item => decide (revision ∈ item.parents ∧ item.revision ∈ applied)

/-- Whether the revision was still applied. -/
def downgradeWithin (runner : Runner E) (revision : String) (downgrade : List E) (tx : Nat) :
    Run E Bool := do
  let rows ← lockHistory tx
  let current ← ofResult (migrationHistory runner.migrations rows)
  if revision ∉ current then do
    request (.commit tx)
    pure false
  else do
    ofResult (failIf (hasChild runner revision current) (.state "rollback migrazione non foglia del grafo"))
    executeAll tx (downgrade.map .remove)
    request (.execute tx (.deleteRow revision))
    request (.commit tx)
    pure true

def rollbackOne (runner : Runner E) (revision : String) (applied : List String) : Run E Bool := do
  ofResult (failIf (hasChild runner revision applied) (.state "rollback migrazione non foglia del grafo"))
  let migration ← ofResult (okOr (runner.migrations.find? (·.revision = revision))
    (.state "migration applicata priva di downgrade registrato"))
  let downgrade ← ofResult (okOr migration.downgrade
    (.state "migration applicata priva di downgrade registrato"))
  transaction (downgradeWithin runner revision downgrade)

def rollbackAll (runner : Runner E) :
    List String → List String → List String → Run E (List String)
  | [], _, completed => pure completed
  | revision :: revisions, applied, completed => do
    let removed ← rollbackOne runner revision applied
    if removed then
      rollbackAll runner revisions (applied.filter (· ≠ revision)) (completed ++ [revision])
    else rollbackAll runner revisions applied completed

/-- `MigrationRunner.rollback`. -/
def rollback (runner : Runner E) (steps : Int) : Run E (List String) := do
  ofResult (failIf (steps < 1) (.value "migration rollback steps non valido"))
  request .ensureTable
  let rows ← queryHistory
  let applied ← ofResult (migrationHistory runner.migrations rows)
  let candidates := (runner.migrations.reverse.map (·.revision)).filter (· ∈ applied)
  rollbackAll runner (candidates.take steps.toNat) applied []

def recoverWithin (runner : Runner E) (migration : Migration E) (assumeApplied : Bool) (tx : Nat) :
    Run E Unit := do
  let rows ← lockHistory tx
  let target ← ofResult (okOr (rows.find? (·.revision = migration.revision))
    (.state "recover richiede una migrazione incompleta"))
  ofResult (failIf (target.checksum ≠ migration.checksum)
    (.state "drift checksum nella storia migrazioni"))
  ofResult (failIf (target.state = .applied)
    (.state "recover rifiuta una migrazione gia applicata"))
  let applied := (rows.filter (·.state = .applied)).map (·.revision)
  ofResult (validateApplied runner.migrations
    (if assumeApplied then applied ++ [migration.revision] else applied))
  request (.execute tx
    (if assumeApplied then .setState migration.revision .applied
      else .deleteRow migration.revision))
  request (.commit tx)

/-- `MigrationRunner.recover`. -/
def recover (runner : Runner E) (revision : String) (assumeApplied : Bool) : Run E Unit := do
  let migration ← ofResult (okOr (runner.migrations.find? (·.revision = revision))
    (.state "recover richiede una revisione registrata"))
  request .ensureTable
  transaction (recoverWithin runner migration assumeApplied)

/-! ## The database -/

structure Store (E : Type) where
  rows : List Row
  schema : List E
  deriving DecidableEq, Repr

/-- The revisions recorded as applied. -/
def Store.applied (store : Store E) : List String :=
  (store.rows.filter (·.state = .applied)).map (·.revision)

def Store.change [DecidableEq E] (store : Store E) : Change E → Store E
  | .insertRow row => { store with rows := store.rows ++ [row] }
  | .setState revision state => { store with rows := store.rows.map fun row =>
      if row.revision = revision then { row with state } else row }
  | .deleteRow revision => { store with rows := store.rows.filter (·.revision ≠ revision) }
  | .add effect => { store with schema := store.schema ++ [effect] }
  | .remove effect => { store with schema := store.schema.erase effect }

/-- The store with the changes of a transaction. -/
def Store.after [DecidableEq E] (store : Store E) (changes : List (Change E)) : Store E :=
  changes.foldl Store.change store

/-- The primary key of the history. -/
def Store.accepts (store : Store E) : Change E → Bool
  | .insertRow row => store.rows.all (·.revision ≠ row.revision)
  | _ => true

/-- The transaction that a client began, by its number. -/
abbrev Handle := Nat × Nat

/-- What is committed, the changes of every open transaction, the one that holds the lock row,
and what every client committed, the latest first. -/
structure Server (E : Type) where
  store : Store E
  changes : Handle → Option (List (Change E))
  lock : Option Handle
  begun : Nat → Nat
  commits : List (Nat × List (Change E))

/-- The transaction is gone, and its lock with it. -/
def Server.drop (s : Server E) (handle : Handle) : Server E :=
  { s with
    changes := Function.update s.changes handle none
    lock := if s.lock = some handle then none else s.lock }

variable [DecidableEq E]

/-- What a statement does; a statement that the server does not perform blocks or fails. -/
def Server.perform (s : Server E) (client : Nat) : Request E → Option (Answer × Server E)
  | .ensureTable => some (.done, s)
  | .history => some (.rows s.store.rows, s)
  | .begin_ => some (.transaction (s.begun client),
      { s with
        begun := Function.update s.begun client (s.begun client + 1)
        changes := Function.update s.changes (client, s.begun client) (some []) })
  | .lock tx => do
    let _ ← s.changes (client, tx)
    if s.lock = none ∨ s.lock = some (client, tx) then
      some (.done, { s with lock := some (client, tx) })
    else none
  | .select tx => do
    let changes ← s.changes (client, tx)
    some (.rows (s.store.after changes).rows, s)
  | .execute tx change => do
    let changes ← s.changes (client, tx)
    if (s.store.after changes).accepts change then
      some (.done, { s with
        changes := Function.update s.changes (client, tx) (some (changes ++ [change])) })
    else none
  | .commit tx => do
    let changes ← s.changes (client, tx)
    some (.done, { s.drop (client, tx) with
      store := s.store.after changes
      commits := (client, changes) :: s.commits })
  | .rollback tx => do
    let _ ← s.changes (client, tx)
    some (.done, s.drop (client, tx))

/-- A transaction may be lost at any time. -/
def database : Service (Server E) (Request E) Answer Handle where
  perform := Server.perform
  disturb := Server.drop

/-! ## Runs -/

inductive Call where
  | apply
  | rollback (steps : Int)
  | recover (revision : String) (assumeApplied : Bool)
  deriving DecidableEq, Repr

omit [DecidableEq E] in
/-- What a call runs; `recover` returns nothing. -/
def Call.program (runner : Runner E) : Call → Run E (List String)
  | .apply => Migrations.apply runner
  | .rollback steps => Migrations.rollback runner steps
  | .recover revision assumeApplied => do
    Migrations.recover runner revision assumeApplied
    pure []

def emptyServer : Server E where
  store := ⟨[], []⟩
  changes := fun _ => none
  lock := none
  begun := fun _ => 0
  commits := []

/-- Any number of calls on a new database. -/
def clients (runner : Runner E) (calls : Nat → Call) :
    Clients (Server E) (Request E) Answer Failure (Except Failure (List String)) where
  shared := emptyServer
  program := fun i => ((calls i).program runner).run

end Plenora.Sdk.Migrations
