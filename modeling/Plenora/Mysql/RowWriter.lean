import Plenora.Core.RowCursor

/-!
# The row-scoped writer of MySQL

A batch is checked, and its rows are charged to the budget, when it becomes the current one.  Each
row goes through the staging table, emptied before it.

    Attributes (statements env) (rowWriter env.recording)                   (rowWriter_attributes)
-/

namespace Plenora.Mysql.RowWriter

open Plenora.Lib Plenora.Lib.Call Plenora.Core Plenora.Core.RowCursor Plenora.Core.RowDiagnostics

export Plenora.Lib.Call (Keeps)

/-! ## Model -/

/-- The plan, the budget and the session: `κ` is a rendered statement, `π` its parameters.  A row
statement answers with the cause of a rejection, or with none. -/
structure Environment (ω ς ρ κ π : Type) where
  schema : ς
  constraintColumn : Option String
  kind : ProviderKind
  validateSpatialBatch : List ρ → ω → Result Unit × ω
  leaseRows : Nat → ω → Result Unit × ω
  renderInsertIntoStaging : Result κ
  bindChunk : List ρ → Result π
  deleteStaging : ω → Result Unit × ω
  execRowWrite : κ → π → ω → Result (Option String) × ω
  applyStaging : ω → Result (Option String) × ω
  rollback : ω → RollbackEvidence × ω

section Writer

variable {ω ς ρ κ π : Type} [DecidableEq ς] (env : Environment ω ς ρ κ π)

def rowError (message : String) : DatabaseError :=
  { category := .invalidPlan, phase := .write, remoteEffect := .unknown, retry := .requiresRecovery
    provider := some env.kind, executionId := none, message }

/-- The failures of the position have one category. -/
def wording : Wording where
  rows := rowError env "righe batch non rappresentabili"
  overflow := rowError env "overflow nell'offset sorgente"
  passed := rowError env "indice sorgente già superato"
  offset := rowError env "offset di batch non rappresentabile"
  short := rowError env "input esaurito prima delle righe dichiarate"
  extra := rowError env "input oltre il totale dichiarato"
  appliedOverflow := rowError env "overflow nelle righe applicate"
  missing := rowError env "batch assente dopo il posizionamento"
  provider e := { e with phase := .write, provider := some env.kind }

def schemaError : DatabaseError :=
  .new .invalidPlan .write (some env.kind) "schema del batch diverso dallo schema dichiarato"

/-- A batch is taken when it has the declared schema; one with rows is checked and charged. -/
def accept (batch : Batch ς ρ) (world : ω) : Result Unit × ω :=
  if batch.schema ≠ env.schema then (.error (schemaError env), world)
  else if batch.rows = [] then (.ok (), world)
  else
    match batchRows (wording env) batch with
    | .error e => (.error e, world)
    | .ok rows =>
      match env.validateSpatialBatch batch.rows world with
      | (.error e, world) => (.error e, world)
      | (.ok (), world) => env.leaseRows rows world

/-- The second statement, when the first one rejects nothing. -/
def applyUnless (cause : Option String) : Call DatabaseError (Cursor ω ς ρ) (Option String) :=
  match cause with
  | some cause => pure (some cause)
  | none => reach env.applyStaging

/-- The statements of one row. -/
def apply (statement : κ) (parameters : π) :
    Call DatabaseError (Cursor ω ς ρ) RowApplication := do
  reach env.deleteStaging
  let cause ← reach (env.execRowWrite statement parameters)
  let cause ← applyUnless env cause
  match cause with
  | some cause => pure (.rejected ⟨cause, env.constraintColumn⟩)
  | none => do
    countApplied (wording env)
    pure .applied

/-- The statement of one row and its parameters. -/
def bound (row : ρ) : Result (κ × π) := do
  let statement ← env.renderInsertIntoStaging
  let parameters ← env.bindChunk [row]
  .ok (statement, parameters)

/-- What follows `locate` in `apply_row`. -/
def settle (offset : Nat) : Call DatabaseError (Cursor ω ς ρ) RowApplication := do
  let row ← bindRow (wording env) offset
  let (statement, parameters) ← ofResult (bound env row)
  apply env statement parameters

def rowWriter : RowScopedWriter (Cursor ω ς ρ) where
  applyRow sourceIndex := locate (wording env) (accept env) sourceIndex >>= settle env
  finishDeclaredInput := finishDeclaredInput (wording env)
  rollback s := ((env.rollback s.world).1, { s with world := (env.rollback s.world).2 })

/-! ## Attribution -/

/-- What the session is asked for a row. -/
inductive Request (κ π : Type) where
  | deleteStaging
  | execRowWrite (statement : κ) (parameters : π)
  | applyStaging
  deriving DecidableEq, Repr

/-- The staging table is emptied, takes the one row, and is applied. -/
def statements (row : ρ) : Result (List (Request κ π)) := do
  let statement ← env.renderInsertIntoStaging
  let parameters ← env.bindChunk [row]
  .ok [.deleteStaging, .execRowWrite statement parameters, .applyStaging]

/-- The same session, with what it is asked noted. -/
def Environment.recording (env : Environment ω ς ρ κ π) :
    Environment (ω × List (Request κ π)) ς ρ κ π where
  schema := env.schema
  constraintColumn := env.constraintColumn
  kind := env.kind
  validateSpatialBatch rows := unnoted (env.validateSpatialBatch rows)
  leaseRows rows := unnoted (env.leaseRows rows)
  renderInsertIntoStaging := env.renderInsertIntoStaging
  bindChunk := env.bindChunk
  deleteStaging := noted .deleteStaging env.deleteStaging
  execRowWrite statement parameters :=
    noted (.execRowWrite statement parameters) (env.execRowWrite statement parameters)
  applyStaging := noted .applyStaging env.applyStaging
  rollback := unnoted env.rollback

theorem accept_quiet (batch : Batch ς ρ) (world : ω × List (Request κ π)) :
    (accept env.recording batch world).2.2 = world.2 := by
  unfold accept
  split
  · rfl
  split
  · rfl
  split
  · rfl
  split
  next heq => exact congrArg (·.2.2) heq.symm
  next heq => exact congrArg (·.2.2) heq.symm

variable {s₀ : Cursor (ω × List (Request κ π)) ς ρ}

omit [DecidableEq ς] in
theorem meets_apply (statement : κ) (parameters : π) :
    Meets (Amid s₀ []) (apply env.recording statement parameters)
      (Ended s₀ [.deleteStaging, .execRowWrite statement parameters, .applyStaging]) := by
  refine ended_bind (meets_noted _ _) (by simp) fun _ => ?_
  refine ended_bind (meets_noted _ _) (by simp) fun cause => ?_
  cases cause with
  | some cause =>
    have hpart : [.deleteStaging, .execRowWrite statement parameters] <+:
        [.deleteStaging, .execRowWrite statement parameters, Request.applyStaging] := by simp
    exact meets_rejected hpart ⟨cause, env.constraintColumn⟩
  | none =>
    refine ended_bind (meets_noted _ _) (by simp) fun cause => ?_
    cases cause with
    | some cause => exact meets_rejected (by simp) _
    | none => exact ended_count fun s => ended_applied

theorem rowWriter_writes :
    Writes (statements env) (wording env.recording) (accept env.recording)
      (rowWriter env.recording) := by
  refine ⟨accept_quiet env, ⟨settle env.recording, fun _ => rfl, ?_⟩, rfl⟩
  refine settles_bindRow
    (fun _ bound => [.deleteStaging, .execRowWrite bound.1 bound.2, .applyStaging]) (fun row => ?_)
    fun _ bound _ => meets_apply env bound.1 bound.2
  unfold statements bound
  show _ = ((env.renderInsertIntoStaging >>= _ : Result _).map _)
  cases env.renderInsertIntoStaging with
  | error e => rfl
  | ok statement =>
    show (env.bindChunk [row] >>= _ : Result _) = ((env.bindChunk [row] >>= _ : Result _).map _)
    cases env.bindChunk [row] <;> rfl

/-- **The writer attributes its rows.** -/
theorem rowWriter_attributes : Attributes (statements env) (rowWriter env.recording) :=
  (rowWriter_writes env).attributes

end Writer

end Plenora.Mysql.RowWriter
