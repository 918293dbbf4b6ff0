import Plenora.Core.RowCursor

/-!
# The row-scoped writer of SQL Server

One statement a row, bound from the current batch.  What the plan, the budget and the session
answer is given by the environment.

    Attributes (statements env) (rowWriter env.recording)                   (rowWriter_attributes)
-/

namespace Plenora.Sqlserver.RowWriter

open Plenora.Lib Plenora.Lib.Call Plenora.Core Plenora.Core.RowCursor Plenora.Core.RowDiagnostics

/-! ## Model -/

inductive RowQueryResult (δ : Type) where
  | applied (results : δ)
  | serverRejected (code : Int) (error : DatabaseError)

/-- The plan, the budget and the session: `κ` is a bound query, `δ` what the server returns for
one, `μ` a count of mutations. -/
structure Environment (ω ς ρ κ δ μ : Type) where
  inputSchema : ς
  constraintColumn : Option String
  bindRow : ρ → Result κ
  reserveWriteRow : ρ → ω → Result Unit × ω
  executeRowQuery : κ → ω → Result (RowQueryResult δ) × ω
  validateOutputCardinality : δ → Result Unit
  rowMutation : δ → Result μ
  quarantine : ω → ω
  commitResources : ω → Result Unit × ω
  addMutation : μ → ω → Result Unit × ω
  rowRejectionCause : Int → Option String
  /-- The error of a transport that is lost after an insert. -/
  transportLost : Option DatabaseError
  rollback : ω → RollbackEvidence × ω

def diagnosticError (category : ErrorCategory) (message : String) : DatabaseError :=
  { category, phase := .write, remoteEffect := .unknown, retry := .requiresRecovery
    provider := some .sqlserver, executionId := none, message }

def providerWriteError (e : DatabaseError) : DatabaseError :=
  { e with phase := .write, provider := some .sqlserver }

def ambiguousAffectedRows (e : DatabaseError) : DatabaseError :=
  { e with remoteEffect := .unknown, retry := .quarantine }

def wording : Wording where
  rows := diagnosticError .resourceLimit "righe batch SQL Server non rappresentabili"
  overflow := diagnosticError .resourceLimit "overflow nell'offset sorgente SQL Server"
  passed := diagnosticError .invalidPlan "indice sorgente SQL Server gia superato"
  offset := diagnosticError .invalidPlan "offset di batch SQL Server non rappresentabile"
  short := diagnosticError .invalidPlan "input SQL Server esaurito prima delle righe dichiarate"
  extra := diagnosticError .invalidPlan "input SQL Server oltre il totale dichiarato"
  appliedOverflow := diagnosticError .resourceLimit "overflow nelle righe applicate SQL Server"
  missing := diagnosticError .protocol "batch SQL Server assente dopo il posizionamento"
  provider := providerWriteError

section Writer

variable {ω ς ρ κ δ μ : Type} [DecidableEq ς] (env : Environment ω ς ρ κ δ μ)

/-- A batch is taken when it has the prepared schema. -/
def accept (batch : Batch ς ρ) (world : ω) : Result Unit × ω :=
  if batch.schema = env.inputSchema then (.ok (), world)
  else
    (.error (diagnosticError .schema "schema batch SQL Server diverso dallo schema preparato"), world)

def quarantined {α : Type} (e : DatabaseError) : Call DatabaseError (Cursor ω ς ρ) α := do
  update fun s => { s with world := env.quarantine s.world }
  throw e

/-- A statement the server applied. -/
def confirm (results : δ) : Call DatabaseError (Cursor ω ς ρ) RowApplication := do
  match env.validateOutputCardinality results with
  | .error e => quarantined env e
  | .ok () =>
    match env.rowMutation results with
    | .error e => quarantined env (ambiguousAffectedRows e)
    | .ok mutation => do
      reach env.commitResources
      reach (env.addMutation mutation)
      countApplied wording
      match env.transportLost with
      | some e => quarantined env e
      | none => pure .applied

/-- What follows `locate` in `apply_row`. -/
def settle (offset : Nat) : Call DatabaseError (Cursor ω ς ρ) RowApplication := do
  let row ← bindRow wording offset
  let query ← ofResult (env.bindRow row)
  reach (env.reserveWriteRow row)
  let answer ← reach (env.executeRowQuery query)
  match answer with
  | .applied results => confirm env results
  | .serverRejected code e =>
    match env.rowRejectionCause code with
    | some cause => pure (.rejected ⟨cause, env.constraintColumn⟩)
    | none => throw e

def rowWriter : RowScopedWriter (Cursor ω ς ρ) where
  applyRow sourceIndex := locate wording (accept env) sourceIndex >>= settle env
  finishDeclaredInput := finishDeclaredInput wording
  rollback s := ((env.rollback s.world).1, { s with world := (env.rollback s.world).2 })

/-! ## Attribution -/

/-- What the budget and the session are asked for a row. -/
inductive Request (ρ κ : Type) where
  | reserveWriteRow (row : ρ)
  | executeRowQuery (query : κ)
  deriving DecidableEq, Repr

/-- The row is reserved, and its query executed. -/
def statements (row : ρ) : Result (List (Request ρ κ)) := do
  let query ← env.bindRow row
  .ok [.reserveWriteRow row, .executeRowQuery query]

/-- The same budget and session, with what they are asked noted. -/
def Environment.recording (env : Environment ω ς ρ κ δ μ) :
    Environment (ω × List (Request ρ κ)) ς ρ κ δ μ where
  inputSchema := env.inputSchema
  constraintColumn := env.constraintColumn
  bindRow := env.bindRow
  reserveWriteRow row := noted (.reserveWriteRow row) (env.reserveWriteRow row)
  executeRowQuery query := noted (.executeRowQuery query) (env.executeRowQuery query)
  validateOutputCardinality := env.validateOutputCardinality
  rowMutation := env.rowMutation
  quarantine world := (env.quarantine world.1, world.2)
  commitResources := unnoted env.commitResources
  addMutation mutation := unnoted (env.addMutation mutation)
  rowRejectionCause := env.rowRejectionCause
  transportLost := env.transportLost
  rollback := unnoted env.rollback

theorem accept_quiet (batch : Batch ς ρ) (world : ω × List (Request ρ κ)) :
    (accept env.recording batch world).2.2 = world.2 := by
  unfold accept
  split <;> rfl

variable {s₀ : Cursor (ω × List (Request ρ κ)) ς ρ}

omit [DecidableEq ς] in
theorem ended_quarantined (e : DatabaseError) {sent whole : List (Request ρ κ)}
    {s : Cursor (ω × List (Request ρ κ)) ς ρ} (hplace : Beside s₀ s)
    (hsent : s.world.2 = s₀.world.2 ++ sent) (hpart : sent <+: whole) :
    Ended s₀ whole ((quarantined (α := RowApplication) env.recording e).outcome s).1
      ((quarantined (α := RowApplication) env.recording e).outcome s).2 :=
  ended_of_place ⟨hplace.batch, hplace.batchStart, hplace.input⟩
    (show s.world.2 = s₀.world.2 ++ sent from hsent) hpart nofun

omit [DecidableEq ς] in
theorem meets_confirm (results : δ) {whole : List (Request ρ κ)} :
    Meets (Amid s₀ whole) (confirm env.recording results) (Ended s₀ whole) := by
  unfold confirm
  split
  next e _ => exact fun s h => ended_quarantined env e h.place h.sent (List.prefix_refl _)
  next =>
    split
    next e _ => exact fun s h => ended_quarantined env _ h.place h.sent (List.prefix_refl _)
    next mutation _ =>
      refine ended_bind (keeps_unnoted _) (List.prefix_refl _) fun _ => ?_
      refine ended_bind (keeps_unnoted _) (List.prefix_refl _) fun _ => ?_
      refine ended_count fun s hplace hsent happlied => ?_
      split
      next e _ => exact ended_quarantined env e hplace hsent (List.prefix_refl _)
      next => exact ended_applied hplace hsent happlied

theorem rowWriter_writes :
    Writes (statements env) wording (accept env.recording) (rowWriter env.recording) := by
  refine ⟨accept_quiet env, ⟨settle env.recording, fun _ => rfl, ?_⟩, rfl⟩
  refine settles_bindRow (fun row query => [.reserveWriteRow row, .executeRowQuery query])
    (fun row => ?_) fun row query s₀ => ?_
  · show (env.bindRow row >>= _ : Result _) = (env.bindRow row).map _
    cases env.bindRow row <;> rfl
  · refine ended_bind (meets_noted _ _) (by simp) fun _ => ?_
    refine ended_bind (meets_noted _ _) (by simp) fun answer => ?_
    cases answer with
    | applied results => exact meets_confirm env results
    | serverRejected code e =>
      dsimp only
      split
      next cause _ => exact meets_rejected (by simp) _
      next => exact meets_throw (by simp) e

/-- **The writer attributes its rows.** -/
theorem rowWriter_attributes : Attributes (statements env) (rowWriter env.recording) :=
  (rowWriter_writes env).attributes

end Writer

end Plenora.Sqlserver.RowWriter
