import Plenora.Core.Transaction

/-!
# SQL of the caller

The wrapper every transaction scope is handed out in, the marker by which an adapter
says that an operation reached the driver, and the entry of a DDL.  A scope is an
object over a state of its own; the adapter at the bottom is arbitrary.  Whatever the
operations and the depth of the wrappers:

    run (layers (n + 1) adapter) ops w = (trace adapter ops (base w)).map Observed.ruled
                                                                          (run_layers)
    List.Forall₂ EffectRule (trace adapter ops (base w)) (run (layers (n + 1) adapter) ops w)
                                                                          (run_ruled)
-/

namespace Plenora.Core.CallerSql

/-! ## The source -/

/-- A shared cell: what a load of it reads in a state. -/
structure SendMarker (W : Type) where
  load : W → Bool

/-- Without a marker of the adapter the operation is presumed sent. -/
def SendMarker.default {W : Type} : SendMarker W := ⟨fun _ => true⟩

def callerSqlFailure (e : DatabaseError) : DatabaseError := e.afterUnprovenSend

def SendMarker.failure {W : Type} (marker : SendMarker W) (w : W) (e : DatabaseError) :
    DatabaseError :=
  if marker.load w then callerSqlFailure e else e

/-- How a future ends: its answer, or the caller dropped it. -/
abbrev Ends (α : Type) := Option (Result α)

/-- `map_err` on the answer. -/
def Ends.mapError {α : Type} (f : DatabaseError → DatabaseError) (ends : Ends α) : Ends α :=
  ends.map (·.mapError f)

/-- The types that pass through the wrapper. -/
structure Types where
  Token : Type
  Statement : Type
  Row : Type
  GraphStatement : Type
  GraphRow : Type
  Update : Type
  Catalog : Type
  RelationTypes : Type

/-- An open stream, over the state of the scope it borrows. -/
structure RowStream (T : Types) (W : Type) where
  nextBatch : T.Token → W → Ends (Option (List T.Row)) × W
  drop : W → W

/-- A `TransactionScope` over a state `W`. -/
structure TransactionScope (T : Types) (W : Type) where
  beginCallerSql : W → SendMarker W × W
  providerKind : ProviderKind
  execute : T.Statement → T.Token → W → Ends UInt64 × W
  query : T.Statement → T.Token → W → Ends (List T.Row) × W
  executeGraph : T.GraphStatement → T.Token → W → Ends (List T.GraphRow) × W
  queryStream : T.Statement → UInt32 → T.Token → W → Ends (RowStream T W) × W
  operandCatalog : List (Option String × String) → List String → T.Token → W → Ends T.Catalog × W
  columnTypes : Option String × String → T.Token → W → Ends (Option T.RelationTypes) × W
  savepoint : String → T.Token → W → Ends Unit × W
  rollbackToSavepoint : String → T.Token → W → Ends Unit × W
  releaseSavepoint : String → T.Token → W → Ends Unit × W
  executeConditionalUpdate : T.Update → T.Token → W → Ends Unit × W
  commit : T.Token → W → Ends CommitOutcome × W
  rollback : T.Token → W → Ends Unit × W

/-- `Box<dyn TransactionScope>`: the scope with its state. -/
structure Scope (T : Types) where
  World : Type
  scope : TransactionScope T World

section Wrapper

variable {T : Types} {W : Type}

/-- The state of a wrapper: the inner state, and the cells of the markers it handed out, which
nothing below it can reach. -/
abbrev Wrapped (W : Type) := W × List Bool

/-- A call of the inner scope, in the state of the wrapper. -/
def inner {α : Type} (call : W → Ends α × W) (w : Wrapped W) : Ends α × Wrapped W :=
  ((call w.1).1, ((call w.1).2, w.2))

/-- An operation of the caller: the marker of the inner scope is taken before the call, and read
where the call answers with an error. -/
def tracked {α : Type} (scope : TransactionScope T W) (call : W → Ends α × W) (w : Wrapped W) :
    Ends α × Wrapped W :=
  let sent := (scope.beginCallerSql w.1).1
  let ends := call (scope.beginCallerSql w.1).2
  (ends.1.mapError (sent.failure ends.2), (ends.2, w.2))

/-- `CallerSqlRowStream`. -/
def callerSqlRowStream (stream : RowStream T W) : RowStream T (Wrapped W) :=
  { nextBatch := fun token w =>
      ((stream.nextBatch token w.1).1.mapError callerSqlFailure,
        ((stream.nextBatch token w.1).2, w.2))
    drop := fun w => (stream.drop w.1, w.2) }

/-- `SendMarker::before_send`, in a cell of the wrapper. -/
def beforeSend (w : Wrapped W) : SendMarker (Wrapped W) × Wrapped W :=
  (⟨fun w' => w'.2[w.2.length]?.getD true⟩, (w.1, w.2 ++ [false]))

/-- `CallerSqlTransaction`. -/
def callerSqlTransaction (scope : TransactionScope T W) : TransactionScope T (Wrapped W) :=
  { beginCallerSql := beforeSend
    providerKind := scope.providerKind
    execute := fun statement token => tracked scope (scope.execute statement token)
    query := fun statement token => tracked scope (scope.query statement token)
    executeGraph := fun statement token => tracked scope (scope.executeGraph statement token)
    queryStream := fun statement batchSize token w =>
      let opened := tracked scope (scope.queryStream statement batchSize token) w
      (opened.1.map (·.map callerSqlRowStream), opened.2)
    operandCatalog := fun relations names token => inner (scope.operandCatalog relations names token)
    columnTypes := fun relation token => inner (scope.columnTypes relation token)
    savepoint := fun name token => inner (scope.savepoint name token)
    rollbackToSavepoint := fun name token => inner (scope.rollbackToSavepoint name token)
    releaseSavepoint := fun name token => inner (scope.releaseSavepoint name token)
    executeConditionalUpdate := fun request token =>
      tracked scope (scope.executeConditionalUpdate request token)
    commit := fun token => inner (scope.commit token)
    rollback := fun token => inner (scope.rollback token) }

end Wrapper

/-- `DatabaseError::interrupted`. -/
def interrupted (reason : Cancellation.CancellationReason) (provider : Option ProviderKind)
    (phase : ErrorPhase) (message : String) : DatabaseError :=
  .new (interruptionCategory reason) phase provider message

/-- `run_ddl_tracked`: a token that is cancelled when the future is first polled keeps the adapter
from being polled at all. -/
def runDdlTracked {W : Type} (provider : ProviderKind)
    (cancelled : Option Cancellation.CancellationReason) (sent : SendMarker W)
    (call : W → Ends Unit × W) (w : W) : Ends Unit × W :=
  match cancelled with
  | some reason =>
    (some (.error (interrupted reason (some provider) .write "DDL interrotto prima dell'invio")), w)
  | none => ((call w).1.mapError (sent.failure (call w).2), (call w).2)

def runDdl {W : Type} (provider : ProviderKind)
    (cancelled : Option Cancellation.CancellationReason) (call : W → Ends Unit × W) (w : W) :
    Ends Unit × W :=
  runDdlTracked provider cancelled .default call w

/-! ## Runs -/

variable {T : Types}

/-- What a client asks of a scope; a stream borrows the scope until it is dropped, after some
calls of `next_batch`. -/
inductive Operation (T : Types) where
  | execute (statement : T.Statement) (token : T.Token)
  | query (statement : T.Statement) (token : T.Token)
  | executeGraph (statement : T.GraphStatement) (token : T.Token)
  | queryStream (statement : T.Statement) (batchSize : UInt32) (token : T.Token)
      (fetches : List T.Token)
  | executeConditionalUpdate (request : T.Update) (token : T.Token)
  | operandCatalog (relations : List (Option String × String)) (names : List String)
      (token : T.Token)
  | columnTypes (relation : Option String × String) (token : T.Token)
  | savepoint (name : String) (token : T.Token)
  | rollbackToSavepoint (name : String) (token : T.Token)
  | releaseSavepoint (name : String) (token : T.Token)
  | commit (token : T.Token)
  | rollback (token : T.Token)

/-- `commit` and `rollback` consume the scope. -/
def Operation.consumes : Operation T → Bool
  | .commit _ | .rollback _ => true
  | _ => false

inductive Reply (T : Types) where
  | execute (ends : Ends UInt64)
  | query (ends : Ends (List T.Row))
  | executeGraph (ends : Ends (List T.GraphRow))
  | queryStream (opened : Ends Unit) (batches : List (Ends (Option (List T.Row))))
  | executeConditionalUpdate (ends : Ends Unit)
  | operandCatalog (ends : Ends T.Catalog)
  | columnTypes (ends : Ends (Option T.RelationTypes))
  | savepoint (ends : Ends Unit)
  | rollbackToSavepoint (ends : Ends Unit)
  | releaseSavepoint (ends : Ends Unit)
  | commit (ends : Ends CommitOutcome)
  | rollback (ends : Ends Unit)

section Streams

variable {W : Type}

/-- The calls of `next_batch` on a stream, up to its drop. -/
def RowStream.fetch (stream : RowStream T W) :
    List T.Token → W → List (Ends (Option (List T.Row))) × W
  | [], w => ([], stream.drop w)
  | token :: tokens, w =>
    let batch := stream.nextBatch token w
    let rest := stream.fetch tokens batch.2
    (batch.1 :: rest.1, rest.2)

/-- The stream that an opening answered, read to its drop. -/
def fetched (fetches : List T.Token) (opened : Ends (RowStream T W) × W) : Reply T × W :=
  match opened.1 with
  | some (.ok stream) =>
    let batches := stream.fetch fetches opened.2
    (.queryStream (some (.ok ())) batches.1, batches.2)
  | some (.error e) => (.queryStream (some (.error e)) [], opened.2)
  | none => (.queryStream none [], opened.2)

def perform (scope : TransactionScope T W) : Operation T → W → Reply T × W
  | .execute statement token => fun w => (scope.execute statement token w).map .execute id
  | .query statement token => fun w => (scope.query statement token w).map .query id
  | .executeGraph statement token => fun w =>
    (scope.executeGraph statement token w).map .executeGraph id
  | .queryStream statement batchSize token fetches => fun w =>
    fetched fetches (scope.queryStream statement batchSize token w)
  | .executeConditionalUpdate request token => fun w =>
    (scope.executeConditionalUpdate request token w).map .executeConditionalUpdate id
  | .operandCatalog relations names token => fun w =>
    (scope.operandCatalog relations names token w).map .operandCatalog id
  | .columnTypes relation token => fun w => (scope.columnTypes relation token w).map .columnTypes id
  | .savepoint name token => fun w => (scope.savepoint name token w).map .savepoint id
  | .rollbackToSavepoint name token => fun w =>
    (scope.rollbackToSavepoint name token w).map .rollbackToSavepoint id
  | .releaseSavepoint name token => fun w =>
    (scope.releaseSavepoint name token w).map .releaseSavepoint id
  | .commit token => fun w => (scope.commit token w).map .commit id
  | .rollback token => fun w => (scope.rollback token w).map .rollback id

end Streams

/-- What the client of a scope receives. -/
def run (S : Scope T) : List (Operation T) → S.World → List (Reply T)
  | [], _ => []
  | op :: ops, w =>
    let r := perform S.scope op w
    r.1 :: if op.consumes then [] else run S ops r.2

/-! ## What the adapter did -/

/-- An operation as the wrapper saw it: what the scope below answered, and whether the marker it
returned for this operation was set when it answered. -/
structure Observed (T : Types) where
  reply : Reply T
  sent : Bool

/-- The rule, as an answer is passed on. -/
def rule {α : Type} (sent : Bool) (ends : Ends α) : Ends α :=
  if sent then ends.mapError callerSqlFailure else ends

/-- The reply that leaves a wrapper. -/
def Observed.ruled (o : Observed T) : Reply T :=
  match o.reply with
  | .execute ends => .execute (rule o.sent ends)
  | .query ends => .query (rule o.sent ends)
  | .executeGraph ends => .executeGraph (rule o.sent ends)
  | .queryStream opened batches =>
    .queryStream (rule o.sent opened) (batches.map (·.mapError callerSqlFailure))
  | .executeConditionalUpdate ends => .executeConditionalUpdate (rule o.sent ends)
  | reply => reply

/-- The operations that the wrapper takes a marker for. -/
def Operation.callerSql : Operation T → Bool
  | .execute _ _ | .query _ _ | .executeGraph _ _ | .queryStream _ _ _ _
  | .executeConditionalUpdate _ _ => true
  | _ => false

/-- An operation below a wrapper. -/
def observe {W : Type} (scope : TransactionScope T W) (op : Operation T) (w : W) :
    Observed T × W :=
  if op.callerSql then
    let begun := scope.beginCallerSql w
    let r := perform scope op begun.2
    (⟨r.1, begun.1.load r.2⟩, r.2)
  else
    let r := perform scope op w
    (⟨r.1, false⟩, r.2)

/-- The operations of a run, below a wrapper. -/
def trace (S : Scope T) : List (Operation T) → S.World → List (Observed T)
  | [], _ => []
  | op :: ops, w =>
    let r := observe S.scope op w
    r.1 :: if op.consumes then [] else trace S ops r.2

/-! ## One wrapper -/

/-- A scope as `open_transaction` hands it out. -/
def openTransaction (S : Scope T) : Scope T := ⟨Wrapped S.World, callerSqlTransaction S.scope⟩

/-- What a wrapper is to the wrapper above it: the rule is applied, and its own marker stays
unset. -/
def Observed.settled (o : Observed T) : Observed T := ⟨o.ruled, false⟩

theorem mapError_failure {W α : Type} (marker : SendMarker W) (w : W) (ends : Ends α) :
    ends.mapError (marker.failure w) = rule (marker.load w) ends := by
  unfold rule SendMarker.failure
  cases marker.load w with
  | true => rfl
  | false =>
    rcases ends with - | ⟨e | a⟩
    all_goals rfl

theorem rule_none {α : Type} (sent : Bool) : rule sent (none : Ends α) = none := by
  cases sent <;> rfl

theorem rule_ok {α : Type} (sent : Bool) (a : α) : rule sent (some (.ok a)) = some (.ok a) := by
  cases sent <;> rfl

theorem callerSqlFailure_idem (e : DatabaseError) :
    callerSqlFailure (callerSqlFailure e) = callerSqlFailure e := by
  unfold callerSqlFailure DatabaseError.afterUnprovenSend
  split
  next => rfl
  next => exact if_pos nofun

theorem Ends.mapError_callerSqlFailure {α : Type} (ends : Ends α) :
    Ends.mapError callerSqlFailure (ends.mapError callerSqlFailure) =
      ends.mapError callerSqlFailure := by
  rcases ends with - | ⟨e | a⟩
  · rfl
  · exact congrArg (fun e => some (Except.error e)) (callerSqlFailure_idem e)
  · rfl

section Wrap

variable {W : Type}

theorem observe_of_callerSql (scope : TransactionScope T W) {op : Operation T}
    (h : op.callerSql = true) (w : W) : observe scope op w =
      (⟨(perform scope op (scope.beginCallerSql w).2).1,
        (scope.beginCallerSql w).1.load (perform scope op (scope.beginCallerSql w).2).2⟩,
      (perform scope op (scope.beginCallerSql w).2).2) := if_pos h

theorem observe_of_not (scope : TransactionScope T W) {op : Operation T}
    (h : ¬ op.callerSql = true) (w : W) :
    observe scope op w = (⟨(perform scope op w).1, false⟩, (perform scope op w).2) := if_neg h

theorem fetch_callerSqlRowStream (stream : RowStream T W) (tokens : List T.Token) (w : W)
    (cells : List Bool) :
    (callerSqlRowStream stream).fetch tokens (w, cells) =
      ((stream.fetch tokens w).1.map (·.mapError callerSqlFailure),
        ((stream.fetch tokens w).2, cells)) := by
  induction tokens generalizing w with
  | nil => rfl
  | cons token tokens ih =>
    rw [RowStream.fetch, RowStream.fetch]
    have hrest := ih (stream.nextBatch token w).2
    dsimp only [callerSqlRowStream] at hrest ⊢
    rw [hrest]
    rfl

/-- An operation of a wrapper is the operation below it, under the rule. -/
theorem perform_callerSqlTransaction (scope : TransactionScope T W) (op : Operation T) (w : W)
    (cells : List Bool) :
    perform (callerSqlTransaction scope) op (w, cells) =
      ((observe scope op w).1.ruled, ((observe scope op w).2, cells)) := by
  cases op with
  | execute statement token =>
    exact Prod.ext (congrArg Reply.execute (mapError_failure _ _ _)) rfl
  | query statement token =>
    exact Prod.ext (congrArg Reply.query (mapError_failure _ _ _)) rfl
  | executeGraph statement token =>
    exact Prod.ext (congrArg Reply.executeGraph (mapError_failure _ _ _)) rfl
  | executeConditionalUpdate request token =>
    exact Prod.ext (congrArg Reply.executeConditionalUpdate (mapError_failure _ _ _)) rfl
  | queryStream statement batchSize token fetches =>
    rw [observe_of_callerSql scope rfl]
    dsimp only [perform, callerSqlTransaction, tracked]
    generalize scope.beginCallerSql w = begun
    rcases scope.queryStream statement batchSize token begun.2 with ⟨- | ⟨e | stream⟩, w'⟩
    · show (Reply.queryStream none [], (w', cells)) =
        (Reply.queryStream (rule (begun.1.load w') none) [], (w', cells))
      rw [rule_none]
    · show (Reply.queryStream (Ends.mapError (begun.1.failure w') (some (.error e))) [],
          (w', cells)) =
        (Reply.queryStream (rule (begun.1.load w') (some (.error e))) [], (w', cells))
      rw [mapError_failure]
    · have hfetch := fetch_callerSqlRowStream stream fetches w' cells
      show (Reply.queryStream (some (.ok ())) _, _) = (Reply.queryStream (rule _ (some (.ok ()))) _, _)
      rw [rule_ok, hfetch]
      rfl
  | operandCatalog relations names token => rfl
  | columnTypes relation token => rfl
  | savepoint name token => rfl
  | rollbackToSavepoint name token => rfl
  | releaseSavepoint name token => rfl
  | commit token => rfl
  | rollback token => rfl

/-- The marker of a wrapper is unset whatever the operation does. -/
theorem observe_callerSqlTransaction (scope : TransactionScope T W) (op : Operation T) (w : W)
    (cells : List Bool) : ∃ cells', observe (callerSqlTransaction scope) op (w, cells) =
      ((observe scope op w).1.settled, ((observe scope op w).2, cells')) := by
  by_cases hcaller : op.callerSql = true
  · refine ⟨cells ++ [false], ?_⟩
    have hperform := perform_callerSqlTransaction scope op w (cells ++ [false])
    have hcell : (cells ++ [false])[cells.length]?.getD true = false := by simp
    rw [observe_of_callerSql _ hcaller, observe_of_callerSql scope hcaller]
    rw [observe_of_callerSql scope hcaller] at hperform
    dsimp only [callerSqlTransaction, beforeSend] at hperform ⊢
    rw [hperform]
    dsimp only
    rw [hcell]
    rfl
  · refine ⟨cells, ?_⟩
    have hperform := perform_callerSqlTransaction scope op w cells
    rw [observe_of_not _ hcaller, hperform]
    rfl

end Wrap

theorem ruled_settled (o : Observed T) : o.settled.ruled = o.ruled := by
  obtain ⟨reply, sent⟩ := o
  cases reply with
  | queryStream opened batches =>
    unfold Observed.settled Observed.ruled
    dsimp only
    rw [List.map_map]
    congr 1
    exact List.map_congr_left fun ends _ => ends.mapError_callerSqlFailure
  | _ => rfl

theorem run_openTransaction (S : Scope T) (ops : List (Operation T)) (w : S.World)
    (cells : List Bool) :
    run (openTransaction S) ops (w, cells) = (trace S ops w).map Observed.ruled := by
  induction ops generalizing w with
  | nil => rfl
  | cons op ops ih =>
    have hperform := perform_callerSqlTransaction S.scope op w cells
    show (perform (callerSqlTransaction S.scope) op (w, cells)).1 :: (if op.consumes then [] else
      run (openTransaction S) ops (perform (callerSqlTransaction S.scope) op (w, cells)).2) = _
    rw [hperform, ih, trace, List.map_cons]
    split <;> rfl

theorem trace_openTransaction (S : Scope T) (ops : List (Operation T)) (w : S.World)
    (cells : List Bool) :
    trace (openTransaction S) ops (w, cells) = (trace S ops w).map Observed.settled := by
  induction ops generalizing w cells with
  | nil => rfl
  | cons op ops ih =>
    obtain ⟨cells', hobserve⟩ := observe_callerSqlTransaction S.scope op w cells
    show (observe (callerSqlTransaction S.scope) op (w, cells)).1 :: (if op.consumes then [] else
      trace (openTransaction S) ops (observe (callerSqlTransaction S.scope) op (w, cells)).2) = _
    rw [hobserve, ih, trace, List.map_cons]
    split <;> rfl

/-! ## Any depth -/

/-- An adapter below `n` wrappers. -/
def layers : Nat → Scope T → Scope T
  | 0, S => S
  | n + 1, S => openTransaction (layers n S)

/-- The state of the adapter. -/
def base (S : Scope T) : (n : Nat) → (layers n S).World → S.World
  | 0, w => w
  | n + 1, w => base S n w.1

theorem trace_layers (S : Scope T) (n : Nat) (ops : List (Operation T)) (w : (layers n S).World) :
    (trace (layers n S) ops w).map Observed.ruled =
      (trace S ops (base S n w)).map Observed.ruled := by
  induction n with
  | zero => rfl
  | succ n ih =>
    have htrace := trace_openTransaction (layers n S) ops w.1 w.2
    have hruled : Observed.ruled ∘ Observed.settled = (Observed.ruled : Observed T → Reply T) :=
      funext ruled_settled
    show (trace (openTransaction (layers n S)) ops (w.1, w.2)).map Observed.ruled = _
    rw [htrace, List.map_map, hruled]
    exact ih w.1

/-- **The replies are those of the adapter under the rule, however many wrappers there are.** -/
theorem run_layers (S : Scope T) (n : Nat) (ops : List (Operation T))
    (w : (layers (n + 1) S).World) :
    run (layers (n + 1) S) ops w = (trace S ops (base S (n + 1) w)).map Observed.ruled :=
  (run_openTransaction (layers n S) ops w.1 w.2).trans (trace_layers S n ops w.1)

/-! ## The axes -/

/-- The error a future ends with. -/
def Ends.error {α : Type} : Ends α → Option DatabaseError
  | some (.error e) => some e
  | _ => none

/-- The error an operation ends with. -/
def Reply.error : Reply T → Option DatabaseError
  | .execute ends => ends.error
  | .query ends => ends.error
  | .executeGraph ends => ends.error
  | .queryStream opened _ => opened.error
  | .executeConditionalUpdate ends => ends.error
  | .operandCatalog ends => ends.error
  | .columnTypes ends => ends.error
  | .savepoint ends => ends.error
  | .rollbackToSavepoint ends => ends.error
  | .releaseSavepoint ends => ends.error
  | .commit ends => ends.error
  | .rollback ends => ends.error

/-- The errors of the calls of `next_batch`. -/
def Reply.batchErrors : Reply T → List (Option DatabaseError)
  | .queryStream _ batches => batches.map Ends.error
  | _ => []

/-- An error after the send: there is an effect, and where the adapter said none the caller has to
recover. -/
def Recovers (raw e : DatabaseError) : Prop :=
  e.remoteEffect ≠ .none ∧
    (raw.remoteEffect = .none → e.retry = .requiresRecovery ∨ e.retry = .quarantine)

/-- What a reply says, from what the adapter answered to this operation and the marker of this
operation. -/
structure EffectRule (o : Observed T) (reply : Reply T) : Prop where
  sent : o.sent = true → Option.Rel Recovers o.reply.error reply.error
  unsent : o.sent = false → reply.error = o.reply.error
  batches : List.Forall₂ (Option.Rel Recovers) o.reply.batchErrors reply.batchErrors

theorem recovers_callerSqlFailure (e : DatabaseError) : Recovers e (callerSqlFailure e) := by
  unfold callerSqlFailure DatabaseError.afterUnprovenSend
  split
  next h => exact ⟨h, fun hnone => absurd hnone h⟩
  next =>
    refine ⟨nofun, fun _ => ?_⟩
    dsimp only
    unfold DatabaseError.recoveryRetry
    split
    · exact .inr rfl
    · exact .inl rfl

theorem recovers_mapError {α : Type} (ends : Ends α) :
    Option.Rel Recovers ends.error (ends.mapError callerSqlFailure).error := by
  rcases ends with - | ⟨e | a⟩
  · exact .none
  · exact .some (recovers_callerSqlFailure e)
  · exact .none

theorem recovers_rule {α : Type} {sent : Bool} (hsent : sent = true) (ends : Ends α) :
    Option.Rel Recovers ends.error (rule sent ends).error := by
  subst hsent
  exact recovers_mapError ends

theorem rule_unsent {α : Type} {sent : Bool} (hsent : sent = false) (ends : Ends α) :
    rule sent ends = ends := by
  subst hsent
  rfl

/-- The replies to the operations that the wrapper takes a marker for. -/
def Reply.callerSql : Reply T → Bool
  | .execute _ | .query _ | .executeGraph _ | .queryStream _ _ | .executeConditionalUpdate _ => true
  | _ => false

theorem callerSql_perform {W : Type} (scope : TransactionScope T W) (op : Operation T) (w : W) :
    (perform scope op w).1.callerSql = op.callerSql := by
  cases op with
  | queryStream statement batchSize token fetches =>
    show (fetched fetches _).1.callerSql = true
    unfold fetched
    split <;> rfl
  | _ => rfl

theorem observe_sent {W : Type} (scope : TransactionScope T W) (op : Operation T) (w : W)
    (h : (observe scope op w).1.sent = true) : (observe scope op w).1.reply.callerSql = true := by
  by_cases hcaller : op.callerSql = true
  · rw [observe_of_callerSql scope hcaller]
    exact (callerSql_perform scope op _).trans hcaller
  · rw [observe_of_not scope hcaller] at h
    contradiction

theorem effectRule_ruled {o : Observed T} (h : o.sent = true → o.reply.callerSql = true) :
    EffectRule o o.ruled := by
  obtain ⟨reply, sent⟩ := o
  refine ⟨fun hsent => ?_, fun hunsent => ?_, ?_⟩
  · have hcaller : reply.callerSql = true := h hsent
    cases reply with
    | execute | query | executeGraph | queryStream | executeConditionalUpdate =>
      exact recovers_rule hsent _
    | _ => contradiction
  · cases reply with
    | execute ends => exact congrArg Ends.error (rule_unsent hunsent ends)
    | query ends => exact congrArg Ends.error (rule_unsent hunsent ends)
    | executeGraph ends => exact congrArg Ends.error (rule_unsent hunsent ends)
    | queryStream opened batches => exact congrArg Ends.error (rule_unsent hunsent opened)
    | executeConditionalUpdate ends => exact congrArg Ends.error (rule_unsent hunsent ends)
    | _ => rfl
  · cases reply with
    | queryStream opened batches =>
      show List.Forall₂ _ (batches.map Ends.error)
        ((batches.map (·.mapError callerSqlFailure)).map Ends.error)
      rw [List.map_map, List.forall₂_map_left_iff, List.forall₂_map_right_iff]
      exact List.forall₂_same.2 fun ends _ => recovers_mapError ends
    | _ => exact .nil

theorem effectRule_trace (S : Scope T) (ops : List (Operation T)) (w : S.World) :
    List.Forall₂ EffectRule (trace S ops w) ((trace S ops w).map Observed.ruled) := by
  induction ops generalizing w with
  | nil => exact .nil
  | cons op ops ih =>
    rw [trace, List.map_cons]
    refine .cons (effectRule_ruled (observe_sent S.scope op w)) ?_
    split
    · exact .nil
    · exact ih _

/-! ## DDL -/

/-- What a DDL says: with a token that was cancelled first the adapter is not polled and nothing is
said to have happened; else the rule holds as for the operations of a scope. -/
structure DdlRule {W : Type} (provider : ProviderKind)
    (cancelled : Option Cancellation.CancellationReason) (marker : SendMarker W)
    (call : W → Ends Unit × W) (w : W) (ends : Ends Unit × W) : Prop where
  refused : ∀ reason, cancelled = some reason → ends =
    (some (.error (interrupted reason (some provider) .write "DDL interrotto prima dell'invio")), w)
  polled : cancelled = none → ends.2 = (call w).2
  sent : cancelled = none → marker.load (call w).2 = true →
    Option.Rel Recovers (call w).1.error ends.1.error
  unsent : cancelled = none → marker.load (call w).2 = false → ends.1.error = (call w).1.error

theorem runDdlTracked_rule {W : Type} (provider : ProviderKind)
    (cancelled : Option Cancellation.CancellationReason) (sent : SendMarker W)
    (call : W → Ends Unit × W) (w : W) :
    DdlRule provider cancelled sent call w (runDdlTracked provider cancelled sent call w) := by
  unfold runDdlTracked
  cases cancelled with
  | some reason =>
    refine ⟨fun reason' h => ?_, nofun, nofun, nofun⟩
    cases h
    rfl
  | none =>
    dsimp only
    rw [mapError_failure]
    exact ⟨nofun, fun _ => rfl, fun _ h => recovers_rule h _,
      fun _ h => congrArg Ends.error (rule_unsent h _)⟩

/-- A DDL whose token was cancelled first is presumed sent by its marker, and says that there is no
effect. -/
theorem runDdl_cancelled : ∃ e, (runDdl .oracle (some .requested) (fun w => (some (.ok ()), w))
    ()).1 = some (.error e) ∧ (SendMarker.default : SendMarker Unit).load () = true ∧
      e.remoteEffect = .none :=
  ⟨_, rfl, rfl, rfl⟩

/-- **An error after the send is never without effect, one before it is the adapter's own, and
neither the depth of the wrappers nor another operation decides.** -/
theorem run_ruled :
    (∀ (T : Types) (S : Scope T) (n : Nat) (ops : List (Operation T))
      (w : (layers (n + 1) S).World),
      run (layers (n + 1) S) ops w = (trace S ops (base S (n + 1) w)).map Observed.ruled ∧
        List.Forall₂ EffectRule (trace S ops (base S (n + 1) w)) (run (layers (n + 1) S) ops w)) ∧
    ∀ (W : Type) (provider : ProviderKind) (cancelled : Option Cancellation.CancellationReason)
      (sent : SendMarker W) (call : W → Ends Unit × W) (w : W),
      DdlRule provider cancelled sent call w (runDdlTracked provider cancelled sent call w) := by
  refine ⟨fun T S n ops w => ?_, fun W => runDdlTracked_rule⟩
  have hrun := run_layers S n ops w
  refine ⟨hrun, ?_⟩
  rw [hrun]
  exact effectRule_trace S ops _

end Plenora.Core.CallerSql
