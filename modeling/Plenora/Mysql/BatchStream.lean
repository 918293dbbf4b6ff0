import Plenora.Core.ResourceBudget
import Plenora.Lib.Calls
import Plenora.Lib.Ledger
import Plenora.Lib.Outcome
import Plenora.Mysql.Errors

/-!
# The batch stream of a MySQL read

A call for the next batch reserves what is left of the budget, asks the worker for rows until the
reservation is full, and commits what the batch came to.  A row that does not fit waits for the
next batch under a lease of its own.

    nextBatch plan env cancelled stream world : Outcome × MysqlBatchStream × World
    run plan env calls stream world : List Outcome × MysqlBatchStream × World
-/

namespace Plenora.Mysql.BatchStream

open Plenora.Lib Plenora.Lib.Call Plenora.Core Plenora.Core.Resource

/-! ## Rows -/

/-- A cell as the driver gives it. -/
inductive Value where
  | null
  | bytes (bytes : List UInt8)
  | int (value : Int64)
  | uInt (value : UInt64)
  | float (bits : UInt32)
  | double (bits : UInt64)
  | date (year month day hour minute second micros : Nat)
  | time (negative : Bool) (days hours minutes seconds micros : Nat)
  deriving DecidableEq

abbrev Row := List Value

def conservativeCellBytes : Nat := 64

/-- `checked_add` and `checked_mul` on `u64`. -/
def checked (n : Nat) (message : String) : Result Nat :=
  if n < 18446744073709551616 then .ok n else .error (.resourceLimit message)

def payloadBytes : Value → Result Nat
  | .bytes bytes => checked (bytes.length * 2) "stima payload in overflow"
  | .time _ _ _ _ _ _ => .ok 64
  | .date _ _ _ _ _ _ _ | .int _ | .uInt _ | .float _ | .double _ => .ok 32
  | .null => .ok 0

def readError (category : ErrorCategory) (message : String) : DatabaseError :=
  .new category .read (some .mysql) message

/-- The estimate of a row, cell by cell. -/
def conservativeRowBytes (row : Row) : (columns : Nat) → Result Nat
  | 0 => .ok 0
  | index + 1 => do
    let total ← conservativeRowBytes row index
    let value ← okOr row[index]? (readError .dataMapping "riga con meno colonne del piano")
    let payload ← payloadBytes value
    checked (total + conservativeCellBytes + payload) "stima riga in overflow"

/-- A declared CRS, and where its column of SRIDs is in a row. -/
structure MysqlCrsCheck where
  resultIndex : Nat
  column : String
  expected : UInt32
  deriving DecidableEq

/-- `u32::try_from` of a cell. -/
def sridOf : Value → Option UInt32
  | .uInt srid => if srid.toNat < 4294967296 then some (UInt32.ofNat srid.toNat) else none
  | .int srid =>
    if 0 ≤ srid.toInt ∧ srid.toInt < 4294967296 then some (UInt32.ofNat srid.toInt.toNat) else none
  | _ => none

def confirmCheck (product : String) (row : Row) (rowCount : Nat) (check : MysqlCrsCheck) :
    Result Unit := do
  let value ← okOr row[check.resultIndex]?
    (readError .schema "riga senza la colonna di controllo del CRS dichiarato")
  if value = .null then .ok ()
  else do
    let observed ← okOr (sridOf value)
      (readError .crs (s!"SRID {product} non leggibile alla riga {rowCount} della" ++
        "                          colonna dichiarata"))
    failIf (observed ≠ check.expected)
      (readError .crs (s!"CRS dichiarato non confermato dai valori {product}: la colonna" ++
        "                          e dichiarata SRID " ++
        s!"{check.expected} e la riga {rowCount} porta SRID {observed}"))

def confirmDeclaredCrs (product : String) (row : Row) (rowCount : Nat) :
    List MysqlCrsCheck → Result Unit
  | [] => .ok ()
  | check :: checks => do
    confirmCheck product row rowCount check
    confirmDeclaredCrs product row rowCount checks

/-- What a stream is opened with. -/
structure Plan where
  columns : Nat
  spatial : Bool
  crsChecks : List MysqlCrsCheck
  batchRows : Nat
  limits : ResourceKind → Nat
  /-- A cell goes into the buffer of its column. -/
  append : (column : Nat) → Row → Result Unit
  /-- The record batch of the rows, as the memory of its arrays. -/
  assemble : List Row → Result Nat
  /-- `validate_spatial_batch`: the components of the batch, within a limit. -/
  components : List Row → (limit : Nat) → Result Nat
  profile : ProductProfile
  batchRows_pos : 0 < batchRows
  batchRows_le : batchRows ≤ 65536
  limits_lt : ∀ kind, limits kind < 18446744073709551616

def appendCells (plan : Plan) (row : Row) : (columns : Nat) → Result Unit
  | 0 => .ok ()
  | index + 1 => do
    appendCells plan row index
    plan.append index row

def appendRow (plan : Plan) (row : Row) (rowCount : Nat) : Result Unit := do
  confirmDeclaredCrs plan.profile.product row rowCount plan.crsChecks
  appendCells plan row plan.columns

/-! ## The world -/

/-- What a failure comes from. -/
inductive Cause where
  | interrupted | expired | server | rows | quota | conversion
  deriving DecidableEq, Repr

structure Stop where
  cause : Cause
  error : DatabaseError
  deriving DecidableEq

/-- What the others do: the holders of the budget, the tokens and the clock. -/
structure Environment where
  want : Nat → ResourceKind → Nat
  interruption : Nat → Option Interruption
  expired : Nat → Bool

/-- The budget, what the worker has yet to send, and the budget at every point passed. -/
structure World where
  ledger : Ledger ResourceKind
  queue : List (Result Row)
  clock : Nat
  passed : List (Ledger ResourceKind)

def World.write (w : World) (ledger : Ledger ResourceKind) : World :=
  { w with ledger, passed := w.ledger :: w.passed }

/-- Before a step on the budget the other holders take theirs. -/
def World.interfere (env : Environment) (w : World) : World :=
  { w.write (w.ledger.interfere (env.want w.clock)) with clock := w.clock + 1 }

section Stream

variable (plan : Plan) (env : Environment)

/-! ## The budget -/

def remaining (kind : ResourceKind) : Call Stop World Nat :=
  exchange fun w => ((w.interfere env).ledger.remaining kind, w.interfere env)

def quota (message : String) : Stop := ⟨.quota, .resourceLimit message⟩

def tryLease (kind : ResourceKind) (amount : Nat) : Call Stop World Unit :=
  ExceptT.mk fun w =>
    if amount = 0 then
      (.error (quota "una lease di risorsa deve essere maggiore di zero"), w)
    else if amount ≤ (w.interfere env).ledger.remaining kind then
      (.ok (), (w.interfere env).write ((w.interfere env).ledger.take kind amount))
    else (.error (quota "budget di risorsa esaurito"), w.interfere env)

/-- The end of a lease of which `used` is consumed. -/
def settle (kind : ResourceKind) (amount used : Nat) : Call Stop World Unit :=
  ExceptT.mk fun w =>
    let w := w.interfere env
    if 18446744073709551616 ≤ w.ledger.remaining kind + (amount - used) then
      (.error (quota "overflow durante la restituzione del budget"), w)
    else if plan.limits kind < w.ledger.remaining kind + (amount - used) then
      (.error (quota "restituzione superiore alla quota originaria"), w)
    else (.ok (), w.write (w.ledger.settle kind amount used))

def commitLease (kind : ResourceKind) (amount used : Nat) : Call Stop World Unit :=
  if used = 0 ∨ amount < used then do
    settle plan env kind amount 0
    throw (quota "consumo non valido per la lease di risorsa")
  else settle plan env kind amount used

structure ReadBatchReservation where
  rowLimit : Nat
  byteLimit : Nat
  componentLimit : Nat

/-- The components a reservation may take: none where no column has geometries. -/
def componentQuota : Call Stop World Nat :=
  if plan.spatial then remaining env .geometryComponents else pure 0

def leaseComponents (components : Nat) : Call Stop World Unit :=
  if plan.spatial then tryLease env .geometryComponents components else pure ()

def reserve (rows bytes components : Nat) : Call Stop World ReadBatchReservation := do
  tryLease env .rows rows
  tryLease env .memoryBytes bytes
  tryLease env .outputBytes bytes
  leaseComponents plan env components
  pure ⟨rows, bytes, components⟩

def acquire : Call Stop World ReadBatchReservation := do
  let rows ← remaining env .rows
  let memory ← remaining env .memoryBytes
  let output ← remaining env .outputBytes
  if min rows plan.batchRows = 0 then throw ⟨.rows, .resourceLimit "budget read esaurito"⟩
  else if min memory output = 0 then throw (quota "budget read esaurito")
  else do
    let components ← componentQuota plan env
    if plan.spatial ∧ components = 0 then throw (quota "budget componenti geometriche esaurito")
    else reserve plan env (min rows plan.batchRows) (min memory output) components

/-- The lease of components is committed, or dropped where there is nothing to commit. -/
def commitComponents (limit components : Nat) : Call Stop World Unit :=
  if 0 < components then
    if plan.spatial then commitLease plan env .geometryComponents limit components
    else throw (quota "budget geometrico assente")
  else if plan.spatial then settle plan env .geometryComponents limit 0
  else pure ()

/-- `ReadBatchReservation::commit`. -/
def commit (reservation : ReadBatchReservation) (rows bytes components : Nat) :
    Call Stop World Unit :=
  if bytes = 0 ∨ reservation.byteLimit < bytes then
    throw (quota "batch Arrow oltre il budget memoria/output")
  else do
    commitLease plan env .rows reservation.rowLimit rows
    commitLease plan env .memoryBytes reservation.byteLimit bytes
    commitLease plan env .outputBytes reservation.byteLimit bytes
    commitComponents plan env reservation.componentLimit components

/-- The drop of leases, one after the other. -/
def dropLeases : List (ResourceKind × Nat) → Call Stop World Unit
  | [] => pure ()
  | (kind, amount) :: leases => do
    let _ ← attempt (settle plan env kind amount 0)
    dropLeases leases

/-- All leases of the stream are dropped. -/
def dropAll : Call Stop World Unit :=
  ExceptT.mk fun w => (dropLeases plan env w.ledger.leases).outcome w

/-! ## Rows from the worker -/

structure MeasuredRow where
  row : Row
  bytes : Nat
  deriving DecidableEq

def conversion {α : Type} (x : Result α) : Call Stop World α :=
  ofResult (x.mapError (Stop.mk .conversion))

/-- The answer to a demand: none where the worker is done. -/
def answer (w : World) : Except Stop (Option Row) × World :=
  match env.interruption w.clock, w.queue with
  | some interruption, _ =>
    (.error ⟨.interrupted, interruptionError plan.profile interruption .read .none⟩, w)
  | none, [] => (.ok none, { w with clock := w.clock + 1 })
  | none, .ok row :: queue => (.ok (some row), { w with clock := w.clock + 1, queue })
  | none, .error e :: _ => (.error ⟨.server, e⟩, w)

def receive : Call Stop World (Option Row) := ExceptT.mk (answer plan env)

def nextRow : Option MeasuredRow → Call Stop World (Option MeasuredRow)
  | some measured => pure (some measured)
  | none => do
    let received ← receive plan env
    match received with
    | none => pure none
    | some row => do
      let bytes ← conversion (conservativeRowBytes row plan.columns)
      pure (some ⟨row, bytes⟩)

/-- The loop of `fill_batch`: the slots left, the row carried over, and the rows taken so far with
their estimate. -/
def fillBatch (byteLimit : Nat) :
    Nat → Option MeasuredRow → List Row → Nat → Call Stop World (List Row × Option MeasuredRow)
  | 0, _, taken, _ => pure (taken, none)
  | slots + 1, carried, taken, estimated => do
    let next ← nextRow plan env carried
    match next with
    | none => pure (taken, none)
    | some measured =>
      if 18446744073709551616 ≤ estimated + measured.bytes then
        throw (quota "stima batch in overflow")
      else if byteLimit < estimated + measured.bytes then
        if taken = [] then throw (quota "riga oltre il budget memoria del batch")
        else pure (taken, some measured)
      else do
        conversion (appendRow plan measured.row taken.length)
        fillBatch byteLimit slots none (taken ++ [measured.row]) (estimated + measured.bytes)

/-- The checks of `bounded_buffer_capacity`. -/
def boundedBufferCapacity (rowLimit byteLimit : Nat) : Result Nat :=
  if plan.columns = 0 then .ok (min rowLimit 1024)
  else do
    let minimum ← checked (conservativeCellBytes * plan.columns) "stima riga in overflow"
    failIf (byteLimit / minimum = 0) (.resourceLimit "budget memoria insufficiente per una riga")
    .ok (min (min rowLimit (byteLimit / minimum)) 1024)

/-! ## The stream -/

inductive MysqlStreamState where
  | active
  | drained
  | failed (stop : Stop)
  deriving DecidableEq

structure MysqlBatchStream where
  state : MysqlStreamState
  /-- The row that opens the next batch. -/
  pending : Option MeasuredRow
  publishedRows : Nat
  deriving DecidableEq

/-- The checks before a batch, of the token of the stream and of the deadline. -/
def activeChecked (w : World) : Except Stop Unit × World :=
  match env.interruption w.clock with
  | some interruption =>
    (.error ⟨.interrupted, interruptionError plan.profile interruption .read .none⟩, w)
  | none =>
    if env.expired w.clock then (.error ⟨.expired, timeoutError plan.profile .read .none⟩, w)
    else (.ok (), w)

def activeChecks : Call Stop World Unit := ExceptT.mk (activeChecked plan env)

/-- The pending row gives its lease back. -/
def carry : Option MeasuredRow → Call Stop World Unit
  | none => pure ()
  | some measured => settle plan env .memoryBytes measured.bytes 0

def park : Option MeasuredRow → Call Stop World Unit
  | none => pure ()
  | some measured => tryLease env .memoryBytes measured.bytes

/-- A batch, with the row that is deferred. -/
def nextActiveBatch (stream : MysqlBatchStream) :
    Call Stop World (Option (List Row) × Option MeasuredRow) := do
  activeChecks plan env
  carry plan env stream.pending
  let reservation ← acquire plan env
  let _ ← ofResult ((boundedBufferCapacity plan reservation.rowLimit
    reservation.byteLimit).mapError (Stop.mk .quota))
  let fill ← fillBatch plan env reservation.byteLimit reservation.rowLimit stream.pending [] 0
  if fill.1 = [] then do
    dropAll plan env
    pure (none, none)
  else do
    let bytes ← conversion (plan.assemble fill.1)
    let components ← conversion (plan.components fill.1 reservation.componentLimit)
    commit plan env reservation fill.1.length bytes components
    park env fill.2
    let _ ← conversion (checked (stream.publishedRows + fill.1.length)
      "overflow nel cursore delle righe lette")
    pure (some fill.1, fill.2)

abbrev Outcome := Except Stop (Option (List Row))

/-- A failure ends the stream and drops every lease. -/
def fail (stream : MysqlBatchStream) (stop : Stop) (w : World) :
    Outcome × MysqlBatchStream × World :=
  (.error stop, { stream with state := .failed stop, pending := none },
    ((dropAll plan env).outcome w).2)

/-- A call, where the token of the caller may be cancelled before it. -/
def nextBatch (cancelled : Option Interruption) (stream : MysqlBatchStream) (w : World) :
    Outcome × MysqlBatchStream × World :=
  match stream.state with
  | .drained => (.ok none, stream, w)
  | .failed stop => (.error stop, stream, w)
  | .active =>
    match cancelled with
    | some interruption =>
      fail plan env stream
        ⟨.interrupted, interruptionError plan.profile interruption .read .none⟩ w
    | none =>
      match (nextActiveBatch plan env stream).outcome w with
      | (.ok (some rows, pending), w) =>
        (.ok (some rows),
          { stream with pending, publishedRows := stream.publishedRows + rows.length }, w)
      | (.ok (none, _), w) => (.ok none, { stream with state := .drained, pending := none }, w)
      | (.error stop, w) => fail plan env stream stop w

def run : List (Option Interruption) → MysqlBatchStream → World →
    List Outcome × MysqlBatchStream × World
  | [], stream, w => ([], stream, w)
  | cancelled :: calls, stream, w =>
    let first := nextBatch plan env cancelled stream w
    let rest := run calls first.2.1 first.2.2
    (first.1 :: rest.1, rest.2)

end Stream

/-- A stream that was just opened. -/
def opened : MysqlBatchStream := { state := .active, pending := none, publishedRows := 0 }

/-- The rows of the batches that were delivered. -/
def delivered : List Outcome → List Row
  | [] => []
  | .ok (some rows) :: outcomes => rows ++ delivered outcomes
  | _ :: outcomes => delivered outcomes

end Plenora.Mysql.BatchStream
