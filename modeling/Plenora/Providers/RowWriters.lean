import Plenora.Sqlserver.RowWriter
import Plenora.Mysql.RowWriter

/-!
# Row attribution in SQL Server and MySQL

Whatever the batches of the input, the two row-scoped writers send the statements of its rows one
by one in their order, and finish it where its rows end.

    Attributes (Sqlserver.RowWriter.statements sqlserver)
        (Sqlserver.RowWriter.rowWriter sqlserver.recording) ∧
      Attributes (Mysql.RowWriter.statements mysql)
        (Mysql.RowWriter.rowWriter mysql.recording)                         (rowWriters_attribute)
-/

namespace Plenora.Providers

open Plenora.Lib Plenora.Lib.Call Plenora.Core Plenora.Core.RowCursor Plenora.Core.RowDiagnostics

/-- **Both writers attribute their rows.** -/
theorem rowWriters_attribute {ω ς ρ κ δ μ π : Type} [DecidableEq ς]
    (sqlserver : Sqlserver.RowWriter.Environment ω ς ρ κ δ μ)
    (mysql : Mysql.RowWriter.Environment ω ς ρ κ π) :
    Attributes (Sqlserver.RowWriter.statements sqlserver)
        (Sqlserver.RowWriter.rowWriter sqlserver.recording) ∧
      Attributes (Mysql.RowWriter.statements mysql)
        (Mysql.RowWriter.rowWriter mysql.recording) :=
  ⟨Sqlserver.RowWriter.rowWriter_attributes sqlserver, Mysql.RowWriter.rowWriter_attributes mysql⟩

/-- A server that takes every row. -/
def willing : Sqlserver.RowWriter.Environment Unit Unit Nat String Unit Unit where
  inputSchema := ()
  constraintColumn := none
  bindRow n := .ok s!"INSERT {n}"
  reserveWriteRow _ _ := (.ok (), ())
  executeRowQuery _ _ := (.ok (.applied ()), ())
  validateOutputCardinality _ := .ok ()
  rowMutation _ := .ok ()
  quarantine _ := ()
  commitResources _ := (.ok (), ())
  addMutation _ _ := (.ok (), ())
  rowRejectionCause _ := none
  transportLost := none
  rollback _ := (.confirmed, ())

/-- A server that takes every row but the number 8. -/
def eightless : Mysql.RowWriter.Environment Unit Unit Nat String (List Nat) where
  schema := ()
  constraintColumn := some "n"
  kind := .mysql
  validateSpatialBatch _ _ := (.ok (), ())
  leaseRows _ _ := (.ok (), ())
  renderInsertIntoStaging := .ok "INSERT"
  bindChunk := .ok
  deleteStaging _ := (.ok (), ())
  execRowWrite _ parameters _ := (.ok (if parameters = [8] then some "check" else none), ())
  applyStaging _ := (.ok none, ())
  rollback _ := (.confirmed, ())

/-- Two rows, with an empty batch before each, and a third in the batch of the second. -/
def batches : List (Batch Unit Nat) := [⟨(), []⟩, ⟨(), [7]⟩, ⟨(), []⟩, ⟨(), [9, 8]⟩]

/-- The first two rows are applied, the third is rejected, and there is no fourth. -/
theorem rowWriters_attribute_batches :
    ∃ s s', Called (Mysql.RowWriter.rowWriter eightless.recording)
        (.new ((), []) (batches.map .ok)) 2 s [.applied, .applied] ∧
      ((Mysql.RowWriter.rowWriter eightless.recording).finishDeclaredInput.outcome s).1 ≠ .ok () ∧
      Called (Mysql.RowWriter.rowWriter eightless.recording)
        (.new ((), []) (batches.map .ok)) 3 s'
        [.applied, .applied, .rejected ⟨"check", some "n"⟩] ∧
      (∃ sent : List (RowApplication × List (Mysql.RowWriter.Request String (List Nat))),
        sent.map Prod.fst = [.applied, .applied, .rejected ⟨"check", some "n"⟩] ∧
        s'.world.2 = sent.flatMap Prod.snd ∧
        List.Forall₂ (fun row call => Sent (Mysql.RowWriter.statements eightless) row call.1 call.2)
          [7, 9, 8] sent) ∧
      ∃ e, (((Mysql.RowWriter.rowWriter eightless.recording).applyRow 3).outcome s').1 =
        .error e := by
  have hwriter := (rowWriters_attribute willing eightless).2
  have hone : Called (Mysql.RowWriter.rowWriter eightless.recording)
      (.new ((), []) (batches.map .ok)) 2 _ [.applied, .applied] := .call (.call .start rfl) rfl
  have hall : Called (Mysql.RowWriter.rowWriter eightless.recording)
      (.new ((), []) (batches.map .ok)) 3 _
      [.applied, .applied, .rejected ⟨"check", some "n"⟩] := .call hone rfl
  obtain ⟨e, he, -⟩ := hwriter.past () batches 3 _ _ hall (by decide)
  refine ⟨_, _, hone, fun hfinish => ?_, hall, hwriter.rows () batches 3 _ _ hall, e, he⟩
  exact absurd ((hwriter.finish () batches 2 _ hone).1 hfinish) (by decide)

end Plenora.Providers
