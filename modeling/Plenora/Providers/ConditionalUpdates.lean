import Plenora.Mysql.ConditionalUpdate
import Plenora.Postgres.ConditionalUpdate
import Plenora.Sqlserver.ConditionalUpdate

/-!
# One contract for the conditional updates of three providers

PostgreSQL and SQL Server tell a missing key from another version, and report as
rolled back an update whose changes stay; MySQL undoes the update, and never asks
whether the key is there.

    u.Succeeds → (u.Meets ↔ u.Kept)                                        (update_meets_iff)
-/

namespace Plenora.Providers

open Plenora.Core.ConditionalUpdate

variable {α R Row : Type}

/-- A conditional update on the scope of a provider, with what becomes of its commands; on MySQL
`rows` is what the probe of the key would answer. -/
inductive Update (α R Row : Type) where
  | postgres (client : Postgres.Transaction.Client R Row)
      (request : Postgres.Transaction.ConditionalUpdate) (s : Postgres.Transaction.State α R)
  | sqlserver (client : Sqlserver.Transaction.Client R Row)
      (request : Sqlserver.Transaction.ConditionalUpdate)
      (x count probed : Sqlserver.Transaction.Exchange α R) (s : Sqlserver.Transaction.State α)
  | mysql (client : Mysql.Transaction.Client R Row)
      (request : Mysql.Transaction.ConditionalUpdate) (x : Nat → Mysql.Transaction.Trip α R)
      (rows : List R) (s : Mysql.Transaction.State α)

/-- The statements of the update succeed on the server. -/
def Update.Succeeds : Update α R Row → Prop
  | .postgres client request s => Postgres.Transaction.Succeeds client request s
  | .sqlserver client request x count probed s =>
    Sqlserver.Transaction.Succeeds client request x count probed s
  | .mysql client request x _ s => Mysql.Transaction.Succeeds client request x s

/-- What `execute_conditional_update` returns and leaves meets the contract. -/
def Update.Meets : Update α R Row → Prop
  | .postgres client request s =>
    let ended := Postgres.Transaction.executeConditionalUpdate client request |>.outcome s
    Contract (Postgres.Transaction.affectedRows s) request.expectedAffectedRows
      (Postgres.Transaction.probeFound request s) s.server ended.2.server
      (Postgres.Transaction.Committable ended.2) ended.1
  | .sqlserver client request x count probed s =>
    let ended :=
      Sqlserver.Transaction.executeConditionalUpdate client request x count probed |>.outcome s
    Contract count.answer.affected request.expectedAffectedRows
      (Sqlserver.Transaction.probeFound request probed) s.server ended.2.server
      (Sqlserver.Transaction.Committable ended.2) ended.1
  | .mysql client request x rows s =>
    let ended := Mysql.Transaction.executeConditionalUpdate client request x |>.outcome s
    Contract (x 11).sent.answer.affected request.expectedAffectedRows
      (Mysql.Transaction.probeFound request rows) s.server ended.2.server
      (Mysql.Transaction.Committable client ended.2) ended.1

/-- The count is the expected one; or else, on PostgreSQL and SQL Server the probe finds no row or
nothing was changed, and on MySQL the probe, if there is one, would find a row. -/
def Update.Kept : Update α R Row → Prop
  | .postgres _ request s =>
    Postgres.Transaction.affectedRows s = request.expectedAffectedRows ∨
      Postgres.Transaction.probeFound request s = some false ∨
      Postgres.Transaction.statementChanges request s = []
  | .sqlserver _ request x count probed _ =>
    count.answer.affected = request.expectedAffectedRows ∨
      Sqlserver.Transaction.probeFound request probed = some false ∨
      Sqlserver.Transaction.statementChanges request x probed = []
  | .mysql _ request x rows _ =>
    (x 11).sent.answer.affected = request.expectedAffectedRows ∨
      Mysql.Transaction.probeFound request rows ≠ some false

/-- **Where its statements succeed, a conditional update meets the contract exactly if it finds the
rows it expects, or fails in the way its provider gets right.** -/
theorem update_meets_iff (u : Update α R Row) (h : u.Succeeds) : u.Meets ↔ u.Kept := by
  cases u with
  | postgres client request s => exact Postgres.Transaction.contract_iff h
  | sqlserver client request x count probed s => exact Sqlserver.Transaction.contract_iff h
  | mysql client request x rows s => exact Mysql.Transaction.contract_iff client h rows

/-! ## Two rows where one was expected, and a key that is not there -/

def postgresExchange (affected n : Nat) : Postgres.Transaction.Exchange Nat Unit where
  arrives := true
  refusal := none
  committed := false
  changes := [n]
  answer := ⟨[], affected, []⟩
  breaks := false
  cancelled := none

/-- An update on PostgreSQL that expects one row and finds as many as said, without a probe. -/
def postgresUpdate (affected : Nat) : Update Nat Unit Unit :=
  .postgres ⟨fun _ => .ok (), fun _ => .ok (), fun _ _ => .ok (), .ok⟩
    ⟨⟨"UPDATE t SET v = 2 WHERE v = 1", []⟩, none, 1⟩
    (Postgres.Transaction.opened [] (postgresExchange affected))

theorem postgresUpdate_succeeds (affected : Nat) : (postgresUpdate affected).Succeeds :=
  ⟨⟨rfl, rfl, rfl⟩, rfl, fun _ hprobe => (by cases hprobe),
    ⟨rfl, rfl, ⟨rfl, rfl, rfl, rfl⟩, rfl, ⟨rfl, rfl, rfl, rfl⟩⟩, fun _ hprobe => (by cases hprobe)⟩

theorem update_meets_iff_one : (postgresUpdate 1).Meets ↔ (postgresUpdate 1).Kept :=
  update_meets_iff (postgresUpdate 1) (postgresUpdate_succeeds 1)

def mysqlTrip : Mysql.Transaction.Trip Nat Unit :=
  let x : Mysql.Transaction.Exchange Nat Unit :=
    ⟨true, none, false, [], ⟨0, [], [], 0, [], false⟩, false, false, none⟩
  ⟨x, x⟩

/-- An update on MySQL that expects one row and finds none; the probe would find no row either. -/
def mysqlUpdate : Update Nat Unit Unit :=
  .mysql ⟨.mysql, fun _ => .ok (), fun _ => .ok (), fun _ => .ok (), fun _ => [],
      fun _ _ => .ok (), "", fun _ => none, fun _ _ _ => .ok none⟩
    ⟨⟨"UPDATE t SET v = 2 WHERE id = 7 AND v = 1", []⟩,
      some ⟨"SELECT 1 FROM t WHERE id = 7 LIMIT 1", []⟩, 1⟩
    (fun _ => mysqlTrip) [] (Mysql.Transaction.opened [])

theorem mysqlUpdate_succeeds : mysqlUpdate.Succeeds := by
  have hsent : mysqlTrip.sent.Succeeds := ⟨rfl, rfl, rfl, rfl⟩
  exact ⟨⟨rfl, rfl, rfl, rfl⟩, rfl, rfl, fun _ _ => rfl, trivial, fun _ _ => trivial,
    ⟨⟨hsent, .inl rfl⟩, rfl, rfl⟩, rfl, ⟨hsent, .inl rfl⟩, ⟨⟨hsent, .inl rfl⟩, rfl⟩,
    fun _ => ⟨⟨hsent, .inl rfl⟩, rfl, rfl⟩, fun _ => ⟨⟨hsent, .inl rfl⟩, rfl, rfl⟩⟩

/-- **PostgreSQL says that an update of two rows was rolled back, and keeps it; MySQL says that a
row that is not there was modified.** -/
theorem updates_break :
    (postgresUpdate 2).Succeeds ∧ ¬ (postgresUpdate 2).Meets ∧
      mysqlUpdate.Succeeds ∧ ¬ mysqlUpdate.Meets := by
  refine ⟨postgresUpdate_succeeds 2, fun hmeets => ?_, mysqlUpdate_succeeds, fun hmeets => ?_⟩
  · rcases (Postgres.Transaction.contract_iff (postgresUpdate_succeeds 2)).1 hmeets with
      hcount | hfound | hchanges
    · cases hcount
    · cases hfound
    · cases hchanges
  · rcases (Mysql.Transaction.contract_iff _ mysqlUpdate_succeeds []).1 hmeets with
      hcount | hfound
    · cases hcount
    · exact hfound rfl

end Plenora.Providers
