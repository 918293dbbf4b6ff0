import Mathlib

/-!
# A server session with one transaction at a time

What the statements of a session did is a list of changes, the oldest first:
those already durable, and those of the open transaction, which its commit adds
and its rollback drops.  Outside a transaction a statement is durable at once.

    (s.commit).durable = s.durable ++ work         in a transaction that has not failed
    (s.run changes).durable = s.durable            in a transaction
    ((s.savepoint n).run changes).rollbackTo n     has the work of s
-/

namespace Plenora.Lib

/-- An open transaction: the work no rollback undid, and at each savepoint, the innermost first,
the work there was.  A failed transaction only goes on after a rollback. -/
structure Tx (α : Type) where
  work : List α
  savepoints : List (String × List α)
  failed : Bool
  deriving DecidableEq, Repr

structure Server (α : Type) where
  durable : List α
  tx : Option (Tx α)
  deriving DecidableEq, Repr

namespace Server

variable {α : Type}

def begin_ (s : Server α) : Server α := { s with tx := some ⟨[], [], false⟩ }

/-- A statement that made these changes. -/
def run (s : Server α) (changes : List α) : Server α :=
  match s.tx with
  | some tx => { s with tx := some { tx with work := tx.work ++ changes } }
  | none => { s with durable := s.durable ++ changes }

/-- The open transaction can only be rolled back from now on. -/
def fail (s : Server α) : Server α :=
  { s with tx := s.tx.map fun tx => { tx with failed := true } }

def savepoint (s : Server α) (name : String) : Server α :=
  { s with tx := s.tx.map fun tx => { tx with savepoints := (name, tx.work) :: tx.savepoints } }

def rollbackTo (s : Server α) (name : String) : Server α :=
  { s with tx := s.tx.map fun tx =>
      match tx.savepoints.dropWhile fun point => point.1 ≠ name with
      | [] => tx
      | (_, work) :: outer => ⟨work, (name, work) :: outer, false⟩ }

def release (s : Server α) (name : String) : Server α :=
  { s with tx := s.tx.map fun tx =>
      { tx with savepoints := (tx.savepoints.dropWhile fun point => point.1 ≠ name).tail } }

def commit (s : Server α) : Server α :=
  match s.tx with
  | some tx => ⟨if tx.failed then s.durable else s.durable ++ tx.work, none⟩
  | none => s

def rollback (s : Server α) : Server α := { s with tx := none }

/-- The open transaction, if there is one, has not failed. -/
def Alive (s : Server α) : Prop := ∀ tx, s.tx = some tx → tx.failed = false

/-! ## What an operation changes -/

section Frame

variable (s : Server α) (name : String) (changes : List α)

@[simp] theorem durable_begin : s.begin_.durable = s.durable := rfl

@[simp] theorem durable_fail : s.fail.durable = s.durable := rfl

@[simp] theorem durable_savepoint : (s.savepoint name).durable = s.durable := rfl

@[simp] theorem durable_rollbackTo : (s.rollbackTo name).durable = s.durable := rfl

@[simp] theorem durable_release : (s.release name).durable = s.durable := rfl

@[simp] theorem durable_rollback : s.rollback.durable = s.durable := rfl

@[simp] theorem tx_rollback : s.rollback.tx = none := rfl

theorem durable_run (h : s.tx.isSome) : (s.run changes).durable = s.durable := by
  obtain ⟨tx, htx⟩ := Option.isSome_iff_exists.1 h
  rw [run, htx]

@[simp] theorem run_nil : s.run [] = s := by
  rcases s with ⟨durable, _ | tx⟩
  · exact congrArg (Server.mk · none) (List.append_nil durable)
  · exact congrArg (fun work => Server.mk durable (some { tx with work })) (List.append_nil tx.work)

/-- **Two statements change what one with the changes of both changes.** -/
theorem run_run (more : List α) : (s.run changes).run more = s.run (changes ++ more) := by
  rcases s with ⟨durable, _ | tx⟩
  · exact congrArg (Server.mk · none) (List.append_assoc durable changes more)
  · exact congrArg (fun work => Server.mk durable (some { tx with work }))
      (List.append_assoc tx.work changes more)

@[simp] theorem isSome_tx_run : (s.run changes).tx.isSome = s.tx.isSome := by
  unfold run
  split
  next tx h => rw [h]; rfl
  next h => rw [h]

@[simp] theorem isSome_tx_fail : s.fail.tx.isSome = s.tx.isSome := Option.isSome_map

@[simp] theorem isSome_tx_savepoint : (s.savepoint name).tx.isSome = s.tx.isSome :=
  Option.isSome_map

@[simp] theorem isSome_tx_rollbackTo : (s.rollbackTo name).tx.isSome = s.tx.isSome :=
  Option.isSome_map

@[simp] theorem isSome_tx_release : (s.release name).tx.isSome = s.tx.isSome :=
  Option.isSome_map

@[simp] theorem tx_commit : s.commit.tx = none := by
  unfold commit
  split
  next => rfl
  next h => exact h

theorem alive_begin : s.begin_.Alive := fun _ htx => (by cases htx; rfl)

theorem alive_rollback : s.rollback.Alive := fun _ htx => (by cases htx)

variable {s} in
theorem Alive.run (h : s.Alive) : (s.run changes).Alive := by
  unfold Server.run
  cases htx : s.tx with
  | none => exact fun tx' htx' => (by cases htx')
  | some tx => exact fun _ htx' => (by cases htx'; exact h tx htx)

variable {s} in
theorem Alive.savepoint (h : s.Alive) : (s.savepoint name).Alive := by
  intro tx' htx'
  obtain ⟨tx, htx, rfl⟩ := Option.map_eq_some_iff.1 htx'
  exact h tx htx

variable {s} in
theorem Alive.rollbackTo (h : s.Alive) : (s.rollbackTo name).Alive := by
  intro tx' htx'
  obtain ⟨tx, htx, rfl⟩ := Option.map_eq_some_iff.1 htx'
  split
  next => exact h tx htx
  next => rfl

variable {s} in
theorem Alive.release (h : s.Alive) : (s.release name).Alive := by
  intro tx' htx'
  obtain ⟨tx, htx, rfl⟩ := Option.map_eq_some_iff.1 htx'
  exact h tx htx

/-- **The commit of a transaction that has not failed makes its work durable.** -/
theorem durable_commit {tx : Tx α} (h : s.tx = some tx) (hfailed : tx.failed = true → tx.work = []) :
    s.commit.durable = s.durable ++ tx.work := by
  rw [commit, h]
  show (if tx.failed then s.durable else s.durable ++ tx.work) = s.durable ++ tx.work
  split
  next hf => rw [hfailed hf, List.append_nil]
  next => rfl

variable {s} in
theorem Alive.durable_commit (h : s.Alive) {tx : Tx α} (htx : s.tx = some tx) :
    s.commit.durable = s.durable ++ tx.work :=
  s.durable_commit htx fun hfailed => (by rw [h tx htx] at hfailed; cases hfailed)

/-- **A rollback to a savepoint gives back the work there was at it.** -/
theorem rollbackTo_run_savepoint {tx : Tx α} (h : s.tx = some tx) :
    (((s.savepoint name).run changes).rollbackTo name).tx =
      some ⟨tx.work, (name, tx.work) :: tx.savepoints, false⟩ := by
  simp [savepoint, run, rollbackTo, h]

end Frame

end Server

end Plenora.Lib
