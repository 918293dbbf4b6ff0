import Plenora.Lib.TransactionServer
import Plenora.Core.Transaction

/-!
# The contract of a conditional update

An optimistic update finds the rows it expects, or it fails: with `NotFound` where
a probe of the key finds no row, else with `ConcurrentModification`, which says
that the update was rolled back.

    Contract affected expected found before after commits result
-/

namespace Plenora.Core.ConditionalUpdate

open Plenora.Lib

variable {α : Type}

/-- The failure of an update that did not find the rows it expected; `found` is what the probe of
the key finds, where one is given. -/
def mismatch (found : Option Bool) : ErrorCategory :=
  if found = some false then .notFound else .concurrentModification

/-- The two servers hold the same rows and the same work of the open transaction. -/
structure SameWork (before after : Server α) : Prop where
  durable : after.durable = before.durable
  work : after.tx.map (·.work) = before.tx.map (·.work)

/-- What the result of a conditional update says, from the server before it and the one after;
`commits`: the scope can commit the work of the transaction that is open after it. -/
structure Contract (affected expected : Nat) (found : Option Bool) (before after : Server α)
    (commits : Prop) (result : Result Unit) : Prop where
  ok_iff : result = .ok () ↔ affected = expected
  category : affected ≠ expected → ∃ e, result = .error e ∧ e.category = mismatch found
  undone : ∀ e, result = .error e → e.remoteEffect = .rolledBack →
    SameWork before after ∧ (before.tx.isSome → before.Alive → commits)

variable {affected expected : Nat} {found : Option Bool} {before after : Server α} {commits : Prop}

theorem contract_ok (h : affected = expected) :
    Contract affected expected found before after commits (.ok ()) :=
  ⟨⟨fun _ => h, fun _ => rfl⟩, fun hne => absurd h hne, fun _ he => (by cases he)⟩

/-- **A failed update meets the contract if its error has the category of the mismatch, and says
that it was rolled back only where it was.** -/
theorem contract_error_iff {e : DatabaseError} (h : affected ≠ expected) :
    Contract affected expected found before after commits (.error e) ↔
      e.category = mismatch found ∧ (e.remoteEffect = .rolledBack →
        SameWork before after ∧ (before.tx.isSome → before.Alive → commits)) := by
  constructor
  · intro hc
    obtain ⟨_, he, hcategory⟩ := hc.category h
    cases he
    exact ⟨hcategory, hc.undone e rfl⟩
  · rintro ⟨hcategory, hundone⟩
    refine ⟨⟨fun hok => (by cases hok), fun heq => absurd heq h⟩, fun _ => ⟨e, rfl, hcategory⟩, ?_⟩
    intro e' he'
    cases he'
    exact hundone

@[refl] theorem SameWork.refl (s : Server α) : SameWork s s := ⟨rfl, rfl⟩

/-- **A statement leaves the work as it was only if it changed nothing.** -/
theorem sameWork_run (s : Server α) (changes : List α) :
    SameWork s (s.run changes) ↔ changes = [] := by
  constructor
  · rintro ⟨hdurable, hwork⟩
    unfold Server.run at hdurable hwork
    cases htx : s.tx with
    | none => simpa [htx] using hdurable
    | some tx => simpa [htx] using hwork
  · rintro rfl
    rw [Server.run_nil]

end Plenora.Core.ConditionalUpdate
