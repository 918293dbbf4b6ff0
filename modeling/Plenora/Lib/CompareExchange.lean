import Mathlib

/-!
# Compare-and-retry loops

A loop reads a cell, computes what to write from the value it saw, and tries the
exchange: where the cell changed meanwhile, or the exchange fails for no reason, it
looks at the cell again.  Each of its steps leaves the cell alone or is the whole
update at once:

    Turn update cell (turn update cell observed spurious)                    (turn_spec)
-/

namespace Plenora.Lib.CompareExchange

variable {V ε : Type}

/-- A loop tries to exchange the value it saw, or it is over. -/
inductive Progress (V ε : Type) where
  | attempting (observed : V)
  | returned (result : Except ε Unit)
  deriving DecidableEq

/-- What a loop makes of the value it sees. -/
def look (update : V → Except ε V) (value : V) : Progress V ε :=
  match update value with
  | .ok _ => .attempting value
  | .error e => .returned (.error e)

/-- The first reading of the cell. -/
def load (update : V → Except ε V) (cell : V) : V × Progress V ε := (cell, look update cell)

/-- What one step of a loop does to the cell, and where it leaves the loop. -/
inductive Turn (update : V → Except ε V) (cell : V) : V × Progress V ε → Prop where
  | looks {next : V} (h : update cell = .ok next) : Turn update cell (cell, .attempting cell)
  | fails {e : ε} (h : update cell = .error e) : Turn update cell (cell, .returned (.error e))
  | writes {next : V} (h : update cell = .ok next) :
    Turn update cell (next, .returned (.ok ()))

theorem look_turn (update : V → Except ε V) (cell : V) :
    Turn update cell (cell, look update cell) := by
  unfold look
  cases h : update cell with
  | ok next => exact .looks h
  | error e => exact .fails h

variable [DecidableEq V]

/-- `compare_exchange_weak`; a spurious failure observes the cell as a failure does. -/
def exchange (update : V → Except ε V) (cell observed : V) (spurious : Bool) :
    V × Progress V ε :=
  if cell = observed ∧ spurious = false then
    match update observed with
    | .ok next => (next, .returned (.ok ()))
    | .error e => (cell, .returned (.error e))
  else (cell, look update cell)

theorem exchange_turn (update : V → Except ε V) (cell observed : V) (spurious : Bool) :
    Turn update cell (exchange update cell observed spurious) := by
  unfold exchange
  split
  next h =>
    obtain ⟨rfl, -⟩ := h
    cases hupdate : update cell with
    | ok next => exact .writes hupdate
    | error e => exact .fails hupdate
  next => exact look_turn update cell

/-- The next step of a loop, from the value it last saw. -/
def turn (update : V → Except ε V) (cell : V) (observed : Option V) (spurious : Bool) :
    V × Progress V ε :=
  match observed with
  | none => load update cell
  | some seen => exchange update cell seen spurious

/-- **Each step of a loop leaves the cell alone or is the whole update at once.** -/
theorem turn_spec (update : V → Except ε V) (cell : V) (observed : Option V) (spurious : Bool) :
    Turn update cell (turn update cell observed spurious) := by
  cases observed with
  | none => exact look_turn update cell
  | some seen => exact exchange_turn update cell seen spurious

end Plenora.Lib.CompareExchange
