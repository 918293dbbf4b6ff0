import Mathlib

/-!
# Three-valued logic

The truth values of a SQL condition.  A row is selected only where its condition
is `true`, and for a conjunction or a disjunction that is decided as in two
values:

    Truth.all ts = .true ↔ ∀ t ∈ ts, t = .true      (all_eq_true)
    Truth.any ts = .true ↔ .true ∈ ts               (any_eq_true)
-/

namespace Plenora.Lib

inductive Truth where
  | true | false | unknown
  deriving DecidableEq, Repr

namespace Truth

def ofBool (b : Bool) : Truth := if b then .true else .false

def and : Truth → Truth → Truth
  | .false, _ => .false
  | _, .false => .false
  | .true, t => t
  | t, .true => t
  | .unknown, .unknown => .unknown

def or : Truth → Truth → Truth
  | .true, _ => .true
  | _, .true => .true
  | .false, t => t
  | t, .false => t
  | .unknown, .unknown => .unknown

def all (ts : List Truth) : Truth := ts.foldr and .true

def any (ts : List Truth) : Truth := ts.foldr or .false

@[simp] theorem ofBool_eq_true {b : Bool} : ofBool b = .true ↔ b = Bool.true := by
  cases b <;> simp [ofBool]

@[simp] theorem and_eq_true {s t : Truth} : s.and t = .true ↔ s = .true ∧ t = .true := by
  cases s <;> cases t <;> simp [and]

@[simp] theorem or_eq_true {s t : Truth} : s.or t = .true ↔ s = .true ∨ t = .true := by
  cases s <;> cases t <;> simp [or]

@[simp] theorem all_cons (t : Truth) (ts : List Truth) : all (t :: ts) = t.and (all ts) := rfl

@[simp] theorem any_cons (t : Truth) (ts : List Truth) : any (t :: ts) = t.or (any ts) := rfl

theorem all_eq_true {ts : List Truth} : all ts = .true ↔ ∀ t ∈ ts, t = .true := by
  induction ts with
  | nil => simp [all]
  | cons t ts ih => simp [ih]

theorem any_eq_true {ts : List Truth} : any ts = .true ↔ .true ∈ ts := by
  induction ts with
  | nil => simp [any]
  | cons t ts ih =>
    rw [any_cons, or_eq_true, ih, List.mem_cons]
    exact or_congr_left eq_comm

end Truth

end Plenora.Lib
