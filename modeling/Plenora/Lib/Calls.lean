import Mathlib

/-!
# Fallible calls over a state

A call returns a value or an error and leaves a state either way.  `Meets P x Q`
says that from a state with `P` the call `x` ends in a result and a state with
`Q`; `Keeps I x` that it keeps `I` whatever it returns.

    Meets P x R → (∀ a, Meets (R (.ok a)) (f a) Q) → (∀ e s, R (.error e) s → Q (.error e) s)
      → Meets P (x >>= f) Q                                                   (Meets.bind)
-/

namespace Plenora.Lib

variable {ε σ α β : Type}

/-- A computation that reads and writes a state and may fail; a failure keeps the state. -/
abbrev Call (ε σ α : Type) := ExceptT ε (StateM σ) α

namespace Call

/-- The result of a call and the state it leaves. -/
def outcome (x : Call ε σ α) (s : σ) : Except ε α × σ := x.run.run s

@[simp] theorem outcome_pure (a : α) (s : σ) : outcome (pure a : Call ε σ α) s = (.ok a, s) := rfl

@[simp] theorem outcome_throw (e : ε) (s : σ) :
    outcome (throw e : Call ε σ α) s = (.error e, s) := rfl

theorem outcome_bind (x : Call ε σ α) (f : α → Call ε σ β) (s : σ) :
    outcome (x >>= f) s =
      match outcome x s with
      | (.ok a, s') => outcome (f a) s'
      | (.error e, s') => (.error e, s') := by
  unfold outcome
  rw [ExceptT.run_bind, StateT.run_bind]
  rcases x.run.run s with ⟨_ | _, _⟩ <;> rfl

theorem outcome_bind_ok {x : Call ε σ α} {s s' : σ} {a : α} (h : outcome x s = (.ok a, s'))
    (f : α → Call ε σ β) : outcome (x >>= f) s = outcome (f a) s' := by
  rw [outcome_bind, h]

theorem outcome_bind_error {x : Call ε σ α} {s s' : σ} {e : ε} (h : outcome x s = (.error e, s'))
    (f : α → Call ε σ β) : outcome (x >>= f) s = (.error e, s') := by
  rw [outcome_bind, h]

/-- Run on the state, and answer with what `f` reads from it. -/
def exchange (f : σ → α × σ) : Call ε σ α := ExceptT.mk fun s => (.ok (f s).1, (f s).2)

@[simp] theorem outcome_exchange (f : σ → α × σ) (s : σ) :
    outcome (exchange f : Call ε σ α) s = (.ok (f s).1, (f s).2) := rfl

def read (f : σ → α) : Call ε σ α := exchange fun s => (f s, s)

def update (f : σ → σ) : Call ε σ Unit := exchange fun s => ((), f s)

@[simp] theorem outcome_read (f : σ → α) (s : σ) :
    outcome (read f : Call ε σ α) s = (.ok (f s), s) := rfl

@[simp] theorem outcome_update (f : σ → σ) (s : σ) :
    outcome (update f : Call ε σ Unit) s = (.ok (), f s) := rfl

def ofResult (x : Except ε α) : Call ε σ α := ExceptT.mk fun s => (x, s)

@[simp] theorem outcome_ofResult (x : Except ε α) (s : σ) :
    outcome (ofResult x : Call ε σ α) s = (x, s) := rfl

/-- Refuse with `e` where `c` holds of the state. -/
def refuseIf (c : σ → Bool) (e : σ → ε) : Call ε σ Unit :=
  ExceptT.mk fun s => (if c s then .error (e s) else .ok (), s)

@[simp] theorem outcome_refuseIf (c : σ → Bool) (e : σ → ε) (s : σ) :
    outcome (refuseIf c e) s = (if c s then .error (e s) else .ok (), s) := rfl

/-- The call with its result rewritten, the state left as it is. -/
def mapResult (f : Except ε α → Except ε β) (x : Call ε σ α) : Call ε σ β :=
  ExceptT.mk fun s => (f (x.outcome s).1, (x.outcome s).2)

@[simp] theorem outcome_mapResult (f : Except ε α → Except ε β) (x : Call ε σ α) (s : σ) :
    outcome (mapResult f x) s = (f (x.outcome s).1, (x.outcome s).2) := rfl

/-- The call whose failure is a value. -/
def attempt (x : Call ε σ α) : Call ε σ (Except ε α) :=
  ExceptT.mk fun s => (.ok (x.outcome s).1, (x.outcome s).2)

@[simp] theorem outcome_attempt (x : Call ε σ α) (s : σ) :
    outcome (attempt x) s = (.ok (x.outcome s).1, (x.outcome s).2) := rfl

theorem outcome_attempt_of {x : Call ε σ α} {s s' : σ} {r : Except ε α}
    (h : outcome x s = (r, s')) : outcome (attempt x) s = (.ok r, s') := by
  rw [outcome_attempt, h]

/-! ## Rules -/

/-- From a state with `P` the call ends in a result and a state with `Q`. -/
def Meets (P : σ → Prop) (x : Call ε σ α) (Q : Except ε α → σ → Prop) : Prop :=
  ∀ s, P s → Q (x.outcome s).1 (x.outcome s).2

variable {P P' : σ → Prop} {Q Q' : Except ε α → σ → Prop}

theorem Meets.conseq {x : Call ε σ α} (h : Meets P x Q) (hP : ∀ s, P' s → P s)
    (hQ : ∀ r s, Q r s → Q' r s) : Meets P' x Q' :=
  fun s hs => hQ _ _ (h s (hP s hs))

theorem Meets.bind {x : Call ε σ α} {f : α → Call ε σ β} {R : Except ε α → σ → Prop}
    {Q : Except ε β → σ → Prop} (hx : Meets P x R) (hf : ∀ a, Meets (R (.ok a)) (f a) Q)
    (herror : ∀ e s, R (.error e) s → Q (.error e) s) : Meets P (x >>= f) Q := by
  intro s hs
  have hfirst := hx s hs
  rw [outcome_bind]
  rcases hr : outcome x s with ⟨_ | a, s'⟩
  · rw [hr] at hfirst
    exact herror _ _ hfirst
  · rw [hr] at hfirst
    exact hf a s' hfirst

theorem Meets.attempt {x : Call ε σ α} {Q : Except ε (Except ε α) → σ → Prop}
    (h : Meets P x fun r s => Q (.ok r) s) : Meets P (attempt x) Q :=
  h

/-! ## Invariants -/

/-- The call keeps `I`, whatever it returns. -/
def Keeps (I : σ → Prop) (x : Call ε σ α) : Prop := Meets I x fun _ s => I s

variable {I : σ → Prop}

theorem Keeps.bind {x : Call ε σ α} {f : α → Call ε σ β} (hx : Keeps I x)
    (hf : ∀ a, Keeps I (f a)) : Keeps I (x >>= f) :=
  Meets.bind hx hf fun _ _ h => h

theorem keeps_pure (a : α) : Keeps I (pure a : Call ε σ α) := fun _ hs => hs

theorem keeps_throw (e : ε) : Keeps I (throw e : Call ε σ α) := fun _ hs => hs

theorem keeps_read (f : σ → α) : Keeps I (read f : Call ε σ α) := fun _ hs => hs

theorem keeps_ofResult (x : Except ε α) : Keeps I (ofResult x : Call ε σ α) := fun _ hs => hs

theorem keeps_refuseIf (c : σ → Bool) (e : σ → ε) : Keeps I (refuseIf c e) := fun _ hs => hs

theorem keeps_update {f : σ → σ} (h : ∀ s, I s → I (f s)) :
    Keeps I (update f : Call ε σ Unit) :=
  fun s hs => h s hs

theorem keeps_exchange {f : σ → α × σ} (h : ∀ s, I s → I (f s).2) :
    Keeps I (exchange f : Call ε σ α) :=
  fun s hs => h s hs

theorem Keeps.mapResult {x : Call ε σ α} (h : Keeps I x) (f : Except ε α → Except ε β) :
    Keeps I (mapResult f x) :=
  h

theorem Keeps.attempt {x : Call ε σ α} (h : Keeps I x) : Keeps I (attempt x) := h

end Call

end Plenora.Lib
