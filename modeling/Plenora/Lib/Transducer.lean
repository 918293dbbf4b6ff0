import Mathlib

/-!
# Transducers

A machine that reads a text letter by letter, puts out tokens as it goes and may refuse a letter.
Reading a text in two parts is reading one and then the other.

    run step m a = some (out, m')  →  run step m (a ++ b) = out ++ run step m' b       (run_append)
    run step m a = some (out, m')  →  read step finish m (a ++ b) = out ++ read m' b   (read_append)
-/

namespace Plenora.Lib.Transducer

variable {μ α τ : Type} (step : μ → α → Option (List τ × μ)) (finish : μ → Option (List τ))

/-- What comes before, in front of what a machine puts out. -/
def before (out : List τ) (r : Option (List τ × μ)) : Option (List τ × μ) :=
  r.map fun r => (out ++ r.1, r.2)

def run : μ → List α → Option (List τ × μ)
  | m, [] => some ([], m)
  | m, a :: l => (step m a).bind fun r => before r.1 (run r.2 l)

/-- All that is put out, with what the end of the text completes. -/
def read (m : μ) (l : List α) : Option (List τ) :=
  (run step m l).bind fun r => (finish r.2).map (r.1 ++ ·)

variable {step finish} {m m' : μ} {a : α} {l b : List α} {out : List τ}

@[simp] theorem before_nil (r : Option (List τ × μ)) : before [] r = r := by
  cases r <;> rfl

theorem before_before (out out' : List τ) (r : Option (List τ × μ)) :
    before out (before out' r) = before (out ++ out') r := by
  cases r with
  | none => rfl
  | some r => simp [before]

@[simp] theorem run_nil (m : μ) : run step m [] = some ([], m) := rfl

theorem run_cons (h : step m a = some (out, m')) (l : List α) :
    run step m (a :: l) = before out (run step m' l) := by
  rw [run, h]
  rfl

theorem run_cons_none (h : step m a = none) (l : List α) : run step m (a :: l) = none := by
  rw [run, h]
  rfl

/-- **A text in two parts.** -/
theorem run_append (h : run step m l = some (out, m')) (b : List α) :
    run step m (l ++ b) = before out (run step m' b) := by
  induction l generalizing m out with
  | nil =>
    cases h
    exact (before_nil _).symm
  | cons a l ih =>
    obtain ⟨r, hr, hrest⟩ := Option.bind_eq_some_iff.1 h
    obtain ⟨s, hs, heq⟩ := Option.map_eq_some_iff.1 hrest
    cases heq
    rw [List.cons_append, run, hr, Option.bind_some, ih hs, before_before]

theorem run_append_none (h : run step m l = none) (b : List α) : run step m (l ++ b) = none := by
  induction l generalizing m with
  | nil => cases h
  | cons a l ih =>
    rw [List.cons_append, run]
    cases hstep : step m a with
    | none => rfl
    | some r =>
      rw [run, hstep, Option.bind_some] at h
      rw [Option.bind_some, ih (Option.map_eq_none_iff.1 h)]
      rfl

/-- The first part of a text that is read, and what the second part is read as. -/
theorem exists_of_run_append {r : List τ × μ} (h : run step m (l ++ b) = some r) :
    ∃ out m', run step m l = some (out, m') ∧ before out (run step m' b) = some r := by
  cases hl : run step m l with
  | none =>
    rw [run_append_none hl] at h
    cases h
  | some s => exact ⟨s.1, s.2, rfl, by rw [← h, run_append hl]⟩

theorem read_append (h : run step m l = some (out, m')) (b : List α) :
    read step finish m (l ++ b) = (read step finish m' b).map (out ++ ·) := by
  unfold read
  rw [run_append h]
  cases run step m' b with
  | none => rfl
  | some r =>
    show ((finish r.2).map ((out ++ r.1) ++ ·)) = ((finish r.2).map (r.1 ++ ·)).map (out ++ ·)
    cases finish r.2 with
    | none => rfl
    | some rest => simp

theorem exists_of_read_append {tokens : List τ} (h : read step finish m (l ++ b) = some tokens) :
    ∃ out m' rest, run step m l = some (out, m') ∧ read step finish m' b = some rest ∧
      tokens = out ++ rest := by
  cases hl : run step m l with
  | none =>
    unfold read at h
    rw [run_append_none hl] at h
    cases h
  | some s =>
    rw [read_append (show run step m l = some (s.1, s.2) from hl)] at h
    obtain ⟨rest, hrest, rfl⟩ := Option.map_eq_some_iff.1 h
    exact ⟨s.1, s.2, rest, rfl, hrest, rfl⟩

end Plenora.Lib.Transducer
