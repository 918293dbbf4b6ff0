import Mathlib

/-!
# Texts closed by a mark that is doubled inside

A body is written with every mark doubled and one more mark after it.  A reader takes the body up
to the first mark that is not doubled, and undoubles it.

    rest does not begin with the mark → body (double m l ++ m :: rest) = some (double m l, rest)
                                                                          (body_double)
    undouble m (double m l) = l                                           (undouble_double)
-/

namespace Plenora.Lib.Doubling

variable {α : Type} [DecidableEq α]

/-- Every mark twice. -/
def double (mark : α) (l : List α) : List α :=
  l.flatMap fun a => if a = mark then [mark, mark] else [a]

/-- What is before the first mark that is not doubled, and what is after it. -/
def body (mark : α) : List α → Option (List α × List α)
  | [] => none
  | [a] => if a = mark then some ([], []) else none
  | a :: b :: rest =>
    if a = mark then
      if b = mark then (body mark rest).map fun r => (a :: b :: r.1, r.2) else some ([], b :: rest)
    else (body mark (b :: rest)).map fun r => (a :: r.1, r.2)

/-- Every two marks as one. -/
def undouble (mark : α) : List α → List α
  | [] => []
  | [a] => [a]
  | a :: b :: rest =>
    if a = mark ∧ b = mark then mark :: undouble mark rest else a :: undouble mark (b :: rest)

variable (mark : α)

@[simp] theorem double_nil : double mark [] = [] := rfl

theorem double_mark (l : List α) : double mark (mark :: l) = mark :: mark :: double mark l := by
  simp [double]

theorem double_cons {a : α} (h : a ≠ mark) (l : List α) :
    double mark (a :: l) = a :: double mark l := by
  simp [double, h]

theorem length_double (l : List α) : (double mark l).length = l.length + l.count mark := by
  induction l with
  | nil => rfl
  | cons a l ih =>
    by_cases ha : a = mark
    · subst ha
      rw [double_mark, List.length_cons, List.length_cons, ih, List.length_cons,
        List.count_cons_self]
      omega
    · rw [double_cons mark ha, List.length_cons, ih, List.length_cons, List.count_cons_of_ne ha]
      omega

/-- Every text is a body that is not closed, or a body and what is after its mark. -/
theorem exists_double (l : List α) :
    (∃ v, l = double mark v) ∨
      ∃ v rest, rest.head? ≠ some mark ∧ l = double mark v ++ mark :: rest := by
  fun_induction body mark l with
  | case1 => exact .inl ⟨[], rfl⟩
  | case2 => exact .inr ⟨[], [], by simp, rfl⟩
  | case3 a h => exact .inl ⟨[a], by simp [double, h]⟩
  | case4 rest ih =>
    rcases ih with ⟨v, hv⟩ | ⟨v, tail, htail, hv⟩
    · exact .inl ⟨mark :: v, by rw [double_mark, ← hv]⟩
    · exact .inr ⟨mark :: v, tail, htail, by rw [double_mark, hv]; rfl⟩
  | case5 b rest h => exact .inr ⟨[], b :: rest, by simpa using h, rfl⟩
  | case6 a b rest h ih =>
    rcases ih with ⟨v, hv⟩ | ⟨v, tail, htail, hv⟩
    · exact .inl ⟨a :: v, by rw [double_cons mark h, ← hv]⟩
    · exact .inr ⟨a :: v, tail, htail, by rw [double_cons mark h, hv]; rfl⟩

theorem body_cons {a : α} (h : a ≠ mark) (l : List α) :
    body mark (a :: l) = (body mark l).map fun r => (a :: r.1, r.2) := by
  cases l with
  | nil => simp [body, h]
  | cons b l => rw [body, if_neg h]

theorem undouble_cons {a : α} (h : a ≠ mark) (l : List α) :
    undouble mark (a :: l) = a :: undouble mark l := by
  cases l with
  | nil => rfl
  | cons b l => rw [undouble, if_neg fun hab => h hab.1]

/-- **The first mark that is not doubled is the one after the body.** -/
theorem body_double {rest : List α} (h : rest.head? ≠ some mark) (l : List α) :
    body mark (double mark l ++ mark :: rest) = some (double mark l, rest) := by
  induction l with
  | nil =>
    cases rest with
    | nil => simp [body]
    | cons b rest =>
      have hb : b ≠ mark := by simpa using h
      simp [body, hb]
  | cons a l ih =>
    by_cases ha : a = mark
    · subst ha
      rw [double_mark, List.cons_append, List.cons_append, body, if_pos rfl, if_pos rfl, ih]
      rfl
    · rw [double_cons mark ha, List.cons_append, body_cons mark ha, ih]
      rfl

@[simp] theorem undouble_double (l : List α) : undouble mark (double mark l) = l := by
  induction l with
  | nil => rfl
  | cons a l ih =>
    by_cases ha : a = mark
    · subst ha
      rw [double_mark, undouble, if_pos ⟨rfl, rfl⟩, ih]
    · rw [double_cons mark ha, undouble_cons mark ha, ih]

end Plenora.Lib.Doubling
