import Mathlib

/-!
# Padded sequences

A sequence and its copies that end with more of a padding element:

    trimEnd pad a = trimEnd pad b ↔ SamePadded pad a b      (trimEnd_eq_iff)
    trimEnd pad a ≠ a             ↔ a ends with pad          (trimEnd_ne_self_iff)
-/

namespace Plenora.Lib

variable {α : Type} [DecidableEq α]

/-- A list without its trailing elements equal to `pad`. -/
def trimEnd (pad : α) (l : List α) : List α := l.rdropWhile (· = pad)

/-- Equal but for what pads them at the end. -/
def SamePadded {α : Type} (pad : α) (a b : List α) : Prop :=
  ∃ m n, a ++ List.replicate m pad = b ++ List.replicate n pad

@[simp] theorem trimEnd_concat_self (pad : α) (l : List α) :
    trimEnd pad (l ++ [pad]) = trimEnd pad l :=
  List.rdropWhile_concat_pos _ _ _ (by simp)

theorem trimEnd_concat_ne {pad a : α} (h : a ≠ pad) (l : List α) :
    trimEnd pad (l ++ [a]) = l ++ [a] :=
  List.rdropWhile_concat_neg _ _ _ (by simpa using h)

theorem length_trimEnd_le (pad : α) (l : List α) : (trimEnd pad l).length ≤ l.length :=
  (List.rdropWhile_prefix _ l).length_le

@[simp] theorem trimEnd_trimEnd (pad : α) (l : List α) :
    trimEnd pad (trimEnd pad l) = trimEnd pad l :=
  List.rdropWhile_idempotent _ _

theorem trimEnd_append_replicate (pad : α) (l : List α) (n : Nat) :
    trimEnd pad (l ++ List.replicate n pad) = trimEnd pad l := by
  induction n with
  | zero => simp
  | succ n ih =>
    rw [List.replicate_succ', ← List.append_assoc, trimEnd_concat_self]
    exact ih

/-- Nothing but padding after the first `n` elements. -/
theorem length_trimEnd_le_of_drop {pad : α} {l : List α} {n : Nat}
    (h : ∀ a ∈ l.drop n, a = pad) : (trimEnd pad l).length ≤ n := by
  have hdrop := List.eq_replicate_of_mem h
  rw [← List.take_append_drop n l, hdrop, trimEnd_append_replicate]
  exact Nat.le_trans (length_trimEnd_le pad _) (List.length_take_le n l)

theorem eq_trimEnd_append (pad : α) (l : List α) :
    ∃ n, l = trimEnd pad l ++ List.replicate n pad := by
  induction l using List.reverseRecOn with
  | nil => exact ⟨0, rfl⟩
  | append_singleton l a ih =>
    by_cases ha : a = pad
    · subst ha
      obtain ⟨n, hn⟩ := ih
      refine ⟨n + 1, ?_⟩
      rw [trimEnd_concat_self, List.replicate_succ', ← List.append_assoc]
      exact congrArg (· ++ [a]) hn
    · exact ⟨0, by rw [trimEnd_concat_ne ha, List.replicate_zero, List.append_nil]⟩

theorem trimEnd_eq_iff (pad : α) (a b : List α) :
    trimEnd pad a = trimEnd pad b ↔ SamePadded pad a b := by
  constructor
  · intro h
    obtain ⟨m, hm⟩ := eq_trimEnd_append pad a
    obtain ⟨n, hn⟩ := eq_trimEnd_append pad b
    refine ⟨n, m, ?_⟩
    rw [hm, hn, h, List.append_assoc, List.append_assoc, List.replicate_append_replicate,
      List.replicate_append_replicate, Nat.add_comm]
  · rintro ⟨m, n, h⟩
    rw [← trimEnd_append_replicate pad a m, h, trimEnd_append_replicate]

/-- Only a list that ends with the padding is trimmed. -/
theorem trimEnd_ne_self_iff (pad : α) (l : List α) : trimEnd pad l ≠ l ↔ l.getLast? = some pad := by
  induction l using List.reverseRecOn with
  | nil => simp [trimEnd]
  | append_singleton l a ih =>
    rw [List.getLast?_append_of_ne_nil _ (List.cons_ne_nil _ _), List.getLast?_singleton,
      Option.some_inj]
    by_cases ha : a = pad
    · subst ha
      refine iff_of_true (fun h => ?_) rfl
      have := length_trimEnd_le a l
      rw [trimEnd_concat_self] at h
      rw [h, List.length_append, List.length_singleton] at this
      omega
    · rw [trimEnd_concat_ne ha]
      simp [ha]

end Plenora.Lib
