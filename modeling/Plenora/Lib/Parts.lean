import Mathlib

/-!
# Positions in a list of parts

A list given in parts: part `i` starts where the parts before it end.  Every position
of the whole is a place in exactly one part.

    parts[i] = some part → t < part.length → parts.flatten[offset i + t] = part[t]
                                                                   (getElem?_flatten_offset)
    j < parts.flatten.length → j = offset i + t, t inside part i     (exists_position)
    two positions are equal when their places are                    (position_unique)
-/

namespace Plenora.Lib

variable {α β : Type} {parts : List (List α)} {part part' : List α} {i j t : Nat}

/-- Where the part `i` starts. -/
def offset (parts : List (List α)) (i : Nat) : Nat := (parts.take i).flatten.length

@[simp] theorem offset_zero : offset parts 0 = 0 := by
  simp [offset]

theorem offset_succ (h : parts[i]? = some part) :
    offset parts (i + 1) = offset parts i + part.length := by
  unfold offset
  rw [List.take_add_one, h, Option.toList_some, List.flatten_append, List.length_append]
  simp

theorem offset_mono (h : i ≤ j) : offset parts i ≤ offset parts j :=
  (List.take_prefix_take_left h).flatten.length_le

theorem offset_length : offset parts parts.length = parts.flatten.length := by
  rw [offset, List.take_length]

/-- The parts before position `n` only. -/
theorem offset_take {n : Nat} (h : i ≤ n) : offset (parts.take n) i = offset parts i := by
  rw [offset, offset, List.take_take, Nat.min_eq_left h]

theorem offset_lt (h : parts[i]? = some part) (hpart : 0 < part.length) (hlt : i < j) :
    offset parts i < offset parts j := by
  have hsucc := offset_succ h
  have hmono : offset parts (i + 1) ≤ offset parts j := offset_mono hlt
  omega

theorem flatten_split (h : parts[i]? = some part) :
    parts.flatten = (parts.take i).flatten ++ (part ++ (parts.drop (i + 1)).flatten) := by
  obtain ⟨hlt, hget⟩ := List.getElem?_eq_some_iff.1 h
  rw [← List.flatten_cons, ← hget, ← List.drop_eq_getElem_cons hlt, ← List.flatten_append,
    List.take_append_drop]

theorem getElem?_flatten_offset (h : parts[i]? = some part) (ht : t < part.length) :
    parts.flatten[offset parts i + t]? = part[t]? := by
  rw [flatten_split h, List.getElem?_append_right (by unfold offset; omega),
    List.getElem?_append_left (by unfold offset; omega)]
  unfold offset
  rw [Nat.add_sub_cancel_left]

/-- Every position stands in a part. -/
theorem exists_position (h : j < parts.flatten.length) :
    ∃ i t part, parts[i]? = some part ∧ t < part.length ∧ j = offset parts i + t := by
  induction parts generalizing j with
  | nil => simp at h
  | cons part parts ih =>
    by_cases hj : j < part.length
    · exact ⟨0, j, part, rfl, hj, by simp⟩
    · rw [List.flatten_cons, List.length_append] at h
      obtain ⟨i, t, part', hpart, ht, heq⟩ := @ih (j - part.length) (by omega)
      refine ⟨i + 1, t, part', hpart, ht, ?_⟩
      have hoffset : offset (part :: parts) (i + 1) = part.length + offset parts i := by
        simp [offset]
      rw [hoffset]
      omega

/-- And in only one. -/
theorem position_unique {t' : Nat} (h : parts[i]? = some part) (h' : parts[j]? = some part')
    (ht : t < part.length) (ht' : t' < part'.length)
    (heq : offset parts i + t = offset parts j + t') : i = j ∧ t = t' := by
  have hsucc := offset_succ h
  have hsucc' := offset_succ h'
  rcases Nat.lt_trichotomy i j with hlt | rfl | hlt
  · have hmono : offset parts (i + 1) ≤ offset parts j := offset_mono hlt
    omega
  · exact ⟨rfl, by omega⟩
  · have hmono : offset parts (j + 1) ≤ offset parts i := offset_mono hlt
    omega

/-- Parts of the same lengths start at the same places. -/
theorem offset_congr {parts' : List (List β)}
    (h : parts.map List.length = parts'.map List.length) (i : Nat) :
    offset parts i = offset parts' i := by
  unfold offset
  rw [List.length_flatten, List.length_flatten, List.map_take, List.map_take, h]

/-- Marked parts, none empty, that each start at the number of a marked part start at their own. -/
theorem offset_eq_self {G : Nat → Prop} {bound : Nat} (hbound : ∀ i, G i → i < bound)
    (hpart : ∀ i, G i → ∃ part, parts[i]? = some part ∧ 0 < part.length)
    (hinto : ∀ i, G i → G (offset parts i)) (hi : G i) : offset parts i = i := by
  have hlt : ∀ i, G i → ∀ j, i < j → offset parts i < offset parts j := by
    intro i hi j hij
    obtain ⟨part, hget, hpos⟩ := hpart i hi
    exact offset_lt hget hpos hij
  have hle : ∀ i, G i → i ≤ offset parts i := by
    intro i
    induction i using Nat.strong_induction_on with
    | h i ih =>
      intro hi
      by_contra hsmaller
      have hback := ih (offset parts i) (by omega) (hinto i hi)
      have := hlt (offset parts i) (hinto i hi) i (by omega)
      omega
  have hge : ∀ d i, bound - i = d → G i → offset parts i ≤ i := by
    intro d
    induction d using Nat.strong_induction_on with
    | h d ih =>
      intro i hd hi
      by_contra hlarger
      have hin := hinto i hi
      have := hbound _ hin
      have hforth := ih (bound - offset parts i) (by omega) (offset parts i) rfl hin
      have := hlt i hi (offset parts i) (by omega)
      omega
  exact Nat.le_antisymm (hge _ i rfl hi) (hle i hi)

end Plenora.Lib
