import Mathlib

/-!
# Self-delimiting encodings

`Delimits P r f` says that `f` writes a value so that, whatever follows, the
reader finds where it ends and which value it was, up to the relation `r`; `P`
are the values the encoding is meant for.

    (f a ++ x = f b ++ y) ↔ r a b ∧ x = y

Encodings of one fixed length, length-prefixed bytes, alternatives behind a tag
and sequences of self-delimiting fields are self-delimiting.
-/

namespace Plenora.Lib

variable {α γ β ι : Type}

def Delimits (P : α → Prop) (r : α → α → Prop) (f : α → List β) : Prop :=
  ∀ a b, P a → P b → ∀ x y, f a ++ x = f b ++ y ↔ r a b ∧ x = y

namespace Delimits

variable {P : α → Prop} {r : α → α → Prop} {f : α → List β}

/-- Two values have the same encoding exactly when they are related. -/
theorem eq_iff (h : Delimits P r f) {a b : α} (ha : P a) (hb : P b) : f a = f b ↔ r a b := by
  have := h a b ha hb [] []
  simpa using this

/-- Encodings of one length. -/
theorem of_length {n : Nat} (hlen : ∀ a, P a → (f a).length = n)
    (heq : ∀ a b, P a → P b → (f a = f b ↔ r a b)) : Delimits P r f := by
  intro a b ha hb x y
  rw [List.append_eq_append_iff_of_size_eq_left (by rw [hlen a ha, hlen b hb]), heq a b ha hb]

/-- A value behind its encoded length. -/
theorem lengthPrefixed {n : Nat} {len : Nat → List β} (hlen : ∀ k, (len k).length = n)
    (hinj : ∀ a b, P a → P b → len (f a).length = len (f b).length →
      (f a).length = (f b).length)
    (heq : ∀ a b, P a → P b → (f a = f b ↔ r a b)) :
    Delimits P r fun a => len (f a).length ++ f a := by
  intro a b ha hb x y
  rw [List.append_assoc, List.append_assoc]
  constructor
  · intro h
    obtain ⟨hl, h⟩ := List.append_inj h (by rw [hlen, hlen])
    obtain ⟨hf, rfl⟩ := List.append_inj h (hinj a b ha hb hl)
    exact ⟨(heq a b ha hb).1 hf, rfl⟩
  · rintro ⟨hr, rfl⟩
    rw [(heq a b ha hb).2 hr]

/-- A missing value and a present one behind two tags. -/
theorem option {s t : β} (hst : s ≠ t) (h : Delimits P r f) :
    Delimits (fun o => ∀ a ∈ o, P a) (Option.Rel r) fun o =>
      match o with
      | none => [s]
      | some a => t :: f a := by
  intro o o' ho ho' x y
  cases o with
  | none =>
    cases o' with
    | none => simp
    | some b =>
      have hno : ¬ Option.Rel r none (some b) := nofun
      simp [hst, hno]
  | some a =>
    cases o' with
    | none =>
      have hno : ¬ Option.Rel r (some a) none := nofun
      simp [Ne.symm hst, hno]
    | some b =>
      have hrel : Option.Rel r (some a) (some b) ↔ r a b :=
        ⟨fun h => by cases h; assumption, Option.Rel.some⟩
      simp only [List.cons_append, List.cons.injEq, true_and, hrel]
      exact h a b (ho a rfl) (ho' b rfl) x y

/-- A field of a record. -/
theorem comap (h : Delimits P r f) (g : γ → α) :
    Delimits (fun c => P (g c)) (fun c d => r (g c) (g d)) fun c => f (g c) :=
  fun c d hc hd => h (g c) (g d) hc hd

/-- Fields one after the other. -/
theorem flatMap {Q : ι → α → Prop} {q : ι → α → α → Prop} {g : ι → α → List β} {is : List ι}
    (h : ∀ i ∈ is, Delimits (Q i) (q i) (g i)) :
    Delimits (fun a => ∀ i ∈ is, Q i a) (fun a b => ∀ i ∈ is, q i a b)
      fun a => is.flatMap (g · a) := by
  induction is with
  | nil => intro a b _ _ x y; simp
  | cons i is ih =>
    intro a b ha hb x y
    have hi := h i List.mem_cons_self a b (ha i List.mem_cons_self) (hb i List.mem_cons_self)
    have his := ih (fun j hj => h j (List.mem_cons_of_mem _ hj)) a b
      (fun j hj => ha j (List.mem_cons_of_mem _ hj)) (fun j hj => hb j (List.mem_cons_of_mem _ hj))
    simp only [List.flatMap_cons, List.append_assoc, List.forall_mem_cons]
    rw [hi, his, and_assoc]

end Delimits

end Plenora.Lib
